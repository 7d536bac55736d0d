import Mathlib.Data.List.Basic
import Mathlib.Logic.Function.Basic
import Mathlib.Tactic.IntervalCases
import OpenIvi.Lib.Buffer
import OpenIvi.Lib.Calendar

/-
  `utc_mktime` and the NMEA parser of the tractor GPS.

  The days are added up in closed form: the years, the leap years from 1970 on and the months before
  the date. The count of leap years has the year of the date in it, and the table of months has its
  29th of February as well: in a leap year the result is a day late.

  `nmea_reader_addc` collects the bytes of a line in `in` and hands the line over at its newline. A
  byte that does not fit any more is dropped, and with it the bytes up to the next newline. If the
  byte that does not fit is the newline itself, that is the newline of the next line.

  A sentence is cut at its commas into tokens, which are pointers into the line. Numbers are read
  from a token by pointer offsets, which may run past its end into what follows. The parser keeps a
  date, a fix and the satellites in view from one sentence to the next.

  The double precision arithmetic of the host is a parameter.

  Main declarations:
    * `utc_mktime_gregorian_iff`
    * `nmeaReaderAddc`
    * `nmea_lines_iff`
    * `nmeaTokenizerInit`
-/

------
-- The Conversion
------

namespace OpenIvi.Gps

open Lib List

/- What `utc_mktime` uses of `struct tm`. -/
structure Tm where
  tmSec : Int
  tmMin : Int
  tmHour : Int
  tmMday : Int
  tmMon : Int
  tmYear : Int

def secondsPerMin : Int := 60

def secondsPerHour : Int := 60 * secondsPerMin

def secondsPerDay : Int := 24 * secondsPerHour

def secondsPerNormalYear : Int := 365 * secondsPerDay

def daysPerMonthNoLeap : List Int :=
  [31, 28, 31, 30, 31, 30, 31, 31, 30, 31, 30, 31]

def daysPerMonthLeap : List Int :=
  [31, 29, 31, 30, 31, 30, 31, 31, 30, 31, 30, 31]

def isLeapYear (year : Int) : Bool :=
  if year.tmod 400 = 0 then true
  else if year.tmod 100 = 0 then false
  else if year.tmod 4 = 0 then true
  else false

def numberOfLeapYearsInBetween (fromYear toYear : Int) : Int :=
  let n400y := toYear.tdiv 400 - fromYear.tdiv 400
  let n100y := toYear.tdiv 100 - fromYear.tdiv 100
  let n4y := toYear.tdiv 4 - fromYear.tdiv 4
  n4y - n100y + n400y

/- An entry of a table of months, or what is behind it. -/
def daysPerMonth (behind : Nat → Int) (table : List Int) (m : Nat) : Int :=
  table.getD m (behind m)

/-
  `utc_mktime`. The sum is kept in a `time_t` of 32 bits. A month that does not exist reads behind
  the table.
-/
def utcMktime (behind : Nat → Int) (tm : Tm) : Int :=
  let table := if isLeapYear (tm.tmYear + 1900) then daysPerMonthLeap
    else daysPerMonthNoLeap
  let tEpoch := (tm.tmYear - 70) * secondsPerNormalYear
  let tEpoch := tEpoch + numberOfLeapYearsInBetween 1970 (tm.tmYear + 1900) * secondsPerDay
  let tEpoch := (range tm.tmMon.toNat).foldl (fun t m =>
        t + daysPerMonth behind table m * secondsPerDay)
      tEpoch
  let tEpoch := tEpoch + (tm.tmMday - 1) * secondsPerDay
  let tEpoch := tEpoch + tm.tmHour * secondsPerHour
  let tEpoch := tEpoch + tm.tmMin * secondsPerMin
  Int.bmod (tEpoch + tm.tmSec) (2 ^ 32)

/- The broken-down time, as the source fills it in. -/
def Tm.ofUtc (t : Calendar.UtcTime) : Tm where
  tmSec := t.time.second
  tmMin := t.time.minute
  tmHour := t.time.hour
  tmMday := t.date.day
  tmMon := (t.date.month : Int) - 1
  tmYear := (t.date.year : Int) - 1900

------
-- The Days It Counts
------

open Lib Calendar

theorem isLeapYear_iff (year : Nat) : isLeapYear (year : Int) = true ↔ IsLeap year := by
  have h400 : (year : Int).tmod 400 = (year % 400 : Nat) := rfl
  have h100 : (year : Int).tmod 100 = (year % 100 : Nat) := rfl
  have h4 : (year : Int).tmod 4 = (year % 4 : Nat) := rfl
  unfold isLeapYear IsLeap
  split_ifs <;> simp <;> omega

/- The year that the count ends with is counted, too. -/
theorem numberOfLeapYearsInBetween_eq (fromYear toYear : Nat) :
    numberOfLeapYearsInBetween fromYear toYear = (leapYears toYear : Int) - leapYears fromYear := by
  have hDiv (year size : Nat) : (year : Int).tdiv size = (year / size : Nat) := rfl
  have hLeap (year : Nat) : (leapYears year : Int) = (year : Int).tdiv 4 - (year : Int).tdiv 100 +
      (year : Int).tdiv 400 := by
    have h4 := hDiv year 4
    have h100 := hDiv year 100
    have h400 := hDiv year 400
    simp only [Nat.cast_ofNat] at h4 h100 h400
    unfold leapYears
    omega
  rw [hLeap, hLeap]
  unfold numberOfLeapYearsInBetween
  ring

theorem daysPerMonth_eq (behind : Nat → Int) (year : Nat) {m : Nat} (hMonth : m < 12) :
    daysPerMonth behind (if isLeapYear (year : Int) then daysPerMonthLeap
      else daysPerMonthNoLeap) m = monthLength year (m + 1) := by
  by_cases hLeap : IsLeap year
  · rw [if_pos ((isLeapYear_iff year).mpr hLeap)]
    interval_cases m <;> simp [monthLength, hLeap, daysPerMonth, daysPerMonthLeap]
  · rw [if_neg (mt (isLeapYear_iff year).mp hLeap)]
    interval_cases m <;> simp [monthLength, hLeap, daysPerMonth, daysPerMonthNoLeap]

/- The loop adds the days of the months that are over. -/
theorem foldl_months (behind : Nat → Int) (year : Nat)
    (tEpoch : Int) {months : Nat} (hMonths : months ≤ 12) :
    (range months).foldl (fun t m =>
      t + daysPerMonth behind (if isLeapYear (year : Int) then daysPerMonthLeap
        else daysPerMonthNoLeap) m * secondsPerDay)
        tEpoch = tEpoch + daysBeforeMonth year (months + 1) * secondsPerDay := by
  induction months with
  | zero => simp [daysBeforeMonth]
  | succ months ih =>
    have hNext : daysBeforeMonth year (months + 1 + 1) = daysBeforeMonth year (months + 1) +
        monthLength year (months + 1) :=
      daysBeforeMonth_succ year (Nat.le_add_left 1 months)
    rw [range_succ, foldl_append, ih (by omega), hNext]
    simp only [foldl_cons, foldl_nil]
    rw [daysPerMonth_eq behind year (by omega)]
    push_cast
    ring

theorem daysBeforeYear_add_leap {year : Nat} (hFirst : 1970 ≤ year) :
    daysBeforeYear 1970 year + (if IsLeap year then 1 else 0) + leapYears 1970 =
      365 * (year - 1970) + leapYears year := by
  obtain ⟨before, rfl⟩ : ∃ before, year = before + 1 := ⟨year - 1, by omega⟩
  have hBefore : 1969 ≤ before := by omega
  have hDays : daysBeforeYear 1970 (before + 1) + leapYears 1969 =
      365 * (before - 1969) + leapYears before :=
    daysBeforeYear_eq hBefore
  have hLeap := leapYears_succ before
  have hSame : leapYears 1969 = leapYears 1970 := by decide
  omega

section

variable (behind : Nat → Int) (t : UtcTime) (hFirst : 1970 ≤ t.date.year)

include hFirst

/- The sum before it is put in a `time_t`. -/
theorem utcMktime_sum :
    utcMktime behind (.ofUtc t) = Int.bmod
      (t.seconds 1970 + if IsLeap t.date.year then 86400 else 0)
      (2 ^ 32) := by
  have hMonth := t.date.month_pos
  have hMonthLe := t.date.month_le
  have hDay := t.date.day_pos
  have hYear : (t.date.year : Int) - 1900 + 1900 = (t.date.year : Nat) := by omega
  have hMonths : ((t.date.month : Int) - 1).toNat = t.date.month - 1 := by omega
  have hLast : t.date.month - 1 + 1 = t.date.month := by omega
  have hDays := daysBeforeYear_add_leap hFirst
  have hCount := numberOfLeapYearsInBetween_eq 1970 t.date.year
  rw [Nat.cast_ofNat] at hCount
  simp only [utcMktime, Tm.ofUtc, hYear, hMonths]
  rw [foldl_months behind _ _ (by omega), hLast, hCount]
  congr 1
  unfold UtcTime.seconds Date.dayNumber Date.dayOfYear
    TimeOfDay.seconds secondsPerNormalYear secondsPerDay
    secondsPerHour secondsPerMin
  split_ifs at hDays ⊢ <;> push_cast <;> omega

/- Up to 2037 the sum has 31 bits. -/
theorem utcMktime_eq (hLast : t.date.year ≤ 2037) :
    utcMktime behind (.ofUtc t) = t.seconds 1970 + if IsLeap t.date.year then 86400 else 0 := by
  have hDays := daysBeforeYear_add_leap hFirst
  have hOfYear := t.date.dayOfYear_lt
  have hTime := t.time.seconds_lt
  have hLeaps : leapYears t.date.year ≤ leapYears 1970 + 17 := by
    unfold leapYears
    omega
  have hBound : t.seconds 1970 + (if IsLeap t.date.year then 86400 else 0) < 2 ^ 31 := by
    unfold UtcTime.seconds Date.dayNumber
    by_cases hLeap : IsLeap t.date.year
    · rw [yearLength, if_pos hLeap] at hOfYear
      rw [if_pos hLeap] at hDays ⊢
      omega
    · rw [yearLength, if_neg hLeap] at hOfYear
      rw [if_neg hLeap] at hDays ⊢
      omega
  rw [utcMktime_sum behind t hFirst]
  apply Int.bmod_eq_of_le
  · split_ifs <;> omega
  · split_ifs at hBound ⊢ <;> omega

end

/-
  Outside of leap years the conversion is that of the calendar, and in calendar order. In a leap
  year it is not.
-/
theorem utc_mktime_gregorian_iff (behind : Nat → Int) :
    (∀ t : UtcTime, 1970 ≤ t.date.year → t.date.year ≤ 2037 →
      (utcMktime behind (.ofUtc t) = t.seconds 1970 ↔ ¬ IsLeap t.date.year)) ∧
    (∀ t u : UtcTime, 1970 ≤ t.date.year → u.date.year ≤ 2037 →
      ¬ IsLeap t.date.year → ¬ IsLeap u.date.year → t.Before u →
        utcMktime behind (.ofUtc t) < utcMktime behind (.ofUtc u)) := by
  constructor
  · intro t hFirst hLast
    rw [utcMktime_eq behind t hFirst hLast]
    by_cases hLeap : IsLeap t.date.year
    · rw [if_pos hLeap]
      exact iff_of_false (by omega) (not_not_intro hLeap)
    · rw [if_neg hLeap]
      exact iff_of_true (Int.add_zero _) hLeap
  · intro t u hFirst hLast hLeapT hLeapU hBefore
    have hYears := hBefore.year_le
    have hSeconds := UtcTime.seconds_lt_of_before hFirst hBefore
    rw [utcMktime_eq behind t hFirst (by omega), utcMktime_eq behind u (by omega) hLast,
      if_neg hLeapT, if_neg hLeapU]
    omega

def midnight : TimeOfDay where
  hour := 0
  minute := 0
  second := 0
  hour_lt := by decide
  minute_lt := by decide
  second_lt := by decide

/- The first moment of 2011. -/
def newYear2011 : UtcTime where
  date := ⟨2011, 1, 1, by decide, by decide, by decide, by decide⟩
  time := midnight

theorem utc_mktime_gregorian_2011 :
    utcMktime (fun _ => 0) (.ofUtc newYear2011) = newYear2011.seconds 1970 := by
  apply ((utc_mktime_gregorian_iff fun _ => 0).1 newYear2011 (by decide) (by decide)).mpr
  decide

/- The last day of 1972 and the day after it. -/
def lastOf1972 : UtcTime where
  date := ⟨1972, 12, 31, by decide, by decide, by decide, by decide⟩
  time := midnight

def firstOf1973 : UtcTime where
  date := ⟨1973, 1, 1, by decide, by decide, by decide, by decide⟩
  time := midnight

theorem utc_mktime_repeats_day :
    lastOf1972.Before firstOf1973 ∧ lastOf1972.seconds 1970 = 94608000 ∧
      utcMktime (fun _ => 0) (.ofUtc lastOf1972) = 94694400 ∧
      utcMktime (fun _ => 0) (.ofUtc firstOf1973) = 94694400 := by
  refine ⟨.inl (.inl (Nat.lt_succ_self 1972)), ?_, ?_, ?_⟩
  · decide +kernel
  · decide +kernel
  · decide +kernel

end OpenIvi.Gps

------
-- The Reader Of Lines
------

namespace OpenIvi.Gps

open Lib List Function

def nmeaMaxSize : Nat := 83

/- The size of `in`. -/
def sizeofIn : Nat := nmeaMaxSize + 1

def newline : UInt8 := 10

/-
  What `nmea_reader_addc` uses of `NmeaReader`. The memory `inBuf` is `in` and what is behind it.
-/
structure LineReader where
  pos : Nat
  overflow : Bool
  inBuf : Nat → UInt8

/- `nmea_reader_init`, with any memory behind `in`. -/
def LineReader.init (inBuf : Nat → UInt8) : LineReader where
  pos := 0
  overflow := false
  inBuf := inBuf

/- The bytes of `in` below `pos`. -/
def LineReader.bytes (r : LineReader) : List UInt8 :=
  (range r.pos).map r.inBuf

/- `r->in[r->pos] = c`, then `r->pos += 1`. -/
def LineReader.store (r : LineReader) (c : UInt8) : Except Fault LineReader :=
  if r.pos < sizeofIn then
    .ok
      { r with inBuf := update r.inBuf r.pos c, pos := r.pos + 1 }
  else .error .outOfBounds

/- `nmea_reader_addc`, with the buffers that are handed to `nmea_reader_parse`. -/
def nmeaReaderAddc (r : LineReader) (c : UInt8) :
    Except Fault (LineReader × List (List UInt8)) := do
  if r.overflow then
    return ({ r with overflow := c ≠ newline }, [])
  if sizeofIn - 1 ≤ r.pos then
    return ({ r with overflow := true, pos := 0 }, [])
  let r ← r.store c
  if c = newline then
    return ({ r with pos := 0 }, [r.bytes])
  else
    return (r, [])

------
-- The Lines Of A Stream
------

/- The lines of a stream behind the bytes of a first line. -/
def linesFrom : List UInt8 → List UInt8 → List (List UInt8)
| _, [] => []
| start, c :: rest =>
  if c = newline then (start ++ [c]) :: linesFrom [] rest
  else linesFrom (start ++ [c]) rest

/- The lines that end with a newline, with that newline. -/
def lines (stream : List UInt8) : List (List UInt8) :=
  linesFrom [] stream

/-
  The lines that are handed over, where the flag says that the first one is skipped: one that is a
  byte too long takes the one behind it along.
-/
def taken : Bool → List (List UInt8) → List (List UInt8)
| _, [] => []
| true, _ :: rest => taken false rest
| false, line :: rest =>
  if line.length ≤ nmeaMaxSize then
    line :: taken false rest
  else taken (line.length = sizeofIn) rest

/- The lines that are skipped for the one in front of them are too long themselves. -/
def FollowersLong : Bool → List (List UInt8) → Prop
| _, [] => True
| true, line :: rest =>
  nmeaMaxSize < line.length ∧ FollowersLong false rest
| false, line :: rest =>
  FollowersLong (line.length = sizeofIn) rest

theorem length_lt_of_mem_linesFrom_head {start stream line : List UInt8} {rest : List (List UInt8)}
    (hLines : linesFrom start stream = line :: rest) : start.length < line.length := by
  induction stream generalizing start with
  | nil => cases hLines
  | cons c stream ih =>
    rw [linesFrom] at hLines
    split at hLines
    · cases hLines
      rw [length_append, length_singleton]
      exact Nat.lt_succ_self _
    · have hLess := ih hLines
      rw [length_append, length_singleton] at hLess
      exact Nat.lt_of_succ_lt hLess

theorem taken_linesFrom_of_long {start : List UInt8}
    (hLong : sizeofIn ≤ start.length) (stream : List UInt8) :
    taken false (linesFrom start stream) = taken true (linesFrom start stream) := by
  cases hLines : linesFrom start stream with
  | nil => rfl
  | cons line rest =>
    have hLess := length_lt_of_mem_linesFrom_head hLines
    have hFits : ¬ line.length ≤ nmeaMaxSize := by
      unfold sizeofIn at hLong
      omega
    have hNot : ¬ line.length = sizeofIn := by omega
    simp only [taken, if_neg hFits, decide_eq_false hNot]

------
-- The Reader Takes Lines
------

/- The reader has the bytes of a line so far. -/
structure Collects (r : LineReader) (start : List UInt8) : Prop where
  reading : r.overflow = false
  pos : r.pos = start.length
  fits : start.length ≤ nmeaMaxSize
  bytes : r.bytes = start

/- The reader drops bytes up to the next newline. -/
structure Skips (r : LineReader) : Prop where
  overflow : r.overflow = true
  pos : r.pos = 0

variable {r : LineReader} {start : List UInt8} {c : UInt8}

theorem Collects.init (inBuf : Nat → UInt8) : Collects (.init inBuf) [] where
  reading := rfl
  pos := rfl
  fits := Nat.zero_le _
  bytes := rfl

section

variable (h : Collects r start) (hFits : start.length < nmeaMaxSize)

include h hFits

/- A byte that fits goes behind the others. -/
theorem Collects.store (c : UInt8) :
    ∃ next, r.store c = .ok next ∧ Collects next (start ++ [c]) := by
  have hPos : r.pos < sizeofIn := by
    rw [h.pos]
    exact Nat.lt_succ_of_lt hFits
  refine ⟨_, if_pos hPos, ?_⟩
  exact
    { reading := h.reading
      pos := by
        rw [length_append, length_singleton]
        exact congrArg (· + 1) h.pos
      fits := by
        rw [length_append, length_singleton]
        exact hFits
      bytes := by
        have hOld : (range r.pos).map (update r.inBuf r.pos c) = (range r.pos).map r.inBuf := by
          apply map_congr_left
          intro i hi
          apply update_of_ne
          exact ne_of_lt (mem_range.mp hi)
        have hBytes : (range r.pos).map r.inBuf = start := h.bytes
        simp only [LineReader.bytes, range_succ, map_append, map_cons, map_nil, update_self, hOld,
          hBytes] }

theorem Collects.addc_byte (hByte : c ≠ newline) :
    ∃ next, nmeaReaderAddc r c = .ok (next, []) ∧ Collects next (start ++ [c]) := by
  rcases h.store hFits c with ⟨next, hStore, hNext⟩
  have hRoom : ¬ sizeofIn - 1 ≤ r.pos := by
    rw [h.pos]
    exact Nat.not_le_of_lt hFits
  refine ⟨next, ?_, hNext⟩
  simp [nmeaReaderAddc, h.reading, hRoom, hStore, hByte]

theorem Collects.addc_newline :
    ∃ next, nmeaReaderAddc r newline = .ok (next, [start ++ [newline]]) ∧ Collects next [] := by
  rcases h.store hFits newline with ⟨next, hStore, hNext⟩
  have hRoom : ¬ sizeofIn - 1 ≤ r.pos := by
    rw [h.pos]
    exact Nat.not_le_of_lt hFits
  refine ⟨{ next with pos := 0 }, ?_, hNext.reading, rfl, Nat.zero_le _, rfl⟩
  simp [nmeaReaderAddc, h.reading, hRoom, hStore, hNext.bytes]

end

theorem Collects.addc_full (h : Collects r start) (hFull : start.length = nmeaMaxSize) (c : UInt8) :
    ∃ next, nmeaReaderAddc r c = .ok (next, []) ∧ Skips next := by
  have hRoom : sizeofIn - 1 ≤ r.pos := by
    rw [h.pos, hFull]
    exact le_refl _
  refine ⟨{ r with overflow := true, pos := 0 }, ?_, rfl, rfl⟩
  simp [nmeaReaderAddc, h.reading, hRoom]

theorem Skips.addc_byte (h : Skips r) (hByte : c ≠ newline) :
    ∃ next, nmeaReaderAddc r c = .ok (next, []) ∧ Skips next := by
  refine ⟨{ r with overflow := true }, ?_, rfl, h.pos⟩
  simp [nmeaReaderAddc, h.overflow, hByte]

theorem Skips.addc_newline (h : Skips r) :
    ∃ next, nmeaReaderAddc r newline = .ok (next, []) ∧ Collects next [] := by
  refine ⟨{ r with overflow := false }, ?_, rfl, h.pos, Nat.zero_le _, ?_⟩
  · simp [nmeaReaderAddc, h.overflow]
  · rw [LineReader.bytes, h.pos]
    rfl

/- The reader stays inside its buffer and hands over the lines. -/
def HandsOver (r : LineReader) (stream : List UInt8) (lines : List (List UInt8)) : Prop :=
  ∃ next, feed nmeaReaderAddc r stream = .ok (next, lines) ∧ next.pos ≤ nmeaMaxSize

theorem HandsOver.cons {mid : LineReader} {line lines : List (List UInt8)} {stream : List UInt8}
    (hStep : nmeaReaderAddc r c = .ok (mid, line)) (hRest : HandsOver mid stream lines) :
    HandsOver r (c :: stream) (line ++ lines) := by
  rcases hRest with ⟨next, hFeed, hPos⟩
  exact ⟨next, feed_cons hStep hFeed, hPos⟩

/-
  A reader that collects takes the lines of the stream, and one that skips takes those behind the
  first newline.
-/
theorem feed_eq_taken (stream : List UInt8) (r : LineReader) :
    (∀ start, Collects r start → HandsOver r stream (taken false (linesFrom start stream))) ∧
    (Skips r → ∀ start, HandsOver r stream (taken true (linesFrom start stream))) := by
  induction stream generalizing r with
  | nil =>
    constructor
    · intro start h
      exact ⟨r, rfl, h.pos ▸ h.fits⟩
    · intro h start
      exact ⟨r, rfl, h.pos ▸ Nat.zero_le _⟩
  | cons c stream ih =>
    constructor
    · intro start h
      rcases Nat.lt_or_eq_of_le h.fits with hFits | hFull
      · by_cases hByte : c = newline
        · subst hByte
          rcases h.addc_newline hFits with ⟨mid, hStep, hMid⟩
          rw [linesFrom, if_pos rfl, taken, if_pos]
          · exact .cons hStep ((ih mid).1 [] hMid)
          · rw [length_append, length_singleton]
            exact hFits
        · rcases h.addc_byte hFits hByte with ⟨mid, hStep, hMid⟩
          rw [linesFrom, if_neg hByte]
          exact .cons hStep ((ih mid).1 _ hMid)
      · rcases h.addc_full hFull c with ⟨mid, hStep, hMid⟩
        have hLength : (start ++ [c]).length = sizeofIn := by
          rw [length_append, hFull]
          rfl
        by_cases hByte : c = newline
        · have hFits : ¬ (start ++ [c]).length ≤ nmeaMaxSize := by
            rw [hLength]
            exact Nat.not_succ_le_self _
          rw [linesFrom, if_pos hByte, taken, if_neg hFits, decide_eq_true hLength]
          exact .cons hStep ((ih mid).2 hMid [])
        · rw [linesFrom, if_neg hByte, taken_linesFrom_of_long (le_of_eq hLength.symm)]
          exact .cons hStep ((ih mid).2 hMid (start ++ [c]))
    · intro h start
      by_cases hByte : c = newline
      · subst hByte
        rcases h.addc_newline with ⟨mid, hStep, hMid⟩
        exact .cons hStep ((ih mid).1 [] hMid)
      · rcases h.addc_byte hByte with ⟨mid, hStep, hMid⟩
        rw [linesFrom, if_neg hByte]
        exact .cons hStep ((ih mid).2 hMid (start ++ [c]))

/- What is taken is in the stream and not too long. -/
theorem taken_sublist (skip : Bool) (all : List (List UInt8)) :
    (taken skip all).Sublist (all.filter (·.length ≤ nmeaMaxSize)) := by
  induction all generalizing skip with
  | nil =>
    cases skip with
    | true | false => exact List.Sublist.refl _
  | cons line rest ih =>
    cases skip with
    | true =>
      rw [taken, filter_cons]
      split
      · exact (ih false).cons line
      · exact ih false
    | false =>
      by_cases hFits : line.length ≤ nmeaMaxSize
      · rw [taken, if_pos hFits, filter_cons_of_pos (by simpa using hFits)]
        exact (ih false).cons_cons line
      · rw [taken, if_neg hFits, filter_cons_of_neg (by simpa using hFits)]
        exact ih _

theorem taken_eq_iff (skip : Bool) (all : List (List UInt8)) :
    taken skip all = all.filter (·.length ≤ nmeaMaxSize) ↔ FollowersLong skip all := by
  induction all generalizing skip with
  | nil =>
    cases skip with
    | true | false => exact iff_of_true rfl trivial
  | cons line rest ih =>
    by_cases hFits : line.length ≤ nmeaMaxSize
    · rw [filter_cons_of_pos (by simpa using hFits)]
      cases skip with
      | true =>
        -- The line is lost: fewer lines are left.
        apply iff_of_false
        · intro hEq
          have hLe := (taken_sublist false rest).length_le
          rw [taken] at hEq
          rw [hEq, length_cons] at hLe
          exact Nat.not_succ_le_self _ hLe
        · rintro ⟨hLong, _⟩
          omega
      | false =>
        have hNot : ¬ line.length = sizeofIn := by
          unfold sizeofIn
          omega
        rw [taken, if_pos hFits, FollowersLong, decide_eq_false hNot, ← ih false]
        exact cons_inj_right line
    · rw [filter_cons_of_neg (by simpa using hFits)]
      cases skip with
      | true =>
        rw [taken, FollowersLong, ih false]
        exact (and_iff_right (by omega)).symm
      | false =>
        rw [taken, if_neg hFits, FollowersLong]
        exact ih _

/-
  Every stream is taken in without leaving the buffer. The lines that fit are handed over, all of
  them and in order, exactly if no line that is a byte too long is in front of one that fits.
-/
theorem nmea_lines_iff (inBuf : Nat → UInt8) (stream : List UInt8) :
    ∃ r parsed, feed nmeaReaderAddc (.init inBuf) stream = .ok (r, parsed) ∧ r.pos ≤ nmeaMaxSize ∧
      (parsed = (lines stream).filter (·.length ≤ nmeaMaxSize) ↔
        FollowersLong false (lines stream)) := by
  rcases (feed_eq_taken stream (.init inBuf)).1 [] (.init inBuf) with ⟨r, hFeed, hPos⟩
  exact ⟨r, _, hFeed, hPos, taken_eq_iff false _⟩

/- A line of 84 bytes, then a short one. -/
def longThenShort : List UInt8 :=
  replicate nmeaMaxSize 65 ++ [newline, 66, newline]

theorem long_line_drops_next :
    ∃ r, feed nmeaReaderAddc (.init fun _ => 0) longThenShort = .ok (r, []) ∧
      (lines longThenShort).filter (·.length ≤ nmeaMaxSize) = [[66, newline]] := by
  rcases (feed_eq_taken longThenShort (.init fun _ => 0)).1 [] (.init fun _ => 0) with ⟨r, hFeed, _⟩
  refine ⟨r, ?_, ?_⟩
  · rw [hFeed]
    rfl
  · rfl

end OpenIvi.Gps

------
-- The Tokenizer
------

namespace OpenIvi.Gps

open Lib

def dollar : UInt8 := 36

def asterisk : UInt8 := 42

def comma : UInt8 := 44

def carriageReturn : UInt8 := 13

/- A pointer `p` and an `end` into some memory. -/
structure Token where
  mem : Nat → UInt8
  p : Nat
  stop : Nat

namespace Token

/- `tok.p[i]`. -/
def char (tok : Token) (i : Nat) : UInt8 :=
  tok.mem (tok.p + i)

/- `!memcmp(tok.p, text, n)` for the `n` bytes of a text. -/
def startsWith (tok : Token) (text : String) : Bool :=
  (List.range (str text).length).map tok.char = str text

/- The bytes between the two pointers. -/
def bytes (tok : Token) : List UInt8 :=
  (List.range (tok.stop - tok.p)).map tok.char

end Token

def maxNmeaTokens : Nat := 32

variable (mem : Nat → UInt8)

/- `memchr(p, ',', end - p)`, or `end`. -/
def findComma (p stop : Nat) : Nat :=
  ((List.range' p (stop - p)).find? (mem · = comma)).getD stop

/-
  The loop of `nmea_tokenizer_init`. Every pass goes on behind `p`, so `end - p` passes are enough.
-/
def tokenLoop (mem : Nat → UInt8) : Nat → Nat → Nat → List Token
| 0, _, _ => []
| passes + 1, p, stop =>
  if p < stop then
    let q := findComma mem p stop
    ⟨mem, p, q⟩ :: tokenLoop mem passes (if q < stop then q + 1 else q) stop
  else []

/- The start of the text: the `$` is optional. -/
def textStart (pos : Nat) : Nat :=
  if 0 < pos ∧ mem 0 = dollar then 1 else 0

/- The end of the text without its newline. -/
def lineEnd (p stop : Nat) : Nat :=
  if p < stop ∧ mem (stop - 1) = newline then
    if p < stop - 1 ∧ mem (stop - 2) = carriageReturn then
      stop - 2
    else stop - 1
  else stop

/- The end of the text without its checksum. -/
def textEnd (p stop : Nat) : Nat :=
  if p + 3 ≤ stop ∧ mem (stop - 3) = asterisk then stop - 3
  else stop

/- `nmea_tokenizer_init`, with the tokens that are kept. -/
def nmeaTokenizerInit (pos : Nat) : List Token :=
  let p := textStart mem pos
  let stop := textEnd mem p (lineEnd mem p pos)
  (tokenLoop mem (stop - p) p stop).take maxNmeaTokens

/- `nmea_tokenizer_get`: a token that is not there points to the text `dummy`, which is empty. -/
def nmeaTokenizerGet (dummy : Nat → UInt8) (tokens : List Token) (index : Nat) : Token :=
  tokens.getD index ⟨dummy, 0, 0⟩

------
-- Numbers
------

def isDigit (c : UInt8) : Bool :=
  48 ≤ c.toNat && c.toNat < 58

/- The loop of `str2int`, with an `int` that wraps. -/
def str2intLoop (mem : Nat → UInt8) : Nat → Nat → Int → Int
| 0, _, result => result
| len + 1, p, result =>
  let c := mem p
  if isDigit c then
    str2intLoop mem len (p + 1) (Int.bmod (result * 10 + (c.toNat - 48)) (2 ^ 32))
  else -1

def str2int (p stop : Nat) : Int :=
  if stop - p = 0 then -1
  else str2intLoop mem (stop - p) p 0

/- `str2int(tok.p, tok.end)`. -/
def Token.toInt (tok : Token) : Int :=
  str2int tok.mem tok.p tok.stop

/- The arithmetic of the host that the parser uses. -/
structure Doubles (F : Type) where
  zero : F
  strtod : List UInt8 → F
  /- `(int) seconds`. -/
  toInt : F → Int
  neg : F → F
  /- `(int)(floor(val) / 100)`. -/
  degrees : F → Int
  /- `degrees + (val - degrees*100.) / 60.0`. -/
  coordinate : F → Int → F
  /- `speed * KNOTS_TO_METERS`. -/
  knotsToMeters : F → F
  /- `accuracy == 99.99`. -/
  isUnknownAccuracy : F → Bool

variable {F : Type} (dbl : Doubles F)

/- `str2float`, which takes the byte at `end` in as well. -/
def str2float (tok : Token) : F :=
  let len := tok.stop - tok.p + 1
  if 32 ≤ len then dbl.zero
  else dbl.strtod ((List.range len).map tok.char)

def convertFromHhmm (tok : Token) : F :=
  let val := str2float dbl tok
  dbl.coordinate val (dbl.degrees val)

------
-- The State Of The Parser
------

def gpsMaxSvs : Nat := 32

structure GpsLocation (F : Type) where
  flags : UInt16
  latitude : F
  longitude : F
  altitude : F
  speed : F
  bearing : F
  accuracy : F
  timestamp : Int

def gpsLocationHasLatLong : UInt16 := 0x0001

def gpsLocationHasAltitude : UInt16 := 0x0002

def gpsLocationHasSpeed : UInt16 := 0x0004

def gpsLocationHasBearing : UInt16 := 0x0008

def gpsLocationHasAccuracy : UInt16 := 0x0010

structure GpsSvInfo (F : Type) where
  prn : Int
  snr : F
  elevation : F
  azimuth : F

structure GpsSvStatus (F : Type) where
  numSvs : Int
  svList : Vector (GpsSvInfo F) gpsMaxSvs
  usedInFixMask : UInt32

/- `STATE_QUIT`, `STATE_INIT` and `STATE_START`. -/
inductive Phase
| quit
| init
| start
deriving DecidableEq

/- What the parser uses of `GpsState` and `NmeaReader`, and what it handed to the callbacks. -/
structure GpsState (F : Type) where
  init : Phase
  hasNmeaCb : Bool
  hasLocationCb : Bool
  firstFix : Bool
  utcYear : Int
  utcMon : Int
  utcDay : Int
  fix : GpsLocation F
  svStatus : GpsSvStatus F
  svStatusChanged : Bool
  gsaFixed : Bool
  nmeaCalls : List (List UInt8)
  locationCalls : List (GpsLocation F)

/-
  What a sentence meets on the host: today's date, the memory at the empty text `dummy` and behind
  the tables of months.
-/
structure Host where
  year : Int
  mon : Int
  mday : Int
  dummy : Nat → UInt8
  dummy_empty : dummy 0 = 0
  behind : Nat → Int

/- `nmea_reader_init` on a HAL in the given phase. -/
def GpsState.start (phase : Phase) (hasNmeaCb hasLocationCb : Bool) : GpsState F where
  init := phase
  hasNmeaCb := hasNmeaCb
  hasLocationCb := hasLocationCb
  firstFix := false
  utcYear := -1
  utcMon := -1
  utcDay := -1
  fix := ⟨0, dbl.zero, dbl.zero, dbl.zero, dbl.zero, dbl.zero, dbl.zero, 0⟩
  svStatus := ⟨0, Vector.replicate gpsMaxSvs ⟨0, dbl.zero, dbl.zero, dbl.zero⟩, 0⟩
  svStatusChanged := false
  gsaFixed := false
  nmeaCalls := []
  locationCalls := []

------
-- Updates
------

variable (host : Host)

def nmeaReaderUpdateTime (tok : Token) (s : GpsState F) : GpsState F :=
  if tok.stop < tok.p + 6 then s
  else
    let s := if s.utcYear < 0 then
        { s with utcYear := host.year, utcMon := host.mon, utcDay := host.mday }
      else s
    let hour := str2int tok.mem tok.p (tok.p + 2)
    let minute := str2int tok.mem (tok.p + 2) (tok.p + 4)
    let seconds := str2float dbl { tok with p := tok.p + 4 }
    let fixTime := utcMktime host.behind
        { tmSec := dbl.toInt seconds
          tmMin := minute
          tmHour := hour
          tmMday := s.utcDay
          tmMon := s.utcMon - 1
          tmYear := s.utcYear - 1900 }
    { s with fix.timestamp := fixTime * 1000 }

def nmeaReaderUpdateCdate (tokD tokM tokY : Token) (s : GpsState F) : GpsState F :=
  if tokD.stop < tokD.p + 2 ∨ tokM.stop < tokM.p + 2 ∨ tokY.stop < tokY.p + 4 then s
  else
    { s with
      utcDay := str2int tokD.mem tokD.p (tokD.p + 2)
      utcMon := str2int tokM.mem tokM.p (tokM.p + 2)
      utcYear := str2int tokY.mem tokY.p (tokY.stop + 4) }

def nmeaReaderUpdateDate (tok mtime : Token) (s : GpsState F) : GpsState F :=
  let day := str2int tok.mem tok.p (tok.p + 2)
  let mon := str2int tok.mem (tok.p + 2) (tok.p + 4)
  let year := str2int tok.mem (tok.p + 4) (tok.p + 6) + 2000
  -- The sign of `day|mon|year`.
  if day < 0 ∨ mon < 0 ∨ year < 0 then s
  else
    nmeaReaderUpdateTime dbl host mtime
      { s with utcYear := year, utcMon := mon, utcDay := day }

def nmeaReaderUpdateLatlong (latitude : Token) (latitudeHemi : UInt8) (longitude : Token)
    (longitudeHemi : UInt8) (s : GpsState F) : GpsState F :=
  if latitude.stop < latitude.p + 6 then s
  else
    let lat := convertFromHhmm dbl latitude
    let lat := if latitudeHemi = 83 then dbl.neg lat else lat
    if longitude.stop < longitude.p + 6 then s
    else
      let lon := convertFromHhmm dbl longitude
      let lon := if longitudeHemi = 87 then dbl.neg lon else lon
      { s with
        fix.flags := s.fix.flags ||| gpsLocationHasLatLong
        fix.latitude := lat
        fix.longitude := lon }

def nmeaReaderUpdateAltitude (altitude : Token) (s : GpsState F) : GpsState F :=
  if altitude.stop ≤ altitude.p then s
  else
    { s with
      fix.flags := s.fix.flags ||| gpsLocationHasAltitude
      fix.altitude := str2float dbl altitude }

def nmeaReaderUpdateAccuracy (tok : Token) (s : GpsState F) : GpsState F :=
  if tok.stop ≤ tok.p then s
  else
    let accuracy := str2float dbl tok
    if dbl.isUnknownAccuracy accuracy then
      { s with fix.accuracy := accuracy }
    else
      { s with fix.accuracy := accuracy, fix.flags := s.fix.flags ||| gpsLocationHasAccuracy }

def nmeaReaderUpdateBearing (tok : Token) (s : GpsState F) : GpsState F :=
  if tok.stop ≤ tok.p then s
  else
    { s with fix.flags := s.fix.flags ||| gpsLocationHasBearing, fix.bearing := str2float dbl tok }

def nmeaReaderUpdateSpeedMeters (tok : Token) (s : GpsState F) : GpsState F :=
  if tok.stop ≤ tok.p then s
  else
    { s with
      fix.flags := s.fix.flags ||| gpsLocationHasSpeed
      fix.speed := dbl.knotsToMeters (str2float dbl tok) }

------
-- Sentences
------

inductive SentenceId
| gga
| gll
| gsa
| gsv
| rmc
| vtg
| zda
| unknown
deriving DecidableEq

/- The tests for the name of a sentence, in their order. -/
def sentenceId (tok : Token) : SentenceId :=
  if tok.startsWith "GGA" then .gga
  else if tok.startsWith "GLL" then .gll
  else if tok.startsWith "GSA" then .gsa
  else if tok.startsWith "GSV" then .gsv
  else if tok.startsWith "RMC" then .rmc
  else if tok.startsWith "VTG" then .vtg
  else if tok.startsWith "ZDA" then .zda
  else .unknown

variable (get : Nat → Token)

section

variable (s : GpsState F)

/- A first token that is too short: `$PUNV` sentences. -/
def parsePunv : GpsState F :=
  if (get 0).startsWith "PUNV" then
    if (get 1).startsWith "CFG_R" then s
    else if (get 1).startsWith "QUAL" then
      if (get 3).char 0 ≠ comma then
        nmeaReaderUpdateAccuracy dbl (get 10) s
      else s
    else s
  else s

def parseGga : GpsState F :=
  if 48 < (get 6).char 0 then
    let s := nmeaReaderUpdateTime dbl host (get 1) s
    let s := nmeaReaderUpdateLatlong dbl (get 2) ((get 3).char 0) (get 4) ((get 5).char 0) s
    nmeaReaderUpdateAltitude dbl (get 9) s
  else s

def parseGll : GpsState F :=
  if (get 6).char 0 = 65 then
    let s := nmeaReaderUpdateTime dbl host (get 5) s
    nmeaReaderUpdateLatlong dbl (get 1) ((get 2).char 0) (get 3) ((get 4).char 0) s
  else s

/- One satellite of a GSA sentence. -/
def useInFix (tok : Token) (s : GpsState F) : GpsState F :=
  let prn := tok.toInt
  if 0 < prn ∧ prn < 33 then
    { s with
      svStatus.usedInFixMask := s.svStatus.usedInFixMask ||| (1 <<< UInt32.ofNat (prn - 1).toNat)
      svStatusChanged := true
      gsaFixed := true }
  else s

def parseGsa : GpsState F :=
  if (get 2).char 0 ≠ 0 ∧ (get 2).char 0 ≠ 49 then
    (List.range' 3 12).foldl (fun s i => useInFix (get i) s)
      { s with svStatus.usedInFixMask := 0 }
  else if s.gsaFixed then
    { s with svStatus.usedInFixMask := 0, svStatusChanged := true, gsaFixed := false }
  else s

/- `sv_list[curr] = ...`. -/
def storeSv (svStatus : GpsSvStatus F) (curr : Int)
    (info : GpsSvInfo F) : Except Fault (GpsSvStatus F) :=
  if h : 0 ≤ curr ∧ curr.toNat < gpsMaxSvs then
    .ok
      { svStatus with svList := svStatus.svList.set curr.toNat info h.2 }
  else .error .outOfBounds

/- The loop over the satellites of a GSV sentence. -/
def gsvLoop (dbl : Doubles F) (get : Nat → Token) (noSatellites : Int) :
    Nat → Nat → Int → GpsSvStatus F → Except Fault (GpsSvStatus F)
| 0, _, _, svStatus => .ok svStatus
| left + 1, i, curr, svStatus =>
  if svStatus.numSvs < noSatellites then do
    let svStatus ← storeSv svStatus curr
      { prn := (get (i * 4 + 4)).toInt
        elevation := str2float dbl (get (i * 4 + 5))
        azimuth := str2float dbl (get (i * 4 + 6))
        snr := str2float dbl (get (i * 4 + 7)) }
    gsvLoop dbl get noSatellites left (i + 1) (curr + 1)
      { svStatus with numSvs := svStatus.numSvs + 1 }
  else .ok svStatus

def parseGsv : Except Fault (GpsState F) :=
  let noSatellites := (get 3).toInt
  if 0 < noSatellites then do
    let sentence := (get 2).toInt
    let totalSentences := (get 1).toInt
    let s := if sentence = 1 then
        { s with svStatusChanged := false, svStatus.numSvs := 0 }
      else s
    let svStatus ← gsvLoop dbl get noSatellites 4 0 s.svStatus.numSvs s.svStatus
    let changed := if sentence = totalSentences then true
      else s.svStatusChanged
    return { s with svStatus := svStatus, svStatusChanged := changed }
  else .ok s

def parseRmc : GpsState F :=
  if (get 2).char 0 = 65 then
    let s := nmeaReaderUpdateDate dbl host (get 9) (get 1) s
    let s := nmeaReaderUpdateLatlong dbl (get 3) ((get 4).char 0) (get 5) ((get 6).char 0) s
    let s := nmeaReaderUpdateBearing dbl (get 8) s
    nmeaReaderUpdateSpeedMeters dbl (get 7) s
  else s

def parseVtg : GpsState F :=
  if (get 9).char 0 ≠ 0 ∧ (get 9).char 0 ≠ 78 then
    let s := nmeaReaderUpdateBearing dbl (get 1) s
    nmeaReaderUpdateSpeedMeters dbl (get 5) s
  else s

def parseZda : GpsState F :=
  let s := if (get 4).char 0 ≠ 0 then
      nmeaReaderUpdateCdate (get 2) (get 3) (get 4) s
    else s
  if (get 1).char 0 ≠ 0 then
    nmeaReaderUpdateTime dbl host (get 1) s
  else s

/- The first fix is reported at once. -/
def reportFirstFix : GpsState F :=
  if !s.firstFix && s.init = .init && s.fix.flags &&& gpsLocationHasLatLong ≠ 0 then
    if s.hasLocationCb then
      { s with locationCalls := s.locationCalls ++ [s.fix], fix.flags := 0, firstFix := true }
    else { s with firstFix := true }
  else s

end

/- The branches of `nmea_reader_parse`. -/
def parseSentence (id : SentenceId) (s : GpsState F) : Except Fault (GpsState F) :=
  match id with
  | .gga => .ok (parseGga dbl host get s)
  | .gll => .ok (parseGll dbl host get s)
  | .gsa => .ok (parseGsa get s)
  | .gsv => parseGsv dbl get s
  | .rmc => .ok (parseRmc dbl host get s)
  | .vtg => .ok (parseVtg dbl get s)
  | .zda => .ok (parseZda dbl host get s)
  | .unknown => .ok s

def lineTokens (line : LineReader) : Nat → Token :=
  nmeaTokenizerGet host.dummy (nmeaTokenizerInit line.inBuf line.pos)

/- `tok.p += 2`. -/
def Token.skipTalker (tok : Token) : Token :=
  { tok with p := tok.p + 2 }

/-
  `nmea_reader_parse` on the line that was collected. It does not change what `nmea_reader_addc`
  uses.
-/
def nmeaReaderParse (line : LineReader) (s : GpsState F) : Except Fault (GpsState F) :=
  if line.pos < 9 then .ok s
  else
    let s := if s.hasNmeaCb then
        { s with nmeaCalls := s.nmeaCalls ++ [line.bytes] }
      else s
    let get := lineTokens host line
    if (get 0).stop < (get 0).p + 5 then
      .ok (parsePunv dbl get s)
    else do
      let s ← parseSentence dbl host get (sentenceId (get 0).skipTalker) s
      return reportFirstFix s

------
-- What The Branches Leave Alone
------

variable {s t u : GpsState F}

/- The date that the parser has. -/
def GpsState.date (s : GpsState F) : Int × Int × Int :=
  (s.utcDay, s.utcMon, s.utcYear)

/- The date and the number of satellites are the same. -/
structure Untouched (s t : GpsState F) : Prop where
  date : t.date = s.date
  numSvs : t.svStatus.numSvs = s.svStatus.numSvs

namespace Untouched

theorem refl (s : GpsState F) : Untouched s s where
  date := rfl
  numSvs := rfl

theorem trans (hFirst : Untouched s t) (hSecond : Untouched t u) : Untouched s u where
  date := hSecond.date.trans hFirst.date
  numSvs := hSecond.numSvs.trans hFirst.numSvs

variable (dbl : Doubles F) (tok : Token) (s : GpsState F)

theorem updateLatlong (latitude : Token)
    (latitudeHemi : UInt8) (longitude : Token) (longitudeHemi : UInt8) :
    Untouched s (nmeaReaderUpdateLatlong dbl latitude latitudeHemi longitude longitudeHemi s) := by
  unfold nmeaReaderUpdateLatlong
  split
  · exact refl s
  · dsimp only
    split
    · exact refl s
    · exact ⟨rfl, rfl⟩

theorem updateAltitude : Untouched s (nmeaReaderUpdateAltitude dbl tok s) := by
  unfold nmeaReaderUpdateAltitude
  split <;> exact ⟨rfl, rfl⟩

theorem updateAccuracy : Untouched s (nmeaReaderUpdateAccuracy dbl tok s) := by
  unfold nmeaReaderUpdateAccuracy
  split
  · exact refl s
  · dsimp only
    split <;> exact ⟨rfl, rfl⟩

theorem updateBearing : Untouched s (nmeaReaderUpdateBearing dbl tok s) := by
  unfold nmeaReaderUpdateBearing
  split <;> exact ⟨rfl, rfl⟩

theorem updateSpeedMeters : Untouched s (nmeaReaderUpdateSpeedMeters dbl tok s) := by
  unfold nmeaReaderUpdateSpeedMeters
  split <;> exact ⟨rfl, rfl⟩

theorem firstFix : Untouched s (reportFirstFix s) := by
  unfold reportFirstFix
  split
  · split <;> exact ⟨rfl, rfl⟩
  · exact refl s

end Untouched

theorem updateTime_svStatus (tok : Token) (s : GpsState F) :
    (nmeaReaderUpdateTime dbl host tok s).svStatus = s.svStatus := by
  unfold nmeaReaderUpdateTime
  split
  · rfl
  · split <;> rfl

end OpenIvi.Gps
