import Mathlib.Algebra.BigOperators.Intervals
import Mathlib.Algebra.Order.BigOperators.Group.Finset
import Mathlib.Data.UInt

/-
  The Gregorian calendar.

  A date carries the proof that its month and day exist. Days are numbered from the first day of a
  year on, by adding up the lengths of the years and months before the date.

  Main declarations:
    * `IsLeap`
    * `monthLength`
    * `daysBeforeYear_eq`
    * `UtcTime.seconds_lt_of_before`
-/

------
-- Years And Months
------

namespace OpenIvi.Lib.Calendar

/- Every fourth year, but not every hundredth one. -/
def IsLeap (year : Nat) : Prop :=
  year % 4 = 0 ∧ (year % 100 ≠ 0 ∨ year % 400 = 0)

instance (year : Nat) : Decidable (IsLeap year) :=
  inferInstanceAs (Decidable (_ ∧ _))

/- The days of a month; the months are numbered from one. -/
def monthLength (year : Nat) : Nat → Nat
| 2 => if IsLeap year then 29 else 28
| 4 => 30
| 6 => 30
| 9 => 30
| 11 => 30
| _ => 31

def yearLength (year : Nat) : Nat :=
  if IsLeap year then 366 else 365

/- The days of a year in front of a month. -/
def daysBeforeMonth (year month : Nat) : Nat :=
  ∑ m ∈ Finset.Ico 1 month, monthLength year m

/- The days from the start of the year `first` on. -/
def daysBeforeYear (first year : Nat) : Nat :=
  ∑ y ∈ Finset.Ico first year, yearLength y

theorem daysBeforeMonth_succ (year : Nat) {month : Nat} (hPos : 1 ≤ month) :
    daysBeforeMonth year (month + 1) = daysBeforeMonth year month + monthLength year month :=
  Finset.sum_Ico_succ_top hPos _

theorem daysBeforeMonth_mono (year : Nat) {month later : Nat} (hLe : month ≤ later) :
    daysBeforeMonth year month ≤ daysBeforeMonth year later :=
  Finset.sum_le_sum_of_subset (Finset.Ico_subset_Ico_right hLe)

theorem daysBeforeMonth_thirteen (year : Nat) : daysBeforeMonth year 13 = yearLength year := by
  unfold daysBeforeMonth yearLength
  by_cases hLeap : IsLeap year <;>
    simp [Finset.sum_Ico_succ_top, monthLength, hLeap]

variable {first year : Nat}

theorem daysBeforeYear_succ (hFirst : first ≤ year) :
    daysBeforeYear first (year + 1) = daysBeforeYear first year + yearLength year :=
  Finset.sum_Ico_succ_top hFirst _

/- The leap years up to a year. -/
def leapYears (year : Nat) : Nat :=
  year / 4 - year / 100 + year / 400

theorem leapYears_succ (year : Nat) :
    leapYears (year + 1) = leapYears year + if IsLeap (year + 1) then 1 else 0 := by
  -- Each quotient moves up where its size divides the year.
  have hDiv (size : Nat) : (year + 1) / size = year / size + if size ∣ year + 1 then 1 else 0 :=
    Nat.succ_div
  have h4 := hDiv 4
  have h100 := hDiv 100
  have h400 := hDiv 400
  unfold leapYears
  by_cases hFour : 4 ∣ year + 1
  · by_cases hHundred : 100 ∣ year + 1
    · by_cases hLong : 400 ∣ year + 1
      · have hLeap : IsLeap (year + 1) := ⟨Nat.mod_eq_zero_of_dvd hFour,
            .inr (Nat.mod_eq_zero_of_dvd hLong)⟩
        rw [if_pos hLeap, h4, h100, h400]
        omega
      · have hLeap : ¬ IsLeap (year + 1) := by
          rintro ⟨_, hNot | hIs⟩
          · exact hNot (Nat.mod_eq_zero_of_dvd hHundred)
          · exact hLong (Nat.dvd_of_mod_eq_zero hIs)
        rw [if_neg hLeap, h4, h100, h400]
        omega
    · have hLong : ¬ 400 ∣ year + 1 := by omega
      have hLeap : IsLeap (year + 1) := ⟨Nat.mod_eq_zero_of_dvd hFour,
          .inl (mt Nat.dvd_of_mod_eq_zero hHundred)⟩
      rw [if_pos hLeap, h4, h100, h400]
      omega
  · have hHundred : ¬ 100 ∣ year + 1 := by omega
    have hLong : ¬ 400 ∣ year + 1 := by omega
    have hLeap : ¬ IsLeap (year + 1) := fun hIs => hFour (Nat.dvd_of_mod_eq_zero hIs.1)
    rw [if_neg hFour] at h4
    rw [if_neg hHundred] at h100
    rw [if_neg hLong] at h400
    rw [if_neg hLeap, h4, h100, h400]
    rfl

theorem daysBeforeYear_eq (hFirst : first ≤ year) :
    daysBeforeYear (first + 1) (year + 1) + leapYears first =
      365 * (year - first) + leapYears year := by
  induction year, hFirst using Nat.le_induction with
  | base => simp [daysBeforeYear]
  | succ year hLe ih =>
    have hLength : yearLength (year + 1) = 365 + if IsLeap (year + 1) then 1 else 0 := by
      unfold yearLength
      split <;> rfl
    rw [daysBeforeYear_succ (by omega), hLength, leapYears_succ]
    omega

------
-- Dates And Times
------

structure Date where
  year : Nat
  month : Nat
  day : Nat
  month_pos : 1 ≤ month
  month_le : month ≤ 12
  day_pos : 1 ≤ day
  day_le : day ≤ monthLength year month

/- The calendar order: by year, then by month, then by day. -/
def Date.Before (d e : Date) : Prop :=
  d.year < e.year ∨ (d.year = e.year ∧ (d.month < e.month ∨ (d.month = e.month ∧ d.day < e.day)))

/- The days of the year in front of a date. -/
def Date.dayOfYear (d : Date) : Nat :=
  daysBeforeMonth d.year d.month + (d.day - 1)

/- The days from the start of the year `first` on. -/
def Date.dayNumber (first : Nat) (d : Date) : Nat :=
  daysBeforeYear first d.year + d.dayOfYear

theorem Date.dayOfYear_lt_month (d : Date) :
    d.dayOfYear < daysBeforeMonth d.year (d.month + 1) := by
  have hPos := d.day_pos
  have hLe := d.day_le
  rw [daysBeforeMonth_succ d.year d.month_pos]
  unfold dayOfYear
  omega

theorem Date.dayOfYear_lt (d : Date) : d.dayOfYear < yearLength d.year := by
  rw [← daysBeforeMonth_thirteen]
  have hMonth := d.month_le
  apply lt_of_lt_of_le d.dayOfYear_lt_month
  exact daysBeforeMonth_mono d.year (by omega)

theorem Date.dayNumber_lt_of_before {d e : Date} (hFirst : first ≤ d.year) (hBefore : d.Before e) :
    d.dayNumber first < e.dayNumber first := by
  unfold dayNumber
  rcases hBefore with hYear | ⟨hYear, hMonth | ⟨hMonth, hDay⟩⟩
  · have hDays := d.dayOfYear_lt
    have hNext := daysBeforeYear_succ hFirst
    have hMono : daysBeforeYear first (d.year + 1) ≤ daysBeforeYear first e.year :=
      Finset.sum_le_sum_of_subset (Finset.Ico_subset_Ico_right hYear)
    omega
  · have hDays := d.dayOfYear_lt_month
    have hMono : daysBeforeMonth d.year (d.month + 1) ≤ daysBeforeMonth d.year e.month :=
      daysBeforeMonth_mono d.year hMonth
    have hLater : e.dayOfYear = daysBeforeMonth d.year e.month + (e.day - 1) := by
      rw [hYear]
      rfl
    rw [← hYear]
    omega
  · have hPos := d.day_pos
    unfold dayOfYear
    rw [hYear, hMonth]
    omega

/- A second of a day that has 86400 of them. -/
structure TimeOfDay where
  hour : Nat
  minute : Nat
  second : Nat
  hour_lt : hour < 24
  minute_lt : minute < 60
  second_lt : second < 60

def TimeOfDay.seconds (t : TimeOfDay) : Nat :=
  t.hour * 3600 + t.minute * 60 + t.second

theorem TimeOfDay.seconds_lt (t : TimeOfDay) : t.seconds < 86400 := by
  have hHour := t.hour_lt
  have hMinute := t.minute_lt
  have hSecond := t.second_lt
  unfold seconds
  omega

structure UtcTime where
  date : Date
  time : TimeOfDay

/- The order of dates, and of times on the same date. -/
def UtcTime.Before (t u : UtcTime) : Prop :=
  t.date.Before u.date ∨ (t.date = u.date ∧
      (t.time.hour < u.time.hour ∨ (t.time.hour = u.time.hour ∧
          (t.time.minute < u.time.minute ∨ (t.time.minute = u.time.minute ∧
              t.time.second < u.time.second)))))

theorem UtcTime.Before.year_le {t u : UtcTime}
    (hBefore : t.Before u) : t.date.year ≤ u.date.year := by
  rcases hBefore with (hYear | ⟨hYear, _⟩) | ⟨hDate, _⟩
  · exact le_of_lt hYear
  · exact le_of_eq hYear
  · rw [hDate]

/- The seconds from the start of the year `first` on. -/
def UtcTime.seconds (first : Nat) (t : UtcTime) : Nat :=
  86400 * t.date.dayNumber first + t.time.seconds

theorem UtcTime.seconds_lt_of_before {t u : UtcTime}
    (hFirst : first ≤ t.date.year) (hBefore : t.Before u) : t.seconds first < u.seconds first := by
  have hTime := t.time.seconds_lt
  unfold seconds
  rcases hBefore with hDate | ⟨hDate, hOrder⟩
  · have hDays := Date.dayNumber_lt_of_before hFirst hDate
    omega
  · have hMinute := t.time.minute_lt
    have hSecond := t.time.second_lt
    rw [hDate]
    unfold TimeOfDay.seconds
    omega

end OpenIvi.Lib.Calendar
