import OpenIvi.Gps.Nmea

/-
  The satellites and the dates that the tractor GPS takes from its sentences.

  A GSV sentence adds up to four satellites, as long as there are fewer than it announces. The
  announced number is not compared with the size of the table: the table is left when a sentence
  announces more than it has room for while it is about full.

  The year of a ZDA sentence is read up to four bytes behind its field, so it is never a number, and
  the date of the host takes its place. The year of an RMC sentence is checked only after 2000 was
  added to it, so a date field of four digits gives a date in 1999.

  Main declarations:
    * `parseSentence_numSvs`
    * `satellites_in_table_iff`
    * `rmcDate`
    * `dates_faithful_iff`
-/

------
-- The Loop Over The Satellites
------

namespace OpenIvi.Gps

open Lib List

variable {F : Type} {svStatus : GpsSvStatus F}

theorem storeSv_eq {curr : Int} (hPos : 0 ≤ curr) (hFits : curr < 32) (info : GpsSvInfo F) :
    ∃ next, storeSv svStatus curr info = .ok next ∧ next.numSvs = svStatus.numSvs := by
  have hIndex : 0 ≤ curr ∧ curr.toNat < gpsMaxSvs := by
    unfold gpsMaxSvs
    omega
  exact ⟨_, dif_pos hIndex, rfl⟩

section

variable {noSatellites curr : Int} (dbl : Doubles F) (get : Nat → Token) (i : Nat)
variable (hNum : svStatus.numSvs = curr)

include hNum

/- The satellites fit: at most as many as announced. -/
theorem gsvLoop_fits {left : Nat} (hPos : 0 ≤ curr)
    (hLe : curr ≤ 32) (hRoom : noSatellites ≤ 32 ∨ curr + left ≤ 32) :
    ∃ next, gsvLoop dbl get noSatellites left i curr svStatus = .ok next ∧
      0 ≤ next.numSvs ∧ next.numSvs ≤ 32 := by
  induction left generalizing i curr svStatus with
  | zero =>
    rw [← hNum] at hPos hLe
    exact ⟨svStatus, rfl, hPos, hLe⟩
  | succ left ih =>
    unfold gsvLoop
    by_cases hMore : svStatus.numSvs < noSatellites
    · rw [if_pos hMore]
      have hFits : curr < 32 := by omega
      rcases storeSv_eq hPos hFits _ with ⟨stored, hStore, hSame⟩
      rw [hStore]
      apply ih
      · rw [hSame, hNum]
      · omega
      · omega
      · omega
    · rw [if_neg hMore]
      rw [← hNum] at hPos hLe
      exact ⟨svStatus, rfl, hPos, hLe⟩

/- More are announced than fit, and the table runs full. -/
theorem gsvLoop_overflows {left : Nat} (hPos : 0 ≤ curr) (hLe : curr ≤ 32)
    (hMany : 32 < noSatellites) (hFull : 32 < curr + left) :
    gsvLoop dbl get noSatellites left i curr svStatus = .error .outOfBounds := by
  induction left generalizing i curr svStatus with
  | zero => omega
  | succ left ih =>
    have hMore : svStatus.numSvs < noSatellites := by omega
    unfold gsvLoop
    rw [if_pos hMore]
    rcases Int.lt_or_eq_of_le hLe with hFits | hLast
    · rcases storeSv_eq hPos hFits _ with ⟨stored, hStore, hSame⟩
      rw [hStore]
      apply ih
      · rw [hSame, hNum]
      · omega
      · omega
      · omega
    · rw [hLast, storeSv, dif_neg (by unfold gpsMaxSvs; omega)]
      rfl

end

------
-- Sentences
------

/- A line that is parsed, and the host at that time. -/
structure Sentence where
  host : Host
  line : LineReader

namespace Sentence

def get (sentence : Sentence) : Nat → Token :=
  lineTokens sentence.host sentence.line

/- The name of a sentence that is not too short. -/
def id (sentence : Sentence) : Option SentenceId :=
  if sentence.line.pos < 9 ∨ (sentence.get 0).stop < (sentence.get 0).p + 5 then
    none
  else some (sentenceId (sentence.get 0).skipTalker)

/- The number of satellites that a sentence announces. -/
def noSatellites (sentence : Sentence) : Int :=
  (sentence.get 3).toInt

/- The number of satellites that it is added to. -/
def added (sentence : Sentence) (s : GpsState F) : Int :=
  if (sentence.get 2).toInt = 1 then 0
  else s.svStatus.numSvs

end Sentence

/- A host on the first of January 2011. -/
def hostIn2011 : Host where
  year := 2011
  mon := 1
  mday := 1
  dummy := fun _ => 0
  dummy_empty := rfl
  behind := fun _ => 0

/- A line that was collected. -/
def LineReader.holding (text : String) : LineReader where
  pos := (str text).length
  overflow := false
  inBuf i := (str text).getD i 0

/- Doubles of which nothing is known. -/
def unitDoubles : Doubles Unit where
  zero := ()
  strtod := fun _ => ()
  toInt := fun _ => 0
  neg := id
  degrees := fun _ => 0
  coordinate := fun _ _ => ()
  knotsToMeters := id
  isUnknownAccuracy := fun _ => false

/- `nmea_reader_parse` on a sentence. -/
def step (dbl : Doubles F) (s : GpsState F) (sentence : Sentence) : Except Fault (GpsState F) :=
  nmeaReaderParse dbl sentence.host sentence.line s

/- No GSV sentence announces more than 32 satellites while there are more than 28 of them. -/
def SatellitesFit (s : GpsState F) (sentence : Sentence) : Prop :=
  sentence.id = some .gsv → sentence.noSatellites ≤ 32 ∨ sentence.added s ≤ 28

/- The number of satellites is that of a table. -/
def InTable (s : GpsState F) : Prop :=
  0 ≤ s.svStatus.numSvs ∧ s.svStatus.numSvs ≤ 32

variable {s next : GpsState F} {sentence : Sentence} (dbl : Doubles F)

section

variable (host : Host) (get : Nat → Token) (s : GpsState F)

theorem Untouched.punv : Untouched s (parsePunv dbl get s) := by
  unfold parsePunv
  split
  · split
    · exact .refl s
    · split
      · split
        · exact .updateAccuracy dbl _ s
        · exact .refl s
      · exact .refl s
  · exact .refl s

/- A sentence is parsed behind the callback for its line. -/
theorem step_of_id {id : SentenceId} (hId : sentence.id = some id) :
    ∃ called, Untouched s called ∧ step dbl s sentence = (do
      let t ← parseSentence dbl sentence.host sentence.get id called
      return reportFirstFix t) := by
  unfold Sentence.id at hId
  split at hId
  · cases hId
  · rename_i hLong
    cases hId
    rw [not_or] at hLong
    unfold step nmeaReaderParse
    rw [if_neg hLong.1]
    refine ⟨_, ?_, if_neg hLong.2⟩
    split
    · exact ⟨rfl, rfl⟩
    · exact .refl s

/- Sentences that are too short change neither of the two. -/
theorem step_of_none (hId : sentence.id = none) :
    ∃ next, step dbl s sentence = .ok next ∧ Untouched s next := by
  unfold step nmeaReaderParse
  by_cases hPos : sentence.line.pos < 9
  · rw [if_pos hPos]
    exact ⟨s, rfl, .refl s⟩
  · have hShort : (sentence.get 0).stop < (sentence.get 0).p + 5 := by
      by_contra hLong
      rw [Sentence.id, if_neg (not_or.mpr ⟨hPos, hLong⟩)] at hId
      cases hId
    rw [if_neg hPos]
    refine ⟨_, if_pos hShort, ?_⟩
    apply Untouched.trans _ (.punv dbl _ _)
    split
    · exact ⟨rfl, rfl⟩
    · exact .refl s

theorem useInFix_numSvs (tok : Token) : (useInFix tok s).svStatus.numSvs = s.svStatus.numSvs := by
  unfold useInFix
  dsimp only
  split <;> rfl

theorem parseGsa_numSvs : (parseGsa get s).svStatus.numSvs = s.svStatus.numSvs := by
  have hFold (indices : List Nat) (t : GpsState F) : (indices.foldl (fun t i => useInFix (get i) t)
      t).svStatus.numSvs = t.svStatus.numSvs := by
    induction indices generalizing t with
    | nil => rfl
    | cons i indices ih => rw [List.foldl_cons, ih, useInFix_numSvs]
  unfold parseGsa
  split
  · rw [hFold]
  · split <;> rfl

theorem updateDate_svStatus (tok mtime : Token) :
    (nmeaReaderUpdateDate dbl host tok mtime s).svStatus = s.svStatus := by
  unfold nmeaReaderUpdateDate
  dsimp only
  split
  · rfl
  · rw [updateTime_svStatus]

theorem updateCdate_svStatus (tokD tokM tokY : Token) :
    (nmeaReaderUpdateCdate tokD tokM tokY s).svStatus = s.svStatus := by
  unfold nmeaReaderUpdateCdate
  split <;> rfl

theorem parseZda_numSvs : (parseZda dbl host get s).svStatus.numSvs = s.svStatus.numSvs := by
  unfold parseZda
  dsimp only
  split
  · rw [updateTime_svStatus]
    split
    · rw [updateCdate_svStatus]
    · rfl
  · split
    · rw [updateCdate_svStatus]
    · rfl

/- Only a GSV sentence changes the number of satellites. -/
theorem parseSentence_numSvs {id : SentenceId} (hNot : id ≠ .gsv) :
    ∃ next, parseSentence dbl host get id s = .ok next ∧
      next.svStatus.numSvs = s.svStatus.numSvs := by
  cases id with
  | gga =>
    refine ⟨_, rfl, ?_⟩
    unfold parseGga
    split
    · rw [(Untouched.updateAltitude dbl _ _).numSvs, (Untouched.updateLatlong dbl _ _ _ _ _).numSvs,
        updateTime_svStatus]
    · rfl
  | gll =>
    refine ⟨_, rfl, ?_⟩
    unfold parseGll
    split
    · rw [(Untouched.updateLatlong dbl _ _ _ _ _).numSvs, updateTime_svStatus]
    · rfl
  | gsa => exact ⟨_, rfl, parseGsa_numSvs get s⟩
  | gsv => exact absurd rfl hNot
  | rmc =>
    refine ⟨_, rfl, ?_⟩
    unfold parseRmc
    split
    · rw [(Untouched.updateSpeedMeters dbl _ _).numSvs, (Untouched.updateBearing dbl _ _).numSvs,
        (Untouched.updateLatlong dbl _ _ _ _ _).numSvs, updateDate_svStatus]
    · rfl
  | vtg =>
    refine ⟨_, rfl, ?_⟩
    unfold parseVtg
    split
    · rw [(Untouched.updateSpeedMeters dbl _ _).numSvs, (Untouched.updateBearing dbl _ _).numSvs]
    · rfl
  | zda => exact ⟨_, rfl, parseZda_numSvs dbl host get s⟩
  | unknown => exact ⟨_, rfl, rfl⟩

end

/- The table that a GSV sentence is added to. -/
def Sentence.addedTable (sentence : Sentence) (s : GpsState F) : GpsState F :=
  if (sentence.get 2).toInt = 1 then
    { s with svStatusChanged := false, svStatus.numSvs := 0 }
  else s

theorem Sentence.addedTable_numSvs (sentence : Sentence) (s : GpsState F) :
    (sentence.addedTable s).svStatus.numSvs = sentence.added s := by
  unfold addedTable added
  split <;> rfl

theorem InTable.added (hTable : InTable s) (sentence : Sentence) :
    0 ≤ sentence.added s ∧ sentence.added s ≤ 32 := by
  unfold Sentence.added
  split
  · exact ⟨Int.le_refl 0, by omega⟩
  · exact hTable

theorem parseGsv_eq (hSome : 0 < sentence.noSatellites) (s : GpsState F) :
    parseGsv dbl sentence.get s = do
      let svStatus ← gsvLoop dbl sentence.get sentence.noSatellites 4 0
        (sentence.addedTable s).svStatus.numSvs
        (sentence.addedTable s).svStatus
      return { sentence.addedTable s with
        svStatus := svStatus
        svStatusChanged := if (sentence.get 2).toInt = (sentence.get 1).toInt
          then true
          else (sentence.addedTable s).svStatusChanged } :=
  if_pos hSome

theorem parseGsv_fits (hTable : InTable s)
    (hFits : sentence.noSatellites ≤ 32 ∨ sentence.added s ≤ 28) :
    ∃ next, parseGsv dbl sentence.get s = .ok next ∧ InTable next := by
  by_cases hSome : 0 < sentence.noSatellites
  · rcases hTable.added sentence with ⟨hPos, hLe⟩
    have hRoom : sentence.noSatellites ≤ 32 ∨ sentence.added s + (4 : Nat) ≤ 32 := by omega
    rcases gsvLoop_fits dbl sentence.get 0 (sentence.addedTable_numSvs s) hPos hLe hRoom with
      ⟨svStatus, hLoop, hNext⟩
    rw [parseGsv_eq dbl hSome, sentence.addedTable_numSvs s, hLoop]
    exact ⟨_, rfl, hNext⟩
  · exact ⟨s, if_neg hSome, hTable⟩

theorem parseGsv_overflows (hTable : InTable s) (hMany : 32 < sentence.noSatellites)
    (hFull : 28 < sentence.added s) :
    parseGsv dbl sentence.get s = .error .outOfBounds := by
  rcases hTable.added sentence with ⟨hPos, hLe⟩
  have hSome : 0 < sentence.noSatellites := by omega
  have hOver : 32 < sentence.added s + (4 : Nat) := by omega
  have hLoop := gsvLoop_overflows dbl sentence.get 0
      (sentence.addedTable_numSvs s) hPos hLe hMany hOver
  rw [parseGsv_eq dbl hSome, sentence.addedTable_numSvs s, hLoop]
  rfl

------
-- Runs
------

theorem InTable.untouched (hTable : InTable s)
    (hSame : next.svStatus.numSvs = s.svStatus.numSvs) : InTable next := by
  unfold InTable
  rw [hSame]
  exact hTable

theorem Sentence.added_untouched (hSame : next.svStatus.numSvs = s.svStatus.numSvs)
    (sentence : Sentence) : sentence.added next = sentence.added s := by
  unfold added
  rw [hSame]

/- A sentence that fits is parsed and keeps the table. -/
theorem step_fits (hTable : InTable s) (hFits : SatellitesFit s sentence) :
    ∃ next, step dbl s sentence = .ok next ∧ InTable next := by
  cases hId : sentence.id with
  | none =>
    rcases step_of_none dbl s hId with ⟨next, hNext, hSame⟩
    exact ⟨next, hNext, hTable.untouched hSame.numSvs⟩
  | some id =>
    rcases step_of_id dbl s hId with ⟨called, hSame, hStep⟩
    have hCalled := hTable.untouched hSame.numSvs
    have hParse : ∃ parsed, parseSentence dbl sentence.host sentence.get id
        called = .ok parsed ∧ InTable parsed := by
      by_cases hGsv : id = .gsv
      · rw [hGsv] at hId ⊢
        have hRoom := hFits hId
        rw [← sentence.added_untouched hSame.numSvs] at hRoom
        exact parseGsv_fits dbl hCalled hRoom
      · rcases parseSentence_numSvs dbl sentence.host sentence.get called hGsv with
          ⟨parsed, hOk, hKept⟩
        exact ⟨parsed, hOk, hCalled.untouched hKept⟩
    rcases hParse with ⟨parsed, hOk, hParsed⟩
    refine ⟨reportFirstFix parsed, ?_, ?_⟩
    · rw [hStep, hOk]
      rfl
    · exact hParsed.untouched (Untouched.firstFix parsed).numSvs

theorem step_overflows (hTable : InTable s) (hFits : ¬ SatellitesFit s sentence) :
    step dbl s sentence = .error .outOfBounds := by
  unfold SatellitesFit at hFits
  rw [Classical.not_imp, not_or, Int.not_le, Int.not_le] at hFits
  rcases hFits with ⟨hId, hMany, hFull⟩
  rcases step_of_id dbl s hId with ⟨called, hSame, hStep⟩
  rw [← sentence.added_untouched hSame.numSvs] at hFull
  have hParse := parseGsv_overflows dbl (hTable.untouched hSame.numSvs) hMany hFull
  rw [hStep, parseSentence, hParse]
  rfl

/-
  The parser stays inside the table of satellites, with a number of them that is at most its size,
  if and only if no sentence announces more than 32 satellites when there are more than 28.
-/
theorem satellites_in_table_iff (dbl : Doubles F) (phase : Phase)
    (hasNmeaCb hasLocationCb : Bool) (sentences : List Sentence) :
    Always (step dbl) InTable (.start dbl phase hasNmeaCb hasLocationCb) sentences ↔
    Along (step dbl) SatellitesFit (.start dbl phase hasNmeaCb hasLocationCb)
      sentences := by
  have hKeeps (s : GpsState F) (sentence : Sentence) (hTable : InTable s)
      (hFits : SatellitesFit s sentence) :
      ∃ next, step dbl s sentence = .ok next ∧ InTable next :=
    step_fits dbl hTable hFits
  refine always_iff_along (fun _ hTable => hTable) hKeeps
    ?_ ?_ sentences
  · intro s sentence next hTable hFits hNext
    rw [step_overflows dbl hTable hFits] at hNext
    cases hNext
  · exact ⟨Int.le_refl 0, Int.natCast_nonneg 32⟩

/- The second of nine sentences, which announces 33. -/
def secondGsv : Sentence where
  host := hostIn2011
  line := .holding "$GPGSV,9,2,33\n"

/- The first one is lost, and the second one is repeated. -/
theorem satellites_leave_table :
    run (step unitDoubles) (.start unitDoubles .init false false)
      (List.replicate 9 secondGsv) = .error .outOfBounds := by
  rfl

------
-- The Byte Behind A Token
------

variable {p i stop : Nat} {n : Int}

/- The byte behind a token is not a digit. -/
structure Token.Ended (tok : Token) : Prop where
  le : tok.p ≤ tok.stop
  behind : isDigit (tok.mem tok.stop) = false

/- A line that ends with its newline, as it is handed over. -/
structure LineReader.Complete (line : LineReader) : Prop where
  pos : 0 < line.pos
  newline : line.inBuf (line.pos - 1) = newline

/- What `nmea_reader_addc` hands to `nmea_reader_parse` is such a line. -/
theorem nmeaReaderAddc_complete {r next : LineReader} {c : UInt8} {bytes : List UInt8}
    (hAddc : nmeaReaderAddc r c = .ok (next, [bytes])) :
    ∃ line, r.store c = .ok line ∧ line.Complete ∧ line.bytes = bytes := by
  unfold nmeaReaderAddc at hAddc
  split at hAddc
  · cases hAddc
  split at hAddc
  · cases hAddc
  rcases bind_eq_ok.mp hAddc with ⟨line, hStore, hRest⟩
  refine ⟨line, hStore, ?_⟩
  split at hRest
  next hNewline =>
    cases hRest
    unfold LineReader.store at hStore
    split at hStore
    · cases hStore
      exact ⟨⟨Nat.succ_pos _, by simp [hNewline]⟩, rfl⟩
    · cases hStore
  next => cases hRest

variable {mem : Nat → UInt8}

theorem findComma_spec (hLe : p ≤ stop) :
    p ≤ findComma mem p stop ∧ findComma mem p stop ≤ stop ∧
      (∀ k, p ≤ k → k < findComma mem p stop → mem k ≠ comma) ∧
      (mem (findComma mem p stop) = comma ∨ findComma mem p stop = stop) := by
  unfold findComma
  cases hFind : (range' p (stop - p)).find? (mem · = comma) with
  | none =>
    refine ⟨hLe, le_rfl, ?_, .inr rfl⟩
    intro k hK hLt
    change k < stop at hLt
    have hNot := find?_eq_none.mp hFind k (mem_range'_1.mpr ⟨hK, by omega⟩)
    simpa using hNot
  | some q =>
    rcases find?_range'_eq_some.mp hFind with ⟨hComma, hMem, hFirst⟩
    rw [mem_range'_1] at hMem
    refine ⟨hMem.1, ?_, ?_, .inl (of_decide_eq_true hComma)⟩
    · change q ≤ stop
      omega
    · intro k hK hLt
      simpa using hFirst k hK hLt

variable {tok : Token}

/- Tokens end at a comma or at the end of the text. -/
theorem mem_tokenLoop {passes : Nat} (hTok : tok ∈ tokenLoop mem passes p stop) :
    tok.mem = mem ∧ tok.p ≤ tok.stop ∧ tok.stop ≤ stop ∧
      (mem tok.stop = comma ∨ tok.stop = stop) := by
  induction passes generalizing p with
  | zero => cases hTok
  | succ passes ih =>
    unfold tokenLoop at hTok
    split at hTok
    · rename_i hLt
      rcases mem_cons.mp hTok with rfl | hRest
      · rcases findComma_spec (le_of_lt hLt) with ⟨hLe, hStop, _, hEnd⟩
        exact ⟨rfl, hLe, hStop, hEnd⟩
      · exact ih hRest
    · cases hTok

/- The text ends at its newline or in front of it. -/
theorem textEnd_not_digit {line : LineReader} (hLine : line.Complete) :
    isDigit (line.inBuf (textEnd line.inBuf (textStart line.inBuf line.pos) (lineEnd line.inBuf
      (textStart line.inBuf line.pos) line.pos))) = false := by
  have hStart : textStart line.inBuf line.pos < line.pos := by
    unfold textStart
    split
    · rename_i hDollar
      -- A line of one byte is a newline, not a dollar.
      rcases Nat.lt_or_eq_of_le hLine.pos with hLong | hOne
      · exact hLong
      · have hNewline := hLine.newline
        rw [← hOne, hDollar.2] at hNewline
        cases hNewline
    · exact hLine.pos
  unfold textEnd
  split
  · rename_i hStar
    rw [hStar.2]
    rfl
  · unfold lineEnd
    rw [if_pos ⟨hStart, hLine.newline⟩]
    split
    · rename_i hReturn
      rw [hReturn.2]
      rfl
    · rw [hLine.newline]
      rfl

/- No number goes on behind its token. -/
theorem Sentence.get_ended {sentence : Sentence} (hLine : sentence.line.Complete) (i : Nat) :
    (sentence.get i).Ended := by
  unfold Sentence.get lineTokens nmeaTokenizerGet
  rw [getD_eq_getElem?_getD]
  cases hTok : (nmeaTokenizerInit sentence.line.inBuf sentence.line.pos)[i]? with
  | none =>
    refine ⟨le_refl 0, ?_⟩
    change isDigit (sentence.host.dummy 0) = false
    rw [sentence.host.dummy_empty]
    rfl
  | some tok =>
    have hMem := mem_of_getElem? hTok
    rcases mem_tokenLoop (mem_of_mem_take hMem) with ⟨hSame, hLe, _, hComma | hStop⟩
    · refine ⟨hLe, ?_⟩
      change isDigit (tok.mem tok.stop) = false
      rw [hSame, hComma]
      rfl
    · refine ⟨hLe, ?_⟩
      change isDigit (tok.mem tok.stop) = false
      rw [hSame, hStop]
      exact textEnd_not_digit hLine

------
-- Numbers In A Field
------

def digit (c : UInt8) : Int :=
  c.toNat - 48

/- The number of two digits at a place of a field. -/
def twoDigits (field : List UInt8) (i : Nat) : Option Int :=
  match field[i]?, field[i + 1]? with
  | some a, some b =>
    if isDigit a && isDigit b then
      some (digit a * 10 + digit b)
    else none
  | _, _ => none

theorem digit_bounds {c : UInt8} (hDigit : isDigit c = true) : 0 ≤ digit c ∧ digit c < 10 := by
  unfold isDigit at hDigit
  rw [Bool.and_eq_true, decide_eq_true_eq, decide_eq_true_eq] at hDigit
  unfold digit
  omega

theorem bmod_small (hPos : 0 ≤ n) (hLt : n < 100) : Int.bmod n (2 ^ 32) = n := by
  apply Int.bmod_eq_of_le
  · omega
  · omega

theorem str2intLoop_digit (hDigit : isDigit (mem p) = true) (len : Nat) (result : Int) :
    str2intLoop mem (len + 1) p result = str2intLoop mem len (p + 1)
      (Int.bmod (result * 10 + digit (mem p)) (2 ^ 32)) :=
  if_pos hDigit

theorem str2intLoop_spoiled (hSpoils : isDigit (mem p) = false) (len : Nat) (result : Int) :
    str2intLoop mem (len + 1) p result = -1 :=
  if_neg (Bool.not_eq_true _ ▸ hSpoils)

theorem str2int_two (mem : Nat → UInt8) (p : Nat) :
    str2int mem p (p + 2) = if isDigit (mem p) && isDigit (mem (p + 1)) then
      digit (mem p) * 10 + digit (mem (p + 1))
      else -1 := by
  unfold str2int
  rw [Nat.add_sub_cancel_left, if_neg nofun]
  cases hFirst : isDigit (mem p) with
  | false => exact str2intLoop_spoiled hFirst 1 0
  | true =>
    rw [str2intLoop_digit hFirst]
    cases hSecond : isDigit (mem (p + 1)) with
    | false => exact str2intLoop_spoiled hSecond 0 _
    | true =>
      have hA := digit_bounds hFirst
      have hB := digit_bounds hSecond
      rw [str2intLoop_digit hSecond, Int.zero_mul, Int.zero_add, bmod_small hA.1 (by omega),
        bmod_small (by omega) (by omega)]
      rfl

/- A byte that is not a digit spoils the whole number. -/
theorem str2int_spoiled (hLe : p ≤ i)
    (hLt : i < stop) (hSpoils : isDigit (mem i) = false) : str2int mem p stop = -1 := by
  have hLoop (len : Nat) : ∀ (p : Nat) (result : Int), p ≤ i → i < p + len →
      str2intLoop mem len p result = -1 := by
    induction len with
    | zero => omega
    | succ len ih =>
      intro p result hLe hLt
      rcases lt_or_eq_of_le hLe with hBefore | rfl
      · cases hHere : isDigit (mem p) with
        | false => exact str2intLoop_spoiled hHere len _
        | true =>
          rw [str2intLoop_digit hHere]
          exact ih (p + 1) _ hBefore (by omega)
      · exact str2intLoop_spoiled hSpoils len _
  unfold str2int
  rw [if_neg (by omega)]
  exact hLoop (stop - p) p 0 hLe (by omega)

theorem Token.bytes_getElem? (tok : Token) (i : Nat) :
    tok.bytes[i]? = if tok.p + i < tok.stop then some (tok.char i)
      else none := by
  unfold bytes
  rw [getElem?_map]
  split
  · rw [getElem?_range (by omega)]
    rfl
  · rw [getElem?_eq_none (by simp; omega)]
    rfl

/- Two bytes are a number if they are digits of the field. -/
theorem Token.Ended.str2int_two (hEnded : tok.Ended) (hLe : tok.p + i ≤ tok.stop) :
    str2int tok.mem (tok.p + i) (tok.p + i + 2) = (twoDigits tok.bytes i).getD (-1) := by
  have hBehind := hEnded.behind
  rw [Gps.str2int_two]
  unfold twoDigits
  rw [bytes_getElem?, bytes_getElem?, ← add_assoc]
  rcases lt_or_eq_of_le hLe with hLt | hEnd
  · rw [if_pos hLt]
    rcases Nat.lt_or_eq_of_le (Nat.succ_le_of_lt hLt) with hNext | hEnd
    · rw [if_pos hNext]
      unfold char
      dsimp only
      rw [← Nat.add_assoc]
      split <;> rfl
    · rw [← hEnd] at hBehind ⊢
      rw [if_neg (lt_irrefl _), hBehind, Bool.and_false]
      rfl
  · rw [← hEnd] at hBehind ⊢
    rw [if_neg (lt_irrefl _), hBehind]
    rfl

------
-- The Date Of An RMC Sentence
------

variable {F : Type} {s : GpsState F}

/- The date that a date field gives. -/
def rmcDate (field : List UInt8) : Option (Int × Int × Int) := do
  let day ← twoDigits field 0
  let mon ← twoDigits field 2
  return (day, mon, (twoDigits field 4).getD (-1) + 2000)

theorem twoDigits_spec {field : List UInt8}
    (hSome : twoDigits field i = some n) : 0 ≤ n ∧ i + 2 ≤ field.length := by
  unfold twoDigits at hSome
  split at hSome
  · rename_i a b _ hNext
    split at hSome
    · rename_i hDigits
      rw [Bool.and_eq_true] at hDigits
      have hA := digit_bounds hDigits.1
      have hB := digit_bounds hDigits.2
      have hLength := (List.getElem?_eq_some_iff.mp hNext).1
      cases hSome
      exact ⟨by omega, hLength⟩
    · cases hSome
  · cases hSome

theorem twoDigits_year (field : List UInt8) : 0 ≤ (twoDigits field 4).getD (-1) + 2000 := by
  cases hYear : twoDigits field 4 with
  | none => exact Int.natCast_nonneg 1999
  | some year =>
    have hPos := (twoDigits_spec hYear).1
    rw [Option.getD_some]
    omega

theorem le_of_twoDigits (hSome : twoDigits tok.bytes i = some n) : tok.p + (i + 2) ≤ tok.stop := by
  have hLength := (twoDigits_spec hSome).2
  rw [Token.bytes, length_map, length_range] at hLength
  omega

variable (dbl : Doubles F) (host : Host)

theorem updateTime_date (tok : Token) (hYear : 0 ≤ s.utcYear) :
    (nmeaReaderUpdateTime dbl host tok s).date = s.date := by
  unfold nmeaReaderUpdateTime
  split
  · rfl
  · rw [if_neg (Int.not_lt.mpr hYear)]
    rfl

theorem updateDate_date (hEnded : tok.Ended) (mtime : Token) (s : GpsState F) :
    (nmeaReaderUpdateDate dbl host tok mtime s).date = (rmcDate tok.bytes).getD s.date := by
  have hDay : str2int tok.mem tok.p (tok.p + 2) = (twoDigits tok.bytes 0).getD (-1) :=
    hEnded.str2int_two (i := 0) hEnded.le
  unfold nmeaReaderUpdateDate rmcDate
  rw [hDay]
  cases hFirst : twoDigits tok.bytes 0 with
  | none =>
    rfl
  | some day =>
    have hMon : str2int tok.mem (tok.p + 2) (tok.p + 4) = (twoDigits tok.bytes 2).getD (-1) :=
      hEnded.str2int_two (le_of_twoDigits hFirst)
    rw [hMon]
    cases hSecond : twoDigits tok.bytes 2 with
    | none =>
      rw [Option.getD_none, if_pos (.inr (.inl (by omega)))]
      rfl
    | some mon =>
      have hYear : str2int tok.mem (tok.p + 4) (tok.p + 6) = (twoDigits tok.bytes 4).getD (-1) :=
        hEnded.str2int_two (le_of_twoDigits hSecond)
      have hPos := twoDigits_year tok.bytes
      rw [hYear, Option.getD_some, Option.getD_some, if_neg, updateTime_date dbl host mtime hPos]
      · rfl
      · have hDayPos := (twoDigits_spec hFirst).1
        have hMonPos := (twoDigits_spec hSecond).1
        omega

------
-- Dates Of Sentences
------

open Lib

variable {sentence : Sentence}

/- The number in a field of so many decimal digits. -/
def decimal (width : Nat) (field : List UInt8) : Option Nat :=
  if field.length = width ∧ field.all isDigit then
    some (field.foldl (fun n c => n * 10 + (c.toNat - 48)) 0)
  else none

def Host.date (host : Host) : Int × Int × Int :=
  (host.mday, host.mon, host.year)

/- The time field of a ZDA sentence is taken. -/
def Sentence.timeGiven (sentence : Sentence) : Prop :=
  (sentence.get 1).char 0 ≠ 0 ∧ (sentence.get 1).p + 6 ≤ (sentence.get 1).stop

theorem Token.length_bytes (tok : Token) : tok.bytes.length = tok.stop - tok.p := by
  rw [bytes, length_map, length_range]

theorem decimal_length {width n : Nat} (hSome : decimal width tok.bytes = some n) :
    tok.stop - tok.p = width := by
  unfold decimal at hSome
  split at hSome
  · rename_i hField
    rw [← tok.length_bytes]
    exact hField.1
  · cases hSome

theorem decimal_char {width n : Nat} (hWidth : 0 < width)
    (hSome : decimal width tok.bytes = some n) : tok.char 0 ≠ 0 := by
  have hLength := decimal_length hSome
  unfold decimal at hSome
  split at hSome
  · rename_i hField
    have hFirst : tok.bytes[0]? = some (tok.char 0) := by rw [tok.bytes_getElem?, if_pos (by omega)]
    have hDigit := all_eq_true.mp hField.2 _ (mem_of_getElem? hFirst)
    intro hZero
    rw [hZero] at hDigit
    cases hDigit
  · cases hSome

theorem step_date {id : SentenceId} (hId : sentence.id = some id) (s : GpsState F) :
    ∃ called, Untouched s called ∧ ∀ parsed, parseSentence dbl sentence.host sentence.get id
      called = .ok parsed → ∃ next, step dbl s sentence = .ok next ∧ next.date = parsed.date := by
  rcases step_of_id dbl s hId with ⟨called, hSame, hStep⟩
  refine ⟨called, hSame, ?_⟩
  intro parsed hParsed
  refine ⟨reportFirstFix parsed, ?_, ?_⟩
  · rw [hStep, hParsed]
    rfl
  · exact (Untouched.firstFix parsed).date

theorem parseRmc_date (hLine : sentence.line.Complete) (s : GpsState F) :
    (parseRmc dbl sentence.host sentence.get s).date = if (sentence.get 2).char 0 = 65 then
      (rmcDate (sentence.get 9).bytes).getD s.date
      else s.date := by
  unfold parseRmc
  split
  · rw [(Untouched.updateSpeedMeters dbl _ _).date, (Untouched.updateBearing dbl _ _).date,
      (Untouched.updateLatlong dbl _ _ _ _ _).date,
      updateDate_date dbl _ (sentence.get_ended hLine 9)]
  · rfl

/- The date of a ZDA sentence is never taken from it. -/
theorem parseZda_date (hLine : sentence.line.Complete) {day mon year : Nat}
    (hDay : decimal 2 (sentence.get 2).bytes = some day)
    (hMon : decimal 2 (sentence.get 3).bytes = some mon)
    (hYear : decimal 4 (sentence.get 4).bytes = some year) (s : GpsState F) :
    (sentence.timeGiven ∧ (parseZda dbl sentence.host sentence.get s).date = sentence.host.date) ∨
    (¬ sentence.timeGiven ∧ (parseZda dbl sentence.host sentence.get s).utcYear = -1) := by
  have hDayLen := decimal_length hDay
  have hMonLen := decimal_length hMon
  have hYearLen := decimal_length hYear
  have hDayLe : (sentence.get 2).p + 2 ≤ (sentence.get 2).stop := by omega
  have hMonLe : (sentence.get 3).p + 2 ≤ (sentence.get 3).stop := by omega
  have hYearLe : (sentence.get 4).p + 4 ≤ (sentence.get 4).stop := by omega
  have hEnded := sentence.get_ended hLine 4
  have hNone : (nmeaReaderUpdateCdate (sentence.get 2) (sentence.get 3) (sentence.get 4)
      s).utcYear = -1 := by
    unfold nmeaReaderUpdateCdate
    rw [if_neg (by omega)]
    exact str2int_spoiled hEnded.le (Nat.lt_add_of_pos_right four_pos) hEnded.behind
  unfold parseZda
  rw [if_pos (decimal_char (by omega) hYear)]
  by_cases hTime : (sentence.get 1).char 0 ≠ 0
  · rw [if_pos hTime]
    by_cases hLong : (sentence.get 1).p + 6 ≤ (sentence.get 1).stop
    · left
      refine ⟨⟨hTime, hLong⟩, ?_⟩
      unfold nmeaReaderUpdateTime
      rw [if_neg (not_lt.mpr hLong), if_pos (by omega)]
      rfl
    · right
      refine ⟨fun hGiven => hLong hGiven.2, ?_⟩
      unfold nmeaReaderUpdateTime
      rw [if_pos (not_le.mp hLong)]
      exact hNone
  · rw [if_neg hTime]
    right
    exact ⟨fun hGiven => hTime hGiven.1, hNone⟩

/-
  A ZDA sentence sets the date that it has if and only if its time is taken and it has the date of
  the host. An RMC sentence without a proper date field leaves the date as it was if and only if it
  has no fix, its field gives no date, or it gives the date that was there.
-/
theorem dates_faithful_iff (hLine : sentence.line.Complete) (dbl : Doubles F) (s : GpsState F) :
    (∀ day mon year : Nat, sentence.id = some .zda → decimal 2 (sentence.get 2).bytes = some day →
      decimal 2 (sentence.get 3).bytes = some mon → decimal 4 (sentence.get 4).bytes = some year →
      ∃ next, step dbl s sentence = .ok next ∧
        (next.date = (↑day, ↑mon, ↑year) ↔ sentence.timeGiven ∧
          sentence.host.date = (↑day, ↑mon, ↑year))) ∧
    (sentence.id = some .rmc → decimal 6 (sentence.get 9).bytes = none →
      ∃ next, step dbl s sentence = .ok next ∧ (next.date = s.date ↔ (sentence.get 2).char 0 ≠ 65 ∨
        rmcDate (sentence.get 9).bytes = none ∨ rmcDate (sentence.get 9).bytes = some s.date)) := by
  constructor
  · intro day mon year hId hDay hMon hYear
    rcases step_date dbl hId s with ⟨called, _, hStep⟩
    rcases hStep _ rfl with ⟨next, hNext, hDate⟩
    refine ⟨next, hNext, ?_⟩
    rw [hDate]
    rcases parseZda_date dbl hLine hDay hMon hYear called with ⟨hTime, hHost⟩ | ⟨hTime, hNone⟩
    · rw [hHost]
      exact (and_iff_right hTime).symm
    · apply iff_of_false
      · intro hSame
        have hSet : (-1 : Int) = year := hNone.symm.trans (congrArg (fun date => date.2.2) hSame)
        omega
      · exact fun hBoth => hTime hBoth.1
  · intro hId _
    rcases step_date dbl hId s with ⟨called, hSame, hStep⟩
    rcases hStep _ rfl with ⟨next, hNext, hDate⟩
    refine ⟨next, hNext, ?_⟩
    rw [hDate, parseRmc_date _ hLine, hSame.date]
    by_cases hFix : (sentence.get 2).char 0 = 65
    · rw [if_pos hFix, or_iff_right (not_not.mpr hFix)]
      cases rmcDate (sentence.get 9).bytes with
      | none => exact iff_of_true rfl (.inl rfl)
      | some date =>
        rw [or_iff_right nofun, Option.some_inj]
        rfl
    · rw [if_neg hFix]
      exact iff_of_true rfl (.inl hFix)

def sentenceIn2011 (text : String) : Sentence where
  host := hostIn2011
  line := .holding text

def newYearZda : Sentence :=
  sentenceIn2011 "$GPZDA,120000,01,01,2011\n"

def shortRmc : Sentence :=
  sentenceIn2011 "$GPRMC,120000,A,,,,,,,01\n"

theorem dates_faithful_new_year :
    (∃ next, step unitDoubles (.start unitDoubles .init false false) newYearZda = .ok next ∧
      next.date = (1, 1, 2011)) ∧
    ∃ next, step unitDoubles (.start unitDoubles .init false false) shortRmc = .ok next ∧
      next.date = (-1, -1, -1) := by
  have hZda : newYearZda.line.Complete := ⟨by decide +kernel, by decide +kernel⟩
  have hRmc : shortRmc.line.Complete := ⟨by decide +kernel, by decide +kernel⟩
  constructor
  · rcases (dates_faithful_iff hZda unitDoubles (.start unitDoubles .init false false)).1
        1 1 2011 (by decide +kernel) (by decide +kernel)
        (by decide +kernel) (by decide +kernel) with ⟨next, hNext, hDate⟩
    refine ⟨next, hNext, hDate.mpr ⟨?_, rfl⟩⟩
    exact ⟨by decide +kernel, by decide +kernel⟩
  · rcases (dates_faithful_iff hRmc unitDoubles (.start unitDoubles .init false false)).2
        (by decide +kernel) (by decide +kernel) with ⟨next, hNext, hDate⟩
    refine ⟨next, hNext, hDate.mpr (.inr (.inl ?_))⟩
    decide +kernel

/-
  The date of the host in place of the second of March 2010, and a date in 1999 from a field of four
  digits.
-/
theorem dates_not_faithful :
    (∃ next, step unitDoubles (.start unitDoubles .init false false)
        (sentenceIn2011 "$GPZDA,120000,02,03,2010\n") = .ok next ∧ next.date = (1, 1, 2011)) ∧
    ∃ next, step unitDoubles (.start unitDoubles .init false false)
        (sentenceIn2011 "$GPRMC,120000,A,,,,,,,0101\n") = .ok next ∧ next.date = (1, 1, 1999) := by
  exact ⟨⟨_, rfl, rfl⟩, ⟨_, rfl, rfl⟩⟩

------
-- The Fields Of A Sentence
------

def withoutDollar (text : List UInt8) : List UInt8 :=
  if text[0]? = some dollar then text.drop 1 else text

def withoutNewline (text : List UInt8) : List UInt8 :=
  if text.getLast? = some newline then
    if text.dropLast.getLast? = some carriageReturn then text.dropLast.dropLast
    else text.dropLast
  else text

/- The text without its `*` and the two bytes behind it. -/
def withoutChecksum (text : List UInt8) : List UInt8 :=
  if 3 ≤ text.length ∧ text[text.length - 3]? = some asterisk then text.take (text.length - 3)
  else text

def fields (buffer : List UInt8) : List (List UInt8) :=
  (withoutChecksum (withoutNewline (withoutDollar buffer))).splitOn comma

namespace Token

section

variable (mem : Nat → UInt8)

theorem drop_bytes (p stop k : Nat) : (bytes ⟨mem, p, stop⟩).drop k = bytes ⟨mem, p + k, stop⟩ := by
  apply ext_getElem?
  intro i
  simp only [getElem?_drop, bytes_getElem?, char, Nat.add_assoc]

theorem take_bytes (p stop k : Nat) :
    (bytes ⟨mem, p, stop⟩).take k = bytes ⟨mem, p, min (p + k) stop⟩ := by
  apply ext_getElem?
  intro i
  simp only [getElem?_take, bytes_getElem?, char]
  grind

theorem withoutDollar_bytes (pos : Nat) :
    withoutDollar (bytes ⟨mem, 0, pos⟩) = bytes ⟨mem, textStart mem pos, pos⟩ := by
  rw [withoutDollar, textStart, bytes_getElem?, drop_bytes]
  grind [char]

theorem withoutNewline_bytes (p stop : Nat) :
    withoutNewline (bytes ⟨mem, p, stop⟩) = bytes ⟨mem, p, lineEnd mem p stop⟩ := by
  simp only [withoutNewline, lineEnd, dropLast_eq_take, getLast?_eq_getElem?, take_bytes,
    bytes_getElem?, length_bytes]
  grind [char]

theorem withoutChecksum_bytes (p stop : Nat) :
    withoutChecksum (bytes ⟨mem, p, stop⟩) = bytes ⟨mem, p, textEnd mem p stop⟩ := by
  simp only [withoutChecksum, textEnd, take_bytes, bytes_getElem?, length_bytes]
  grind [char]

end

end Token

/- The loop stores the fields of the text, but not an empty one at its end. -/
theorem tokenLoop_fields {passes : Nat} (hEnough : stop ≤ p + passes) :
    ∃ last ∈ [[], [[]]], (Token.bytes ⟨mem, p, stop⟩).splitOn comma =
      (tokenLoop mem passes p stop).map Token.bytes ++ last := by
  have hEmpty {p : Nat} (hLe : stop ≤ p) : (Token.bytes ⟨mem, p, stop⟩).splitOn comma = [[]] := by
    rw [Token.bytes, Nat.sub_eq_zero_of_le hLe]
    rfl
  induction passes generalizing p with
  | zero => exact ⟨[[]], by simp, hEmpty hEnough⟩
  | succ passes ih =>
    unfold tokenLoop
    split
    · next hLt =>
      rcases @findComma_spec p stop mem hLt.le with ⟨hLe, hStop, hFirst, hEnd⟩
      generalize findComma mem p stop = q at *
      have hNot : comma ∉ Token.bytes ⟨mem, p, q⟩ := by
        intro hMem
        rcases mem_iff_getElem?.mp hMem with ⟨k, hK⟩
        grind [Token.bytes_getElem?, Token.char]
      rcases hStop.lt_or_eq with hIn | rfl
      · rcases ih (p := q + 1) (by omega) with ⟨last, hLast, hRest⟩
        have hText : Token.bytes ⟨mem, p, stop⟩ =
            Token.bytes ⟨mem, p, q⟩ ++ comma :: Token.bytes ⟨mem, q + 1, stop⟩ := by
          apply ext_getElem?
          grind [Token.bytes_getElem?, Token.char, Token.length_bytes]
        refine ⟨last, hLast, ?_⟩
        rw [hText, splitOn_append_cons_self_of_not_mem hNot, hRest]
        simp only [hIn, if_true]
        rfl
      · refine ⟨[], by simp, ?_⟩
        rw [splitOn_eq_singleton hNot]
        cases passes <;> simp [tokenLoop]
    · next hLt => exact ⟨[[]], by simp, hEmpty (not_lt.mp hLt)⟩

end OpenIvi.Gps
