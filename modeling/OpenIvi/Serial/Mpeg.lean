import OpenIvi.Lib.Decoder
import OpenIvi.Serial.Reader

/-
  Framing of `libmpeg` and the reports that it makes of its frames.

  `mpegFrames` is the decoder that `check_full_command` stands for: drop bytes up to a head `4B B4`,
  then take the length byte and that many bytes. The code keeps the start of its search when it
  takes a frame out, so it skips the first bytes behind the frame. Reads on which this skips no head
  decode their stream, however it is cut.

  A frame may have any length byte, and a wrong checksum is only logged. The names of a play list
  are copied from the fourth byte of `command` on with the whole length, and so past its end for the
  two greatest lengths. The texts of a debug message and of an ID3 tag are two bytes shorter than
  the length; for a length below two this wraps around.

  Every search of a window ends, or it comes to a frame that is too long for `command`. What it
  leaves is the start of one frame, except on the exit for a bad length byte: that one leaves the
  whole window. `libmpeg` never takes it; `libipod` takes it for the large packet format, and then
  the window grows with every read.

  Main declarations:
    * `mpeg_commands_of_cuts`
    * `mpeg_parse_safe_iff`
    * `mpeg_reader_bounded`
    * `ipod_appends_fit_iff`
-/

------
-- The Frame Decoder
------

namespace OpenIvi.Serial

open Lib List Buffer

variable {b : UInt8} {rest : List UInt8} {out : List Buffer}

/-
  Drop one byte that starts no frame, or take one frame. A frame is taken once a byte behind its
  length byte is there and it is complete.
-/
def mpegFrameStep : List UInt8 → Option (List Buffer × List UInt8)
| [] => none
| one :: tail =>
  if one = mpeg.startByteOne then
    match tail with
    | [] => none
    | two :: body =>
      if two = mpeg.startByteTwo then
        match body with
        | [] => none
        | length :: rest =>
          if rest = [] ∨ rest.length < length.toNat then
            none
          else
            some ([paddedCommand (length :: rest.take length.toNat)], rest.drop length.toNat)
      else
        some ([], two :: body)
  else
    some ([], tail)

variable {w : List UInt8}

theorem mpegFrameStep_shrinks
    (hStep : mpegFrameStep w = some (out, rest)) : rest.length < w.length := by
  unfold mpegFrameStep at hStep
  split at hStep
  next => cases hStep
  next =>
    split at hStep
    next =>
      split at hStep
      next => cases hStep
      next =>
        split at hStep
        next =>
          split at hStep
          next => cases hStep
          next =>
            split at hStep
            next => cases hStep
            next =>
              cases hStep
              simp only [length_drop, length_cons]
              omega
        next =>
          cases hStep
          simp
    next =>
      cases hStep
      simp

theorem mpegFrameStep_stable (more : List UInt8) (hStep : mpegFrameStep w = some (out, rest)) :
    mpegFrameStep (w ++ more) = some (out, rest ++ more) := by
  unfold mpegFrameStep at hStep
  split at hStep
  next => cases hStep
  next one tail =>
    split at hStep
    next hOne =>
      split at hStep
      next => cases hStep
      next two body =>
        split at hStep
        next hTwo =>
          split at hStep
          next => cases hStep
          next length rest' =>
            split at hStep
            next => cases hStep
            next hReady =>
              cases hStep
              rw [not_or] at hReady
              rcases hReady with ⟨hNonempty, hComplete⟩
              have hLe : length.toNat ≤ rest'.length := by omega
              have hMore : ¬ (rest' ++ more = [] ∨ (rest' ++ more).length < length.toNat) := by
                rw [not_or]
                refine ⟨by simp [hNonempty], ?_⟩
                rw [length_append]
                omega
              simp only [cons_append, mpegFrameStep, hOne, hTwo, if_true, hMore, if_false]
              rw [take_append_of_le_length hLe, drop_append_of_le_length hLe]
        next hTwo =>
          cases hStep
          simp [mpegFrameStep, hOne, hTwo]
    next hOne =>
      cases hStep
      simp [mpegFrameStep, hOne]

/- The framing that `libmpeg` implements. -/
def mpegFrames : Decoder UInt8 Buffer where
  step := mpegFrameStep
  shrinks := mpegFrameStep_shrinks
  stable := mpegFrameStep_stable

------
-- Skipped Bytes
------

/- A first start byte that is the last byte of the window or has the second one behind it. -/
def LiveHead (w : List UInt8) (i : Nat) : Prop :=
  w[i]? = some mpeg.startByteOne ∧ (i + 1 = w.length ∨ w[i + 1]? = some mpeg.startByteTwo)

/- None of the first `k` bytes is a live head. -/
def Clear (k : Nat) (w : List UInt8) : Prop :=
  ∀ i, i < k → ¬ LiveHead w i

theorem mpegFrameStep_of_not_live (hDead : ¬ LiveHead (b :: w) 0) :
    mpegFrameStep (b :: w) = some ([], w) := by
  by_cases hOne : b = mpeg.startByteOne
  · cases w with
    | nil => exact absurd ⟨by simp [hOne], .inl rfl⟩ hDead
    | cons c w =>
      have hTwo : c ≠ mpeg.startByteTwo := by
        intro hEq
        apply hDead
        exact ⟨by simp [hOne], .inr (by simp [hEq])⟩
      simp [mpegFrameStep, hOne, hTwo]
  · simp [mpegFrameStep, hOne]

/- Bytes without a live head can be skipped. -/
theorem Clear.decode_drop {k : Nat} (hClear : Clear k w) :
    mpegFrames.decode w = mpegFrames.decode (w.drop k) := by
  induction k generalizing w with
  | zero => rfl
  | succ k ih =>
    cases w with
    | nil => rfl
    | cons b w =>
      have hStep : mpegFrames.step (b :: w) = some ([], w) :=
        mpegFrameStep_of_not_live (hClear 0 (by omega))
      have hTail : Clear k w := by
        intro i hi hLive
        apply hClear (i + 1) (by omega)
        simpa [LiveHead] using hLive
      rw [Decoder.decode_of_step hStep, ih hTail]
      simp

theorem decode_drop_of_firstFrom {k i : Nat} (hFirst : Buffer.FirstFrom w k mpeg.startByteOne i) :
    mpegFrames.decode (w.drop k) = mpegFrames.decode (w.drop i) := by
  have hGe := hFirst.ge
  have hClear : Clear (i - k) (w.drop k) := by
    intro j hj hLive
    have hByte := hLive.1
    rw [getElem?_drop] at hByte
    exact hFirst.first (k + j) (by omega) (by omega) hByte
  rw [hClear.decode_drop, drop_drop, Nat.add_sub_cancel' hGe]

theorem drop_eq_cons {i : Nat} (hByte : w[i]? = some b) : w.drop i = b :: w.drop (i + 1) := by
  rcases List.getElem?_eq_some_iff.mp hByte with ⟨hLt, hEq⟩
  rw [drop_eq_getElem_cons hLt, hEq]

------
-- Harmless Searches
------

/-
  `Harmless k w`: in a search of `w` that starts at `k`, the first bytes behind a frame that is
  taken out, as many as the search start has moved up by then, hold no live head.
-/
inductive Harmless : Nat → List UInt8 → Prop where
| noHead {k : Nat} {w : List UInt8} :
    (∀ i, k ≤ i → w[i]? ≠ some mpeg.startByteOne) → Harmless k w
| lastByte {k i : Nat} {w : List UInt8} :
    Buffer.FirstFrom w k mpeg.startByteOne i → i + 1 = w.length → Harmless k w
| falseHead {k i : Nat} {w : List UInt8} {b : UInt8} : Buffer.FirstFrom w k mpeg.startByteOne i →
    w[i + 1]? = some b → b ≠ mpeg.startByteTwo → Harmless (i + 1) w → Harmless k w
| header {k i : Nat} {w : List UInt8} :
    HeadAt mpeg k w i → i + 2 = w.length ∨ i + 3 = w.length → Harmless k w
| partialFrame {k i : Nat} {w : List UInt8} {length : UInt8} : LengthAt mpeg k w i length →
    w.length < i + 3 + length.toNat → Harmless k w
| frame {k i : Nat} {w : List UInt8} {length : UInt8} : LengthAt mpeg k w i length →
    i + 3 + length.toNat ≤ w.length → Clear k (w.drop (i + 3 + length.toNat)) →
    Harmless k (w.drop (i + 3 + length.toNat)) → Harmless k w

theorem mpeg_badLength (length : UInt8) : mpeg.badLength length.toNat = false := by
  have hLt := length.toNat_lt
  apply decide_eq_false
  unfold maxCommandByteLength
  omega

theorem LengthAt.drop_eq {p : Protocol} {k i : Nat} {w : List UInt8}
    {length : UInt8} (h : LengthAt p k w i length) :
    w.drop i = p.startByteOne :: p.startByteTwo :: length :: w.drop (i + 3) := by
  rw [drop_eq_cons h.first.holds, drop_eq_cons h.second, drop_eq_cons h.lengthByte]

variable {k i : Nat} {length : UInt8}

theorem step_header (hHead : HeadAt mpeg k w i) (hShort : i + 2 = w.length ∨ i + 3 = w.length) :
    mpegFrames.step (w.drop i) = none := by
  rw [drop_eq_cons hHead.first.holds, drop_eq_cons hHead.second]
  rcases hShort with hTwo | hThree
  · rw [hTwo, drop_length]
    simp [mpegFrames, mpegFrameStep]
  · have hRest : (w.drop (i + 2)).length = 1 := by
      rw [length_drop]
      omega
    rcases length_eq_one_iff.mp hRest with ⟨length, hLength⟩
    rw [hLength]
    simp [mpegFrames, mpegFrameStep]

theorem step_partialFrame (hLength : LengthAt mpeg k w i length)
    (hShort : w.length < i + 3 + length.toNat) : mpegFrames.step (w.drop i) = none := by
  have hMore := hLength.more
  have hRest : (w.drop (i + 3)).length < length.toNat := by
    rw [length_drop]
    omega
  rw [hLength.drop_eq]
  simp only [mpegFrames, mpegFrameStep, hRest, or_true, if_true]

theorem step_frame (hLength : LengthAt mpeg k w i length)
    (hEnough : i + 3 + length.toNat ≤ w.length) :
    mpegFrames.step (w.drop i) = some ([commandBuffer mpeg w i length.toNat],
      w.drop (i + 3 + length.toNat)) := by
  have hMore := hLength.more
  have hReady : ¬ (w.drop (i + 3) = [] ∨ (w.drop (i + 3)).length < length.toNat) := by
    rw [length_drop, drop_eq_nil_iff]
    omega
  rw [hLength.drop_eq]
  simp only [mpegFrames, mpegFrameStep, if_true, hReady, if_false, drop_drop, commandBuffer]
  rw [drop_eq_cons hLength.lengthByte]
  simp [mpeg]

/-
  A harmless search hands over and keeps what the decoder does. The induction is on the search; only
  the frame case uses that the skipped bytes are clear.
-/
theorem Harmless.decode {k : Nat} {w : List UInt8} (hHarmless : Harmless k w) :
    ∃ parsed keep, Scans mpeg k w parsed keep ∧ mpegFrames.decode (w.drop k) = (parsed, keep) := by
  induction hHarmless with
  | @noHead k w hAbsent =>
    refine ⟨[], [], .noHead hAbsent, ?_⟩
    have hClear : Clear (w.drop k).length (w.drop k) := by
      intro i _ hLive
      have hByte := hLive.1
      rw [getElem?_drop] at hByte
      exact hAbsent (k + i) (by omega) hByte
    rw [hClear.decode_drop, drop_length]
    exact Decoder.decode_of_none rfl
  | @lastByte k i w hFirst hLast =>
    refine ⟨[], w.drop i, .lastByte hFirst hLast, ?_⟩
    rw [decode_drop_of_firstFrom hFirst]
    apply Decoder.decode_of_none
    rw [drop_eq_cons hFirst.holds, hLast, drop_length]
    simp [mpegFrames, mpegFrameStep]
  | @falseHead k i w b hFirst hByte hNe _ ih =>
    rcases ih with ⟨parsed, keep, hScans, hDecode⟩
    refine ⟨parsed, keep, .falseHead hFirst hByte hNe hScans, ?_⟩
    have hStep : mpegFrames.step (w.drop i) = some ([], w.drop (i + 1)) := by
      rw [drop_eq_cons hFirst.holds, drop_eq_cons hByte]
      simp [mpegFrames, mpegFrameStep, hNe]
    rw [decode_drop_of_firstFrom hFirst, Decoder.decode_of_step hStep, hDecode]
    simp
  | @header k i w hHead hShort =>
    refine ⟨[], w.drop i, .header hHead hShort, ?_⟩
    rw [decode_drop_of_firstFrom hHead.first]
    exact Decoder.decode_of_none (step_header hHead hShort)
  | @partialFrame k i w length hLength hShort =>
    refine ⟨[], w.drop i, .partialFrame hLength (mpeg_badLength length)
        (by simpa [mpeg] using hShort), ?_⟩
    rw [decode_drop_of_firstFrom hLength.first]
    exact Decoder.decode_of_none (step_partialFrame hLength hShort)
  | @frame k i w length hLength hEnough hClear _ ih =>
    rcases ih with ⟨parsed, keep, hScans, hDecode⟩
    have hByteLt := length.toNat_lt
    refine ⟨_, keep, .frame hLength (mpeg_badLength length) (by simpa [mpeg] using hEnough) (by
            simp only [mpeg, maxCommandByteLength]
            omega)
          hScans, ?_⟩
    rw [decode_drop_of_firstFrom hLength.first, Decoder.decode_of_step (step_frame hLength hEnough),
      hClear.decode_drop, hDecode]
    simp

------
-- Runs Of The Read Thread
------

/- What a search keeps is at most one incomplete frame. -/
theorem Scans.keep_length_le {k : Nat} {keep : List UInt8}
    {parsed : List Buffer} (hScans : Scans mpeg k w parsed keep) : keep.length ≤ 257 := by
  induction hScans with
  | noHead => simp
  | lastByte _ hShort | header _ hShort =>
    rw [length_drop]
    omega
  | falseHead _ _ _ _ ih => exact ih
  | @badLength k i w length hLength hBad =>
    rw [mpeg_badLength length] at hBad
    cases hBad
  | @partialFrame k i w length hLength hGood hShort =>
    have hLt := length.toNat_lt
    simp only [mpeg] at hShort
    rw [length_drop]
    omega
  | frame _ _ _ _ _ ih => exact ih

/- The bytes buffered in a reader. -/
def Reader.window (r : Reader) : List UInt8 :=
  r.ttyBuffer.take r.ttyBufferPos

theorem Holds.window_eq {r : Reader} (h : Holds r w) : r.window = w := by
  rw [Reader.window, h.pos, h.window]

/- Every read of a run leaves a buffer on which the search is harmless. -/
def HarmlessRun : Reader → List (List UInt8) → Prop
| _, [] => True
| r, chunk :: chunks =>
  Harmless 0 (r.window ++ chunk) ∧ ∀ next parsed,
      readerStep mpeg r chunk = .ok (next, parsed) → HarmlessRun next chunks

/-
  In a harmless run the commands handed over are the frames of the buffered bytes and the stream
  behind them.
-/
theorem runReader_of_harmless {chunks : List (List UInt8)}
    {r : Reader} (hHolds : Holds r w) (hShort : w.length ≤ 257) (hStuck : mpegFrames.step w = none)
    (hCut : IsCut maxReadByteOnce chunks) (hHarmless : HarmlessRun r chunks) :
    ∃ next, runReader mpeg r chunks = .ok (next, (mpegFrames.decode (w ++ chunks.flatten)).1) := by
  induction chunks generalizing r w with
  | nil =>
    refine ⟨r, ?_⟩
    simp [runReader, feed, Decoder.decode_of_none hStuck]
  | cons chunk chunks ih =>
    rcases forall_mem_cons.mp hCut with ⟨hChunk, hRest⟩
    rcases hHarmless with ⟨hHead, hTail⟩
    rw [hHolds.window_eq] at hHead
    rcases hHead.decode with ⟨parsed, keep, hScans, hDecode⟩
    rw [drop_zero] at hDecode
    rcases readerStep_eq (by decide) hHolds (by
          unfold maxReadByteOnce at hChunk
          unfold ttyBufferSize
          omega)
        hScans with ⟨middle, hStep, hKept⟩
    have hKeepStuck : mpegFrames.step keep = none := by
      have hRest := mpegFrames.step_decode_rest (w ++ chunk)
      rwa [hDecode] at hRest
    rcases ih hKept hScans.keep_length_le hKeepStuck hRest (hTail middle parsed hStep) with
      ⟨last, hRun⟩
    refine ⟨last, ?_⟩
    rw [flatten_cons, ← append_assoc, mpegFrames.decode_append (w ++ chunk), hDecode]
    exact feed_cons hStep hRun

/-
  Two ways of cutting one stream into reads hand over the same commands, if the reads of both are
  harmless.
-/
theorem mpeg_commands_of_cuts {stream : List UInt8}
    {cut₁ cut₂ : List (List UInt8)} (hCut₁ : IsCut maxReadByteOnce cut₁)
    (hCut₂ : IsCut maxReadByteOnce cut₂) (hStream₁ : cut₁.flatten = stream)
    (hStream₂ : cut₂.flatten = stream) (hHarmless₁ : HarmlessRun Reader.init cut₁)
    (hHarmless₂ : HarmlessRun Reader.init cut₂) :
    ∃ parsed r₁ r₂, runReader mpeg Reader.init cut₁ = .ok (r₁, parsed) ∧
      runReader mpeg Reader.init cut₂ = .ok (r₂, parsed) := by
  rcases runReader_of_harmless Holds.init (by simp) rfl hCut₁ hHarmless₁ with ⟨r₁, hRun₁⟩
  rcases runReader_of_harmless Holds.init (by simp) rfl hCut₂ hHarmless₂ with ⟨r₂, hRun₂⟩
  rw [hStream₁] at hRun₁
  rw [hStream₂] at hRun₂
  exact ⟨_, r₁, r₂, hRun₁, hRun₂⟩

/- A start byte in the noise before a frame: read whole, or cut inside the head of the frame. -/
theorem mpeg_commands_of_cuts_noise :
    ∃ parsed r₁ r₂, runReader mpeg Reader.init [[0x4B, 0x00, 0x4B, 0xB4, 0x01, 0x07]] =
      .ok (r₁, parsed) ∧
      runReader mpeg Reader.init [[0x4B, 0x00, 0x4B], [0xB4, 0x01, 0x07]] = .ok (r₂, parsed) := by
  refine mpeg_commands_of_cuts (by decide) (by decide) rfl rfl ⟨?_, fun _ _ _ => trivial⟩ ⟨?_, ?_⟩
  · change Harmless 0 [0x4B, 0x00, 0x4B, 0xB4, 0x01, 0x07]
    refine .falseHead (i := 0) (b := 0x00) ⟨by omega, rfl, fun j _ hj => by omega⟩ rfl
        (by decide) ?_
    refine .frame (i := 2)
        { first := ⟨by omega, rfl, fun j hGe hLt => by
              obtain rfl : j = 1 := by omega
              decide⟩
          second := rfl
          lengthByte := rfl
          more := by decide }
        (by decide) ?_ (.noHead ?_)
    · intro i _ hLive
      exact absurd hLive.1 (by simp)
    · simp
  · refine .falseHead (i := 0) (b := 0x00) ⟨by omega, rfl, fun j _ hj => by omega⟩ rfl
        (by decide) ?_
    exact .lastByte (i := 2) ⟨by omega, rfl, fun j hGe hLt => by
          obtain rfl : j = 1 := by omega
          decide⟩ rfl
  · intro next parsed hStep
    refine ⟨?_, fun _ _ _ => trivial⟩
    have hWindow : (readerStep mpeg Reader.init [0x4B, 0x00, 0x4B]).map (fun out =>
              out.1.window) = .ok [0x4B] := by
      decide +kernel
    rw [hStep] at hWindow
    obtain hWindow : next.window = [0x4B] := by simpa [Except.map] using hWindow
    rw [hWindow]
    refine .frame (i := 0)
        { first := ⟨by omega, rfl, fun j _ hj => by omega⟩
          second := rfl
          lengthByte := rfl
          more := by decide }
        (by decide) (fun i hi _ => by omega) (.noHead ?_)
    simp

/-
  The same noise with two frames behind it in one read: the search start is one byte too far when
  the second frame has moved to the front, so that frame is lost. Cut between the frames, both are
  handed over.
-/
theorem mpeg_commands_depend_on_cuts :
    IsCut maxReadByteOnce [[0x4B, 0x00, 0x4B, 0xB4, 0x01, 0x07, 0x4B, 0xB4, 0x01, 0x08]] ∧
      IsCut maxReadByteOnce [[0x4B, 0x00, 0x4B, 0xB4, 0x01, 0x07], [0x4B, 0xB4, 0x01, 0x08]] ∧
      [[0x4B, 0x00, 0x4B, 0xB4, 0x01, 0x07, 0x4B, 0xB4, 0x01, 0x08]].flatten =
        ([[0x4B, 0x00, 0x4B, 0xB4, 0x01, 0x07], [0x4B, 0xB4, 0x01, 0x08]].flatten : List UInt8) ∧
      (runReader mpeg Reader.init [[0x4B, 0x00, 0x4B, 0xB4, 0x01, 0x07, 0x4B, 0xB4, 0x01,
        0x08]]).map Prod.snd = .ok [paddedCommand [0x01, 0x07]] ∧
      (runReader mpeg Reader.init [[0x4B, 0x00, 0x4B, 0xB4, 0x01, 0x07],
        [0x4B, 0xB4, 0x01, 0x08]]).map Prod.snd =
        .ok [paddedCommand [0x01, 0x07], paddedCommand [0x01, 0x08]] := by
  refine ⟨by decide, by decide, rfl, ?_, ?_⟩
  · decide +kernel
  · decide +kernel

------
-- Report Types
------

/- The command ids that `parse_command` tells apart. -/
inductive MpegReportType
| hostInd
| initCfm
| deviceStatus
| keyControlCfm
| playStatus
| playInfo
| id3Info
| playlistIndexRsp
| playlistIndexInfo
| playlistNameRsp
| dvdDispInfo
| sourceCfm
| setSuspendCfm
| powerOffCfm
| getBookmark
| discStatus
| dbgMsg
deriving DecidableEq

def mpegReportType (commandId : UInt8) : Option MpegReportType :=
  if commandId = 0x80 then some .hostInd
  else if commandId = 0x81 then some .initCfm
  else if commandId = 0x82 ∨ commandId = 0x84 then
    some .deviceStatus
  else if commandId = 0x89 ∨ commandId = 0x8A then
    some .playStatus
  else if commandId = 0x8B ∨ commandId = 0x8C then
    some .playInfo
  else if commandId = 0x8F then some .playlistIndexRsp
  else if commandId = 0x90 then some .playlistIndexInfo
  else if commandId = 0x91 then some .playlistNameRsp
  else if commandId = 0x85 then some .keyControlCfm
  else if commandId = 0xF0 then some .dbgMsg
  else if commandId = 0x95 then some .sourceCfm
  else if commandId = 0xE0 then some .discStatus
  else if commandId = 0x93 ∨ commandId = 0x92 then
    some .dvdDispInfo
  else if commandId = 0x8D ∨ commandId = 0x8E then
    some .id3Info
  else if commandId = 0x96 then some .setSuspendCfm
  else if commandId = 0x97 then some .powerOffCfm
  else if commandId = 0x98 then some .getBookmark
  else none

/- What is set of a notification. -/
inductive MpegReport
| hostInd
| initCfm (version : UInt8)
| deviceStatus (discStatus spindleStatus videoMode fileStatus : UInt8) (rootMenuStatus : Bool)
| playStatus (discType playStatus : UInt8) (repeatMode shuffleMode scanMode playType : UInt8)
| playInfo (fileType : UInt8) (currIndex allIndex currPlaytime allPlaytime : Nat)
    (currFolderIndex allFolderCount allFileCount : Nat)
| playlistIndex (isSucc : UInt8) (allFolderCount allFileCount : Nat)
    (allAudioFolderCount allVideoFolderCount : Nat) (allPhotoFolderCount allAudioFileCount : Nat)
    (allVideoFileCount allPhotoFileCount : Nat)
| playlistName (fileNum : UInt8) (fileMsg : List UInt8)
| keyControlCfm (isSucc : UInt8)
| sourceCfm (sourceOff : UInt8)
| dvdDispInfo (audioNum audioIndex : UInt8) (audioCodingType audioChannelNum : UInt8)
    (audioIso693Val subtitleIso693Val : Nat) (subtitleAllNum subtitleCurrIndex : UInt8)
| id3Info (id3Info : List UInt8)
| setSuspendCfm (commandResult : UInt8)
| powerOffCfm (commandResult : UInt8) (data : List UInt8)
| getBookmark
deriving DecidableEq

------
-- The Reports Of A Command
------

/- The size of `file_msg`, `id3_info` and `dbg_msg`. -/
def mpegTextSize : Nat := 256

def bookmarkSize : Nat := 64

/- A text over the 255 zeros that were set before it. -/
def zeroedText (text : List UInt8) : List UInt8 :=
  text ++ replicate (255 - text.length) 0

/- `buf[i] = c`. -/
def store (buf : Buffer) (i : Nat) (c : UInt8) : Except Fault Buffer :=
  buf.memset i c 1

/- `while(length--) dbg_msg[length] = command[2 + length]`. -/
def dbgLoop (command : Buffer) : Nat → Buffer → Except Fault Buffer
| 0, dbgMsg => .ok dbgMsg
| length + 1, dbgMsg => do
    let c ← command.load (2 + length)
    let dbgMsg ← store dbgMsg length c
    dbgLoop command length dbgMsg

/- A debug message, which is logged and not pushed. -/
def dbgMessage (command : Buffer) (length : Nat) : Except Fault Buffer := do
  let length := uintSub length 2
  let dbgMsg ← store (replicate mpegTextSize 0) length 0
  dbgLoop command length dbgMsg

def deviceStatusReport (status : UInt8) : MpegReport :=
  .deviceStatus (status &&& 0x03) ((status &&& 0x04) >>> 2)
    ((status &&& 0x08) >>> 3) ((status &&& 0x10) >>> 4)
    (status &&& 0x60 ≠ 0)

/- The notification that is pushed, if any. -/
def mpegReport (command : Buffer) (length : Nat) : MpegReportType → Except Fault (Option MpegReport)
| .hostInd => return some .hostInd
| .initCfm => do
    let version ← command.load 2
    return some (.initCfm version)
| .deviceStatus => do
    let status ← command.load 2
    return some (deviceStatusReport status)
| .playStatus => do
    let discType ← command.load 2
    let playStatus ← command.load 3
    let mode ← command.load 4
    return some (.playStatus discType playStatus (mode &&& 0x07)
        ((mode &&& 0x08) >>> 3) ((mode &&& 0x10) >>> 4)
        ((mode &&& 0x80) >>> 7))
| .playInfo => do
    let fileType ← command.load 2
    let currIndex ← load16 command 3
    let allIndex ← load16 command 5
    let currPlaytime ← load16 command 7
    let allPlaytime ← load16 command 9
    let currFolderIndex ← load16 command 11
    let allFolderCount ← load16 command 13
    let allFileCount ← load16 command 15
    return some (.playInfo fileType currIndex allIndex currPlaytime
        allPlaytime currFolderIndex allFolderCount
        allFileCount)
| .playlistIndexRsp => do
    let isSucc ← command.load 2
    let allFolderCount ← load16 command 3
    let allFileCount ← load16 command 5
    let allAudioFolderCount ← load16 command 7
    let allVideoFolderCount ← load16 command 9
    let allPhotoFolderCount ← load16 command 11
    let allAudioFileCount ← load16 command 13
    let allVideoFileCount ← load16 command 15
    let allPhotoFileCount ← load16 command 17
    return some (.playlistIndex isSucc allFolderCount allFileCount
        allAudioFolderCount allVideoFolderCount
        allPhotoFolderCount allAudioFileCount
        allVideoFileCount allPhotoFileCount)
| .playlistIndexInfo => return none
| .playlistNameRsp => do
    let fileNum ← command.load 2
    let text ← copyField mpegTextSize command 3 length
    return some (.playlistName fileNum (zeroedText text))
| .keyControlCfm => do
    let isSucc ← command.load 2
    return some (.keyControlCfm isSucc)
| .dbgMsg => do
    let _ ← dbgMessage command length
    return none
| .sourceCfm => do
    let sourceOff ← command.load 2
    return some (.sourceCfm sourceOff)
| .discStatus => return none
| .dvdDispInfo => do
    let audioNum ← command.load 2
    let audioIndex ← command.load 3
    let audioCodingType ← command.load 4
    let audioChannelNum ← command.load 5
    let audioIso693Val ← load16 command 6
    let subtitleIso693Val ← load16 command 8
    let subtitleAllNum ← command.load 10
    let subtitleCurrIndex ← command.load 11
    return some (.dvdDispInfo audioNum audioIndex audioCodingType
        audioChannelNum audioIso693Val subtitleIso693Val
        subtitleAllNum subtitleCurrIndex)
| .id3Info => do
    let text ← copyField mpegTextSize command 2 (uintSub length 2)
    return some (.id3Info (zeroedText text))
| .setSuspendCfm => do
    let commandResult ← command.load 2
    return some (.setSuspendCfm commandResult)
| .powerOffCfm => do
    let commandResult ← command.load 2
    let data ← copyField bookmarkSize command 3 bookmarkSize
    return some (.powerOffCfm commandResult data)
| .getBookmark => return some .getBookmark

/- The report for a command id; others are ignored. -/
def mpegReportOf (command : Buffer) (length : Nat)
    (commandId : UInt8) : Except Fault (Option MpegReport) :=
  match mpegReportType commandId with
  | some type => mpegReport command length type
  | none => .ok none

/-
  `parse_command` of `libmpeg`: whether the checksum is right, which is only logged, and the
  notification.
-/
def mpegParseCommand (command : Buffer) : Except Fault (Bool × Option MpegReport) := do
  let lengthByte ← command.load 0
  let length := lengthByte.toNat
  let summed ← command.block 0 length
  let checksum ← command.load length
  let commandId ← command.load 1
  let report ← mpegReportOf command length commandId
  return (checksum = calcChecksum summed, report)

------
-- Lengths That Are Safe
------

variable {command : Buffer}

/- The lengths that a report's copies allow. -/
def MpegReportType.LengthSafe (length : Nat) : MpegReportType → Prop
| .playlistNameRsp => length ≤ 253
| .dbgMsg => 2 ≤ length
| .id3Info => 2 ≤ length
| _ => True

theorem store_eq {buf : Buffer} {i : Nat}
    (hSize : buf.length = mpegTextSize) (hLt : i < 256) (c : UInt8) :
    ∃ next, store buf i c = .ok next ∧ next.length = mpegTextSize := by
  have hFits : i + 1 ≤ buf.length := hSize ▸ hLt
  refine ⟨_, memset_eq c hFits, ?_⟩
  rw [length_fill c hFits, hSize]

section

variable {length : Nat} (hSize : command.length = maxCommandByteLength)

include hSize

theorem dbgLoop_safe (hLength : length ≤ 253) {dbgMsg : Buffer}
    (hMsg : dbgMsg.length = mpegTextSize) : Safe (dbgLoop command length dbgMsg) := by
  induction length generalizing dbgMsg with
  | zero => exact ⟨dbgMsg, rfl⟩
  | succ length ih =>
    rcases store_eq hMsg (show length < 256 by omega) (byte command (2 + length)) with
      ⟨next, hStore, hNext⟩
    rw [dbgLoop, load_byte hSize (by omega), ok_bind, hStore]
    exact ih (by omega) hNext

theorem dbgMessage_safe_iff (hLength : length ≤ 255) :
    Safe (dbgMessage command length) ↔ 2 ≤ length := by
  unfold dbgMessage
  rcases lt_or_ge length 2 with hShort | hLong
  · apply iff_of_false
    · rw [uintSub_of_lt hShort]
      rintro ⟨msg, hMsg⟩
      rcases bind_eq_ok.mp hMsg with ⟨next, hStore, _⟩
      unfold store Buffer.memset at hStore
      rw [if_neg] at hStore
      · cases hStore
      · rw [length_replicate, mpegTextSize]
        omega
    · omega
  · rw [uintSub_of_le hLong (by omega)]
    have hMsg : (replicate mpegTextSize (0 : UInt8)).length = mpegTextSize := length_replicate
    rcases store_eq hMsg (show length - 2 < 256 by omega) 0 with ⟨next, hStore, hNext⟩
    apply iff_of_true _ hLong
    dsimp only
    rw [hStore]
    exact dbgLoop_safe hSize (by omega) hNext

/- The reports without a copy only read fixed places. -/
theorem mpegReport_safe_iff (hLength : length ≤ 255) (type : MpegReportType) :
    Safe (mpegReport command length type) ↔ type.LengthSafe length := by
  have hLoad {α : Type} {f : UInt8 → Except Fault α} {i : Nat} (hLt : i < 256)
      (hRest : ∀ c, Safe (f c)) : Safe (command.load i >>= f) :=
    (load_safe hSize hLt).bind hRest
  have hLoad16 {α : Type} {f : Nat → Except Fault α} {i : Nat} (hLt : i + 1 < 256)
      (hRest : ∀ c, Safe (f c)) : Safe (load16 command i >>= f) :=
    (load16_safe hSize hLt).bind hRest
  have hByte (report : UInt8 → MpegReport) : Safe (do
        let c ← command.load 2
        return some (report c)) :=
    hLoad (by decide) fun _ => safe_pure _
  cases type with
  | hostInd => exact iff_of_true (safe_pure _) trivial
  | initCfm | deviceStatus | keyControlCfm => exact iff_of_true (hByte _) trivial
  | playStatus =>
    apply iff_of_true _ trivial
    iterate 3 refine hLoad (by decide) fun _ => ?_
    exact safe_pure _
  | playInfo =>
    apply iff_of_true _ trivial
    refine hLoad (by decide) fun _ => ?_
    iterate 7 refine hLoad16 (by decide) fun _ => ?_
    exact safe_pure _
  | id3Info =>
    apply safe_bind_pure.trans
    rw [copyField_safe_iff hSize, mpegTextSize, maxCommandByteLength]
    change _ ↔ 2 ≤ length
    rcases lt_or_ge length 2 with hShort | hLong
    · rw [uintSub_of_lt hShort]
      omega
    · rw [uintSub_of_le hLong (by omega)]
      omega
  | playlistIndexRsp =>
    apply iff_of_true _ trivial
    refine hLoad (by decide) fun _ => ?_
    iterate 8 refine hLoad16 (by decide) fun _ => ?_
    exact safe_pure _
  | playlistIndexInfo => exact iff_of_true (safe_pure none) trivial
  | playlistNameRsp =>
    apply safe_bind_of_safe (load_safe hSize (by decide))
    intro fileNum
    apply safe_bind_pure.trans
    rw [copyField_safe_iff hSize, mpegTextSize, maxCommandByteLength]
    change _ ↔ length ≤ 253
    omega
  | dvdDispInfo =>
    apply iff_of_true _ trivial
    iterate 4 refine hLoad (by decide) fun _ => ?_
    iterate 2 refine hLoad16 (by decide) fun _ => ?_
    iterate 2 refine hLoad (by decide) fun _ => ?_
    exact safe_pure _
  | sourceCfm | setSuspendCfm => exact iff_of_true (hByte _) trivial
  | powerOffCfm =>
    apply safe_bind_of_safe (load_safe hSize (by decide))
    intro commandResult
    apply safe_bind_pure.trans
    rw [copyField_safe_iff hSize]
    exact iff_of_true (by decide) trivial
  | getBookmark => exact iff_of_true (safe_pure _) trivial
  | discStatus => exact iff_of_true (safe_pure none) trivial
  | dbgMsg =>
    exact safe_bind_pure.trans (dbgMessage_safe_iff hSize hLength)

end

def RawFrame.mpegType (f : RawFrame mpeg) : Option MpegReportType :=
  mpegReportType (byte f.command 1)

/-
  A frame is parsed inside all buffers if and only if its length is one that the copies of its
  report allow.
-/
theorem mpeg_parse_safe_iff (f : RawFrame mpeg) :
    Safe (mpegParseCommand f.command) ↔ ∀ type, f.mpegType = some type →
      type.LengthSafe f.length.toNat := by
  have hSize := f.length_command
  have hLt := f.length.toNat_lt
  have hBlock : 0 + f.length.toNat ≤ f.command.length := by
    rw [hSize, maxCommandByteLength]
    omega
  unfold mpegParseCommand
  rw [load_eq f.command_zero, ok_bind]
  dsimp only
  rw [block_eq hBlock, ok_bind, load_byte hSize hLt, ok_bind, load_byte hSize (by decide), ok_bind]
  apply safe_bind_pure.trans
  unfold mpegReportOf RawFrame.mpegType
  cases mpegReportType (byte f.command 1) with
  | none =>
    refine iff_of_true (safe_pure none) ?_
    intro type hType
    cases hType
  | some type =>
    have hReport := mpegReport_safe_iff hSize (Nat.le_of_lt_succ hLt) type
    constructor
    · intro hSafe other hOther
      cases hOther
      exact hReport.mp hSafe
    · intro hAll
      exact hReport.mpr (hAll type rfl)

/- A debug message without a text or a checksum. -/
def shortDbgMsg : RawFrame mpeg where
  length := 1
  good := rfl
  rest := [0xF0]
  complete := rfl

/- Names of 254 bytes, with their command id. -/
def longNames : RawFrame mpeg where
  length := 254
  good := rfl
  rest := 0x91 :: replicate 253 0
  complete := by
    rw [length_cons, length_replicate]
    rfl

theorem mpeg_parse_not_safe :
    mpegParseCommand shortDbgMsg.command = .error .outOfBounds ∧
      mpegParseCommand longNames.command = .error .outOfBounds := by
  constructor
  · decide +kernel
  · decide +kernel

------
-- Every Search Ends
------

variable {r : Reader} {parsed : List Buffer} {next : Reader}

/-
  `Overflows p k w`: a search of the window `w` from `k` on comes to a complete frame that is too
  long for `command`.
-/
inductive Overflows (p : Protocol) : Nat → List UInt8 → Prop where
| command {k i : Nat} {w : List UInt8} {length : UInt8} : LengthAt p k w i length →
    p.badLength length.toNat = false → i + 3 + length.toNat + p.checksumBytes ≤ w.length →
    maxCommandByteLength < length.toNat + 1 + p.checksumBytes → Overflows p k w
| falseHead {k i : Nat} {w : List UInt8} {b : UInt8} : Buffer.FirstFrom w k p.startByteOne i →
    w[i + 1]? = some b → b ≠ p.startByteTwo → Overflows p (i + 1) w → Overflows p k w
| frame {k i : Nat} {w : List UInt8} {length : UInt8} : LengthAt p k w i length →
    p.badLength length.toNat = false → i + 3 + length.toNat + p.checksumBytes ≤ w.length →
    length.toNat + 1 + p.checksumBytes ≤ maxCommandByteLength →
    Overflows p k (w.drop (i + 3 + length.toNat)) → Overflows p k w

/- A search ends in one of two ways. -/
def Settled (p : Protocol) (k : Nat) (w : List UInt8) : Prop :=
  (∃ parsed keep, Scans p k w parsed keep) ∨ Overflows p k w

variable {p : Protocol} {k i : Nat} {w : List UInt8} {length : UInt8}

/- Behind a length byte the search settles. -/
theorem LengthAt.settled (hLength : LengthAt p k w i length)
    (hRest : Settled p k (w.drop (i + 3 + length.toNat))) : Settled p k w := by
  cases hBad : p.badLength length.toNat with
  | true => exact .inl ⟨[], w, .badLength hLength hBad⟩
  | false =>
    rcases lt_or_ge w.length (i + 3 + length.toNat + p.checksumBytes) with hShort | hEnough
    · exact .inl ⟨[], w.drop i, .partialFrame hLength hBad hShort⟩
    · rcases lt_or_ge maxCommandByteLength (length.toNat + 1 + p.checksumBytes) with
        hLong | hCommand
      · exact .inr (.command hLength hBad hEnough hLong)
      · rcases hRest with ⟨parsed, keep, hScans⟩ | hOver
        · exact .inl ⟨_, keep, .frame hLength hBad hEnough hCommand hScans⟩
        · exact .inr (.frame hLength hBad hEnough hCommand hOver)

/-
  Every search settles. Each pass moves the start of the search up or takes bytes out of the window.
-/
theorem scans_or_overflows (p : Protocol) (k : Nat) (w : List UInt8) : Settled p k w := by
  induction hSize : w.length + (w.length - k)
    using Nat.strong_induction_on generalizing k w with
  | _ size ih =>
    rcases Buffer.firstFrom_or_absent w k p.startByteOne with ⟨i, hFirst⟩ | hAbsent
    · have hGe := hFirst.ge
      have hLt := lt_length_of_getElem? hFirst.holds
      rcases Nat.lt_or_eq_of_le hLt with hNext | hLast
      · have hByte : w[i + 1]? = some w[i + 1] := getElem?_eq_getElem hNext
        by_cases hTwo : w[i + 1] = p.startByteTwo
        · rw [hTwo] at hByte
          by_cases hShort : i + 2 = w.length ∨ i + 3 = w.length
          · exact .inl ⟨[], w.drop i, .header ⟨hFirst, hByte⟩ hShort⟩
          · have hMore : i + 3 < w.length := by omega
            have hLength : w[i + 2]? = some (w[i + 2]) := getElem?_eq_getElem (by omega)
            apply LengthAt.settled ⟨⟨hFirst, hByte⟩, hLength, hMore⟩
            refine ih _ ?_ k _ rfl
            rw [length_drop]
            omega
        · rcases ih _ (by omega) (i + 1) w rfl with ⟨parsed, keep, hScans⟩ | hOver
          · exact .inl ⟨parsed, keep, .falseHead hFirst hByte hTwo hScans⟩
          · exact .inr (.falseHead hFirst hByte hTwo hOver)
      · exact .inl ⟨[], w.drop i, .lastByte hFirst hLast⟩
    · exact .inl ⟨[], [], .noHead hAbsent⟩

theorem Overflows.ne_nil (hOver : Overflows p k w) : w ≠ [] := by
  rintro rfl
  cases hOver with
  | command hLength => exact absurd hLength.first.holds (by simp)
  | falseHead hFirst => exact absurd hFirst.holds (by simp)
  | frame hLength => exact absurd hLength.first.holds (by simp)

------
-- A Search That Overflows Fails
------

variable {s : Search}

theorem Represents.command_overflows (h : Represents s k w) (hLength : LengthAt p k w i length)
    (hGood : p.badLength length.toNat = false)
    (hEnough : i + 3 + length.toNat + p.checksumBytes ≤ w.length)
    (hLong : maxCommandByteLength < length.toNat + 1 + p.checksumBytes) :
    searchOnce p s = .error .outOfBounds := by
  have hReady : ¬ w.length - (i + 3) < length.toNat + p.checksumBytes := by omega
  have hCopy := s.reader.copyCommand_overflows hLong (i + 2)
  rw [h.searchOnce_lengthAt hLength]
  simp [afterLength, hGood, h.pos, hReady, Reader.takeCommand, hCopy, bind, Except.bind]

theorem loop_of_again {s next : Search} (hOnce : searchOnce p s = .ok (.again next)) (fuel : Nat) :
    loop (searchOnce p) (fuel + 1) s = loop (searchOnce p) fuel next := by
  simp only [loop, hOnce]

/- Whatever the number of passes, there is no result. -/
theorem Overflows.loop_ne_ok (hOver : Overflows p k w)
    (hRep : Represents s k w) (fuel : Nat) (result : Reader × List Buffer) :
    loop (searchOnce p) fuel s ≠ .ok result := by
  induction hOver generalizing s fuel with
  | command hLength hGood hEnough hLong =>
    have hOnce := hRep.command_overflows hLength hGood hEnough hLong
    cases fuel with
    | zero => simp [loop]
    | succ fuel => simp [loop, hOnce]
  | falseHead hFirst hByte hNe _ ih =>
    rcases hRep.falseHead hFirst hByte hNe with ⟨next, hOnce, _, hNext⟩
    cases fuel with
    | zero => simp [loop]
    | succ fuel =>
      rw [loop_of_again hOnce]
      exact ih hNext fuel
  | frame hLength hGood hEnough hCommand hRest ih =>
    rcases hRep.frame hLength hGood hEnough hCommand with ⟨hEmpty, _⟩ | ⟨next, hOnce, _, hNext⟩
    · exact absurd hEmpty hRest.ne_nil
    · cases fuel with
      | zero => simp [loop]
      | succ fuel =>
        rw [loop_of_again hOnce]
        exact ih hNext fuel

/- A read that succeeds has scanned its window. -/
theorem readerStep_scans (hOne : p.startByteOne ≠ 0) {chunk : List UInt8}
    (hHolds : Holds r w) (hFits : w.length + chunk.length ≤ ttyBufferSize)
    (hStep : readerStep p r chunk = .ok (next, parsed)) :
    ∃ keep, Scans p 0 (w ++ chunk) parsed keep ∧ Holds next keep := by
  rcases scans_or_overflows p 0 (w ++ chunk) with ⟨found, keep, hScans⟩ | hOver
  · rcases readerStep_eq hOne hHolds hFits hScans with ⟨other, hOther, hKept⟩
    rw [hStep] at hOther
    cases hOther
    exact ⟨keep, hScans, hKept⟩
  · rcases hHolds.append hFits with ⟨hCopy, hAppended⟩
    rw [readerStep, hCopy, ok_bind] at hStep
    unfold checkFullCommand at hStep
    split at hStep
    · rename_i hZero
      rw [hAppended.pos] at hZero
      exact absurd (length_eq_zero_iff.mp hZero) hOver.ne_nil
    · exact absurd hStep (hOver.loop_ne_ok hAppended.represents _ _)

------
-- The Reader Of libmpeg
------

variable {chunk : List UInt8}

/- Frames of `libmpeg` always fit into `command`. -/
theorem mpeg_not_overflows {k : Nat} : ¬ Overflows mpeg k w := by
  intro hOver
  induction hOver with
  | @command k i w length hLength hGood hEnough hLong =>
    have hByte := length.toNat_lt
    change maxCommandByteLength < length.toNat + 1 + 0 at hLong
    unfold maxCommandByteLength at hLong
    omega
  | falseHead _ _ _ _ ih | frame _ _ _ _ _ ih => exact ih

theorem mpeg_readerStep (hHolds : Holds r w)
    (hShort : w.length ≤ 257) (hChunk : chunk.length ≤ maxReadByteOnce) :
    ∃ next parsed keep, readerStep mpeg r chunk = .ok (next, parsed) ∧
      Holds next keep ∧ keep.length ≤ 257 := by
  have hFits : w.length + chunk.length ≤ ttyBufferSize := by
    unfold maxReadByteOnce at hChunk
    unfold ttyBufferSize
    omega
  rcases scans_or_overflows mpeg 0 (w ++ chunk) with ⟨parsed, keep, hScans⟩ | hOver
  · rcases readerStep_eq (by decide) hHolds hFits hScans with ⟨next, hStep, hKept⟩
    exact ⟨next, parsed, keep, hStep, hKept, hScans.keep_length_le⟩
  · exact absurd hOver mpeg_not_overflows

theorem mpeg_runReader {chunks : List (List UInt8)} (hCut : IsCut maxReadByteOnce chunks)
    (hHolds : Holds r w) (hShort : w.length ≤ 257) :
    ∃ last parsed keep, runReader mpeg r chunks = .ok (last, parsed) ∧
      Holds last keep ∧ keep.length ≤ 257 := by
  induction chunks generalizing r w with
  | nil => exact ⟨r, [], w, rfl, hHolds, hShort⟩
  | cons chunk chunks ih =>
    rcases forall_mem_cons.mp hCut with ⟨hChunk, hRest⟩
    rcases mpeg_readerStep hHolds hShort hChunk.2 with ⟨next, parsed, keep, hStep, hKept, hKeep⟩
    rcases ih hRest hKept hKeep with ⟨last, later, left, hRun, hLeft, hLeftShort⟩
    exact ⟨last, parsed ++ later, left, feed_cons hStep hRun, hLeft, hLeftShort⟩

/-
  In every run the reader holds at most 257 bytes after each search. The next read is appended below
  514, inside the buffer; the search behind it ends, with all of its copies inside the buffers, and
  leaves at most 257 bytes again.
-/
theorem mpeg_reader_bounded {chunks : List (List UInt8)} {chunk : List UInt8}
    (hCut : IsCut maxReadByteOnce (chunks ++ [chunk])) :
    ∃ r parsed next last, runReader mpeg Reader.init chunks = .ok (r, parsed) ∧
      r.ttyBuffer.length = ttyBufferSize ∧ r.tmpBuffer.length = ttyBufferSize ∧
      r.ttyBufferPos ≤ 257 ∧ r.ttyBufferPos + chunk.length ≤ 513 ∧ 513 ≤ ttyBufferSize ∧
      readerStep mpeg r chunk = .ok (next, last) ∧ next.ttyBufferPos ≤ 257 := by
  rcases forall_mem_append.mp hCut with ⟨hRest, hLast⟩
  have hChunk := hLast chunk mem_cons_self
  rcases mpeg_runReader hRest Holds.init (by simp) with ⟨r, parsed, w, hRun, hHolds, hShort⟩
  rcases mpeg_readerStep hHolds hShort hChunk.2 with ⟨next, last, keep, hStep, hKept, hKeep⟩
  have hPos : r.ttyBufferPos ≤ 257 := by
    rw [hHolds.pos]
    exact hShort
  have hAppend : r.ttyBufferPos + chunk.length ≤ 513 := Nat.add_le_add hPos hChunk.2
  refine ⟨r, parsed, next, last, hRun, hHolds.ttyLength,
      hHolds.tmpLength, hPos, hAppend, by decide, hStep, ?_⟩
  rw [hKept.pos]
  exact hKeep

/- A frame of 255 bytes that is read in two parts. -/
theorem mpeg_reader_bounded_two_parts :
    ∃ r parsed next last, runReader mpeg Reader.init [[0x4B, 0xB4, 0xFF] ++ replicate 253 0] =
      .ok (r, parsed) ∧ readerStep mpeg r [0x4B] = .ok (next, last) ∧ next.ttyBufferPos ≤ 257 := by
  have hCut : IsCut maxReadByteOnce ([[0x4B, 0xB4, 0xFF] ++ replicate 253 0] ++ [[0x4B]]) := by
    decide +kernel
  rcases mpeg_reader_bounded hCut with ⟨r, parsed, next, last, hRun, _, _, _, _, _, hStep, hNext⟩
  exact ⟨r, parsed, next, last, hRun, hStep, hNext⟩

------
-- The Reader Of libipod
------

/-
  A head with a zero length byte and a byte behind it: the large packet format, on which the search
  gives up.
-/
def LargePacket (w : List UInt8) : Prop :=
  ∃ i, w[i]? = some ipod.startByteOne ∧ w[i + 1]? = some ipod.startByteTwo ∧
    w[i + 2]? = some 0 ∧ i + 3 < w.length

/- A read that is appended ends inside `tty_buffer`. -/
def AppendFits (r : Reader) (chunk : List UInt8) : Prop :=
  r.ttyBufferPos + chunk.length ≤ ttyBufferSize

instance (r : Reader) (chunk : List UInt8) : Decidable (AppendFits r chunk) :=
  inferInstanceAs (Decidable (r.ttyBufferPos + chunk.length ≤ _))

/- One read of `libipod`. -/
def ipodStep (r : Reader) (chunk : List UInt8) : Except Fault Reader := do
  let (r, _) ← readerStep ipod r chunk
  return r

/- A search leaves one incomplete frame, or it gave up on a large packet. -/
theorem Scans.ipod_keep {k : Nat} {keep : List UInt8} (hScans : Scans ipod k w parsed keep) :
    keep.length ≤ 258 ∨ LargePacket keep := by
  induction hScans with
  | noHead => exact .inl (Nat.zero_le 258)
  | falseHead _ _ _ _ ih => exact ih
  | lastByte _ hShort | header _ hShort =>
    left
    rw [length_drop]
    omega
  | @badLength k i w length hLength hBad =>
    right
    have hZero : length = 0 := UInt8.toNat_inj.mp (beq_iff_eq.mp hBad)
    refine ⟨i, hLength.first.holds, hLength.second, ?_, hLength.more⟩
    rw [← hZero]
    exact hLength.lengthByte
  | @partialFrame k i w length hLength hGood hShort =>
    left
    have hLt := length.toNat_lt
    change w.length < i + 3 + length.toNat + 1 at hShort
    rw [length_drop]
    omega
  | frame _ _ _ _ _ ih => exact ih

/- What holds of the reader after every search. -/
def Kept (r : Reader) : Prop :=
  ∃ w, Holds r w ∧ (w.length ≤ 258 ∨ LargePacket w)

theorem Kept.step (hKept : Kept r) (hFits : AppendFits r chunk)
    (hStep : ipodStep r chunk = .ok next) : Kept next := by
  rcases hKept with ⟨w, hHolds, _⟩
  rcases bind_eq_ok.mp hStep with ⟨⟨last, parsed⟩, hRead, hEq⟩
  cases hEq
  unfold AppendFits at hFits
  rw [hHolds.pos] at hFits
  rcases readerStep_scans (by decide) hHolds hFits hRead with ⟨keep, hScans, hNext⟩
  exact ⟨keep, hNext, hScans.ipod_keep⟩

theorem Kept.appendFits (hKept : Kept r) (hChunk : chunk.length ≤ maxReadByteOnce)
    (hLarge : LargePacket r.window → AppendFits r chunk) : AppendFits r chunk := by
  rcases hKept with ⟨w, hHolds, hShort | hGaveUp⟩
  · unfold AppendFits
    rw [hHolds.pos]
    calc
      w.length + chunk.length ≤ 258 + maxReadByteOnce := Nat.add_le_add hShort hChunk
      _ ≤ ttyBufferSize := by decide
  · apply hLarge
    rw [hHolds.window_eq]
    exact hGaveUp

/-
  All reads of a run are appended inside the buffer if and only if those are that follow a search
  which left a large packet in the buffer.
-/
theorem ipod_appends_fit_iff {chunks : List (List UInt8)} (hCut : IsCut maxReadByteOnce chunks) :
    Along ipodStep AppendFits Reader.init chunks ↔ Along ipodStep (fun r chunk =>
      LargePacket r.window → AppendFits r chunk)
        Reader.init chunks := by
  have hStart : Kept Reader.init := ⟨[], .init, .inl (Nat.zero_le 258)⟩
  generalize Reader.init = r at hStart
  induction chunks generalizing r with
  | nil => exact iff_of_true trivial trivial
  | cons chunk chunks ih =>
    rcases forall_mem_cons.mp hCut with ⟨hChunk, hRest⟩
    constructor
    · rintro ⟨hFits, hLater⟩
      refine ⟨fun _ => hFits, ?_⟩
      intro next hNext
      exact (ih hRest next (hStart.step hFits hNext)).mp (hLater next hNext)
    · rintro ⟨hLarge, hLater⟩
      have hFits := hStart.appendFits hChunk.2 hLarge
      refine ⟨hFits, ?_⟩
      intro next hNext
      exact (ih hRest next (hStart.step hFits hNext)).mpr (hLater next hNext)

/- A large packet that is still small enough. -/
theorem ipod_appends_fit_small :
    Along ipodStep AppendFits Reader.init [[0xFF, 0x55, 0x00, 0x01], [0x02]] := by
  apply (ipod_appends_fit_iff (by decide)).mpr
  refine ⟨fun _ => by decide, ?_⟩
  intro next hNext
  refine ⟨fun _ => ?_, fun _ _ => trivial⟩
  have hPos : (ipodStep Reader.init [0xFF, 0x55, 0x00, 0x01]).map (·.ttyBufferPos) = .ok 4 := by
    decide +kernel
  rw [hNext] at hPos
  have hFour : next.ttyBufferPos = 4 := Except.ok.inj hPos
  unfold AppendFits
  rw [hFour]
  decide

/- A head with a zero length byte, and 253 bytes more. -/
def largePacketRead : List UInt8 :=
  [0xFF, 0x55, 0x00] ++ replicate 253 0

/-
  The reader keeps all of 512 bytes that are read behind such a head; the third read of 256 leaves
  the buffer.
-/
theorem ipod_append_overflows :
    IsCut maxReadByteOnce [largePacketRead, replicate 256 0, replicate 256 0] ∧
      (runReader ipod Reader.init [largePacketRead, replicate 256 0]).map
        (·.1.ttyBufferPos) = .ok 512 ∧
      runReader ipod Reader.init [largePacketRead, replicate 256 0, replicate 256 0] =
        .error .outOfBounds := by
  refine ⟨?_, ?_, ?_⟩
  · decide +kernel
  · decide +kernel
  · decide +kernel

end OpenIvi.Serial
