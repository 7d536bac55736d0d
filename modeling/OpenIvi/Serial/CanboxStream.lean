import Mathlib.Data.List.GetD
import OpenIvi.Bionic.Semaphore
import OpenIvi.Lib.Decoder
import OpenIvi.Serial.Canbox

/-
  Clean streams of `libcanbox`, and the commands that `canbox_write` writes.

  The reader takes a frame out as soon as its data is there, with a zero in place of a checksum byte
  that has not been read yet. So a stream of well-formed frames is delivered exactly if no read ends
  right in front of a checksum byte that is not zero.

  A command is written and its acknowledgement waited for with `sem_timedwait`, up to three times.
  The read thread posts `sem_command_count` for every acknowledgement. The loop goes on and the
  result is -1 for `ETIME`, but a `sem_timedwait` that times out sets `ETIMEDOUT`.

  Main declarations:
    * `Canbox.Delivered`
    * `Canbox.canbox_delivers_iff`
    * `CanboxWrite.canboxWrite_eq`
    * `CanboxWrite.canbox_write_truthful_iff`
-/

------
-- Well-Formed Frames
------

namespace OpenIvi.Serial.Canbox

open Lib List Buffer

variable {ahead : Nat}

/- A type byte and at most 60 bytes of data. -/
structure Frame where
  type : UInt8
  data : List UInt8
  bounded : data.length ≤ 60

namespace Frame

variable (f : Frame)

def lengthByte : UInt8 :=
  UInt8.ofNat f.data.length

/- The complement of the sum of type, length and data. -/
def checksum : UInt8 :=
  ~~~ (f.type + f.lengthByte + f.data.sum)

/- The frame up to its checksum. -/
def fields : List UInt8 :=
  startByte :: f.type :: f.lengthByte :: f.data

/- The frame as sent. -/
def bytes : List UInt8 :=
  f.fields ++ [f.checksum]

/- The notification that stands for the frame. -/
def notification : Notification where
  data := f.bytes
  bufferSize := f.data.length + 4

@[simp] theorem toNat_lengthByte : f.lengthByte.toNat = f.data.length := by
  have hBounded := f.bounded
  apply UInt8.toNat_ofNat_of_lt'
  change f.data.length < 256
  omega

@[simp] theorem length_fields : f.fields.length = f.data.length + 3 := by
  simp [fields]

@[simp] theorem length_bytes : f.bytes.length = f.data.length + 4 := by
  simp [bytes]

theorem canboxCalcChecksum_eq :
    canboxCalcChecksum (f.type :: f.lengthByte :: f.data) = f.checksum := by
  have hSum : (f.type :: f.lengthByte :: f.data).foldl (· + ·) 0 =
      f.type + f.lengthByte + f.data.sum := by
    rw [← sum_eq_foldl, sum_cons, sum_cons, UInt8.add_assoc]
  have hXor : ∀ x : UInt8, x ^^^ 0xFF = ~~~x := by
    intro x
    rw [← UInt8.toBitVec_inj]
    exact BitVec.xor_allOnes
  rw [canboxCalcChecksum, hSum, hXor, checksum]

/- The verification of a frame with any byte `c` in the place of its checksum. -/
theorem verifyNotification_eq (c : UInt8) :
    verifyNotification (paddedCommand (f.fields ++ [c])) (f.data.length + 4) = .ok
      (if c = f.checksum then
        [.push f.notification, .write 0xFF]
      else
        [.write 0xF0]) := by
  have hBounded := f.bounded
  have hPadded : paddedCommand (f.fields ++ [c]) = (f.fields ++ [c]) ++ replicate
      (maxCommandByteLength - (f.data.length + 4))
      0 := by
    simp [paddedCommand, splice_zero]
  have hLength : (paddedCommand (f.fields ++ [c])).length = 256 := by
    rw [hPadded, length_append, length_append, f.length_fields, length_replicate]
    change _ + 1 + (256 - _) = 256
    omega
  have hLoad : (paddedCommand (f.fields ++ [c])).load 2 = .ok f.lengthByte := by
    apply load_eq
    rfl
  have hSummed : (paddedCommand (f.fields ++ [c])).block 1 (f.data.length + 2) =
      .ok (f.type :: f.lengthByte :: f.data) := by
    rw [block_eq (by omega), hPadded]
    simp [fields]
  have hLast : (paddedCommand (f.fields ++ [c])).load (f.data.length + 3) = .ok c := by
    apply load_eq
    rw [hPadded, append_assoc, getElem?_append_right (by simp)]
    simp
  have hData : (paddedCommand (f.fields ++ [c])).block 0 (f.data.length + 4) =
      .ok (f.fields ++ [c]) := by
    rw [block_eq (by omega), hPadded, drop_zero, take_left' (by simp)]
  have hSize : ¬ notificationDataSize < f.data.length + 4 := by
    change ¬ 64 < _
    omega
  by_cases hChecksum : c = f.checksum
  · subst hChecksum
    simp [verifyNotification, hLoad, hSummed, hLast, hSize, hData, f.canboxCalcChecksum_eq,
      pushCanboxNotificaiton, notification, bytes]
  · have hNe : ¬ f.checksum = c := fun hEq => hChecksum hEq.symm
    simp [verifyNotification, hLoad, hSummed, hLast, f.canboxCalcChecksum_eq, hChecksum, hNe, pure,
      Except.pure]

end Frame

------
-- Where Reads End
------

/-
  The places right in front of a checksum that is not zero, behind at least one byte of data, in a
  stream of frames that begins at `start`.
-/
def checksumGaps : Nat → List Frame → List Nat
| _, [] => []
| start, f :: frames =>
  (if f.data ≠ [] ∧ f.checksum ≠ 0 then
      [start + f.data.length + 3]
    else
      []) ++ checksumGaps (start + f.data.length + 4) frames

/- The places where the reads end, the first at `start`. -/
def readEnds : Nat → List (List UInt8) → List Nat
| _, [] => []
| start, chunk :: chunks =>
  (start + chunk.length) :: readEnds (start + chunk.length) chunks

variable {start p pos : Nat} {frames : List Frame}

theorem gap_or_later {f : Frame} (hMem : p ∈ checksumGaps start (f :: frames)) :
    f.data ≠ [] ∧ p = start + f.data.length + 3 ∨
      p ∈ checksumGaps (start + f.data.length + 4) frames := by
  rcases mem_append.mp hMem with hGap | hLater
  · split at hGap
    next hCond => exact .inl ⟨hCond.1, mem_singleton.mp hGap⟩
    next => cases hGap
  · exact .inr hLater

/- No gap is inside the first three bytes. -/
theorem lt_of_mem_checksumGaps (hMem : p ∈ checksumGaps start frames) : start + 3 < p := by
  induction frames generalizing start with
  | nil => cases hMem
  | cons f frames ih =>
    rcases gap_or_later hMem with ⟨hData, hGap⟩ | hLater
    · have hLength := length_pos_iff.mpr hData
      omega
    · have hLt := ih hLater
      omega

/- Every gap lies inside the stream. -/
theorem checksumGaps_lt (hMem : p ∈ checksumGaps start frames) :
    p < start + (stream Frame.bytes frames).length := by
  induction frames generalizing start with
  | nil => cases hMem
  | cons f frames ih =>
    rw [stream_cons, length_append, f.length_bytes]
    rcases gap_or_later hMem with ⟨_, hGap⟩ | hLater
    · omega
    · have hLt := ih hLater
      omega

theorem checksumGaps_append (start : Nat) (frames later : List Frame) :
    checksumGaps start (frames ++ later) = checksumGaps start frames ++ checksumGaps
      (start + (stream Frame.bytes frames).length)
      later := by
  induction frames generalizing start with
  | nil => rfl
  | cons f frames ih =>
    rw [cons_append, checksumGaps, checksumGaps, ih, append_assoc, stream_cons, length_append,
      f.length_bytes]
    congr 3
    omega

variable {chunks : List (List UInt8)}

theorem lt_of_mem_readEnds (hCut : IsCut maxReadByteOnce chunks)
    (hMem : p ∈ readEnds start chunks) : start < p := by
  induction chunks generalizing start with
  | nil => cases hMem
  | cons chunk chunks ih =>
    rcases forall_mem_cons.mp hCut with ⟨hChunk, hRest⟩
    rcases mem_cons.mp hMem with hEq | hLater
    · omega
    · have hLt := ih hRest hLater
      omega

------
-- Scanning A Clean Stream
------

variable {effects : List Effect}

/- The notifications that were pushed. -/
def pushed (effects : List Effect) : List Notification :=
  effects.filterMap fun effect =>
    match effect with
    | .push notification => some notification
    | _ => none

/-
  The effects push one notification for each of the frames and never answer with the checksum error.
-/
structure Delivered (frames : List Frame) (effects : List Effect) : Prop where
  pushes : pushed effects = frames.map Frame.notification
  noError : Effect.write 0xF0 ∉ effects

theorem Delivered.ackEffects (w : List UInt8) : Delivered [] (ackEffects w) := by
  unfold Canbox.ackEffects
  split
  next => exact ⟨rfl, by simp⟩
  next => exact ⟨rfl, by simp⟩

theorem Delivered.append {later : List Frame}
    {effects more : List Effect} (hFirst : Delivered frames effects)
    (hLater : Delivered later more) : Delivered (frames ++ later) (effects ++ more) where
  pushes := by
    have hSplit : pushed (effects ++ more) = pushed effects ++ pushed more := filterMap_append
    rw [hSplit, hFirst.pushes, hLater.pushes, map_append]
  noError := by
    intro hMem
    rcases mem_append.mp hMem with hLeft | hRight
    · exact hFirst.noError hLeft
    · exact hLater.noError hRight

theorem Frame.delivered (f : Frame) : Delivered [f] [.push f.notification, .write 0xFF] where
  pushes := rfl
  noError := by simp

/-
  What is still to come of a clean stream when the window is `keep`. If a frame was taken out
  without its checksum, the zero that stands for it is the next byte.
-/
structure Pending (frames : List Frame) (future keep : List UInt8) (ahead : Nat) : Prop where
  split : (ahead = 0 ∧ keep ++ future = stream Frame.bytes frames) ∨
      (ahead = 1 ∧ keep = [] ∧ future = 0 :: stream Frame.bytes frames)
  short : ∀ f ∈ frames.head?, keep.length < f.bytes.length

variable {future keep lead : List UInt8}

/- The window never holds a whole frame. -/
theorem Pending.length_le (h : Pending frames future keep ahead) : keep.length ≤ 63 := by
  cases frames with
  | nil =>
    rcases h.split with ⟨-, hStream⟩ | ⟨-, hKeep, -⟩
    · have hLength := congrArg length hStream
      rw [length_append, stream_nil] at hLength
      simp only [length_nil] at hLength
      omega
    · simp [hKeep]
  | cons f frames =>
    have hLt := h.short f (by simp)
    have hBounded := f.bounded
    rw [f.length_bytes] at hLt
    omega

theorem Pending.length_eq (h : Pending frames future keep ahead) :
    keep.length + future.length = ahead + (stream Frame.bytes frames).length := by
  rcases h.split with ⟨hAhead, hStream⟩ | ⟨hAhead, hKeep, hFuture⟩
  · rw [← hStream, length_append]
    omega
  · rw [hKeep, hFuture, length_nil, length_cons]
    omega

theorem firstFrom_lead (hLead : lead = [] ∨ lead = [0]) (tail : List UInt8) :
    Buffer.FirstFrom (lead ++ startByte :: tail) 0 startByte lead.length := by
  refine ⟨by omega, by simp, ?_⟩
  intro j _ hj
  rcases hLead with rfl | rfl
  · simp at hj
  · have hZero : j = 0 := by simpa using hj
    subst hZero
    simp [startByte]

theorem scans_lead (hLead : lead = [] ∨ lead = [0]) :
    Scans lead (ackEffects lead) [] lead.length := by
  apply Scans.noHead
  intro i hByte
  have hMem := mem_of_getElem? hByte
  rcases hLead with rfl | rfl
  · cases hMem
  · exact absurd hMem (by decide)

namespace Frame

variable {part missing : List UInt8}

section

variable (f : Frame) (hLead : lead = [] ∨ lead = [0])

include hLead

theorem lengthAt (tail : List UInt8) (hMore : 1 ≤ tail.length) :
    LengthAt (lead ++ startByte :: f.type :: f.lengthByte :: tail) lead.length f.lengthByte where
  first := firstFrom_lead hLead _
  lengthByte := by simp
  more := by
    simp only [length_append, length_cons]
    omega

/- A frame is kept as long as data is missing, or there is no byte behind its length byte. -/
theorem scans_part (hBytes : f.bytes = part ++ missing) (hPart : part ≠ [])
    (hShort : part.length ≤ 3 ∨ part.length < f.data.length + 3) :
    Scans (lead ++ part) (ackEffects (lead ++ part)) part
      lead.length := by
  have hKeep : (lead ++ part).drop lead.length = part := drop_left
  cases part with
  | nil => exact absurd rfl hPart
  | cons a tail =>
    have hHead : a = startByte := by simpa [bytes, fields] using congrArg head? hBytes.symm
    subst hHead
    have hFirst := firstFrom_lead hLead tail
    match tail, hBytes with
    | [], _ | [_], _ | [_, _], _ =>
      have hScans := Scans.header hFirst (by simp)
      rwa [hKeep] at hScans
    | b :: c :: d :: tail, hBytes =>
      have hFields : f.type = b ∧ f.lengthByte = c ∧ f.data ++ [f.checksum] =
          d :: (tail ++ missing) := by
        simpa [bytes, fields] using hBytes
      rcases hFields with ⟨rfl, rfl, -⟩
      have hScans := Scans.partialFrame (f.lengthAt hLead (d :: tail) (by simp)) (by
            simp only [f.toNat_lengthByte, length_append, length_cons] at hShort ⊢
            omega)
      rwa [hKeep] at hScans

/-
  A frame is taken out when its data is there. The byte behind the data, or zero, is used as its
  checksum.
-/
theorem scans_frame (tail : List UInt8) {keep : List UInt8} {slack : Nat}
    (hMore : 1 ≤ f.data.length + tail.length) (hRest : Scans tail.tail effects keep slack) :
    Scans (lead ++ (f.fields ++ tail)) (ackEffects (lead ++ (f.fields ++ tail)) ++
      (if tail.headD 0 = f.checksum then
        [.push f.notification, .write 0xFF]
      else
        [.write 0xF0]) ++ effects)
      keep slack := by
  have hBounded := f.bounded
  have hDrop : (lead ++ (f.fields ++ tail)).drop lead.length = f.fields ++ tail := drop_left
  have hAt : LengthAt (lead ++ (f.fields ++ tail)) lead.length f.lengthByte :=
    f.lengthAt hLead (f.data ++ tail) (by rwa [length_append])
  have hCommand : paddedCommand (((lead ++ (f.fields ++ tail)).drop
      lead.length).take (f.lengthByte.toNat + 4)) = paddedCommand (f.fields ++ [tail.headD 0]) := by
    rw [hDrop, f.toNat_lengthByte]
    cases tail with
    | nil =>
      rw [append_nil, take_of_length_le (by
        rw [f.length_fields]
        omega)]
      rw [headD_nil, paddedCommand_zero (by
        rw [f.length_fields]
        change _ < 256
        omega)]
    | cons c tail =>
      have hSplit : f.fields ++ c :: tail = (f.fields ++ [c]) ++ tail := by simp
      rw [hSplit, take_left' (by simp)]
      rfl
  refine .frame hAt ?_ ?_ ?_ ?_
  · simp only [f.toNat_lengthByte, length_append, f.length_fields]
    omega
  · rw [f.toNat_lengthByte]
    change _ ≤ 256
    omega
  · rw [hCommand, f.toNat_lengthByte]
    exact f.verifyNotification_eq _
  · have hTail : (lead ++ (f.fields ++ tail)).drop (lead.length + 4 + f.lengthByte.toNat) =
        tail.tail := by
      rw [f.toNat_lengthByte, add_assoc, ← drop_drop, hDrop, drop_append, drop_of_length_le (by
          rw [f.length_fields]
          omega), nil_append, f.length_fields, ← drop_one]
      congr 1
      omega
    rwa [hTail]

end

end Frame

/- How a scan of the first part of a clean stream ends. -/
structure Outcome (start : Nat) (frames : List Frame)
    (part future keep : List UInt8) (effects : List Effect) : Prop where
  gap : start + part.length ∈ checksumGaps start frames → Effect.write 0xF0 ∈ effects
  noGap : start + part.length ∉ checksumGaps start frames →
      ∃ arrived later ahead, frames = arrived ++ later ∧ Delivered arrived effects ∧
          Pending later future keep ahead

/- A part that ends before the checksum of the first frame and is kept as it is. -/
theorem Outcome.kept {start : Nat} {f : Frame} {part : List UInt8} (w : List UInt8)
    (hShort : part.length ≤ 3 ∨ part.length < f.data.length + 3)
    (hStream : keep ++ future = stream Frame.bytes (f :: frames))
    (hKeep : keep.length < f.bytes.length) :
    Outcome start (f :: frames) part future keep (ackEffects w) where
  gap := by
    intro hMem
    have hLt := lt_of_mem_checksumGaps hMem
    rcases gap_or_later hMem with ⟨_, hGap⟩ | hLater
    · omega
    · have hLater := lt_of_mem_checksumGaps hLater
      omega
  noGap := by
    intro _
    refine ⟨[], f :: frames, 0, rfl, .ackEffects w, .inl ⟨rfl, hStream⟩, ?_⟩
    intro g hg
    have hEq : f = g := by simpa using hg
    subst hEq
    exact hKeep

/- A whole frame in front of a part. -/
theorem Outcome.whole {start : Nat} {f : Frame} {rest : List UInt8} (w : List UInt8)
    (hRest : Outcome (start + f.data.length + 4) frames rest future keep effects) :
    Outcome start (f :: frames) (f.bytes ++ rest) future keep
      (ackEffects w ++ [.push f.notification, .write 0xFF] ++ effects) := by
  have hEnd : start + (f.bytes ++ rest).length = start + f.data.length + 4 + rest.length := by
    rw [length_append, f.length_bytes]
    omega
  constructor
  · intro hMem
    rw [hEnd] at hMem
    rcases gap_or_later hMem with ⟨_, hGap⟩ | hLater
    · omega
    · exact mem_append_right _ (hRest.gap hLater)
  · intro hNone
    have hLater : start + f.data.length + 4 + rest.length ∉ checksumGaps (start + f.data.length + 4)
        frames := by
      intro hMem
      rw [← hEnd] at hMem
      exact hNone (mem_append_right _ hMem)
    rcases hRest.noGap hLater with ⟨arrived, later, ahead, hSplit, hDelivered, hPending⟩
    refine ⟨f :: arrived, later, ahead, by simp [hSplit], ?_, hPending⟩
    exact ((Delivered.ackEffects w).append f.delivered).append hDelivered

/- A part that ends right in front of the checksum of the first frame, behind its data. -/
theorem Outcome.early {start : Nat} {f : Frame} (w : List UInt8) (hData : f.data ≠ []) :
    Outcome start (f :: frames) f.fields (f.checksum :: stream Frame.bytes frames) []
      (ackEffects w ++ (if 0 = f.checksum then
        [.push f.notification, .write 0xFF]
        else
          [.write 0xF0]) ++ []) := by
  rw [append_nil]
  by_cases hZero : f.checksum = 0
  · rw [hZero, if_pos rfl]
    constructor
    · intro hMem
      rw [f.length_fields] at hMem
      rcases mem_append.mp hMem with hGap | hLater
      · simp [hZero] at hGap
      · have hLt := lt_of_mem_checksumGaps hLater
        omega
    · intro _
      refine ⟨[f], frames, 1, rfl, (Delivered.ackEffects w).append f.delivered,
          .inr ⟨rfl, rfl, rfl⟩, ?_⟩
      simp
  · have hNe : ¬ 0 = f.checksum := fun hEq => hZero hEq.symm
    rw [if_neg hNe]
    constructor
    · simp
    · intro hNone
      apply absurd _ hNone
      apply mem_append_left
      rw [if_pos ⟨hData, hZero⟩, f.length_fields, mem_singleton]
      omega

/-
  A scan of the first part of a clean stream, behind a lead: whole frames are delivered, and an end
  in front of a checksum that is not zero is answered as an error.
-/
theorem scans_clean (frames : List Frame) (start : Nat)
    {part : List UInt8} (hLead : lead = [] ∨ lead = [0])
    (hStream : part ++ future = stream Frame.bytes frames) :
    ∃ effects keep slack, Scans (lead ++ part) effects keep slack ∧ slack ≤ 1 ∧
      Outcome start frames part future keep effects := by
  have hSlack : lead.length ≤ 1 := by
    rcases hLead with rfl | rfl
    · simp
    · simp
  induction frames generalizing start lead part with
  | nil =>
    have hEmpty : part = [] ∧ future = [] := by simpa using hStream
    rcases hEmpty with ⟨rfl, rfl⟩
    rw [append_nil]
    refine ⟨_, _, _, scans_lead hLead, hSlack, ?_, ?_⟩
    · intro hMem
      cases hMem
    · intro _
      exact ⟨[], [], 0, rfl, .ackEffects lead, .inl ⟨rfl, rfl⟩, by simp⟩
  | cons f frames ih =>
    by_cases hPart : part = []
    · subst hPart
      rw [append_nil]
      exact ⟨_, _, _, scans_lead hLead, hSlack, .kept lead (by simp) hStream (by simp)⟩
    rcases stream_part hStream with ⟨missing, hMissing, hBytes, hFuture⟩ | ⟨rest, hWhole, hRest⟩
    · have hLength := congrArg length hBytes
      have hLeft := length_pos_iff.mpr hMissing
      rw [f.length_bytes, length_append] at hLength
      by_cases hShort : part.length ≤ 3 ∨ part.length < f.data.length + 3
      · refine ⟨_, _, _, f.scans_part hLead hBytes hPart hShort, hSlack, .kept _ hShort hStream ?_⟩
        rw [f.length_bytes]
        omega
      · have hFields : f.fields = part ∧ [f.checksum] = missing := by
          apply append_inj hBytes
          rw [f.length_fields]
          omega
        rcases hFields with ⟨rfl, rfl⟩
        rw [f.length_fields] at hShort
        subst hFuture
        have hScans := f.scans_frame hLead [] (by
            omega)
            (scans_lead (.inl rfl))
        rw [append_nil] at hScans
        refine ⟨_, _, _, hScans, by simp, .early _ ?_⟩
        intro hNil
        rw [hNil] at hShort
        simp at hShort
    · rcases ih (start + f.data.length + 4) (.inl rfl) hRest (by simp) with
        ⟨effects, keep, slack, hScans, hLe, hOutcome⟩
      have hTaken := f.scans_frame hLead (f.checksum :: rest) (by
            rw [length_cons]
            omega)
          hScans
      rw [headD_cons, if_pos rfl] at hTaken
      have hShape : part = f.fields ++ f.checksum :: rest := by
        rw [hWhole, Frame.bytes]
        simp
      rw [hWhole]
      rw [← hShape, hWhole] at hTaken
      exact ⟨_, _, _, hTaken, hLe, .whole _ hOutcome⟩

------
-- Clean Streams And Their Cuts
------

/- The reader at place `pos` of a clean stream whose frames still to come begin at `start`. -/
structure AtPlace (r : Reader) (pos start : Nat) (frames : List Frame)
    (future : List UInt8) : Prop where
  holds : ∃ keep slack ahead, Rests r keep slack ∧ slack ≤ 1 ∧ Pending frames future keep ahead ∧
      pos + ahead = start + keep.length

/-
  One read: an end in a checksum gap is answered as an error, any other end delivers what has
  arrived.
-/
theorem readerStep_clean {r : Reader} {chunk future : List UInt8}
    (hPlace : AtPlace r pos start frames (chunk ++ future)) (hPositive : 1 ≤ chunk.length)
    (hChunk : chunk.length ≤ maxReadByteOnce) :
    ∃ next effects, readerStep r chunk = .ok (next, effects) ∧
      (pos + chunk.length ∈ checksumGaps start frames → Effect.write 0xF0 ∈ effects) ∧
      (pos + chunk.length ∉ checksumGaps start frames →
        ∃ arrived later, frames = arrived ++ later ∧ Delivered arrived effects ∧
          AtPlace next (pos + chunk.length) (start + (stream Frame.bytes arrived).length)
            later future) := by
  rcases hPlace.holds with ⟨keep, slack, ahead, hRests, hSlack, hPending, hPos⟩
  have hShort := hPending.length_le
  have hRoom : keep.length + chunk.length < ttyBufferSize := by
    change chunk.length ≤ 64 at hChunk
    change _ < 528
    omega
  have hParts : ∃ lead part, (lead = [] ∨ lead = [0]) ∧ keep ++ chunk = lead ++ part ∧
      part ++ future = stream Frame.bytes frames ∧ start + part.length = pos + chunk.length := by
    rcases hPending.split with ⟨hAhead, hStream⟩ | ⟨hAhead, hKeep, hFuture⟩
    · refine ⟨[], keep ++ chunk, .inl rfl, rfl, ?_, ?_⟩
      · rw [append_assoc]
        exact hStream
      · rw [length_append]
        omega
    · cases chunk with
      | nil => simp at hPositive
      | cons b part =>
        rw [cons_append, cons.injEq] at hFuture
        rcases hFuture with ⟨rfl, hStream⟩
        subst hKeep
        refine ⟨[0], part, .inr rfl, rfl, hStream, ?_⟩
        simp only [length_nil, length_cons] at hPos ⊢
        omega
  rcases hParts with ⟨lead, part, hLead, hWindow, hStream, hEnd⟩
  rcases scans_clean frames start hLead hStream with
    ⟨effects, keep', slack', hScans, hSlack', hOutcome⟩
  rw [← hWindow] at hScans
  rcases readerStep_eq hRests (by omega) hRoom hScans with ⟨next, hStep, hNext⟩
  rw [← hEnd]
  refine ⟨next, effects, hStep, hOutcome.gap, ?_⟩
  intro hNone
  rcases hOutcome.noGap hNone with ⟨arrived, later, ahead', rfl, hDelivered, hLater⟩
  refine ⟨arrived, later, rfl, hDelivered, ⟨keep', slack', ahead', hNext, hSlack', hLater, ?_⟩⟩
  have hBefore := congrArg length hStream
  have hAfter := hLater.length_eq
  rw [stream_append, length_append, length_append] at hBefore
  omega

section

variable {r : Reader} (hCut : IsCut maxReadByteOnce chunks)
variable (hPlace : AtPlace r pos start frames chunks.flatten)

include hCut hPlace

/- Reads that end in no checksum gap deliver every frame. -/
theorem runReader_delivers (hNoGap : ∀ p ∈ readEnds pos chunks, p ∉ checksumGaps start frames) :
    ∃ last effects, runReader r chunks = .ok (last, effects) ∧ Delivered frames effects := by
  induction chunks generalizing r pos start frames with
  | nil =>
    rcases hPlace.holds with ⟨keep, slack, ahead, -, -, hPending, -⟩
    refine ⟨r, [], rfl, ?_⟩
    cases frames with
    | nil => exact ⟨rfl, by simp⟩
    | cons f frames =>
      have hShort := hPending.short f (by simp)
      have hLength := hPending.length_eq
      rw [stream_cons, length_append, flatten_nil, length_nil] at hLength
      omega
  | cons chunk chunks ih =>
    have hChunk := hCut chunk (by simp)
    rcases readerStep_clean hPlace hChunk.1 hChunk.2 with ⟨next, effects, hStep, -, hGood⟩
    rcases hGood (hNoGap _ (by simp [readEnds])) with ⟨arrived, later, rfl, hDelivered, hNext⟩
    have hLater : ∀ p ∈ readEnds (pos + chunk.length) chunks, p ∉ checksumGaps
        (start + (stream Frame.bytes arrived).length)
        later := by
      intro p hMem hGap
      apply hNoGap p (by simp [readEnds, hMem])
      rw [checksumGaps_append]
      exact mem_append_right _ hGap
    rcases ih (fun c hc => hCut c (by simp [hc])) hNext hLater with ⟨last, more, hRun, hMore⟩
    exact ⟨last, effects ++ more, feed_cons hStep hRun, hDelivered.append hMore⟩

/- A read that ends in a checksum gap leads to an error. -/
theorem runReader_error (hEnd : p ∈ readEnds pos chunks)
    (hGap : p ∈ checksumGaps start frames) {last : Reader}
    (hRun : runReader r chunks = .ok (last, effects)) : Effect.write 0xF0 ∈ effects := by
  induction chunks generalizing r pos start frames effects with
  | nil => cases hEnd
  | cons chunk chunks ih =>
    rcases forall_mem_cons.mp hCut with ⟨hChunk, hTail⟩
    rcases readerStep_clean hPlace hChunk.1 hChunk.2 with ⟨next, now, hStep, hBad, hGood⟩
    rcases feed_cons_inv hRun hStep with ⟨more, hRest, rfl⟩
    by_cases hHere : pos + chunk.length ∈ checksumGaps start frames
    · exact mem_append_left _ (hBad hHere)
    rcases hGood hHere with ⟨arrived, later, rfl, -, hNext⟩
    have hEndLater : p ∈ readEnds (pos + chunk.length) chunks := by
      rcases mem_cons.mp hEnd with hEq | hLater
      · exact absurd (hEq ▸ hGap) hHere
      · exact hLater
    have hGapLater : p ∈ checksumGaps (start + (stream Frame.bytes arrived).length) later := by
      rw [checksumGaps_append] at hGap
      rcases mem_append.mp hGap with hOld | hNew
      · have hLt := checksumGaps_lt hOld
        have hGt := lt_of_mem_readEnds hTail hEndLater
        rcases hNext.holds with ⟨keep, slack, ahead, -, -, hPending, hPos⟩
        have hAhead : ahead ≤ 1 := by
          rcases hPending.split with ⟨hZero, -⟩ | ⟨hOne, -⟩
          · omega
          · omega
        omega
      · exact hNew
    exact mem_append_right _ (ih hTail hNext hEndLater hGapLater hRest)

end

/-
  However a stream of well-formed frames is cut into reads: the frames are pushed, one notification
  for each and in order, and none is answered with the checksum error, if and only if no read ends
  between the data and a checksum that is not zero.
-/
theorem canbox_delivers_iff (frames : List Frame)
    (chunks : List (List UInt8)) (hCut : IsCut maxReadByteOnce chunks)
    (hStream : chunks.flatten = stream Frame.bytes frames) :
    (∃ last effects, runReader Reader.init chunks = .ok (last, effects) ∧
      pushed effects = frames.map Frame.notification ∧ Effect.write 0xF0 ∉ effects) ↔
      ∀ p ∈ readEnds 0 chunks, p ∉ checksumGaps 0 frames := by
  have hPlace : AtPlace Reader.init 0 0 frames chunks.flatten := by
    refine ⟨[], 0, 0, ?_, by omega, ?_, rfl⟩
    · exact { Holds.init with
        zeroFrom := by
          intro j _ hj
          exact getElem?_replicate_of_lt hj }
    · exact ⟨.inl ⟨rfl, hStream⟩, fun f _ => by simp⟩
  constructor
  · rintro ⟨last, effects, hRun, -, hNoError⟩ p hEnd hGap
    exact hNoError (runReader_error hCut hPlace hEnd hGap hRun)
  · intro hNoGap
    rcases runReader_delivers hCut hPlace hNoGap with ⟨last, effects, hRun, hDelivered⟩
    exact ⟨last, effects, hRun, hDelivered.pushes, hDelivered.noError⟩

/- Two frames cut inside the data and right behind the first checksum. -/
theorem canbox_delivers_iff_two_frames :
    ∃ last effects, runReader Reader.init [[0x2E, 0x01, 0x02, 0x05], [0x06, 0xF1],
      [0x2E, 0x02, 0x00, 0xFD]] = .ok (last, effects) ∧
        pushed effects = [⟨[0x2E, 0x01, 0x02, 0x05, 0x06, 0xF1], 6⟩,
          ⟨[0x2E, 0x02, 0x00, 0xFD], 4⟩] ∧ Effect.write 0xF0 ∉ effects := by
  have hIff := canbox_delivers_iff [⟨0x01, [0x05, 0x06], by decide⟩, ⟨0x02, [], by decide⟩]
      [[0x2E, 0x01, 0x02, 0x05], [0x06, 0xF1], [0x2E, 0x02, 0x00, 0xFD]]
      (by decide) (by decide)
  exact hIff.mpr (by decide)

/-
  A frame whose checksum byte comes with the next read is answered with the checksum error and not
  delivered.
-/
theorem canbox_loses_cut_frame :
    IsCut maxReadByteOnce [[0x2E, 0x01, 0x01, 0x05], [0xF8]] ∧
      [[0x2E, 0x01, 0x01, 0x05], [0xF8]].flatten = stream Frame.bytes [⟨0x01, [0x05], by decide⟩] ∧
      (runReader Reader.init [[0x2E, 0x01, 0x01, 0x05], [0xF8]]).map Prod.snd =
        .ok [.write 0xF0] := by
  refine ⟨by decide, by decide, ?_⟩
  decide +kernel

end OpenIvi.Serial.Canbox

------
-- Writing A Command
------

namespace OpenIvi.Serial.CanboxWrite

open Bionic

/- What happens around one write of the command. -/
structure Try where
  /- The clock behind the write, unless it cannot be read. -/
  clock : Option Clock
  /- The posts before `sem_timedwait` looks for a permit. -/
  posts : Nat
  /- The rounds of its loop. -/
  rounds : List Round
deriving DecidableEq, Repr

/- What happens during a call of `canbox_write`. -/
structure Schedule where
  /- `errno` before the call. -/
  errno : Errno
  /- The posts before each `sem_trywait`. -/
  drainPosts : Nat → Nat
  tries : Nat → Try

/-
  The loop in front of the first write, with the permits it may still take besides the last one. It
  ends with the result of its last `sem_trywait`.
-/
def drain (posts : Nat → Nat) : Nat → Nat → Sem → Option Errno × Sem
| 0, retry, sem => semTrywait (semPosts (posts retry) sem)
| left + 1, retry, sem =>
  match semTrywait (semPosts (posts retry) sem) with
  | (none, sem) => drain posts left (retry + 1) sem
  | (some errno, sem) => (some errno, sem)

/- The locals of `canbox_write` and what it has done. -/
structure State where
  retry : Nat
  s : Int
  errno : Errno
  sem : Sem
  written : List (List UInt8)
  /- Whether a permit was acquired after a write. -/
  acquired : Bool

/- 100 ms behind the clock, added to the nanoseconds without a carry into the seconds. -/
def ackDeadline (c : Clock) : Timespec where
  tvSec := c.sec
  tvNsec := c.nsec + 1000 * 1000 * 100

/- The body of the loop, and whether it leaves for the label `End`. -/
def writeOnce (buffer : List UInt8) (t : Try) (w : State) : Bool × State :=
  let w := { w with retry := w.retry + 1, written := w.written ++ [buffer] }
  if buffer.length = 1 then
    (true, w)
  else
    match t.clock with
    | none => (true, w)
    | some c =>
      match
        semTimedwait (ackDeadline c) t.posts t.rounds w.sem with
      | (none, sem) => (false, { w with s := 0, sem := sem, acquired := true })
      | (some errno, sem) => (false, { w with s := -1, sem := sem, errno := errno })

/- The loop, with a bound on the passes that are left. -/
def writeLoop (buffer : List UInt8) (tries : Nat → Try) : Nat → State → State
| 0, w => w
| left + 1, w =>
  let (toEnd, w) := writeOnce buffer (tries w.retry) w
  if toEnd = true then
    w
  else if w.s = -1 ∧ w.errno = .etime ∧ w.retry < 3 then
    writeLoop buffer tries left w
  else
    w

/- The result, what was written, and the semaphore. -/
structure Outcome where
  ret : Int
  written : List (List UInt8)
  acquired : Bool
  sem : Sem

def canboxWrite (buffer : List UInt8) (schedule : Schedule) (sem : Sem) : Outcome :=
  let (errno, sem) := drain schedule.drainPosts 100 0 sem
  let w := writeLoop buffer schedule.tries 3
      { retry := 0
        s := 0
        errno := errno.getD schedule.errno
        sem := sem
        written := []
        acquired := false }
  { ret := if w.s = -1 ∧ w.errno = .etime then -1 else 0
    written := w.written
    acquired := w.acquired
    sem := w.sem }

------
-- Truthful Results
------

/- No acknowledgement comes during any of the three tries. -/
def Unacknowledged (schedule : Schedule) : Prop :=
  ∀ i < 3, (schedule.tries i).posts = 0 ∧ ∀ r ∈ (schedule.tries i).rounds, r.posts = 0

/-
  A truthful outcome: 0 only if a permit was acquired after a write, and three writes and -1 without
  acknowledgement.
-/
structure Truthful (buffer : List UInt8) (schedule : Schedule) (o : Outcome) : Prop where
  delivered : o.ret = 0 → o.acquired = true
  timedOut : Unacknowledged schedule → o.written = [buffer, buffer, buffer] ∧ o.ret = -1

/-
  The first wait acquires a permit: one that is left from before the write, one that is posted at
  once, or one that is posted in a round of the wait, whose deadline is only accepted if it lies in
  the second in which it was computed.
-/
def FirstWaitAcquires (schedule : Schedule) (sem : Sem) : Prop :=
  ∃ c, (schedule.tries 0).clock = some c ∧ ((0 < (drain schedule.drainPosts 100 0 sem).2.value ∨
      0 < (schedule.tries 0).posts) ∨
        (c.nsec + 1000 * 1000 * 100 < 1000000000 ∧ RoundsAcquire (ackDeadline c)
            (schedule.tries 0).rounds))

theorem deadline_valid_iff (c : Clock) :
    (ackDeadline c).Valid ↔ c.nsec + 1000 * 1000 * 100 < 1000000000 := by
  simp only [Timespec.Valid, ackDeadline]
  omega

variable {buffer : List UInt8} {t : Try} {w : State}

theorem writeOnce_written : (writeOnce buffer t w).2.written = w.written ++ [buffer] := by
  unfold writeOnce
  simp only
  split
  next => rfl
  next =>
    split
    next => rfl
    next => split <;> rfl

/- A wait that fails does not set `ETIME`. -/
theorem writeOnce_ne_etime (hStart : w.s = 0) :
    ¬ ((writeOnce buffer t w).2.s = -1 ∧ (writeOnce buffer t w).2.errno = .etime) := by
  unfold writeOnce
  simp only
  split
  next => simp [hStart]
  next =>
    split
    next => simp [hStart]
    next c hClock =>
      have hErrno := semTimedwait_ne_etime (ackDeadline c) t.posts t.rounds w.sem
      split
      next => simp
      next errno sem hWait =>
        rw [hWait] at hErrno
        simpa using hErrno

/- When the pass acquires a permit. -/
theorem writeOnce_acquired (hLength : 1 < buffer.length) (hStart : w.acquired = false) :
    (writeOnce buffer t w).2.acquired = true ↔ ∃ c,
      t.clock = some c ∧ ((0 < w.sem.value ∨ 0 < t.posts) ∨
        (c.nsec + 1000 * 1000 * 100 < 1000000000 ∧ RoundsAcquire (ackDeadline c) t.rounds)) := by
  have hMore : buffer.length ≠ 1 := by omega
  unfold writeOnce
  simp only [if_neg hMore]
  cases t.clock with
  | none => simp [hStart]
  | some c =>
    simp only [Option.some.injEq, exists_eq_left', ← deadline_valid_iff]
    rw [← semTimedwait_eq_none]
    split
    next sem hWait => simp [hWait]
    next errno sem hWait => simp [hWait, hStart]

theorem writeLoop_eq (tries : Nat → Try) (left : Nat) (hStart : w.s = 0) :
    writeLoop buffer tries (left + 1) w = (writeOnce buffer (tries w.retry) w).2 := by
  unfold writeLoop
  simp only
  split
  next => rfl
  next =>
    rw [if_neg]
    rintro ⟨hs, he, _⟩
    exact writeOnce_ne_etime hStart ⟨hs, he⟩

/-
  A command of more than one byte is written once, the result is 0, and a permit is acquired if it
  is by the first wait.
-/
theorem canboxWrite_eq {buffer : List UInt8}
    (hLength : 1 < buffer.length) (schedule : Schedule) (sem : Sem) :
    (canboxWrite buffer schedule sem).ret = 0 ∧
      (canboxWrite buffer schedule sem).written = [buffer] ∧
      ((canboxWrite buffer schedule sem).acquired = true ↔ FirstWaitAcquires schedule sem) := by
  unfold canboxWrite
  simp only [writeLoop_eq]
  refine ⟨?_, ?_, ?_⟩
  · exact if_neg (writeOnce_ne_etime rfl)
  · exact writeOnce_written
  · exact writeOnce_acquired hLength rfl

/-
  The outcome of a command of more than one byte is truthful if and only if the first wait acquires
  a permit and there is an acknowledgement at all.
-/
theorem canbox_write_truthful_iff (buffer : List UInt8)
    (hLength : 1 < buffer.length) (schedule : Schedule) (sem : Sem) :
    Truthful buffer schedule (canboxWrite buffer schedule sem) ↔
      FirstWaitAcquires schedule sem ∧ ¬ Unacknowledged schedule := by
  rcases canboxWrite_eq hLength schedule sem with ⟨hRet, hWritten, hAcquired⟩
  constructor
  · intro h
    refine ⟨hAcquired.mp (h.delivered hRet), ?_⟩
    intro hSilent
    have hMinus := (h.timedOut hSilent).2
    rw [hRet] at hMinus
    cases hMinus
  · rintro ⟨hAcquires, hAnswered⟩
    constructor
    · intro _
      exact hAcquired.mpr hAcquires
    · intro hSilent
      exact absurd hSilent hAnswered

/- A wait in whose first round the acknowledgement comes. -/
def promptSchedule : Schedule where
  errno := .eagain
  drainPosts := fun _ => 0
  tries := fun _ =>
    { clock := some ⟨0, 0, by decide⟩
      posts := 0
      rounds := [⟨⟨0, 1000, by decide⟩, 1, .woken⟩] }

/- Then the outcome is truthful. -/
theorem canbox_write_truthful_iff_prompt :
    Truthful [0x2E, 0x01] promptSchedule (canboxWrite [0x2E, 0x01] promptSchedule Sem.zero) := by
  apply (canbox_write_truthful_iff [0x2E, 0x01] (by decide) promptSchedule Sem.zero).mpr
  constructor
  · refine ⟨⟨0, 0, by decide⟩, rfl, .inr ⟨by decide, ?_⟩⟩
    exact ⟨[], _, [], rfl, by simp, by decide, by decide⟩
  · intro hSilent
    have hNone := (hSilent 0 (by decide)).2 ⟨⟨0, 1000, by decide⟩, 1, .woken⟩
        (List.mem_singleton_self _)
    cases hNone

/- Every wait times out. -/
def silentSchedule : Schedule where
  errno := .eagain
  drainPosts := fun _ => 0
  tries := fun _ =>
    { clock := some ⟨0, 0, by decide⟩
      posts := 0
      rounds := [⟨⟨0, 1000, by decide⟩, 0, .timedOut⟩] }

/- Without acknowledgement, one write and the result 0. -/
theorem canbox_write_ignores_timeout :
    (canboxWrite [0x2E, 0x01] silentSchedule Sem.zero).ret = 0 ∧
      (canboxWrite [0x2E, 0x01] silentSchedule Sem.zero).written = [[0x2E, 0x01]] ∧
      (canboxWrite [0x2E, 0x01] silentSchedule Sem.zero).acquired = false ∧
      Unacknowledged silentSchedule := by
  refine ⟨by decide, by decide, by decide, ?_⟩
  intro i _
  refine ⟨rfl, ?_⟩
  intro r hr
  rw [List.mem_singleton.mp hr]

end OpenIvi.Serial.CanboxWrite
