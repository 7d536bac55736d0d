import OpenIvi.Serial.Reader

/-
  The reader side of `libcanbox`.

  Frames have one start byte, a type, a length byte, the data and a checksum. The reader shares the
  buffers of the other two HALs but has a search of its own: it always starts at the buffer head, it
  posts a semaphore for every acknowledge byte it sees, and it answers each frame.

  The model of the reader fails where the code leaves `command` or the data of a notification. A
  frame without its checksum byte is taken too, and then the byte at `tty_buffer_pos` is read:
  `strictSearchOnce` is the pass that fails there as well.

  Main declarations:
    * `checkFullCommand`
    * `Scans.returns`
    * `Sees.takes_frame`
    * `canbox_indices_iff`
-/

------
-- Notifications
------

namespace OpenIvi.Serial.Canbox

open Lib List Buffer

/- `CANBOX_PROTOCAL_FRAME_START_BYTE`. -/
def startByte : UInt8 := 0x2E

/- `CANBOX_PROTOCAL_FRAME_COMMAND_ACK`. -/
def commandAck : UInt8 := 0xFF

/- `MAX_READ_BYTE_ONCE` of `libcanbox`. -/
def maxReadByteOnce : Nat := 64

/- The size of `canbox_notification.data`. -/
def notificationDataSize : Nat := 64

/- A notification with the bytes of `data` that were set. -/
structure Notification where
  data : List UInt8
  bufferSize : Nat
deriving DecidableEq, Repr

/- What the read thread does to the rest of the HAL. -/
inductive Effect where
/- `sem_post(&sem_command_count)`. -/
| postCommandCount
/- `push_canbox_notificaiton`. -/
| push (notification : Notification)
/- `canbox_write` of one byte. -/
| write (byte : UInt8)
deriving DecidableEq, Repr

def canboxCalcChecksum (data : List UInt8) : UInt8 :=
  data.foldl (· + ·) 0 ^^^ 0xFF

/-
  `push_canbox_notificaiton` with an allocation that succeeds: its return value and what it does.
-/
def pushCanboxNotificaiton (notification : Notification) : Int × List Effect :=
  (0, [.push notification])

def verifyNotification (command : Buffer) (nSize : Nat) : Except Fault (List Effect) := do
  let datalen := nSize - 2
  let lengthByte ← command.load 2
  if datalen ≠ lengthByte.toNat + 2 then
    return []
  let summed ← command.block 1 datalen
  let last ← command.load (nSize - 1)
  if canboxCalcChecksum summed ≠ last then
    return [.write 0xF0]
  if notificationDataSize < nSize then
    throw .outOfBounds
  let data ← command.block 0 nSize
  let (ret, effects) := pushCanboxNotificaiton
      { data := data, bufferSize := nSize }
  return effects ++ [.write (if ret ≠ 0 then 0xFC else 0xFF)]

------
-- The Search For Complete Frames
------

/- The reader and what the call has done so far. -/
structure Search where
  reader : Reader
  effects : List Effect
deriving DecidableEq, Repr

/-
  The branch of `check_full_command` behind a length byte. A frame counts as complete as soon as its
  data is there.
-/
def afterLength (r : Reader) (effects : List Effect) (pHead length : Nat) :
    Except Fault (Ctl Search (Reader × List Effect)) := do
  if maxCommandByteLength < length then
    return .done (r, effects)
  let leftBytes := r.ttyBufferPos - (pHead + 3)
  if leftBytes < length then
    let r ← r.keepPartial pHead (leftBytes + 3)
    return .done (r, effects)
  else
    let command ← r.copyCommand pHead (length + 4)
    let verified ← verifyNotification command (length + 4)
    let rest := if length < leftBytes then
        leftBytes - length - 1
      else
        0
    let r ← r.moveRest (pHead + 3 + length + 1) rest
    if rest = 0 then
      return .done (r, effects ++ verified)
    else
      return .again
        { reader := r, effects := effects ++ verified }

/-
  One pass through the loop of `check_full_command`. Here `p_start` stays at the buffer head and
  `search_byte` at the number of bytes there were at first.
-/
def searchOnce (searchByte : Nat) (s : Search) :
    Except Fault (Ctl Search (Reader × List Effect)) := do
  let r := s.reader
  let ack ← r.ttyBuffer.memchr 0 commandAck searchByte
  let effects := if ack.isSome then
      s.effects ++ [.postCommandCount]
    else
      s.effects
  let found ← r.ttyBuffer.memchr 0 startByte searchByte
  match found with
  | none => return .done ({ r with ttyBufferPos := 0 }, effects)
  | some pHead =>
    if pHead + 1 = r.ttyBufferPos then
      let r ← r.keepHead pHead 1
      return .done (r, effects)
    if pHead + 2 = r.ttyBufferPos then
      let r ← r.keepHead pHead 2
      return .done (r, effects)
    else if pHead + 3 = r.ttyBufferPos then
      let r ← r.keepHead pHead 3
      return .done (r, effects)
    else
      let lengthByte ← r.ttyBuffer.load (pHead + 2)
      afterLength r effects pHead lengthByte.toNat

/-
  `check_full_command`: every pass but the last takes bytes out of the buffer, so their number
  bounds the passes.
-/
def checkFullCommand (r : Reader) : Except Fault (Reader × List Effect) :=
  if r.ttyBufferPos = 0 then
    .ok (r, [])
  else
    loop (searchOnce r.ttyBufferPos) (r.ttyBufferPos + 1)
      { reader := r, effects := [] }

/- One pass of `read_thread_func` after a read. -/
def readerStep (r : Reader) (chunk : List UInt8) : Except Fault (Reader × List Effect) := do
  let tty ← r.ttyBuffer.memcpy r.ttyBufferPos chunk 0 chunk.length
  checkFullCommand
    { r with ttyBuffer := tty, ttyBufferPos := r.ttyBufferPos + chunk.length }

/- The read thread over a sequence of reads. -/
def runReader : Reader → List (List UInt8) → Except Fault (Reader × List Effect) :=
  feed readerStep

------
-- Scanning A Window
------

/-
  The reader holds the window `w`, and its buffer is zero from `slack` bytes above the window on.
-/
structure Rests (r : Reader) (w : List UInt8) (slack : Nat) : Prop extends Holds r w where
  zeroFrom : ∀ j, w.length + slack ≤ j → j < ttyBufferSize → r.ttyBuffer[j]? = some 0

/- The effects behind the search for an acknowledge byte. -/
def acked (ack : Option Nat) (effects : List Effect) : List Effect :=
  if ack.isSome then effects ++ [.postCommandCount]
  else effects

/- The post for an acknowledge byte somewhere in `w`. -/
def ackEffects (w : List UInt8) : List Effect :=
  if commandAck ∈ w then [.postCommandCount] else []

/- A start byte at `i`, the first one, with its length byte and at least one more byte. -/
structure LengthAt (w : List UInt8) (i : Nat) (length : UInt8) : Prop where
  first : Buffer.FirstFrom w 0 startByte i
  lengthByte : w[i + 2]? = some length
  more : i + 3 < w.length

/-
  `Scans w effects keep slack`: a search of the window `w` does `effects` and leaves the window
  `keep`, with at most `slack` bytes that are not zero above it.
-/
inductive Scans : List UInt8 → List Effect → List UInt8 → Nat → Prop where
| noHead {w : List UInt8} :
    (∀ i : Nat, w[i]? ≠ some startByte) → Scans w (ackEffects w) [] w.length
| header {i : Nat} {w : List UInt8} :
    Buffer.FirstFrom w 0 startByte i → i + 1 = w.length ∨ i + 2 = w.length ∨ i + 3 = w.length →
    Scans w (ackEffects w) (w.drop i) i
| partialFrame {i : Nat} {w : List UInt8} {length : UInt8} : LengthAt w i length →
    w.length < i + 3 + length.toNat → Scans w (ackEffects w) (w.drop i) i
| frame {i slack : Nat} {w keep : List UInt8} {length : UInt8} {verified effects : List Effect} :
    LengthAt w i length → i + 3 + length.toNat ≤ w.length →
    length.toNat + 4 ≤ maxCommandByteLength →
    verifyNotification (paddedCommand ((w.drop i).take (length.toNat + 4))) (length.toNat + 4) =
      .ok verified → Scans (w.drop (i + 4 + length.toNat)) effects keep slack →
    Scans w (ackEffects w ++ verified ++ effects) keep slack

variable {effects : List Effect} {keep w : List UInt8} {slack searchByte : Nat}

theorem Scans.of_nil (h : Scans [] effects keep slack) : effects = [] ∧ keep = [] ∧ slack = 0 := by
  cases h with
  | noHead => exact ⟨rfl, rfl, rfl⟩
  | header hFirst => exact absurd hFirst.holds (by simp)
  | partialFrame hLength | frame hLength => exact absurd hLength.first.holds (by simp)

------
-- What A Pass Reads
------

theorem paddedCommand_zero {bytes : List UInt8} (hFits : bytes.length < maxCommandByteLength) :
    paddedCommand (bytes ++ [0]) = paddedCommand bytes := by
  have hSplit : maxCommandByteLength - bytes.length =
      maxCommandByteLength - (bytes.length + 1) + 1 := by
    omega
  simp only [paddedCommand, Buffer.splice_zero, drop_replicate, length_append, length_singleton]
  rw [hSplit, replicate_succ]
  simp

namespace Rests

variable {r : Reader}

/- The search for an acknowledge byte posts if one is there. -/
theorem ack_eq (h : Rests r w 0) {searchByte : Nat} (hCovers : w.length ≤ searchByte)
    (hBound : searchByte < ttyBufferSize) :
    ∃ ack, r.ttyBuffer.memchr 0 commandAck searchByte = .ok ack ∧
      ∀ effects, acked ack effects = effects ++ ackEffects w := by
  by_cases hMem : commandAck ∈ w
  · rcases Buffer.FirstFrom.exists_of_mem hMem with ⟨i, hFirst⟩
    refine ⟨some i, h.memchr_some (by omega) (by omega) hFirst, ?_⟩
    simp [acked, ackEffects, hMem]
  · refine ⟨none, h.memchr_none (by decide) (by omega) ?_ ?_, ?_⟩
    · intro i hi hLt
      exact h.zeroFrom i (by omega) (by omega)
    · intro i _ hByte
      exact hMem (mem_of_getElem? hByte)
    · simp [acked, ackEffects, hMem]

theorem find_none (h : Rests r w 0) {searchByte : Nat} (hBound : searchByte < ttyBufferSize)
    (hAbsent : ∀ i : Nat, w[i]? ≠ some startByte) :
    r.ttyBuffer.memchr 0 startByte searchByte = .ok none := by
  apply h.memchr_none (by decide) (by omega)
  · intro i hi hLt
    exact h.zeroFrom i (by omega) (by omega)
  · intro i _
    exact hAbsent i

/- Bytes moved to the front leave others above them. -/
theorem of_splice (h : Rests r w 0) {i : Nat} {next : Reader}
    (hi : i ≤ w.length) (hHolds : Holds next (w.drop i))
    (hTty : next.ttyBuffer = r.ttyBuffer.splice 0 (w.drop i)) : Rests next (w.drop i) i where
  toHolds := hHolds
  zeroFrom := by
    intro j hj hjSize
    rw [length_drop] at hj
    rw [hTty, Buffer.getElem?_splice_of_ge (by
        rw [h.ttyLength, length_drop]
        omega) (by
        rw [length_drop]
        omega)]
    exact h.zeroFrom j (by omega) hjSize

/-
  The command buffer of a frame. If the checksum byte has not arrived, a zero from above the window
  stands for it.
-/
theorem copyCommand_frame (h : Rests r w 0) {i length : Nat} (hEnough : i + 3 + length ≤ w.length)
    (hCommand : length + 4 ≤ maxCommandByteLength) (hRoom : w.length < ttyBufferSize) :
    r.copyCommand i (length + 4) = .ok (paddedCommand ((w.drop i).take (length + 4))) := by
  have hTty := h.ttyLength
  by_cases hWhole : i + (length + 4) ≤ w.length
  · exact Reader.copyCommand_eq (h.block_eq hWhole) (by omega) hCommand
  · have hDrop : (w.drop i).length = length + 3 := by
      rw [length_drop]
      omega
    have hBlock : (r.ttyBuffer.drop i).take (length + 4) = w.drop i ++ [0] := by
      have hNext : (r.ttyBuffer.drop i)[length + 3]? = some 0 := by
        rw [getElem?_drop]
        exact h.zeroFrom _ (by omega) (by omega)
      rw [take_add_one, hNext, h.suffix_eq (by omega)]
      rfl
    rw [Reader.copyCommand_eq hBlock (by omega) hCommand, take_of_length_le (by omega),
      paddedCommand_zero (by omega)]

end Rests

variable {s : Search} {r : Reader} {i : Nat} {ack : Option Nat}

theorem searchOnce_noHead (hAck : s.reader.ttyBuffer.memchr 0 commandAck searchByte = .ok ack)
    (hFind : s.reader.ttyBuffer.memchr 0 startByte searchByte = .ok none) :
    searchOnce searchByte s = .ok (.done ({ s.reader with ttyBufferPos := 0 },
        acked ack s.effects)) := by
  simp [searchOnce, acked, hAck, hFind]

section

variable (h : Holds s.reader w) (hAck : s.reader.ttyBuffer.memchr 0 commandAck searchByte = .ok ack)
variable (hFind : s.reader.ttyBuffer.memchr 0 startByte searchByte = .ok (some i))

include h hAck hFind

/- A head without a byte behind its length is kept. -/
theorem searchOnce_header (hLt : i < w.length) (hShort : w.length ≤ i + 3) :
    ∃ next, searchOnce searchByte s = .ok (.done (next, acked ack s.effects)) ∧
      Holds next (w.drop i) ∧ next.ttyBuffer = s.reader.ttyBuffer.splice 0 (w.drop i) := by
  have hCases : i + 1 = w.length ∨ (i + 1 ≠ w.length ∧ i + 2 = w.length) ∨
      (i + 1 ≠ w.length ∧ i + 2 ≠ w.length ∧ i + 3 = w.length) := by
    omega
  rcases hCases with hOne | ⟨hOne, hTwo⟩ | ⟨hOne, hTwo, hThree⟩
  · rcases h.keepHead_eq hOne with ⟨next, hKeep, hNext⟩
    refine ⟨next, ?_, hNext⟩
    simp [searchOnce, acked, hAck, hFind, h.pos, hOne, hKeep]
  · rcases h.keepHead_eq hTwo with ⟨next, hKeep, hNext⟩
    refine ⟨next, ?_, hNext⟩
    simp [searchOnce, acked, hAck, hFind, h.pos, hOne, hTwo, hKeep]
  · rcases h.keepHead_eq hThree with ⟨next, hKeep, hNext⟩
    refine ⟨next, ?_, hNext⟩
    simp [searchOnce, acked, hAck, hFind, h.pos, hOne, hTwo, hThree, hKeep]

theorem searchOnce_lengthAt {length : UInt8} (hLength : LengthAt w i length) :
    searchOnce searchByte s = afterLength s.reader (acked ack s.effects) i
      length.toNat := by
  have hMore := hLength.more
  have hOne : ¬ i + 1 = w.length := by omega
  have hTwo : ¬ i + 2 = w.length := by omega
  have hThree : ¬ i + 3 = w.length := by omega
  simp [searchOnce, acked, hAck, hFind, h.pos, hOne, hTwo, hThree, h.load_eq hLength.lengthByte]

end

/- A frame that is not complete is kept. -/
theorem afterLength_partial (h : Holds r w) {length : Nat}
    (hMore : i + 3 < w.length) (hByte : length < 256)
    (hShort : w.length < i + 3 + length) (effects : List Effect) :
    ∃ next, afterLength r effects i length = .ok (.done (next, effects)) ∧ Holds next (w.drop i) ∧
      next.ttyBuffer = r.ttyBuffer.splice 0 (w.drop i) := by
  have hGood : ¬ maxCommandByteLength < length := by
    change ¬ 256 < _
    omega
  have hWait : w.length - (i + 3) < length := by omega
  have hSuffix : i + (w.length - (i + 3) + 3) = w.length := by omega
  rcases h.keepPartial_eq hSuffix with ⟨next, hKeep, hNext⟩
  refine ⟨next, ?_, hNext⟩
  simp [afterLength, hGood, h.pos, hWait, hKeep]

/- A complete one is verified, and the bytes behind it moved. -/
theorem afterLength_frame (h : Holds r w) {length : Nat}
    {command : Buffer} (hEnough : i + 3 + length ≤ w.length)
    (hRoom : i + 4 + length ≤ ttyBufferSize) (hCommand : length + 4 ≤ maxCommandByteLength)
    (hCopied : r.copyCommand i (length + 4) = .ok command) :
    ∃ next, Holds next (w.drop (i + 4 + length)) ∧ (∀ j, (w.drop (i + 4 + length)).length ≤ j →
      j < ttyBufferSize → next.ttyBuffer[j]? = some 0) ∧ ∀ effects, afterLength r effects i length =
        (verifyNotification command (length + 4)).map fun verified =>
          if w.length ≤ i + 4 + length then
            .done (next, effects ++ verified)
          else .again ⟨next, effects ++ verified⟩ := by
  have hGood : ¬ maxCommandByteLength < length := by omega
  have hReady : ¬ w.length - (i + 3) < length := by omega
  have hSkip : i + 3 + length + 1 = i + 4 + length := by omega
  have hLeft : (if length < w.length - (i + 3) then
          w.length - (i + 3) - length - 1
        else 0) = w.length - (i + 4 + length) := by
    split <;> omega
  rcases h.moveRest_eq (i + 4 + length) (by omega) with ⟨next, hMove, hHolds, hZero⟩
  refine ⟨next, hHolds, hZero, ?_⟩
  intro effects
  simp only [afterLength, hGood, h.pos, hReady, if_false, hCopied, ok_bind, hLeft, hSkip, hMove,
    Nat.sub_eq_zero_iff_le]
  cases verifyNotification command (length + 4) with
  | error fault => rfl
  | ok verified =>
    split <;> rfl

------
-- One Pass Of The Loop
------

/- The loop ends and leaves the window `keep`. -/
def Ends (searchByte : Nat) (s : Search) (effects : List Effect)
    (keep : List UInt8) (slack : Nat) : Prop :=
  ∃ r, searchOnce searchByte s = .ok (.done (r, s.effects ++ effects)) ∧ Rests r keep slack

/- The loop goes on with the window `w`. -/
def Continues (searchByte : Nat) (s : Search) (effects : List Effect) (w : List UInt8) : Prop :=
  ∃ next, searchOnce searchByte s = .ok (.again next) ∧ next.effects = s.effects ++ effects ∧
    Rests next.reader w 0

namespace Rests

variable {length : UInt8}

section

variable (h : Rests s.reader w 0)

include h

section

variable (hCovers : w.length ≤ searchByte) (hBound : searchByte < ttyBufferSize)

include hCovers hBound

theorem noHead (hAbsent : ∀ i : Nat, w[i]? ≠ some startByte) :
    Ends searchByte s (ackEffects w) [] w.length := by
  rcases h.ack_eq hCovers hBound with ⟨ack, hAck, hPost⟩
  refine ⟨{ s.reader with ttyBufferPos := 0 }, ?_, ?_⟩
  · rw [searchOnce_noHead hAck (h.find_none hBound hAbsent), hPost]
  · exact { h.clear with
      zeroFrom := by
        intro j hj hjSize
        exact h.zeroFrom j (by simpa using hj) hjSize }

theorem header (hFirst : Buffer.FirstFrom w 0 startByte i)
    (hShort : i + 1 = w.length ∨ i + 2 = w.length ∨ i + 3 = w.length) :
    Ends searchByte s (ackEffects w) (w.drop i) i := by
  rcases h.ack_eq hCovers hBound with ⟨ack, hAck, hPost⟩
  have hFound := h.memchr_some (n := searchByte) (by omega) (by omega) hFirst
  rcases searchOnce_header h.toHolds hAck hFound (by omega) (by omega)
    with ⟨next, hOnce, hHolds, hTty⟩
  rw [hPost] at hOnce
  exact ⟨next, hOnce, h.of_splice (by omega) hHolds hTty⟩

/- Behind a length byte the pass is that of `afterLength`. -/
theorem lengthAt (hLength : LengthAt w i length) :
    searchOnce searchByte s = afterLength s.reader (s.effects ++ ackEffects w) i
      length.toNat := by
  rcases h.ack_eq hCovers hBound with ⟨ack, hAck, hPost⟩
  rw [← hPost]
  exact searchOnce_lengthAt h.toHolds hAck
    (h.memchr_some (by omega) (by omega) hLength.first) hLength

theorem partialFrame (hLength : LengthAt w i length) (hShort : w.length < i + 3 + length.toNat) :
    Ends searchByte s (ackEffects w) (w.drop i) i := by
  have hMore := hLength.more
  rcases afterLength_partial h.toHolds hMore length.toNat_lt hShort
    (s.effects ++ ackEffects w) with ⟨next, hAfter, hHolds, hTty⟩
  exact ⟨next, (h.lengthAt hCovers hBound hLength).trans hAfter, h.of_splice (by omega) hHolds hTty⟩

/- Behind a frame the loop ends if no byte is left. -/
theorem frame {verified : List Effect} (hLength : LengthAt w i length)
    (hEnough : i + 3 + length.toNat ≤ w.length) (hCommand : length.toNat + 4 ≤ maxCommandByteLength)
    (hVerify : verifyNotification (paddedCommand ((w.drop i).take (length.toNat + 4)))
      (length.toNat + 4) = .ok verified) :
    (w.drop (i + 4 + length.toNat) = [] ∧ Ends searchByte s (ackEffects w ++ verified) [] 0) ∨
      Continues searchByte s (ackEffects w ++ verified) (w.drop (i + 4 + length.toNat)) := by
  have hCopied := h.copyCommand_frame hEnough hCommand (by omega)
  rcases afterLength_frame h.toHolds hEnough (by omega) hCommand hCopied with
    ⟨next, hHolds, hZero, hAfter⟩
  have hNext : Rests next (w.drop (i + 4 + length.toNat)) 0 := { hHolds with zeroFrom := hZero }
  have hOnce := (h.lengthAt hCovers hBound hLength).trans (hAfter (s.effects ++ ackEffects w))
  rw [hVerify, Except.map, append_assoc] at hOnce
  by_cases hEmpty : w.length ≤ i + 4 + length.toNat
  · have hNil : w.drop (i + 4 + length.toNat) = [] := drop_of_length_le hEmpty
    rw [if_pos hEmpty] at hOnce
    exact .inl ⟨hNil, next, hOnce, hNil ▸ hNext⟩
  · rw [if_neg hEmpty] at hOnce
    exact .inr ⟨_, hOnce, rfl, hNext⟩

end

end

end Rests

------
-- The Code Scans Its Window
------

/-
  A search from `s` on returns with the effects and the window `keep`, after a bounded number of
  passes.
-/
def SearchReturns (searchByte : Nat) (s : Search) (bound : Nat)
    (effects : List Effect) (keep : List UInt8) (slack : Nat) : Prop :=
  ∃ passes r, Returns (searchOnce searchByte) passes s (r, s.effects ++ effects) ∧
      Rests r keep slack ∧ passes ≤ bound

theorem Ends.returns {s : Search} (h : Ends searchByte s effects keep slack) (bound : Nat) :
    SearchReturns searchByte s (bound + 1) effects keep
      slack := by
  rcases h with ⟨r, hOnce, hRests⟩
  exact ⟨1, r, .done hOnce, hRests, by omega⟩

theorem Continues.returns {bound less : Nat} {s : Search}
    {rest : List Effect} (h : Continues searchByte s effects w)
    (hRest : ∀ next : Search, Rests next.reader w 0 →
      SearchReturns searchByte next less rest keep slack)
    (hLess : less < bound) :
    SearchReturns searchByte s bound (effects ++ rest) keep
      slack := by
  rcases h with ⟨next, hOnce, hEffects, hNext⟩
  rcases hRest next hNext with ⟨passes, r, hReturns, hRests, hPasses⟩
  rw [hEffects, append_assoc] at hReturns
  exact ⟨passes + 1, r, .again hOnce hReturns, hRests, by omega⟩

/- The loop computes what `Scans` says. -/
theorem Scans.returns (hScans : Scans w effects keep slack)
    {s : Search} (hRests : Rests s.reader w 0) (hCovers : w.length ≤ searchByte)
    (hBound : searchByte < ttyBufferSize) :
    SearchReturns searchByte s (w.length + 1) effects keep
      slack := by
  induction hScans generalizing s with
  | noHead hAbsent => exact (hRests.noHead hCovers hBound hAbsent).returns _
  | header hFirst hShort => exact (hRests.header hCovers hBound hFirst hShort).returns _
  | partialFrame hLength hShort =>
    exact (hRests.partialFrame hCovers hBound hLength hShort).returns _
  | frame hLength hEnough hCommand hVerify hRest ih =>
    rcases hRests.frame hCovers hBound hLength hEnough hCommand hVerify with
      ⟨hEmpty, hEnds⟩ | hContinues
    · rw [hEmpty] at hRest
      rcases hRest.of_nil with ⟨rfl, rfl, rfl⟩
      rw [append_nil]
      exact hEnds.returns _
    · apply hContinues.returns
      · intro next hNext
        apply ih hNext
        rw [length_drop]
        omega
      · rw [length_drop]
        omega

/- `check_full_command` scans its window. -/
theorem checkFullCommand_eq {r : Reader} (hRests : Rests r w 0) (hRoom : w.length < ttyBufferSize)
    (hScans : Scans w effects keep slack) :
    ∃ next, checkFullCommand r = .ok (next, effects) ∧ Rests next keep slack := by
  unfold checkFullCommand
  split
  next hZero =>
    have hEmpty : w = [] := length_eq_zero_iff.mp (hRests.pos ▸ hZero)
    subst hEmpty
    rcases hScans.of_nil with ⟨rfl, rfl, rfl⟩
    exact ⟨r, rfl, hRests⟩
  next =>
    have hStart : Rests ({ reader := r, effects := [] } : Search).reader w 0 := hRests
    rw [hRests.pos]
    rcases hScans.returns hStart le_rfl hRoom with ⟨passes, next, hReturns, hKept, hPasses⟩
    exact ⟨next, hReturns.loop_eq hPasses, hKept⟩

/- One read appends its chunk and scans the result. -/
theorem readerStep_eq {r : Reader} {chunk : List UInt8} {slack' : Nat} (hRests : Rests r w slack)
    (hChunk : slack ≤ chunk.length) (hRoom : w.length + chunk.length < ttyBufferSize)
    (hScans : Scans (w ++ chunk) effects keep slack') :
    ∃ next, readerStep r chunk = .ok (next, effects) ∧ Rests next keep slack' := by
  have hTty := hRests.ttyLength
  have hFits : w.length + chunk.length ≤ ttyBufferSize := by omega
  rcases hRests.append hFits with ⟨hCopy, hAppended⟩
  have hZero : Rests
      { r with
        ttyBuffer := r.ttyBuffer.splice w.length chunk
        ttyBufferPos := r.ttyBufferPos + chunk.length }
      (w ++ chunk) 0 :=
    { hAppended with
      zeroFrom := by
        intro j hj hjSize
        rw [length_append] at hj
        rw [Buffer.getElem?_splice_of_ge (by omega) (by omega)]
        exact hRests.zeroFrom j (by omega) hjSize }
  rcases checkFullCommand_eq hZero (by
        rw [length_append]
        exact hRoom)
      hScans with ⟨next, hCheck, hKept⟩
  refine ⟨next, ?_, hKept⟩
  rw [readerStep, hCopy]
  exact hCheck

------
-- Frames That Are Safe
------

/- A frame that ends at the end of the window is taken. -/
def framePast (searchByte : Nat) (r : Reader) : Bool :=
  match r.ttyBuffer.memchr 0 startByte searchByte with
  | .ok (some pHead) =>
    pHead + 3 < r.ttyBufferPos ∧ r.ttyBufferPos = pHead + 3 + (byte r.ttyBuffer (pHead + 2)).toNat
  | _ => false

/- A pass that takes no byte from `tty_buffer_pos` on. -/
def strictSearchOnce (searchByte : Nat) (s : Search) :
    Except Fault (Ctl Search (Reader × List Effect)) :=
  if framePast searchByte s.reader then .error .outOfBounds
  else searchOnce searchByte s

/- A read of 1 to 64 bytes. -/
structure Read where
  bytes : List UInt8
  some : 1 ≤ bytes.length
  le : bytes.length ≤ maxReadByteOnce

/- One read of the read thread, with strict passes. -/
def strictStep (r : Reader) (read : Read) : Except Fault Reader := do
  let tty ← r.ttyBuffer.memcpy r.ttyBufferPos read.bytes 0 read.bytes.length
  let pos := r.ttyBufferPos + read.bytes.length
  let (r, _) ← loop (strictSearchOnce pos) (pos + 1)
      { reader := { r with ttyBuffer := tty, ttyBufferPos := pos }
        effects := [] }
  return r

/- The bytes of a frame, from its head on. -/
def frameSize (frame : List UInt8) : Nat := (byte frame 2).toNat + 4

def checksumRight (frame : List UInt8) : Bool :=
  canboxCalcChecksum ((frame.drop 1).take (frameSize frame - 2)) = byte frame (frameSize frame - 1)

/-
  A frame that fits into `command`, has its checksum byte, and fits into a notification if this byte
  is right.
-/
structure FrameSafe (frame : List UInt8) : Prop where
  command : frameSize frame ≤ maxCommandByteLength
  checksum : frameSize frame ≤ frame.length
  data : checksumRight frame = true → frameSize frame ≤ notificationDataSize

/- `Takes w frame`: a search of the window `w` takes the frame at the start of `frame`. -/
inductive Takes : List UInt8 → List UInt8 → Prop where
| first {w : List UInt8} {i : Nat} {length : UInt8} :
    LengthAt w i length → i + 3 + length.toNat ≤ w.length → Takes w (w.drop i)
| later {w frame : List UInt8} {i : Nat} {length : UInt8} : LengthAt w i length →
    i + 3 + length.toNat ≤ w.length → Takes (w.drop (i + 4 + length.toNat)) frame → Takes w frame

------
-- Verifying A Frame
------

variable {bytes : List UInt8}

theorem byte_paddedCommand {i : Nat} (hLt : i < bytes.length) :
    (paddedCommand bytes).load i = .ok (byte bytes i) := by
  apply load_eq
  unfold paddedCommand byte
  rw [splice_zero, getElem?_append_left hLt, getD_eq_getElem?_getD, getElem?_eq_getElem hLt]
  rfl

theorem block_paddedCommand (hFits : bytes.length ≤ maxCommandByteLength) {i n : Nat}
    (hLe : i + n ≤ bytes.length) :
    (paddedCommand bytes).block i n = .ok ((bytes.drop i).take n) := by
  have hSize := length_paddedCommand hFits
  rw [block_eq (by omega)]
  unfold paddedCommand
  rw [splice_zero, drop_append_of_le_length, take_append_of_le_length]
  · rw [length_drop]
    omega
  · omega

/- Only a right checksum leads to the notification. -/
theorem verifyNotification_safe_iff (hSize : frameSize bytes = bytes.length)
    (hFits : bytes.length ≤ maxCommandByteLength) :
    Safe (verifyNotification (paddedCommand bytes) bytes.length) ↔ (checksumRight bytes = true →
      bytes.length ≤ notificationDataSize) := by
  have hLength : bytes.length - 2 = (byte bytes 2).toNat + 2 := by
    unfold frameSize at hSize
    omega
  unfold verifyNotification checksumRight
  rw [byte_paddedCommand (by omega), hSize]
  simp only [ok_bind, ne_eq, hLength, not_true_eq_false, if_false]
  rw [← hLength, block_paddedCommand hFits (by omega),
    byte_paddedCommand (by omega), ok_bind, ok_bind]
  split
  · rename_i hWrong
    apply iff_of_true (safe_pure _)
    intro hRight
    exact absurd (of_decide_eq_true hRight) hWrong
  · rename_i hRight
    rw [not_not] at hRight
    rw [decide_eq_true hRight, imp_iff_right rfl]
    split
    · rename_i hLong
      exact iff_of_false nofun (not_le.mpr hLong)
    · rename_i hShort
      rw [block_paddedCommand hFits (by omega)]
      exact iff_of_true (safe_pure _) (not_lt.mp hShort)

------
-- One Strict Pass
------

/- A loop state looks at the window `w`: the bytes that it searches above the window are zeros. -/
structure Sees (s : Search) (searchByte : Nat)
    (w : List UInt8) : Prop extends Holds s.reader w where
  covers : w.length ≤ searchByte
  bound : searchByte ≤ ttyBufferSize
  zeroAbove : ∀ i, w.length ≤ i → i < searchByte → s.reader.ttyBuffer[i]? = some 0

/- The loop ends with an incomplete frame. -/
def StopsWith (searchByte : Nat) (s : Search) (keep : List UInt8) : Prop :=
  ∃ r effects, strictSearchOnce searchByte s = .ok (.done (r, effects)) ∧ Holds r keep

variable {s : Search} {searchByte i : Nat} {w : List UInt8} {length : UInt8}

namespace Sees

section

variable (h : Sees s searchByte w)

include h

theorem memchr_total (c : UInt8) :
    ∃ found, s.reader.ttyBuffer.memchr 0 c searchByte = .ok found := by
  have hBound : 0 + searchByte ≤ s.reader.ttyBuffer.length := by
    rw [h.ttyLength, zero_add]
    exact h.bound
  unfold Buffer.memchr
  rw [if_pos hBound]
  exact ⟨_, rfl⟩

theorem find_some (hFirst : Buffer.FirstFrom w 0 startByte i) :
    s.reader.ttyBuffer.memchr 0 startByte searchByte = .ok (some i) := by
  have hCovers := h.covers
  have hBound := h.bound
  exact h.memchr_some (by omega) (by omega) hFirst

theorem noHead (hAbsent : ∀ i, 0 ≤ i → w[i]? ≠ some startByte) : StopsWith searchByte s [] := by
  have hBound := h.bound
  have hFind : s.reader.ttyBuffer.memchr 0 startByte searchByte = .ok none := by
    apply h.memchr_none (by decide) (by omega) _ hAbsent
    intro j hj hLt
    exact h.zeroAbove j hj (by omega)
  rcases h.memchr_total commandAck with ⟨ack, hAck⟩
  have hNot : ¬ framePast searchByte s.reader := by simp [framePast, hFind]
  exact ⟨_, _, (if_neg hNot).trans (searchOnce_noHead hAck hFind), h.clear⟩

theorem header (hFirst : Buffer.FirstFrom w 0 startByte i)
    (hShort : w.length ≤ i + 3) : StopsWith searchByte s (w.drop i) := by
  have hFind := h.find_some hFirst
  rcases h.memchr_total commandAck with ⟨ack, hAck⟩
  have hNot : ¬ framePast searchByte s.reader := by
    simp [framePast, hFind, h.pos, not_lt.mpr hShort]
  rcases searchOnce_header h.toHolds hAck hFind (lt_length_of_getElem? hFirst.holds) hShort with
    ⟨next, hOnce, hNext, _⟩
  exact ⟨next, _, (if_neg hNot).trans hOnce, hNext⟩

/- Behind a length byte the pass is that of `afterLength`. -/
theorem afterLength_eq (hLength : LengthAt w i length) :
    ∃ effects, strictSearchOnce searchByte s = if w.length = i + 3 + length.toNat then
      .error .outOfBounds
        else
          afterLength s.reader effects i length.toNat := by
  have hFind := h.find_some hLength.first
  have hMore := hLength.more
  have hByte : byte s.reader.ttyBuffer (i + 2) = length := by
    rw [byte, getD_eq_getElem?_getD, h.getElem?_eq (by omega), hLength.lengthByte]
    rfl
  rcases h.memchr_total commandAck with ⟨ack, hAck⟩
  refine ⟨acked ack s.effects, ?_⟩
  rw [strictSearchOnce, searchOnce_lengthAt h.toHolds hAck hFind hLength]
  simp [framePast, hFind, h.pos, hMore, hByte]

theorem partialFrame (hLength : LengthAt w i length)
    (hShort : w.length < i + 3 + length.toNat) : StopsWith searchByte s (w.drop i) := by
  rcases h.afterLength_eq hLength with ⟨effects, hOnce⟩
  rw [if_neg (ne_of_lt hShort)] at hOnce
  rcases afterLength_partial h.toHolds hLength.more length.toNat_lt
    hShort effects with ⟨next, hAfter, hNext, _⟩
  exact ⟨next, effects, hOnce.trans hAfter, hNext⟩

end

theorem frameSize_eq (hLength : LengthAt w i length) : frameSize (w.drop i) = length.toNat + 4 := by
  unfold frameSize byte
  rw [getD_eq_getElem?_getD, getElem?_drop, hLength.lengthByte]
  rfl

/- A complete frame that fits into `command` is verified. The bytes behind it are looked at next. -/
theorem verifies (h : Sees s searchByte w) (hLength : LengthAt w i length)
    (hWhole : i + (length.toNat + 4) ≤ w.length)
    (hCommand : length.toNat + 4 ≤ maxCommandByteLength) :
    match verifyNotification (paddedCommand ((w.drop i).take (length.toNat + 4)))
      (length.toNat + 4) with
    | .error fault => strictSearchOnce searchByte s = .error fault
    | .ok _ =>
      (w.drop (i + 4 + length.toNat) = [] ∧ StopsWith searchByte s []) ∨
      ∃ next, strictSearchOnce searchByte s = .ok (.again next) ∧ Sees next searchByte
        (w.drop (i + 4 + length.toNat)) := by
  have hTty := h.ttyLength
  have hCovers := h.covers
  have hBound := h.bound
  have hCopied := Reader.copyCommand_eq (h.block_eq hWhole) (by omega) hCommand
  rcases afterLength_frame h.toHolds (by omega) (by omega) hCommand
    hCopied with ⟨reader, hHolds, hZero, hAfter⟩
  rcases h.afterLength_eq hLength with ⟨effects, hOnce⟩
  rw [if_neg (by omega), hAfter] at hOnce
  cases hVerify : verifyNotification (paddedCommand ((w.drop i).take (length.toNat + 4)))
      (length.toNat + 4) with
  | error fault =>
    rw [hVerify] at hOnce
    exact hOnce
  | ok verified =>
    rw [hVerify, Except.map] at hOnce
    by_cases hEmpty : w.length ≤ i + 4 + length.toNat
    · have hNil : w.drop (i + 4 + length.toNat) = [] := drop_of_length_le hEmpty
      rw [if_pos hEmpty] at hOnce
      exact .inl ⟨hNil, reader, _, hOnce, hNil ▸ hHolds⟩
    · rw [if_neg hEmpty] at hOnce
      refine .inr ⟨_, hOnce, { hHolds with
        covers := ?_
        bound := hBound
        zeroAbove := fun j hj hLt => hZero j hj (by omega) }⟩
      rw [length_drop]
      omega

/- The copy in `command` is the frame that was taken. -/
theorem frame_take (frame : List UInt8) :
    frameSize (frame.take (frameSize frame)) = frameSize frame ∧
      checksumRight (frame.take (frameSize frame)) = checksumRight frame := by
  have hByte (j : Nat) (hLt : j < frameSize frame) :
      byte (frame.take (frameSize frame)) j = byte frame j := by
    unfold byte
    rw [getD_eq_getElem?_getD, getElem?_take_of_lt hLt, getD_eq_getElem?_getD]
  have hSize : frameSize (frame.take (frameSize frame)) = frameSize frame :=
    congrArg (·.toNat + 4) (hByte 2 (Nat.lt_of_lt_of_le (by decide) (Nat.le_add_left 4 _)))
  refine ⟨hSize, ?_⟩
  have hFour : 4 ≤ frameSize frame := Nat.le_add_left 4 _
  unfold checksumRight
  rw [hSize, hByte _ (by omega), drop_take, take_take, Nat.min_eq_left (by omega)]

/- A safe frame is taken, any other one makes the pass fail. -/
theorem takes_frame (h : Sees s searchByte w) (hLength : LengthAt w i length)
    (hEnough : i + 3 + length.toNat ≤ w.length) :
    (FrameSafe (w.drop i) ∧ ((w.drop (i + 4 + length.toNat) = [] ∧ StopsWith searchByte s []) ∨
      ∃ next, strictSearchOnce searchByte s = .ok (.again next) ∧ Sees next searchByte
        (w.drop (i + 4 + length.toNat)))) ∨
      (¬ FrameSafe (w.drop i) ∧ ∃ fault, strictSearchOnce searchByte s = .error fault) := by
  have hSize := frameSize_eq hLength
  have hDrop : (w.drop i).length = w.length - i := length_drop
  rcases h.afterLength_eq hLength with ⟨effects, hOnce⟩
  by_cases hPast : w.length = i + 3 + length.toNat
  · refine .inr ⟨?_, _, hOnce.trans (if_pos hPast)⟩
    intro hSafe
    have hChecksum := hSafe.checksum
    omega
  have hWhole : i + (length.toNat + 4) ≤ w.length := by omega
  rcases lt_or_ge maxCommandByteLength (length.toNat + 4) with hLong | hCommand
  · refine .inr ⟨?_, .outOfBounds, ?_⟩
    · intro hSafe
      have hFits := hSafe.command
      omega
    · have hGood : ¬ maxCommandByteLength < length.toNat :=
        not_lt.mpr (le_of_lt length.toNat_lt)
      have hReady : ¬ w.length - (i + 3) < length.toNat := by omega
      rw [hOnce, if_neg hPast]
      simp [afterLength, hGood, h.pos, hReady, Reader.copyCommand_overflows hLong, bind,
        Except.bind]
  · have hTake := frame_take (w.drop i)
    have hTaken : ((w.drop i).take (length.toNat + 4)).length = length.toNat + 4 := by
      rw [length_take]
      omega
    rw [hSize] at hTake
    have hVerifies := h.verifies hLength hWhole hCommand
    have hIff := verifyNotification_safe_iff (hTake.1.trans hTaken.symm)
        (le_trans (le_of_eq hTaken) hCommand)
    rw [hTaken, hTake.2] at hIff
    cases hVerify : verifyNotification (paddedCommand ((w.drop i).take (length.toNat + 4)))
        (length.toNat + 4) with
    | error fault =>
      rw [hVerify] at hIff hVerifies
      refine .inr ⟨?_, fault, hVerifies⟩
      intro hSafe
      have hData := hSafe.data
      rw [hSize] at hData
      rcases hIff.mpr hData with ⟨_, hOk⟩
      cases hOk
    | ok verified =>
      rw [hVerify] at hIff hVerifies
      have hData := hIff.mp ⟨verified, rfl⟩
      rw [← hSize] at hData
      refine .inl ⟨⟨?_, ?_, hData⟩, hVerifies⟩
      · rw [hSize]
        exact hCommand
      · omega

end Sees

------
-- Strict Runs
------

/- All frames that a search of the window takes are safe. -/
def WindowSafe (w : List UInt8) : Prop :=
  ∀ frame, Takes w frame → FrameSafe frame

theorem firstFrom_unique {c : UInt8} {j : Nat} (hFirst : Buffer.FirstFrom w 0 c i)
    (hOther : Buffer.FirstFrom w 0 c j) : i = j := by
  rcases Nat.lt_trichotomy i j with hLt | hEq | hGt
  · exact absurd hFirst.holds (hOther.first i (Nat.zero_le i) hLt)
  · exact hEq
  · exact absurd hOther.holds (hFirst.first j (Nat.zero_le j) hGt)

theorem LengthAt.unique {j : Nat} {other : UInt8}
    (hLength : LengthAt w i length) (hOther : LengthAt w j other) : i = j ∧ length = other := by
  rcases firstFrom_unique hLength.first hOther.first with rfl
  have hByte := hLength.lengthByte
  rw [hOther.lengthByte] at hByte
  exact ⟨rfl, (Option.some.inj hByte).symm⟩

/- The frames of a window are its first and those behind. -/
theorem windowSafe_iff (hLength : LengthAt w i length) (hEnough : i + 3 + length.toNat ≤ w.length) :
    WindowSafe w ↔ FrameSafe (w.drop i) ∧ WindowSafe (w.drop (i + 4 + length.toNat)) := by
  constructor
  · intro hSafe
    refine ⟨hSafe _ (.first hLength hEnough), ?_⟩
    intro frame hTakes
    exact hSafe frame (.later hLength hEnough hTakes)
  · rintro ⟨hFirst, hRest⟩ frame hTakes
    cases hTakes with
    | first hOther _ =>
      rcases hLength.unique hOther with ⟨rfl, rfl⟩
      exact hFirst
    | later hOther _ hTakes =>
      rcases hLength.unique hOther with ⟨rfl, rfl⟩
      exact hRest frame hTakes

theorem windowSafe_of_none (hNone :
      ∀ i length, LengthAt w i length → w.length < i + 3 + length.toNat) : WindowSafe w := by
  intro frame hTakes
  cases hTakes with
  | first hLength hEnough | later hLength hEnough =>
    exact absurd hEnough (not_le.mpr (hNone _ _ hLength))

/- What a search leaves, if it succeeds. -/
def Settles (searchByte fuel : Nat) (s : Search) (w : List UInt8) : Prop :=
  (WindowSafe w ∧ ∃ r effects keep, loop (strictSearchOnce searchByte) fuel s = .ok (r, effects) ∧
      Holds r keep ∧ keep.length ≤ 257) ∨
  (¬ WindowSafe w ∧ ∃ fault, loop (strictSearchOnce searchByte) fuel s = .error fault)

theorem StopsWith.settles {keep : List UInt8} (hStops : StopsWith searchByte s keep)
    (hKeep : keep.length ≤ 257) (hSafe : WindowSafe w) (fuel : Nat) :
    Settles searchByte (fuel + 1) s w := by
  rcases hStops with ⟨r, effects, hOnce, hHolds⟩
  refine .inl ⟨hSafe, r, effects, keep, ?_, hHolds, hKeep⟩
  simp only [loop, hOnce]

/- The search takes frame after frame out of the window. -/
theorem Sees.settles (h : Sees s searchByte w) {fuel : Nat}
    (hFuel : w.length < fuel) : Settles searchByte fuel s w := by
  induction fuel generalizing s w with
  | zero => omega
  | succ fuel ih =>
    rcases firstFrom_or_absent w 0 startByte with ⟨i, hFirst⟩ | hAbsent
    · rcases lt_or_ge (i + 3) w.length with hMore | hShort
      · have hLength : LengthAt w i w[i + 2] := ⟨hFirst, getElem?_eq_getElem (by omega), hMore⟩
        generalize w[i + 2] = length at hLength
        have hByte := length.toNat_lt
        rcases lt_or_ge w.length (i + 3 + length.toNat) with hShort | hEnough
        · apply (h.partialFrame hLength hShort).settles
          · rw [length_drop]
            omega
          · apply windowSafe_of_none
            intro j other hOther
            rcases hLength.unique hOther with ⟨rfl, rfl⟩
            exact hShort
        · have hIff := windowSafe_iff hLength hEnough
          rcases h.takes_frame hLength hEnough with ⟨hSafe, ⟨hNil, hStops⟩ | ⟨next, hOnce, hNext⟩⟩ |
            ⟨hUnsafe, fault, hOnce⟩
          · apply hStops.settles (Nat.zero_le 257)
            rw [hIff, hNil]
            refine ⟨hSafe, windowSafe_of_none ?_⟩
            intro j other hOther
            exact absurd hOther.first.holds nofun
          · have hRest : Settles searchByte fuel next (w.drop (i + 4 + length.toNat)) := by
              apply ih hNext
              rw [length_drop]
              omega
            unfold Settles
            simp only [loop, hOnce, hIff, hSafe, true_and]
            exact hRest
          · refine .inr ⟨fun hAll => hUnsafe (hIff.mp hAll).1, fault, ?_⟩
            simp only [loop, hOnce]
      · apply (h.header hFirst hShort).settles
        · rw [length_drop]
          omega
        · apply windowSafe_of_none
          intro j other hOther
          have hOtherMore := hOther.more
          have hSame := firstFrom_unique hFirst hOther.first
          omega
    · apply (h.noHead hAbsent).settles (Nat.zero_le 257)
      apply windowSafe_of_none
      intro j other hOther
      exact absurd hOther.first.holds (hAbsent j (Nat.zero_le j))

/- What holds of the reader after every search. -/
def Bounded (r : Reader) : Prop := ∃ w, Holds r w ∧ w.length ≤ 257

/- All frames that a read makes complete are safe. -/
def TakesSafe (r : Reader) (read : Read) : Prop :=
  WindowSafe (r.ttyBuffer.take r.ttyBufferPos ++ read.bytes)

/- A read succeeds exactly if its frames are safe. -/
theorem strictStep_settles {r : Reader} (hBounded : Bounded r) (read : Read) :
    (TakesSafe r read ∧ ∃ next, strictStep r read = .ok next ∧ Bounded next) ∨
    (¬ TakesSafe r read ∧ ∃ fault, strictStep r read = .error fault) := by
  rcases hBounded with ⟨w, hHolds, hShort⟩
  have hLe := read.le
  have hFits : w.length + read.bytes.length ≤ ttyBufferSize := by
    unfold maxReadByteOnce at hLe
    unfold ttyBufferSize
    omega
  rcases hHolds.append hFits with ⟨hCopy, hAppended⟩
  have hSees : Sees
      { reader :=
          { r with
            ttyBuffer := r.ttyBuffer.splice w.length read.bytes
            ttyBufferPos := r.ttyBufferPos + read.bytes.length }
        effects := [] }
      (r.ttyBufferPos + read.bytes.length)
      (w ++ read.bytes) :=
    { hAppended with
      covers := by rw [length_append, hHolds.pos]
      bound := by
        rw [hHolds.pos]
        exact hFits
      zeroAbove := by
        intro j hj hLt
        rw [length_append] at hj
        rw [hHolds.pos] at hLt
        omega }
  have hFuel : (w ++ read.bytes).length < r.ttyBufferPos + read.bytes.length + 1 := by
    rw [length_append, hHolds.pos]
    exact Nat.lt_succ_self _
  unfold TakesSafe strictStep
  rw [hHolds.pos, hHolds.window, ← hHolds.pos, hCopy, ok_bind]
  rcases hSees.settles hFuel with ⟨hSafe, next, effects, keep, hLoop, hNext, hKeep⟩ |
    ⟨hUnsafe, fault, hLoop⟩
  · refine .inl ⟨hSafe, next, ?_, keep, hNext, hKeep⟩
    dsimp only
    rw [hLoop]
    rfl
  · refine .inr ⟨hUnsafe, fault, ?_⟩
    dsimp only
    rw [hLoop]
    rfl

/-
  The reader stays below 256 in `command`, below 64 in the data of a notification and below
  `tty_buffer_pos` in the bytes of its frames if and only if every frame that it takes has at most
  252 bytes of data, and at most 60 if its checksum is right, and ends before a read does.
-/
theorem canbox_indices_iff (reads : List Read) :
    Always strictStep (fun _ => True) Reader.init reads ↔
      Along strictStep TakesSafe Reader.init reads := by
  have hKeeps (r : Reader) (read : Read) (hBounded : Bounded r) (hSafe : TakesSafe r read) :
      ∃ next, strictStep r read = .ok next ∧ Bounded next := by
    rcases strictStep_settles hBounded read with ⟨_, hOk⟩ | ⟨hUnsafe, _⟩
    · exact hOk
    · exact absurd hSafe hUnsafe
  refine always_iff_along (fun _ _ => trivial) hKeeps ?_ ⟨[], .init, Nat.zero_le 257⟩ reads
  intro r read next hBounded hUnsafe hNext
  rcases strictStep_settles hBounded read with ⟨hSafe, _⟩ | ⟨_, fault, hError⟩
  · exact absurd hSafe hUnsafe
  · rw [hError] at hNext
    cases hNext

/- A frame that is read up to its checksum byte. -/
def withoutChecksum : Read :=
  ⟨[0x2E, 0x01, 0x01, 0x05], by decide, by decide⟩

/- The start of a frame that announces 253 bytes. -/
def longHead : Read :=
  ⟨[0x2E, 0x01, 0xFD, 0x00], by decide, by decide⟩

def zeros : Read := ⟨replicate 64 0, by decide, by decide⟩

/- The checksum that is not there is read above the bytes; 257 bytes are copied into `command`. -/
theorem canbox_indices_out_of_bounds :
    run strictStep Reader.init [withoutChecksum] = .error .outOfBounds ∧ run strictStep Reader.init
      [longHead, zeros, zeros, zeros, zeros] = .error .outOfBounds := by
  constructor
  · decide +kernel
  · decide +kernel

end OpenIvi.Serial.Canbox
