import OpenIvi.Lib.Buffer

/-
  The reader side of the serial HALs `libmpeg` and `libipod`.

  Both collect the bytes read from the tty in `tty_buffer` and look for complete commands after
  every read. The two sources share their text; a `Protocol` holds what differs: the two start
  bytes, the guard on the length byte and the number of checksum bytes that the length byte leaves
  out.

  The window of a reader is the part of `tty_buffer` below `tty_buffer_pos`. `Scans` says, on
  windows alone, which commands one call of `check_full_command` hands over and which bytes it
  keeps, for a search that starts at `k`.

  A `RawFrame` is what stands behind a head: a length byte that the search does not give up on, and
  as many bytes as it asks for. Nothing is known of these bytes, and the checksum among them may be
  wrong.

  Main declarations:
    * `Protocol`
    * `Scans`
    * `checkFullCommand_eq`
    * `readerStep_eq`
-/

------
-- Protocols And Reader State
------

namespace OpenIvi.Serial

open Lib List

/- `MAX_BUFFER_STRING + 16`, the size of both buffers. -/
def ttyBufferSize : Nat := 512 + 16

/- `MAX_READ_BYTE_ONCE` of `libmpeg` and `libipod`. -/
def maxReadByteOnce : Nat := 256

/- `MAX_COMMAND_BYTE_LENGTH` of all three HALs. -/
def maxCommandByteLength : Nat := 256

/- What the two readers differ in. -/
structure Protocol where
  startByteOne : UInt8
  startByteTwo : UInt8
  /- The length values on which the search gives up. -/
  badLength : Nat → Bool
  /- Bytes of a frame that the length byte leaves out. -/
  checksumBytes : Nat

/- `libmpeg`: frames start with `4B B4` and the length byte counts the checksum too. -/
def mpeg : Protocol where
  startByteOne := 0x4B
  startByteTwo := 0xB4
  badLength := fun length => maxCommandByteLength < length
  checksumBytes := 0

/-
  `libipod`: frames start with `FF 55`, a zero length byte announces the large packet format, and
  one checksum byte follows the bytes that are counted.
-/
def ipod : Protocol where
  startByteOne := 0xFF
  startByteTwo := 0x55
  badLength := fun length => length == 0
  checksumBytes := 1

/- The static data of the read thread. -/
structure Reader where
  ttyBuffer : Buffer
  tmpBuffer : Buffer
  ttyBufferPos : Nat
deriving DecidableEq, Repr

/- Both buffers start out zeroed and empty. -/
def Reader.init : Reader where
  ttyBuffer := List.replicate ttyBufferSize 0
  tmpBuffer := List.replicate ttyBufferSize 0
  ttyBufferPos := 0

/- The locals of `check_full_command` around its loop. -/
structure Search where
  reader : Reader
  pStart : Nat
  searchByte : Nat
  /- The buffers handed to `parse_command` so far. -/
  parsed : List Buffer
deriving DecidableEq, Repr

------
-- The Search For Complete Commands
------

/- Copy `n` bytes from `p_head` to the buffer head and make them the whole content. -/
def Reader.keepHead (r : Reader) (pHead n : Nat) : Except Fault Reader := do
  let tty ← r.ttyBuffer.memcpy 0 r.ttyBuffer pHead n
  return { r with ttyBuffer := tty, ttyBufferPos := n }

/- The same through `tmp_buffer`, for an incomplete frame. -/
def Reader.keepPartial (r : Reader) (pHead n : Nat) : Except Fault Reader := do
  let tmp ← r.tmpBuffer.memcpy 0 r.ttyBuffer pHead n
  let tty ← r.ttyBuffer.memcpy 0 tmp 0 n
  let tmp ← tmp.memset 0 0 ttyBufferSize
  return {
    ttyBuffer := tty
    tmpBuffer := tmp
    ttyBufferPos := n }

/- Zero the bytes above the ones that are left. -/
def clearAbove (tty : Buffer) (pos : Nat) : Except Fault Buffer :=
  if pos = 0 then
    tty.memset 0 0 ttyBufferSize
  else
    tty.memset pos 0 (ttyBufferSize - pos)

/-
  Zero the first `skip` bytes, move the `rest` bytes behind them to the buffer head through
  `tmp_buffer` and zero what is above them.
-/
def Reader.moveRest (r : Reader) (skip rest : Nat) : Except Fault Reader := do
  let tty ← r.ttyBuffer.memset 0 0 skip
  let tmp ← r.tmpBuffer.memcpy 0 tty skip rest
  let tty ← tty.memcpy 0 tmp 0 rest
  let tmp ← tmp.memset 0 0 ttyBufferSize
  let tty ← clearAbove tty rest
  return {
    ttyBuffer := tty
    tmpBuffer := tmp
    ttyBufferPos := rest }

/- Copy `n` bytes from `off` on into a zeroed `command`. -/
def Reader.copyCommand (r : Reader) (off n : Nat) : Except Fault Buffer := do
  let command ← Buffer.memset (List.replicate maxCommandByteLength 0) 0 0 maxCommandByteLength
  command.memcpy 0 r.ttyBuffer off n

variable (p : Protocol)

/-
  Copy a complete frame into `command`, without its start bytes, and move the bytes behind it to the
  buffer head.
-/
def Reader.takeCommand (r : Reader) (pHead length leftBytes : Nat) :
    Except Fault (Reader × Buffer) := do
  let command ← r.copyCommand (pHead + 2) (length + 1 + p.checksumBytes)
  let r ← r.moveRest (pHead + 3 + length) (leftBytes - length)
  return (r, command)

/-
  The branch of `check_full_command` behind a length byte: wait for the rest of the frame or take
  the frame out.
-/
def afterLength (s : Search) (pHead length : Nat) :
    Except Fault (Ctl Search (Reader × List Buffer)) := do
  let r := s.reader
  if p.badLength length then
    return .done (r, s.parsed)
  let leftBytes := r.ttyBufferPos - (pHead + 3)
  if leftBytes < length + p.checksumBytes then
    let r ← r.keepPartial pHead (leftBytes + 3)
    return .done (r, s.parsed)
  else
    let (r, command) ← r.takeCommand p pHead length leftBytes
    let parsed := s.parsed ++ [command]
    if r.ttyBufferPos = 0 then
      return .done (r, parsed)
    else
      return .again
        { s with reader := r, parsed := parsed }

/-
  One pass through the loop of `check_full_command`. The start of the search and its length live on
  from one pass to the next.
-/
def searchOnce (s : Search) : Except Fault (Ctl Search (Reader × List Buffer)) := do
  let r := s.reader
  let found ← r.ttyBuffer.memchr s.pStart p.startByteOne s.searchByte
  match found with
  | none => return .done ({ r with ttyBufferPos := 0 }, s.parsed)
  | some pHead =>
    if pHead + 1 = r.ttyBufferPos then
      let r ← r.keepHead pHead 1
      return .done (r, s.parsed)
    let second ← r.ttyBuffer.load (pHead + 1)
    if second = p.startByteTwo then
      if pHead + 2 = r.ttyBufferPos then
        let r ← r.keepHead pHead 2
        return .done (r, s.parsed)
      else if pHead + 3 = r.ttyBufferPos then
        let r ← r.keepHead pHead 3
        return .done (r, s.parsed)
      else
        let lengthByte ← r.ttyBuffer.load (pHead + 2)
        afterLength p s pHead lengthByte.toNat
    else
      return .again
        { s with pStart := pHead + 1, searchByte := r.ttyBufferPos - (pHead + 1) }

/-
  `check_full_command`: the reader afterwards and, in order, the buffers handed to `parse_command`.
  Two passes for each buffered byte are enough, see `checkFullCommand_eq`.
-/
def checkFullCommand (r : Reader) : Except Fault (Reader × List Buffer) :=
  if r.ttyBufferPos = 0 then
    .ok (r, [])
  else
    loop (searchOnce p) (2 * r.ttyBufferPos + 1)
      { reader := r, pStart := 0, searchByte := r.ttyBufferPos, parsed := [] }

/-
  One pass of `read_thread_func` after a successful read: append the chunk at `tty_buffer_pos`, then
  look for complete commands.
-/
def readerStep (r : Reader) (chunk : List UInt8) : Except Fault (Reader × List Buffer) := do
  let tty ← r.ttyBuffer.memcpy r.ttyBufferPos chunk 0 chunk.length
  checkFullCommand p
    { r with ttyBuffer := tty, ttyBufferPos := r.ttyBufferPos + chunk.length }

/- The read thread over a sequence of reads. -/
def runReader : Reader → List (List UInt8) → Except Fault (Reader × List Buffer) :=
  feed (readerStep p)

/-
  A way of cutting a stream into reads: every read returns between one byte and the size of the read
  buffer.
-/
def IsCut (maxRead : Nat) (chunks : List (List UInt8)) : Prop :=
  ∀ chunk ∈ chunks, 1 ≤ chunk.length ∧ chunk.length ≤ maxRead

instance (maxRead : Nat) (chunks : List (List UInt8)) : Decidable (IsCut maxRead chunks) := by
  unfold IsCut
  infer_instance

------
-- Windows
------

variable {b : UInt8} {chunk : List UInt8} {off : Nat}

theorem lt_length_of_getElem? {w : List UInt8} {i : Nat} (h : w[i]? = some b) : i < w.length := by
  by_contra hGe
  rw [getElem?_eq_none (by omega)] at h
  cases h

/- The reader's buffered bytes are exactly `w`. -/
structure Holds (r : Reader) (w : List UInt8) : Prop where
  ttyLength : r.ttyBuffer.length = ttyBufferSize
  tmpLength : r.tmpBuffer.length = ttyBufferSize
  pos : r.ttyBufferPos = w.length
  window : r.ttyBuffer.take w.length = w

namespace Holds

variable {r : Reader} {w : List UInt8}

theorem init : Holds Reader.init [] where
  ttyLength := by simp [Reader.init]
  tmpLength := by simp [Reader.init]
  pos := rfl
  window := rfl

section

variable (h : Holds r w)

include h

theorem length_le : w.length ≤ ttyBufferSize := by
  have hLen := congrArg length h.window
  rw [length_take, h.ttyLength] at hLen
  omega

variable {i n : Nat}

theorem getElem?_eq (hi : i < w.length) : r.ttyBuffer[i]? = w[i]? := by
  rw [← getElem?_take_of_lt hi, h.window]

theorem block_eq (hBlock : i + n ≤ w.length) :
    (r.ttyBuffer.drop i).take n = (w.drop i).take n := by
  conv_rhs => rw [← h.window]
  rw [drop_take, take_take, min_eq_left (by omega)]

/-
  A byte that the window does not hold is not found, if the search sees only zeros above the window.
-/
theorem memchr_none {c : UInt8} (hNonzero : c ≠ 0) (hBound : off + n ≤ ttyBufferSize)
    (hZero : ∀ i, w.length ≤ i → i < off + n → r.ttyBuffer[i]? = some 0)
    (hAbsent : ∀ i, off ≤ i → w[i]? ≠ some c) : r.ttyBuffer.memchr off c n = .ok none := by
  apply Buffer.memchr_eq_none
  · rw [h.ttyLength]
    exact hBound
  · intro j hGe hLt
    by_cases hj : j < w.length
    · rw [h.getElem?_eq hj]
      exact hAbsent j hGe
    · rw [hZero j (by omega) hLt]
      simpa using hNonzero.symm

/- The first occurrence in the window is found. -/
theorem memchr_some {c : UInt8} (hBound : off + n ≤ ttyBufferSize) (hCovers : w.length ≤ off + n)
    (hFirst : Buffer.FirstFrom w off c i) : r.ttyBuffer.memchr off c n = .ok (some i) := by
  have hi := lt_length_of_getElem? hFirst.holds
  apply Buffer.memchr_eq_some
  · rw [h.ttyLength]
    exact hBound
  · exact
      { ge := hFirst.ge
        holds := by
          rw [h.getElem?_eq hi]
          exact hFirst.holds
        first := by
          intro j hGe hLt
          rw [h.getElem?_eq (by omega)]
          exact hFirst.first j hGe hLt }
  · omega

theorem load_eq (hByte : w[i]? = some b) : r.ttyBuffer.load i = .ok b := by
  apply Buffer.load_eq
  rw [h.getElem?_eq (lt_length_of_getElem? hByte)]
  exact hByte

theorem clear : Holds { r with ttyBufferPos := 0 } [] where
  ttyLength := h.ttyLength
  tmpLength := h.tmpLength
  pos := rfl
  window := rfl

section

variable (hSuffix : i + n = w.length)

include hSuffix

/- A suffix of the window spliced in front is kept. -/
theorem splice_front (tmp : Buffer) (hTmp : tmp.length = ttyBufferSize) :
    Holds
      { ttyBuffer := r.ttyBuffer.splice 0 (w.drop i)
        tmpBuffer := tmp
        ttyBufferPos := n }
      (w.drop i) where
  ttyLength := by
    have hLe := h.length_le
    rw [Buffer.length_splice (by
      rw [h.ttyLength, length_drop]
      omega)]
    exact h.ttyLength
  tmpLength := hTmp
  pos := by
    rw [length_drop]
    exact (Nat.sub_eq_of_eq_add' hSuffix.symm).symm
  window := Buffer.take_splice_zero _ _

theorem suffix_eq : (r.ttyBuffer.drop i).take n = w.drop i := by
  rw [h.block_eq (by omega), take_of_length_le (by
    rw [length_drop]
    omega)]

theorem keepHead_eq :
    ∃ next, r.keepHead i n = .ok next ∧ Holds next (w.drop i) ∧
      next.ttyBuffer = r.ttyBuffer.splice 0 (w.drop i) := by
  have hLe := h.length_le
  have hTty := h.ttyLength
  refine ⟨_, ?_, h.splice_front hSuffix _ h.tmpLength, rfl⟩
  rw [Reader.keepHead, Buffer.memcpy_eq (by omega) (by omega), h.suffix_eq hSuffix]
  rfl

/- The same through `tmp_buffer`. -/
theorem keepPartial_eq :
    ∃ next, r.keepPartial i n = .ok next ∧ Holds next (w.drop i) ∧
      next.ttyBuffer = r.ttyBuffer.splice 0 (w.drop i) := by
  have hLe := h.length_le
  have hTty := h.ttyLength
  have hTmp := h.tmpLength
  have hDrop : (w.drop i).length = n := by
    rw [length_drop]
    omega
  have hTmpLen : (r.tmpBuffer.splice 0 (w.drop i)).length = ttyBufferSize := by
    rw [Buffer.length_splice (by omega), hTmp]
  have hBack : ((r.tmpBuffer.splice 0 (w.drop i)).drop 0).take n = w.drop i := by
    rw [drop_zero, ← hDrop]
    exact Buffer.take_splice_zero _ _
  refine ⟨_, ?_, h.splice_front hSuffix ((r.tmpBuffer.splice 0 (w.drop i)).splice 0
      (replicate ttyBufferSize 0)) ?_, rfl⟩
  · rw [Reader.keepPartial, Buffer.memcpy_eq (by omega) (by omega), h.suffix_eq hSuffix, ok_bind,
      Buffer.memcpy_eq (by omega) (by omega), hBack, ok_bind, Buffer.memset_eq 0 (by omega)]
    rfl
  · rw [Buffer.length_fill 0 (by omega)]
    exact hTmpLen

end

theorem suffix_of_fill (skip : Nat) :
    ((r.ttyBuffer.splice 0 (replicate skip 0)).drop skip).take (w.length - skip) = w.drop skip := by
  have hDrop : (r.ttyBuffer.splice 0 (replicate skip 0)).drop skip = r.ttyBuffer.drop skip := by
    rw [Buffer.splice_zero, drop_append_of_le_length (by simp)]
    simp
  rw [hDrop]
  by_cases hEmpty : w.length ≤ skip
  · rw [drop_of_length_le hEmpty, Nat.sub_eq_zero_of_le hEmpty]
    rfl
  · exact h.suffix_eq (by omega)

end

end Holds

/- Bytes at the front of a zeroed command buffer. -/
def paddedCommand (bytes : List UInt8) : Buffer :=
  Buffer.splice (replicate maxCommandByteLength 0) 0 bytes

/-
  The command buffer for the frame at `i`: the length byte and the bytes behind it, padded with
  zeros.
-/
def commandBuffer (w : List UInt8) (i length : Nat) : Buffer :=
  paddedCommand ((w.drop (i + 2)).take (length + 1 + p.checksumBytes))

theorem clearAbove_eq {tty : Buffer} {pos : Nat}
    (hLength : tty.length = ttyBufferSize) (hPos : pos ≤ ttyBufferSize) :
    clearAbove tty pos = .ok (tty.splice pos (replicate (ttyBufferSize - pos) 0)) := by
  unfold clearAbove
  split
  next hZero =>
    subst hZero
    exact Buffer.memset_eq 0 (by omega)
  next => exact Buffer.memset_eq 0 (by omega)

/- Moving the rest of the window to the front leaves zeros above it. -/
theorem Holds.moveRest_eq {r : Reader} {w : List UInt8}
    (h : Holds r w) (skip : Nat) (hSkip : skip ≤ ttyBufferSize) :
    ∃ next, r.moveRest skip (w.length - skip) = .ok next ∧ Holds next (w.drop skip) ∧
      ∀ j, (w.drop skip).length ≤ j → j < ttyBufferSize → next.ttyBuffer[j]? = some 0 := by
  have hLe := h.length_le
  have hTty := h.ttyLength
  have hTmp := h.tmpLength
  have hBlock := h.suffix_of_fill skip
  have hRestLen : (w.drop skip).length = w.length - skip := length_drop
  rw [← hRestLen] at hBlock ⊢
  generalize w.drop skip = rest at hBlock hRestLen ⊢
  let zeroed := r.ttyBuffer.splice 0 (replicate skip 0)
  have hZeroedLen : zeroed.length = ttyBufferSize := by rw [Buffer.length_fill 0 (by omega), hTty]
  let moved := r.tmpBuffer.splice 0 rest
  have hMovedLen : moved.length = ttyBufferSize := by rw [Buffer.length_splice (by omega), hTmp]
  have hMovedBlock : (moved.drop 0).take rest.length = rest :=
    Buffer.take_splice_zero _ _
  let front := zeroed.splice 0 rest
  have hFrontLen : front.length = ttyBufferSize := by
    rw [Buffer.length_splice (by omega), hZeroedLen]
  let last := front.splice rest.length (replicate (ttyBufferSize - rest.length) 0)
  refine
    ⟨{ ttyBuffer := last
       tmpBuffer := moved.splice 0 (replicate ttyBufferSize 0)
       ttyBufferPos := rest.length }, ?_, ?_, ?_⟩
  · have hZeroed : r.ttyBuffer.memset 0 0 skip = .ok zeroed := Buffer.memset_eq 0 (by omega)
    have hMoved : r.tmpBuffer.memcpy 0 zeroed skip rest.length = .ok moved := by
      rw [Buffer.memcpy_eq (by omega) (by omega), hBlock]
    have hFront : zeroed.memcpy 0 moved 0 rest.length = .ok front := by
      rw [Buffer.memcpy_eq (by omega) (by omega), hMovedBlock]
    have hErased : moved.memset 0 0 ttyBufferSize = .ok (moved.splice 0
        (replicate ttyBufferSize 0)) :=
      Buffer.memset_eq 0 (by omega)
    have hLast : clearAbove front rest.length = .ok last := clearAbove_eq hFrontLen (by omega)
    simp only [Reader.moveRest, hZeroed, hMoved, hFront, hErased, hLast, ok_bind]
    rfl
  · exact
      { ttyLength := by
          rw [Buffer.length_fill 0 (by omega), hFrontLen]
        tmpLength := by rw [Buffer.length_fill 0 (by omega), hMovedLen]
        pos := rfl
        window := by
          rw [Buffer.take_splice (by omega)]
          exact Buffer.take_splice_zero _ _ }
  · intro j hj hjSize
    exact Buffer.getElem?_fill_of_mem 0 (by omega) hj (by omega)

theorem zeroedCommand_eq :
    Buffer.memset (replicate maxCommandByteLength 0) 0 0 maxCommandByteLength =
      .ok (replicate maxCommandByteLength 0) := by
  rw [Buffer.memset_eq 0 (by simp), Buffer.splice_zero]
  simp

theorem Reader.copyCommand_eq {r : Reader} {n : Nat}
    {bytes : List UInt8} (hBlock : (r.ttyBuffer.drop off).take n = bytes)
    (hTty : off + n ≤ r.ttyBuffer.length) (hCommand : n ≤ maxCommandByteLength) :
    r.copyCommand off n = .ok (paddedCommand bytes) := by
  rw [Reader.copyCommand, zeroedCommand_eq, ok_bind,
    Buffer.memcpy_eq (by simpa using hCommand) hTty, hBlock]
  rfl

/- More bytes than `command` has are not copied. -/
theorem Reader.copyCommand_overflows {n : Nat}
    (hLong : maxCommandByteLength < n) (r : Reader) (off : Nat) :
    r.copyCommand off n = .error .outOfBounds := by
  rw [Reader.copyCommand, zeroedCommand_eq, ok_bind]
  apply if_neg
  rintro ⟨hFits, _⟩
  rw [length_replicate] at hFits
  omega

/- Taking a complete frame leaves the bytes behind it, and zeros above them. -/
theorem Holds.takeCommand_eq {r : Reader} {w : List UInt8}
    (h : Holds r w) (p : Protocol) {i length : Nat}
    (hFrame : i + 3 + length + p.checksumBytes ≤ w.length)
    (hCommand : length + 1 + p.checksumBytes ≤ maxCommandByteLength) :
    ∃ next, r.takeCommand p i length (w.length - (i + 3)) = .ok (next, commandBuffer p w i length) ∧
      Holds next (w.drop (i + 3 + length)) ∧ ∀ j, (w.drop (i + 3 + length)).length ≤ j →
        j < ttyBufferSize → next.ttyBuffer[j]? = some 0 := by
  have hLe := h.length_le
  have hTty := h.ttyLength
  have hCopied : r.copyCommand (i + 2) (length + 1 + p.checksumBytes) =
      .ok (commandBuffer p w i length) :=
    Reader.copyCommand_eq (h.block_eq (by omega)) (by omega) hCommand
  rcases h.moveRest_eq (i + 3 + length) (by omega) with ⟨next, hMove, hHolds, hZero⟩
  refine ⟨next, ?_, hHolds, hZero⟩
  rw [Reader.takeCommand, hCopied, ok_bind, Nat.sub_sub, hMove]
  rfl

------
-- Scanning A Window
------

/- Both start bytes stand at `i`, the first place at or above `k` with the first one. -/
structure HeadAt (p : Protocol) (k : Nat) (w : List UInt8) (i : Nat) : Prop where
  first : Buffer.FirstFrom w k p.startByteOne i
  second : w[i + 1]? = some p.startByteTwo

/- A head at `i` with its length byte and at least one more byte. -/
structure LengthAt (p : Protocol) (k : Nat) (w : List UInt8) (i : Nat)
    (length : UInt8) : Prop extends HeadAt p k w i where
  lengthByte : w[i + 2]? = some length
  more : i + 3 < w.length

/-
  `Scans p k w parsed keep`: a search of the window `w` from `k` on hands over `parsed` and leaves
  the window `keep`.
-/
inductive Scans (p : Protocol) : Nat → List UInt8 → List Buffer → List UInt8 → Prop where
| noHead {k : Nat} {w : List UInt8} :
    (∀ i, k ≤ i → w[i]? ≠ some p.startByteOne) → Scans p k w [] []
| lastByte {k i : Nat} {w : List UInt8} :
    Buffer.FirstFrom w k p.startByteOne i → i + 1 = w.length → Scans p k w [] (w.drop i)
| falseHead {k i : Nat} {w keep : List UInt8} {b : UInt8} {parsed : List Buffer} :
    Buffer.FirstFrom w k p.startByteOne i → w[i + 1]? = some b → b ≠ p.startByteTwo →
    Scans p (i + 1) w parsed keep → Scans p k w parsed keep
| header {k i : Nat} {w : List UInt8} :
    HeadAt p k w i → i + 2 = w.length ∨ i + 3 = w.length → Scans p k w [] (w.drop i)
| badLength {k i : Nat} {w : List UInt8} {length : UInt8} : LengthAt p k w i length →
    p.badLength length.toNat = true → Scans p k w [] w
| partialFrame {k i : Nat} {w : List UInt8} {length : UInt8} : LengthAt p k w i length →
    p.badLength length.toNat = false → w.length < i + 3 + length.toNat + p.checksumBytes →
    Scans p k w [] (w.drop i)
| frame {k i : Nat} {w keep : List UInt8} {length : UInt8} {parsed : List Buffer} :
    LengthAt p k w i length → p.badLength length.toNat = false →
    i + 3 + length.toNat + p.checksumBytes ≤ w.length →
    length.toNat + 1 + p.checksumBytes ≤ maxCommandByteLength →
    Scans p k (w.drop (i + 3 + length.toNat)) parsed keep →
    Scans p k w (commandBuffer p w i length.toNat :: parsed) keep

theorem Scans.of_nil {p : Protocol} {k : Nat} {parsed : List Buffer}
    {keep : List UInt8} (h : Scans p k [] parsed keep) : parsed = [] ∧ keep = [] := by
  cases h with
  | noHead => exact ⟨rfl, rfl⟩
  | lastByte hFirst | falseHead hFirst => exact absurd hFirst.holds (by simp)
  | header hHead => exact absurd hHead.first.holds (by simp)
  | badLength hLength | partialFrame hLength | frame hLength =>
    exact absurd hLength.first.holds (by simp)

/-
  A loop state searches the window `w` from `k` on: the bytes it looks at above the window are
  zeros.
-/
structure Represents (s : Search) (k : Nat) (w : List UInt8) : Prop extends Holds s.reader w where
  start : s.pStart = k
  bound : k + s.searchByte ≤ ttyBufferSize
  covers : w.length ≤ k + s.searchByte
  zeroAbove : ∀ i, w.length ≤ i → i < k + s.searchByte → s.reader.ttyBuffer[i]? = some 0

------
-- One Pass Of The Loop
------

/- The loop ends and leaves the window `keep`. -/
def Ends (s : Search) (parsed : List Buffer) (keep : List UInt8) : Prop :=
  ∃ r, searchOnce p s = .ok (.done (r, s.parsed ++ parsed)) ∧ Holds r keep

/- The loop goes on with the window `w` from `k` on. -/
def Continues (s : Search) (parsed : List Buffer) (k : Nat) (w : List UInt8) : Prop :=
  ∃ next, searchOnce p s = .ok (.again next) ∧
    next.parsed = s.parsed ++ parsed ∧ Represents next k w

namespace Represents

variable {p : Protocol} {s : Search} {k i : Nat} {w : List UInt8} {length : UInt8}

section

variable (h : Represents s k w)

include h

theorem find_none (hOne : p.startByteOne ≠ 0) (hAbsent : ∀ i, k ≤ i → w[i]? ≠ some p.startByteOne) :
    s.reader.ttyBuffer.memchr s.pStart p.startByteOne s.searchByte = .ok none := by
  rw [h.start]
  exact h.memchr_none hOne h.bound h.zeroAbove hAbsent

theorem find_some (hFirst : Buffer.FirstFrom w k p.startByteOne i) :
    s.reader.ttyBuffer.memchr s.pStart p.startByteOne s.searchByte = .ok (some i) := by
  rw [h.start]
  exact h.memchr_some h.bound h.covers hFirst

theorem searchOnce_lengthAt (hLength : LengthAt p k w i length) :
    searchOnce p s = afterLength p s i length.toNat := by
  have hMore := hLength.more
  have hOne : ¬ i + 1 = w.length := by omega
  have hTwo : ¬ i + 2 = w.length := by omega
  have hThree : ¬ i + 3 = w.length := by omega
  simp [searchOnce, h.find_some hLength.first, h.pos, hOne, hTwo, hThree, h.load_eq hLength.second,
    h.load_eq hLength.lengthByte]

theorem noHead (hOne : p.startByteOne ≠ 0)
    (hAbsent : ∀ i, k ≤ i → w[i]? ≠ some p.startByteOne) : Ends p s [] [] := by
  refine ⟨_, ?_, h.clear⟩
  simp [searchOnce, h.find_none hOne hAbsent]

theorem lastByte (hFirst : Buffer.FirstFrom w k p.startByteOne i)
    (hLast : i + 1 = w.length) : Ends p s [] (w.drop i) := by
  rcases h.keepHead_eq (n := 1) hLast with ⟨next, hKeep, hHolds, -⟩
  refine ⟨next, ?_, hHolds⟩
  simp [searchOnce, h.find_some hFirst, h.pos, hLast, hKeep]

/- A first byte without the second one is passed over. -/
theorem falseHead (hFirst : Buffer.FirstFrom w k p.startByteOne i)
    (hByte : w[i + 1]? = some b) (hNe : b ≠ p.startByteTwo) : Continues p s [] (i + 1) w := by
  have hLt := lt_length_of_getElem? hByte
  have hLe := h.length_le
  have hNotLast : ¬ i + 1 = w.length := by omega
  refine
    ⟨{ s with
       pStart := i + 1
       searchByte := w.length - (i + 1) }, ?_, by simp, ?_⟩
  · simp [searchOnce, h.find_some hFirst, h.pos, hNotLast, h.load_eq hByte, hNe]
  · exact
      { h.toHolds with
        start := rfl
        bound := by
          change i + 1 + (w.length - (i + 1)) ≤ _
          omega
        covers := by
          change _ ≤ i + 1 + (w.length - (i + 1))
          omega
        zeroAbove := by
          intro j hj hjLt
          change _ < i + 1 + (w.length - (i + 1)) at hjLt
          omega }

theorem header (hHead : HeadAt p k w i)
    (hShort : i + 2 = w.length ∨ i + 3 = w.length) : Ends p s [] (w.drop i) := by
  have hFirst := h.find_some hHead.first
  have hSecond := h.load_eq hHead.second
  have hNotLast : ¬ i + 1 = w.length := by omega
  rcases hShort with hTwo | hThree
  · rcases h.keepHead_eq (n := 2) hTwo with ⟨next, hKeep, hHolds, -⟩
    refine ⟨next, ?_, hHolds⟩
    simp [searchOnce, hFirst, h.pos, hNotLast, hSecond, hTwo, hKeep]
  · rcases h.keepHead_eq (n := 3) hThree with ⟨next, hKeep, hHolds, -⟩
    have hNotTwo : ¬ i + 2 = w.length := by omega
    refine ⟨next, ?_, hHolds⟩
    simp [searchOnce, hFirst, h.pos, hNotLast, hSecond, hNotTwo, hThree, hKeep]

section

variable (hLength : LengthAt p k w i length)

include hLength

theorem badLength (hBad : p.badLength length.toNat = true) : Ends p s [] w := by
  refine ⟨s.reader, ?_, h.toHolds⟩
  rw [h.searchOnce_lengthAt hLength]
  simp [afterLength, hBad]

theorem partialFrame (hGood : p.badLength length.toNat = false)
    (hShort : w.length < i + 3 + length.toNat + p.checksumBytes) : Ends p s [] (w.drop i) := by
  have hMore := hLength.more
  rcases h.keepPartial_eq (i := i) (n := w.length - (i + 3) + 3) (by omega) with
    ⟨next, hKeep, hHolds, -⟩
  have hWait : w.length - (i + 3) < length.toNat + p.checksumBytes := by omega
  refine ⟨next, ?_, hHolds⟩
  rw [h.searchOnce_lengthAt hLength]
  simp [afterLength, hGood, h.pos, hWait, hKeep]

/- Behind a frame the loop ends if no byte is left. -/
theorem frame (hGood : p.badLength length.toNat = false)
    (hEnough : i + 3 + length.toNat + p.checksumBytes ≤ w.length)
    (hCommand : length.toNat + 1 + p.checksumBytes ≤ maxCommandByteLength) :
    (w.drop (i + 3 + length.toNat) = [] ∧ Ends p s [commandBuffer p w i length.toNat] []) ∨
      Continues p s [commandBuffer p w i length.toNat] k (w.drop (i + 3 + length.toNat)) := by
  rcases h.takeCommand_eq p hEnough hCommand with ⟨reader, hTake, hHolds, hZero⟩
  have hReady : ¬ w.length - (i + 3) < length.toNat + p.checksumBytes := by omega
  have hPos := hHolds.pos
  by_cases hEmpty : w.drop (i + 3 + length.toNat) = []
  · refine .inl ⟨hEmpty, reader, ?_, hEmpty ▸ hHolds⟩
    rw [hEmpty] at hPos
    rw [h.searchOnce_lengthAt hLength]
    simp [afterLength, hGood, h.pos, hReady, hTake, hPos]
  · right
    have hNonzero : ¬ reader.ttyBufferPos = 0 := by
      rw [hPos]
      intro hNone
      exact hEmpty (length_eq_zero_iff.mp hNone)
    refine ⟨{ s with reader := reader, parsed := s.parsed ++ [commandBuffer p w i length.toNat] },
        ?_, rfl, ?_⟩
    · rw [h.searchOnce_lengthAt hLength]
      simp [afterLength, hGood, h.pos, hReady, hTake, hNonzero]
    · exact
        { hHolds with
          start := h.start
          bound := h.bound
          covers := by
            have hCovers := h.covers
            rw [length_drop]
            change _ ≤ k + s.searchByte
            omega
          zeroAbove := by
            intro j hj hjLt
            have hBound := h.bound
            change _ < k + s.searchByte at hjLt
            exact hZero j hj (by omega) }

end

end

end Represents

------
-- The Code Scans Its Window
------

/-
  A search from `s` on returns with `parsed` and the window `keep`, after a bounded number of
  passes.
-/
def SearchReturns (s : Search) (bound : Nat) (parsed : List Buffer) (keep : List UInt8) : Prop :=
  ∃ passes r, Returns (searchOnce p) passes s (r, s.parsed ++ parsed) ∧
      Holds r keep ∧ passes ≤ bound

variable {p : Protocol} {parsed : List Buffer} {keep w : List UInt8}

theorem Ends.returns {s : Search} (h : Ends p s parsed keep)
    (bound : Nat) : SearchReturns p s (bound + 1) parsed keep := by
  rcases h with ⟨r, hOnce, hHolds⟩
  exact ⟨1, r, .done hOnce, hHolds, by omega⟩

theorem Continues.returns {s : Search} {k bound less : Nat}
    {rest : List Buffer} (h : Continues p s parsed k w) (hRest : ∀ next, Represents next k w →
      SearchReturns p next less rest keep) (hLess : less < bound) :
    SearchReturns p s bound (parsed ++ rest) keep := by
  rcases h with ⟨next, hOnce, hParsed, hNext⟩
  rcases hRest next hNext with ⟨passes, r, hReturns, hHolds, hPasses⟩
  rw [hParsed, append_assoc] at hReturns
  exact ⟨passes + 1, r, .again hOnce hReturns, hHolds, by omega⟩

/-
  The loop computes what `Scans` says. Every pass either moves the search start up or takes a frame
  out, which bounds the number of passes.
-/
theorem Scans.returns (hOne : p.startByteOne ≠ 0) {k : Nat}
    (hScans : Scans p k w parsed keep) {s : Search} (hRep : Represents s k w) :
    SearchReturns p s (w.length + (w.length - k) + 1) parsed
      keep := by
  induction hScans generalizing s with
  | noHead hAbsent => exact (hRep.noHead hOne hAbsent).returns _
  | lastByte hFirst hLast => exact (hRep.lastByte hFirst hLast).returns _
  | falseHead hFirst hByte hNe _ ih =>
    have hLt := lt_length_of_getElem? hByte
    have hGe := hFirst.ge
    apply (hRep.falseHead hFirst hByte hNe).returns
    · intro next hNext
      exact ih hNext
    · omega
  | header hHead hShort => exact (hRep.header hHead hShort).returns _
  | badLength hLength hBad => exact (hRep.badLength hLength hBad).returns _
  | partialFrame hLength hGood hShort => exact (hRep.partialFrame hLength hGood hShort).returns _
  | frame hLength hGood hEnough hCommand hRest ih =>
    rcases hRep.frame hLength hGood hEnough hCommand with ⟨hEmpty, hEnds⟩ | hContinues
    · rw [hEmpty] at hRest
      rcases hRest.of_nil with ⟨rfl, rfl⟩
      exact hEnds.returns _
    · apply hContinues.returns
      · intro next hNext
        exact ih hNext
      · rw [length_drop]
        omega

/- `check_full_command` starts with its whole window. -/
theorem Holds.represents {r : Reader} (hHolds : Holds r w) :
    Represents
      { reader := r
        pStart := 0
        searchByte := r.ttyBufferPos
        parsed := [] } 0 w :=
  { hHolds with
    start := rfl
    bound := by simpa [hHolds.pos] using hHolds.length_le
    covers := by simp [hHolds.pos]
    zeroAbove := by
      intro i hi hLt
      simp only [hHolds.pos] at hLt
      omega }

/- `check_full_command` scans its window from the start. -/
theorem checkFullCommand_eq (hOne : p.startByteOne ≠ 0) {r : Reader}
    (hHolds : Holds r w) (hScans : Scans p 0 w parsed keep) :
    ∃ next, checkFullCommand p r = .ok (next, parsed) ∧ Holds next keep := by
  unfold checkFullCommand
  split
  next hZero =>
    have hEmpty : w = [] := length_eq_zero_iff.mp (hHolds.pos ▸ hZero)
    subst hEmpty
    rcases hScans.of_nil with ⟨rfl, rfl⟩
    exact ⟨r, rfl, hHolds⟩
  next =>
    rcases hScans.returns hOne hHolds.represents with ⟨passes, next, hReturns, hKept, hPasses⟩
    refine ⟨next, hReturns.loop_eq ?_, hKept⟩
    rw [hHolds.pos]
    omega

/- Appending a chunk extends the window by it. -/
theorem Holds.append {r : Reader} (h : Holds r w)
    (hFits : w.length + chunk.length ≤ ttyBufferSize) :
    r.ttyBuffer.memcpy r.ttyBufferPos chunk 0 chunk.length =
      .ok (r.ttyBuffer.splice w.length chunk) ∧ Holds
        { r with
          ttyBuffer := r.ttyBuffer.splice w.length chunk
          ttyBufferPos := r.ttyBufferPos + chunk.length }
        (w ++ chunk) := by
  have hTty := h.ttyLength
  have hPos := h.pos
  constructor
  · rw [Buffer.memcpy_eq (by omega) (by omega), hPos]
    simp
  · exact
      { ttyLength := by
          rw [Buffer.length_splice (by omega)]
          exact hTty
        tmpLength := h.tmpLength
        pos := by rw [length_append, ← hPos]
        window := by
          rw [Buffer.splice, h.window]
          exact take_left }

theorem readerStep_eq (hOne : p.startByteOne ≠ 0) {r : Reader}
    (hHolds : Holds r w) (hFits : w.length + chunk.length ≤ ttyBufferSize)
    (hScans : Scans p 0 (w ++ chunk) parsed keep) :
    ∃ next, readerStep p r chunk = .ok (next, parsed) ∧ Holds next keep := by
  rcases hHolds.append hFits with ⟨hCopy, hAppended⟩
  rcases checkFullCommand_eq hOne hAppended hScans with ⟨next, hCheck, hKept⟩
  refine ⟨next, ?_, hKept⟩
  rw [readerStep, hCopy]
  exact hCheck

------
-- Frames
------

variable {i : Nat} {α : Type} {x : Except Fault α} {β : Type} {f : α → Except Fault β}

/- A complete frame behind its start bytes. -/
structure RawFrame (p : Protocol) where
  length : UInt8
  good : p.badLength length.toNat = false
  rest : List UInt8
  complete : rest.length = length.toNat + p.checksumBytes

variable {p : Protocol}

/- What `command` holds of a frame. -/
def RawFrame.command (f : RawFrame p) : Buffer :=
  paddedCommand ((f.length :: f.rest).take maxCommandByteLength)

theorem length_paddedCommand {bytes : List UInt8} (hFits : bytes.length ≤ maxCommandByteLength) :
    (paddedCommand bytes).length = maxCommandByteLength := by
  have hLength : (replicate maxCommandByteLength (0 : UInt8)).length = maxCommandByteLength :=
    length_replicate
  unfold paddedCommand
  rw [Buffer.length_splice, hLength]
  rw [zero_add, hLength]
  exact hFits

theorem RawFrame.length_command (f : RawFrame p) : f.command.length = maxCommandByteLength :=
  length_paddedCommand (length_take_le _ _)

/- The first byte of `command` is the length byte. -/
theorem RawFrame.command_zero (f : RawFrame p) : f.command[0]? = some f.length := by
  rfl

------
-- Reading A Command
------

/- A computation that stays inside its buffers. -/
def Safe {α : Type} (x : Except Fault α) : Prop :=
  ∃ a, x = .ok a

theorem safe_pure (a : α) : Safe (pure a : Except Fault α) :=
  ⟨a, rfl⟩

theorem Safe.bind (hFirst : Safe x) (hRest : ∀ a, Safe (f a)) : Safe (x >>= f) := by
  rcases hFirst with ⟨a, rfl⟩
  exact hRest a

theorem safe_bind_pure {g : α → β} : Safe (x >>= fun a => pure (g a)) ↔ Safe x := by
  cases x with
  | error fault => exact iff_of_false nofun nofun
  | ok a => exact iff_of_true ⟨g a, rfl⟩ ⟨a, rfl⟩

theorem safe_bind_of_safe
    {P : Prop} (hFirst : Safe x) (hRest : ∀ a, Safe (f a) ↔ P) : Safe (x >>= f) ↔ P := by
  rcases hFirst with ⟨a, rfl⟩
  exact hRest a

/- `(command[i] << 8) | command[i + 1]`. -/
def load16 (command : Buffer) (i : Nat) : Except Fault Nat := do
  let high ← command.load i
  let low ← command.load (i + 1)
  return high.toNat * 2 ^ 8 + low.toNat

/- Four bytes as an `unsigned int`, the highest one first. -/
def load32 (command : Buffer) (i : Nat) : Except Fault Nat := do
  let high ← load16 command i
  let low ← load16 command (i + 2)
  return high * 2 ^ 16 + low

/- `a - b` of two `unsigned int`. -/
def uintSub (a b : Nat) : Nat :=
  (a + 2 ^ 32 - b) % 2 ^ 32

/- `memcpy` of `n` bytes of `command` from `off` on into a field, with the bytes that are copied. -/
def copyField (fieldSize : Nat) (command : Buffer) (off n : Nat) : Except Fault (List UInt8) :=
  if n ≤ fieldSize then command.block off n
  else .error .outOfBounds

/- The two's complement of the sum of some bytes. -/
def calcChecksum (data : List UInt8) : UInt8 :=
  0 - data.sum

def byte (command : Buffer) (i : Nat) : UInt8 :=
  command.getD i 0

variable {command : Buffer}

section

variable (hSize : command.length = maxCommandByteLength)

include hSize

theorem load_byte (hLt : i < 256) : command.load i = .ok (byte command i) := by
  have hIndex : i < command.length := hSize ▸ hLt
  apply Buffer.load_eq
  rw [byte, getD_eq_getElem?_getD, getElem?_eq_getElem hIndex]
  rfl

theorem load16_byte (hLt : i + 1 < 256) :
    load16 command i = .ok ((byte command i).toNat * 2 ^ 8 + (byte command (i + 1)).toNat) := by
  rw [load16, load_byte hSize (Nat.lt_of_succ_lt hLt), load_byte hSize hLt]
  rfl

theorem load_safe (hLt : i < 256) : Safe (command.load i) :=
  ⟨_, load_byte hSize hLt⟩

theorem load16_safe (hLt : i + 1 < 256) : Safe (load16 command i) :=
  ⟨_, load16_byte hSize hLt⟩

theorem load32_safe (hLt : i + 3 < 256) : Safe (load32 command i) := by
  have hHigh := load16_safe hSize (show i + 1 < 256 by omega)
  have hLow := load16_safe hSize hLt
  exact hHigh.bind fun _ => hLow.bind fun _ => safe_pure _

/- A block is copied if both sides have room for it. -/
theorem copyField_safe_iff {fieldSize off n : Nat} :
    Safe (copyField fieldSize command off n) ↔ n ≤ fieldSize ∧ off + n ≤ maxCommandByteLength := by
  unfold copyField Buffer.block Safe
  rw [hSize]
  constructor
  · rintro ⟨bytes, hCopy⟩
    split at hCopy
    · rename_i hField
      split at hCopy
      · rename_i hBlock
        exact ⟨hField, hBlock⟩
      · cases hCopy
    · cases hCopy
  · rintro ⟨hField, hBlock⟩
    rw [if_pos hField, if_pos hBlock]
    exact ⟨_, rfl⟩

end

theorem uintSub_of_le {a b : Nat} (hLe : b ≤ a) (hLt : a < 2 ^ 32) : uintSub a b = a - b := by
  unfold uintSub
  omega

theorem uintSub_of_lt {a b : Nat} (hLt : a < b) : uintSub a b = a + 2 ^ 32 - b := by
  exact Nat.mod_eq_of_lt (by omega)

end OpenIvi.Serial
