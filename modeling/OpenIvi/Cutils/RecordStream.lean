import OpenIvi.Lib.Decoder
import OpenIvi.Lib.Buffer

/-
  The reader of length-prefixed records.

  Addresses have 32 bits and wrap around, and `NULL` is the address 0. The bytes of the buffer are
  kept apart from the pointers into it; an access that leaves them is a fault. What the peer sends
  and how the reads cut it is a `Source`.

  The reader delivers the records that were sent. What is buffered and what is still to come are,
  one behind the other, the frames of the records that are left. A call delivers the first of them,
  or it reads something, or there are none left.

  Main declarations:
    * `RecordStream`
    * `Buffered`
    * `recordStreamGetNext_spec`
    * `record_stream_delivers`
-/

------
-- The Buffer
------

namespace OpenIvi.Cutils

open Lib LittleEndian List

abbrev Addr := BitVec 32

def headerSize : Nat := 4

/- `RecordStream`, where `memory` are the bytes of the block at `buffer`. -/
structure RecordStream where
  maxRecordLen : Nat
  memory : Buffer
  buffer : Addr
  unconsumed : Addr
  readEnd : Addr
  bufferEnd : Addr

/- `record_stream_new`, where `malloc` returned `block` with whatever bytes are there. -/
def recordStreamNew (maxRecordLen : Nat) (block : Addr)
    (memory : Buffer) : Except Fault RecordStream :=
  if maxRecordLen ≤ 0xffff then
    .ok {
      maxRecordLen := maxRecordLen
      memory := memory
      buffer := block
      unconsumed := block
      readEnd := block
      bufferEnd := block + BitVec.ofNat 32 (maxRecordLen + headerSize) }
  else .error .aborted

variable (rs : RecordStream)

/- Where in the buffer the address is. -/
def RecordStream.offset (p : Addr) : Nat :=
  (p - rs.buffer).toNat

/- `ntohl` on a little-endian machine. -/
def ntohl (n : Nat) : Nat :=
  ofBytes (toBytes 4 n).reverse

def getEndOfRecord (pBegin pEnd : Addr) : Except Fault Addr :=
  if pEnd < pBegin + BitVec.ofNat 32 headerSize then .ok 0
  else do
    let word ← fetch rs.memory 4 (rs.offset pBegin)
    let len := BitVec.ofNat 32 (ntohl word)
    let pRet := pBegin + BitVec.ofNat 32 headerSize + len
    if pEnd < pRet then return 0 else return pRet

/-
  `getNextRecord`: the record, its length, and the stream behind it. There is no length without a
  record.
-/
def getNextRecord : Except Fault (Addr × BitVec 32 × RecordStream) := do
  let recordEnd ← getEndOfRecord rs rs.unconsumed rs.readEnd
  if recordEnd ≠ 0 then
    let recordStart := rs.unconsumed + BitVec.ofNat 32 headerSize
    return (recordStart, recordEnd - recordStart, { rs with unconsumed := recordEnd })
  else return (0, 0, rs)

/- Move the remainder to the beginning of the buffer. -/
def compact : Except Fault RecordStream :=
  if rs.unconsumed ≠ rs.buffer then do
    let toMove := rs.readEnd - rs.unconsumed
    let memory ←
      if toMove ≠ 0 then
        rs.memory.memcpy 0 rs.memory (rs.offset rs.unconsumed) toMove.toNat
      else .ok rs.memory
    return { rs with memory := memory, readEnd := rs.buffer + toMove, unconsumed := rs.buffer }
  else .ok rs

------
-- Reading
------

/- What a `read` finds: nothing yet, or so many bytes. -/
inductive Arrival where
| wait
| upTo (n : Nat)

/-
  The bytes that are still to come, and how the next reads cut them. Once there are no more cuts, a
  read gets all that it asks for.
-/
structure Source where
  pending : List UInt8
  arrivals : List Arrival

/- A read that gets so many bytes. -/
def Source.deliver (src : Source) (count : Nat)
    (arrivals : List Arrival) : Option (List UInt8) × Source :=
  (some (src.pending.take count), ⟨src.pending.drop count, arrivals⟩)

/-
  `read`, or `none` where it returns -1 with `EAGAIN`. It gets at least one byte if there is one,
  and at the end of the stream it gets none.
-/
def Source.read (src : Source) (space : Nat) : Option (List UInt8) × Source :=
  match src.arrivals with
  | [] => src.deliver space []
  | .wait :: arrivals => (none, { src with arrivals := arrivals })
  | .upTo n :: arrivals => src.deliver (min (n + 1) space) arrivals

/- Store what was read. -/
def fill (bytes : List UInt8) : Except Fault RecordStream := do
  let memory ← rs.memory.memcpy (rs.offset rs.readEnd) bytes 0 bytes.length
  return { rs with memory := memory, readEnd := rs.readEnd + BitVec.ofNat 32 bytes.length }

/-
  What `record_stream_get_next` returns: 0 with a record or with `NULL`, or -1. `full` is the branch
  of a full buffer, with `EFBIG`.
-/
inductive Reply where
| record (start : Addr) (len : BitVec 32)
| endOfStream
| again
| full
deriving DecidableEq

def recordStreamGetNext (src : Source) : Except Fault (Reply × RecordStream × Source) := do
  let (ret, len, rs) ← getNextRecord rs
  if ret ≠ 0 then return (.record ret len, rs, src)
  else if rs.unconsumed = rs.buffer ∧ rs.readEnd = rs.bufferEnd then
    return (.full, rs, src)
  else
    let rs ← compact rs
    let (bytes, src) := src.read (rs.bufferEnd - rs.readEnd).toNat
    match bytes with
    | none => return (.again, rs, src)
    | some [] => return (.endOfStream, rs, src)
    | some (b :: bytes) =>
      let rs ← fill rs (b :: bytes)
      let (ret, len, rs) ← getNextRecord rs
      if ret ≠ 0 then return (.record ret len, rs, src)
      else return (.again, rs, src)

/-
  A client that calls until something else than a record or `EAGAIN` comes back. It copies each
  record out of the buffer before the next call.
-/
def receiveAll : Nat → RecordStream → Source → Except Fault (List (List UInt8 × Nat) × Reply)
| 0, _, _ => .error .outOfFuel
| fuel + 1, rs, src => do
    let (reply, rs, src) ← recordStreamGetNext rs src
    match reply with
    | .record start len =>
      let bytes ← rs.memory.block (rs.offset start) len.toNat
      let (records, last) ← receiveAll fuel rs src
      return ((bytes, len.toNat) :: records, last)
    | .again => receiveAll fuel rs src
    | .endOfStream => return ([], .endOfStream)
    | .full => return ([], .full)

------
-- What Is Buffered
------

variable {p : Addr}

/- Four bytes in network order in front of each record. -/
def recordFraming : Framing UInt8 where
  width := 4
  limit := 2 ^ 32
  header n := (toBytes 4 n).reverse
  announced w := ofBytes w.reverse
  length_header n := by rw [length_reverse, length_toBytes]
  announced_header n hLt := by rw [reverse_reverse, ofBytes_toBytes_of_lt hLt]

theorem ntohl_ofBytes {w : List UInt8} (hLen : w.length = 4) :
    ntohl (ofBytes w) = recordFraming.announced w := by
  rw [ntohl, ← hLen, toBytes_ofBytes]
  rfl

/-
  The bytes `w` are buffered from the offset `u` on. Behind the buffer there is room for as much
  again, so that the end of a record which begins in it does not wrap around.
-/
structure Buffered (max : Nat) (rs : RecordStream) (u : Nat) (w : List UInt8) : Prop where
  size : rs.memory.length = max + 4
  below : rs.buffer.toNat + 2 * (max + 4) < 2 ^ 32
  fits : u + w.length ≤ max + 4
  bytes : (rs.memory.drop u).take w.length = w
  unconsumed : rs.unconsumed.toNat = rs.buffer.toNat + u
  readEnd : rs.readEnd.toNat = rs.buffer.toNat + (u + w.length)
  bufferEnd : rs.bufferEnd.toNat = rs.buffer.toNat + (max + 4)

variable {max u : Nat} {rs : RecordStream} {w more rest b : List UInt8} {bs : List (List UInt8)}

variable {k n : Nat}

theorem offset_eq (hAddr : p.toNat = rs.buffer.toNat + k) : rs.offset p = k := by
  rw [RecordStream.offset, BitVec.toNat_sub]
  omega

theorem toNat_add_ofNat (hFits : p.toNat + n < 2 ^ 32) :
    (p + BitVec.ofNat 32 n).toNat = p.toNat + n := by
  rw [BitVec.toNat_add, BitVec.toNat_ofNat]
  omega

theorem ne_null (hPos : 0 < p.toNat) : p ≠ 0 := by
  intro hNull
  rw [hNull] at hPos
  exact absurd hPos (lt_irrefl 0)

section

variable (hBuf : Buffered max rs u w)

include hBuf

theorem Buffered.part_eq (hFits : k + n ≤ w.length) :
    (rs.memory.drop (u + k)).take n = (w.drop k).take n := by
  conv_rhs => rw [← hBuf.bytes]
  rw [drop_take, drop_drop, take_take, min_eq_left (by omega)]

theorem Buffered.block_eq (hFits : k + n ≤ w.length) :
    rs.memory.block (u + k) n = .ok ((w.drop k).take n) := by
  have hSize := hBuf.size
  have hLen := hBuf.fits
  rw [Buffer.block_eq (by omega), hBuf.part_eq hFits]

theorem Buffered.fetch_eq (hLen : 4 ≤ w.length) :
    fetch rs.memory 4 (rs.offset rs.unconsumed) = .ok (ofBytes (w.take 4)) := by
  have hBlock := hBuf.block_eq (show 0 + 4 ≤ w.length by omega)
  rw [offset_eq hBuf.unconsumed, fetch]
  rw [add_zero, drop_zero] at hBlock
  rw [hBlock]
  rfl

theorem Buffered.noHeader (hLen : w.length < 4) :
    getEndOfRecord rs rs.unconsumed rs.readEnd = .ok 0 := by
  have hBelow := hBuf.below
  have hFits := hBuf.fits
  have hBegin := hBuf.unconsumed
  have hEnd := hBuf.readEnd
  rw [getEndOfRecord, if_pos]
  rw [BitVec.lt_def, headerSize, toNat_add_ofNat (by omega)]
  omega

/- A header, and whether the record behind it is there. -/
theorem Buffered.header (hLen : 4 ≤ w.length)
    (hHeader : recordFraming.announced (w.take 4) = n) (hMax : n ≤ max) :
    getEndOfRecord rs rs.unconsumed rs.readEnd = .ok (if w.length < 4 + n then 0
      else rs.unconsumed + BitVec.ofNat 32 (4 + n)) := by
  have hBelow := hBuf.below
  have hFits := hBuf.fits
  have hBegin := hBuf.unconsumed
  have hEnd := hBuf.readEnd
  have hFour : (rs.unconsumed + BitVec.ofNat 32 4).toNat = rs.unconsumed.toNat + 4 :=
    toNat_add_ofNat (by omega)
  have hAll : rs.unconsumed + BitVec.ofNat 32 4 + BitVec.ofNat 32 n =
      rs.unconsumed + BitVec.ofNat 32 (4 + n) := by
    rw [BitVec.add_assoc, BitVec.ofNat_add]
  have hRet : (rs.unconsumed + BitVec.ofNat 32 (4 + n)).toNat = rs.unconsumed.toNat + (4 + n) :=
    toNat_add_ofNat (by omega)
  have hWord : (w.take 4).length = 4 := by rw [length_take, min_eq_left hLen]
  rw [getEndOfRecord, headerSize, if_neg]
  · simp only [hBuf.fetch_eq hLen, ok_bind, ntohl_ofBytes hWord, hHeader, hAll]
    by_cases hShort : w.length < 4 + n
    · rw [if_pos hShort, if_pos]
      · rfl
      · rw [BitVec.lt_def, hRet]
        omega
    · rw [if_neg hShort, if_neg]
      · rfl
      · rw [BitVec.lt_def, hRet]
        omega
  · rw [BitVec.lt_def, hFour]
    omega

end

------
-- The Steps Of A Call
------

theorem getNextRecord_none (hEnd : getEndOfRecord rs rs.unconsumed rs.readEnd = .ok 0) :
    getNextRecord rs = .ok (0, 0, rs) := by
  simp only [getNextRecord, hEnd, ok_bind]
  rfl

theorem Buffered.announced (hBuf : Buffered max rs u w)
    (hParts : w ++ more = recordFraming.frames (b :: bs))
    (hMax : b.length ≤ max) (hLen : 4 ≤ w.length) :
    recordFraming.announced (w.take 4) = b.length := by
  have hBelow := hBuf.below
  have hLimit : b.length < recordFraming.limit := by
    change b.length < 2 ^ 32
    omega
  exact Framing.announced_take hParts hLen hLimit

section

variable (hBuf : Buffered max rs u w) (hParts : w ++ more = recordFraming.frames (b :: bs))
variable (hMax : b.length ≤ max)

include hBuf hParts hMax

theorem Buffered.getNextRecord_short (hShort : w.length < 4 + b.length) :
    getNextRecord rs = .ok (0, 0, rs) := by
  apply getNextRecord_none
  by_cases hLen : 4 ≤ w.length
  · rw [hBuf.header hLen (hBuf.announced hParts hMax hLen) hMax, if_pos hShort]
  · exact hBuf.noHeader (Nat.lt_of_not_le hLen)

/- The record is there. -/
theorem Buffered.getNextRecord_whole (hWhole : w = recordFraming.frame b ++ rest) :
    ∃ start len rs', getNextRecord rs = .ok (start, len, rs') ∧ start ≠ 0 ∧ len.toNat = b.length ∧
      rs'.memory.block (rs'.offset start) len.toNat = .ok b ∧
      Buffered max rs' (u + (4 + b.length)) rest := by
  have hBelow := hBuf.below
  have hFits := hBuf.fits
  have hBegin := hBuf.unconsumed
  have hEnd := hBuf.readEnd
  have hLength : w.length = 4 + b.length + rest.length := by
    rw [hWhole, length_append, Framing.length_frame]
    rfl
  have hFound := hBuf.header (by omega) (hBuf.announced hParts hMax (by omega)) hMax
  rw [if_neg (by omega)] at hFound
  have hStart : (rs.unconsumed + BitVec.ofNat 32 headerSize).toNat = rs.buffer.toNat + (u + 4) := by
    rw [headerSize, toNat_add_ofNat (by omega)]
    omega
  have hRet : (rs.unconsumed + BitVec.ofNat 32 (4 + b.length)).toNat =
      rs.buffer.toNat + (u + (4 + b.length)) := by
    rw [toNat_add_ofNat (by omega)]
    omega
  have hNe : rs.unconsumed + BitVec.ofNat 32 (4 + b.length) ≠ 0 := ne_null (by omega)
  have hLen : (rs.unconsumed + BitVec.ofNat 32 (4 + b.length) - (rs.unconsumed +
      BitVec.ofNat 32 headerSize)).toNat = b.length := by
    rw [BitVec.toNat_sub, hStart, hRet]
    omega
  refine ⟨rs.unconsumed + BitVec.ofNat 32 headerSize, _,
    { rs with unconsumed := rs.unconsumed + BitVec.ofNat 32 (4 + b.length) }, ?_,
    ne_null (by omega), hLen, ?_, ?_⟩
  · simp only [getNextRecord, hFound, ok_bind]
    rw [if_pos hNe]
    rfl
  · have hBlock := hBuf.block_eq (show 4 + b.length ≤ w.length by omega)
    have hBody : (w.drop 4).take b.length = b := by
      have hHead := recordFraming.length_header b.length
      rw [hWhole, Framing.frame, append_assoc, ← show (recordFraming.header b.length).length = 4
          from hHead, drop_left, take_left]
    have hOffset : rs.offset (rs.unconsumed + BitVec.ofNat 32 headerSize) = u + 4 :=
      offset_eq hStart
    rw [hBody, ← hOffset] at hBlock
    rw [hLen]
    exact hBlock
  · refine ⟨hBuf.size, hBelow, by omega, ?_, hRet, ?_, hBuf.bufferEnd⟩
    · have hPart := hBuf.part_eq (show 4 + b.length + rest.length ≤ w.length by omega)
      have hRest : w.drop (4 + b.length) = rest := by
        rw [hWhole, ← show (recordFraming.frame b).length =
          4 + b.length from Framing.length_frame _ b, drop_left]
      rw [hRest, take_length] at hPart
      exact hPart
    · change rs.readEnd.toNat = rs.buffer.toNat + (u + (4 + b.length) + rest.length)
      omega

end

/- The buffered bytes are moved to its beginning. -/
theorem Buffered.compact (hBuf : Buffered max rs u w) :
    ∃ rs', compact rs = .ok rs' ∧ Buffered max rs' 0 w := by
  have hSize := hBuf.size
  have hBelow := hBuf.below
  have hFits := hBuf.fits
  have hBegin := hBuf.unconsumed
  have hEnd := hBuf.readEnd
  by_cases hMoved : rs.unconsumed = rs.buffer
  · have hZero : u = 0 := by
      rw [hMoved] at hBegin
      omega
    refine ⟨rs, ?_, ?_⟩
    · rw [Cutils.compact, if_neg (not_not_intro hMoved)]
    · rw [← hZero]
      exact hBuf
  · have hCount : (rs.readEnd - rs.unconsumed).toNat = w.length := by
      rw [BitVec.toNat_sub, hBegin, hEnd]
      omega
    have hReadEnd : (rs.buffer + (rs.readEnd - rs.unconsumed)).toNat =
        rs.buffer.toNat + (0 + w.length) := by
      rw [BitVec.toNat_add, hCount]
      omega
    rw [Cutils.compact, if_pos hMoved]
    by_cases hMove : rs.readEnd - rs.unconsumed = 0
    · have hEmpty : w.length = 0 := by
        rw [← hCount, hMove]
        rfl
      refine ⟨{ rs with
        readEnd := rs.buffer + (rs.readEnd - rs.unconsumed)
        unconsumed := rs.buffer }, ?_, hSize, hBelow, by omega, ?_, rfl, hReadEnd, hBuf.bufferEnd⟩
      · rw [if_neg (not_not_intro hMove), ok_bind]
        rfl
      · rw [length_eq_zero_iff.mp hEmpty]
        rfl
    · have hCopy : rs.memory.memcpy 0 rs.memory (rs.offset rs.unconsumed)
          (rs.readEnd - rs.unconsumed).toNat = .ok (rs.memory.splice 0 w) := by
        rw [hCount, offset_eq hBegin, Buffer.memcpy_eq (by omega) (by omega), hBuf.bytes]
      refine ⟨{ rs with
        memory := rs.memory.splice 0 w
        readEnd := rs.buffer + (rs.readEnd - rs.unconsumed)
        unconsumed := rs.buffer }, ?_, ?_, hBelow, by omega, ?_, rfl, hReadEnd, hBuf.bufferEnd⟩
      · rw [if_pos hMove, hCopy, ok_bind]
        rfl
      · rw [← hSize]
        exact Buffer.length_splice (by omega)
      · exact Buffer.take_splice_zero rs.memory w

/- And more bytes are put behind them. -/
theorem Buffered.fill (hBuf : Buffered max rs 0 w) (hFits : w.length + more.length ≤ max + 4) :
    ∃ rs', fill rs more = .ok rs' ∧ Buffered max rs' 0 (w ++ more) := by
  have hSize := hBuf.size
  have hBelow := hBuf.below
  have hEnd := hBuf.readEnd
  have hLength : (w ++ more).length = w.length + more.length := length_append
  have hCopy : rs.memory.memcpy (rs.offset rs.readEnd) more 0
      more.length = .ok (rs.memory.splice w.length more) := by
    rw [offset_eq hEnd, zero_add, Buffer.memcpy_eq (by omega) (by omega), drop_zero, take_length]
  have hReadEnd : (rs.readEnd + BitVec.ofNat 32 more.length).toNat =
      rs.buffer.toNat + (0 + (w ++ more).length) := by
    rw [toNat_add_ofNat (by omega), hEnd, hLength]
    omega
  refine ⟨{ rs with
    memory := rs.memory.splice w.length more
    readEnd := rs.readEnd + BitVec.ofNat 32 more.length },
    ?_, ?_, hBelow, by omega, ?_, hBuf.unconsumed, hReadEnd, hBuf.bufferEnd⟩
  · rw [Cutils.fill, hCopy, ok_bind]
    rfl
  · rw [← hSize]
    exact Buffer.length_splice (by omega)
  · have hFront : rs.memory.take w.length = w := hBuf.bytes
    rw [drop_zero, Buffer.splice, hFront, take_left]

------
-- One Call
------

/- These records are left to be delivered. -/
structure Expects (max : Nat) (rs : RecordStream) (src : Source)
    (bs : List (List UInt8)) : Prop where
  fit : ∀ b ∈ bs, b.length ≤ max
  parts : ∃ u w, Buffered max rs u w ∧ w ++ src.pending = recordFraming.frames bs

/- The reads that the source has left, at most. -/
def Source.left (src : Source) : Nat :=
  src.pending.length + src.arrivals.length

/- What comes back from a call, and what is left then. -/
def Outcome (max : Nat) (src : Source) (bs : List (List UInt8))
    (rs' : RecordStream) (src' : Source) : Reply → Prop
| .record start len => ∃ b bs', bs = b :: bs' ∧ len.toNat = b.length ∧
    rs'.memory.block (rs'.offset start) len.toNat = .ok b ∧
    Expects max rs' src' bs' ∧ src'.left ≤ src.left
| .again => Expects max rs' src' bs ∧ src'.left < src.left
| .endOfStream => bs = []
| .full => False

variable {src src' : Source} {bytes : List UInt8}

/- `getNextRecord` delivers the first of the records, or it leaves everything as it is. -/
theorem Buffered.getNextRecord (hFit : ∀ b ∈ bs, b.length ≤ max) (hBuf : Buffered max rs u w)
    (hParts : w ++ src.pending = recordFraming.frames bs) :
    (∃ start len rs', getNextRecord rs = .ok (start, len, rs') ∧ start ≠ 0 ∧
      Outcome max src bs rs' src (.record start len)) ∨ (Cutils.getNextRecord rs = .ok (0, 0, rs) ∧
      (bs = [] ∨ ∃ b bs', bs = b :: bs' ∧ w.length < 4 + b.length)) := by
  cases bs with
  | nil =>
    have hEmpty : w = [] := (append_eq_nil_iff.mp hParts).1
    rw [hEmpty] at hBuf
    exact .inr ⟨getNextRecord_none (hBuf.noHeader (Nat.zero_lt_succ 3)), .inl rfl⟩
  | cons b bs =>
    have hMax := hFit b mem_cons_self
    rcases Framing.whole_or_short hParts with ⟨rest, hWhole, hRest⟩ | hShort
    · rcases hBuf.getNextRecord_whole hParts hMax hWhole with
        ⟨start, len, rs', hRun, hStart, hLen, hBlock, hBuf'⟩
      have hExpects : Expects max rs' src bs :=
        ⟨fun b' hB' => hFit b' (mem_cons_of_mem b hB'), _, rest, hBuf', hRest⟩
      exact .inl ⟨start, len, rs', hRun, hStart, b, bs, rfl, hLen, hBlock, hExpects, le_refl _⟩
    · exact .inr ⟨hBuf.getNextRecord_short hParts hMax hShort, .inr ⟨b, bs, rfl, hShort⟩⟩

/- What a read takes from the source. -/
theorem Source.deliver_spec {space count : Nat}
    (arrivals : List Arrival) (hCount : 0 < count) (hSpace : count ≤ space)
    (hArrivals : arrivals.length ≤ src.arrivals.length) :
    ∃ bytes src', src.deliver count arrivals = (some bytes, src') ∧
      bytes ++ src'.pending = src.pending ∧ bytes.length ≤ space ∧ (bytes = [] → src.pending = []) ∧
      (bytes ≠ [] → src'.left < src.left) := by
  refine ⟨_, _, rfl, take_append_drop _ _, ?_, ?_, ?_⟩
  · rw [length_take]
    omega
  · intro hEmpty
    rcases take_eq_nil_iff.mp hEmpty with hZero | hNil
    · omega
    · exact hNil
  · intro hSome
    have hPos : 0 < src.pending.length := by
      apply length_pos_iff.mpr
      intro hNil
      rw [hNil, take_nil] at hSome
      exact hSome rfl
    simp only [Source.left, length_drop]
    omega

theorem Source.read_spec {space : Nat} (src : Source) (hSpace : 0 < space) :
    (∃ src', src.read space = (none, src') ∧ src'.pending = src.pending ∧ src'.left < src.left) ∨
    ∃ bytes src', src.read space = (some bytes, src') ∧ bytes ++ src'.pending = src.pending ∧
      bytes.length ≤ space ∧ (bytes = [] → src.pending = []) ∧
      (bytes ≠ [] → src'.left < src.left) := by
  unfold Source.read
  cases hArrivals : src.arrivals with
  | nil => exact .inr (Source.deliver_spec [] hSpace (Nat.le_refl space) (Nat.zero_le _))
  | cons a arrivals =>
    have hLen : arrivals.length < src.arrivals.length := by
      rw [hArrivals]
      exact Nat.lt_succ_self _
    cases a with
    | wait =>
      refine .inl ⟨_, rfl, rfl, ?_⟩
      simp only [Source.left]
      omega
    | upTo n =>
      exact .inr (Source.deliver_spec arrivals (by omega) (min_le_right _ _) (le_of_lt hLen))

theorem Buffered.not_full (hBuf : Buffered max rs u w) (hShort : w.length < max + 4) :
    ¬ (rs.unconsumed = rs.buffer ∧ rs.readEnd = rs.bufferEnd) := by
  rintro ⟨hFirst, hLast⟩
  have hBegin := hBuf.unconsumed
  have hEnd := hBuf.readEnd
  rw [hFirst] at hBegin
  rw [hLast, hBuf.bufferEnd] at hEnd
  omega

theorem Buffered.space (hBuf : Buffered max rs 0 w) :
    (rs.bufferEnd - rs.readEnd).toNat = max + 4 - w.length := by
  have hFits := hBuf.fits
  have hEnd := hBuf.readEnd
  have hLast := hBuf.bufferEnd
  rw [BitVec.toNat_sub]
  omega

/- A call does one of three things. -/
theorem recordStreamGetNext_spec (hExpects : Expects max rs src bs) :
    ∃ reply rs' src', recordStreamGetNext rs src = .ok (reply, rs', src') ∧
      Outcome max src bs rs' src' reply := by
  rcases hExpects with ⟨hFit, u, w, hBuf, hParts⟩
  rcases hBuf.getNextRecord hFit hParts with ⟨start, len, rs', hRun, hStart, hOut⟩ | ⟨hRun, hRest⟩
  · refine ⟨.record start len, rs', src, ?_, hOut⟩
    simp only [recordStreamGetNext, hRun, ok_bind]
    rw [if_pos hStart]
    rfl
  have hShort : w.length < max + 4 := by
    rcases hRest with hNone | ⟨b, bs', hSome, hLen⟩
    · rw [hNone] at hParts
      rw [(append_eq_nil_iff.mp hParts).1]
      exact Nat.succ_pos _
    · have hMax := hFit b (by
        rw [hSome]
        exact mem_cons_self)
      omega
  rcases hBuf.compact with ⟨rs1, hCompact, hBuf1⟩
  have hSpace := hBuf1.space
  simp only [recordStreamGetNext, hRun, ok_bind, if_neg (not_not_intro rfl),
    if_neg (hBuf.not_full hShort), hCompact, hSpace]
  rcases src.read_spec (show 0 < max + 4 - w.length by omega) with ⟨src1, hRead, hSame, hLeft⟩ |
      ⟨bytes, src1, hRead, hPending, hLen, hEnd, hLeft⟩
  · rw [hRead]
    rw [← hSame] at hParts
    exact ⟨.again, rs1, src1, rfl, ⟨hFit, 0, w, hBuf1, hParts⟩, hLeft⟩
  rw [hRead]
  cases bytes with
  | nil =>
    refine ⟨.endOfStream, rs1, src1, rfl, ?_⟩
    rcases hRest with hNone | ⟨b, bs', hSome, hLen⟩
    · exact hNone
    · -- all that was sent is buffered, and it is a record
      have hAll := congrArg length hParts
      rw [hEnd rfl, hSome, Framing.frames_cons, append_nil, length_append,
        Framing.length_frame] at hAll
      change w.length = 4 + b.length + _ at hAll
      omega
  | cons c cs =>
    have hLess := hLeft (cons_ne_nil c cs)
    rcases hBuf1.fill (show w.length + (c :: cs).length ≤ max + 4 by omega) with ⟨rs2, hFill, hBuf2⟩
    rw [← hPending, ← append_assoc] at hParts
    simp only [hFill, ok_bind]
    rcases hBuf2.getNextRecord hFit hParts with ⟨start, len, rs3, hRun2, hStart, b, bs', hBs, hB,
        hBlock, hExpects', _⟩ | ⟨hRun2, _⟩
    · refine ⟨.record start len, rs3, src1, ?_, b, bs', hBs, hB, hBlock, hExpects', le_of_lt hLess⟩
      simp only [hRun2, ok_bind]
      rw [if_pos hStart]
      rfl
    · refine ⟨.again, rs2, src1, ?_, ⟨hFit, 0, w ++ c :: cs, hBuf2, hParts⟩, hLess⟩
      simp only [hRun2, ok_bind]
      rfl

------
-- The Whole Stream
------

/- By induction on the calls that are left. -/
theorem receiveAll_eq {fuel : Nat} (hExpects : Expects max rs src bs)
    (hFuel : bs.length + src.left < fuel) :
    receiveAll fuel rs src = .ok (bs.map fun b => (b, b.length), .endOfStream) := by
  induction fuel generalizing rs src bs with
  | zero => exact absurd hFuel (Nat.not_lt_zero _)
  | succ fuel ih =>
    rcases recordStreamGetNext_spec hExpects with ⟨reply, rs', src', hRun, hOut⟩
    simp only [receiveAll, hRun, ok_bind]
    cases reply with
    | record start len =>
      rcases hOut with ⟨b, bs', hBs, hLen, hBlock, hExpects', hLeft⟩
      rw [hBs, length_cons] at hFuel
      rw [hLen] at hBlock
      simp only [hLen, hBlock, ok_bind, ih hExpects' (by omega), hBs, map_cons]
      rfl
    | again =>
      exact ih hOut.1 (by
        have hLess := hOut.2
        omega)
    | endOfStream =>
      rw [show bs = [] from hOut]
      rfl
    | full => exact hOut.elim

/-
  Whatever the records and however the reads cut them, the client gets them one after the other and
  then the end of the stream; it never finds the buffer full. `malloc` gives a block at some
  distance from the top of the memory, with any bytes in it.
-/
theorem record_stream_delivers (maxRecordLen : Nat) (block : Addr)
    (memory : Buffer) (records : List (List UInt8))
    (arrivals : List Arrival) (hMax : maxRecordLen ≤ 65535)
    (hMemory : memory.length = maxRecordLen + headerSize)
    (hBlock : block.toNat + 2 * (maxRecordLen + headerSize) < 2 ^ 32)
    (hRecords : ∀ r ∈ records, r.length ≤ maxRecordLen) :
    ∃ rs, recordStreamNew maxRecordLen block memory = .ok rs ∧
      ∃ calls, ∀ fuel, calls ≤ fuel → receiveAll fuel rs ⟨recordFraming.frames records, arrivals⟩ =
        .ok (records.map fun r => (r, r.length), .endOfStream) := by
  have hBelow : block.toNat + 2 * (maxRecordLen + 4) < 2 ^ 32 := hBlock
  have hEnd : (block + BitVec.ofNat 32 (maxRecordLen + headerSize)).toNat =
      block.toNat + (maxRecordLen + 4) := by
    rw [toNat_add_ofNat (by omega), headerSize]
  refine ⟨_, if_pos hMax, _, fun fuel hFuel =>
    receiveAll_eq ⟨hRecords, 0, [], ?_, rfl⟩ (Nat.lt_of_succ_le hFuel)⟩
  exact ⟨hMemory, hBelow, Nat.zero_le _, rfl, rfl, rfl, hEnd⟩

/- Two records, one of them empty, cut in the headers. -/
theorem record_stream_delivers_two :
    ∃ rs, recordStreamNew 4 0x1000 (replicate 8 0) = .ok rs ∧
      ∃ calls, ∀ fuel, calls ≤ fuel → receiveAll fuel rs ⟨recordFraming.frames [[], [1, 2, 3, 4]],
        [.upTo 1, .wait, .upTo 2, .upTo 0]⟩ = .ok ([([], 0), ([1, 2, 3, 4], 4)], .endOfStream) :=
  record_stream_delivers 4 0x1000 (replicate 8 0)
    [[], [1, 2, 3, 4]] [.upTo 1, .wait, .upTo 2, .upTo 0]
    (by decide) rfl (by decide) (by decide)

end OpenIvi.Cutils
