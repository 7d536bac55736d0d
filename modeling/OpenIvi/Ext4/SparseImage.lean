import Mathlib.Data.List.TakeWhile
import Mathlib.Logic.Function.Iterate
import OpenIvi.Lib.Decoder
import OpenIvi.Lib.Buffer

/-
  Sparse images: `backed_block.c`, `output_file.c` and the expander `simg2img.c`.

  Ranges are queued in the order of their blocks and written as chunks of data, with a chunk for
  each gap. `error` ends the program, which is the fault `aborted`; so is an exit of the expander
  with another status than 0. The content of the memory that `malloc` returns is a parameter. The
  type `long` of the offsets of `fseek` has 64 bits.

  The chunks that the writer emits are the layout of the queued ranges; the expander reads the
  layout back. It sums up whatever its buffer holds where the layout has a gap.

  Main declarations:
    * `OutputFile.writeChunkRaw`
    * `layout`
    * `processChunks_layout`
    * `sparse_image_expands_iff`
-/

------
-- The Checksum
------

namespace OpenIvi.Ext4.Sparse

open Lib LittleEndian List Function

def blockSize : Nat :=
  4096

/- One of the eight operations an entry of the table stands for. -/
def crcShift (crc : BitVec 32) : BitVec 32 :=
  if crc.getLsbD 0 then (crc >>> 1) ^^^ 0xedb88320#32 else crc >>> 1

def crc32Tab (i : BitVec 32) : BitVec 32 :=
  crcShift^[8] i

example : [0, 1, 2, 128, 254, 255].map crc32Tab =
    [0x00000000, 0x77073096, 0xee0e612c, 0xedb88320, 0x5a05df1b, 0x2d02ef8d] := by
  decide

def crcByte (crc : BitVec 32) (p : UInt8) : BitVec 32 :=
  crc32Tab ((crc ^^^ p.toBitVec.setWidth 32) &&& 0xff#32) ^^^ (crc >>> 8)

def sparseCrc32 (crcIn : BitVec 32) (buf : List UInt8) : BitVec 32 :=
  buf.foldl crcByte (crcIn ^^^ BitVec.allOnes 32) ^^^ BitVec.allOnes 32

------
-- The Queue
------

/- A range: the bytes of a buffer, or of a file from an offset on, and the block they start at. -/
structure DataBlock where
  block : Nat
  bytes : List UInt8
  file : Option Nat
  blockFits : block < 2 ^ 32
  lenFits : bytes.length < 2 ^ 32

def DataBlock.off (d : DataBlock) : Nat :=
  d.block * blockSize

def DataBlock.stop (d : DataBlock) : Nat :=
  d.off + d.bytes.length

/- The list, and the place of the node used last. -/
structure Queue where
  dataBlocks : List DataBlock
  lastUsed : Option Nat

/- The node that the search for a new block starts at. -/
def Queue.searchStart (q : Queue) (new : DataBlock) : Nat :=
  match q.lastUsed with
  | none => 0
  | some i => if q.dataBlocks[i]?.any (·.block < new.block) then i else 0

def Queue.queueDb (q : Queue) (new : DataBlock) : Queue :=
  match q.dataBlocks with
  | [] => { q with dataBlocks := [new] }
  | head :: _ =>
    if new.block < head.block then
      { dataBlocks := new :: q.dataBlocks, lastUsed := q.lastUsed.map (· + 1) }
    else
      let db := q.searchStart new
      let later := q.dataBlocks.drop (db + 1)
      let passed := later.takeWhile (·.block < new.block)
      { dataBlocks := q.dataBlocks.take (db + 1) ++ passed ++
          new :: later.dropWhile (·.block < new.block)
        lastUsed := some (db + 1 + passed.length) }

/- The ranges after they were queued one after the other. -/
def queued (ranges : List DataBlock) : List DataBlock :=
  (ranges.foldl Queue.queueDb ⟨[], none⟩).dataBlocks

------
-- The Writer
------

def zeroBuf : List UInt8 :=
  List.replicate blockSize 0

def sparseHeaderMagic : Nat := 0xed26ff3a
def sparseHeaderLen : Nat := 28
def chunkHeaderLen : Nat := 12
def chunkTypeRaw : Nat := 0xCAC1
def chunkTypeDontCare : Nat := 0xCAC3

/- Fields are stored in their width. -/
def chunkHeader (chunkType chunkSz totalSz : Nat) : List UInt8 :=
  record [(2, chunkType), (2, 0), (4, chunkSz), (4, totalSz)]

def sparseHeader (totalBlks totalChunks checksum : Nat) : List UInt8 :=
  record [(4, sparseHeaderMagic), (2, 1), (2, 0), (2, sparseHeaderLen),
      (2, chunkHeaderLen), (4, blockSize), (4, totalBlks), (4, totalChunks), (4, checksum)]

/- The file behind the header, and the writer's counters. -/
structure OutputFile where
  body : List UInt8
  curOutPtr : Nat
  chunkCnt : Nat
  crc32 : BitVec 32

/- `write` takes no more bytes at once. -/
def maxWrite : Nat := 0x7ffff000

/- An unsigned length that is passed as an `int`. -/
def asInt (len : Nat) : Int :=
  if len < 2 ^ 31 then len else len - 2 ^ 32

namespace OutputFile

variable (out : OutputFile)

def fileWrite (data : List UInt8) (len : Int) : Except Fault OutputFile :=
  if 0 ≤ len ∧ len ≤ maxWrite then
    .ok { out with body := out.body ++ data }
  else .error .aborted

def emitSkipChunk (skipLen : Nat) : Except Fault OutputFile :=
  if skipLen % blockSize ≠ 0 then .error .aborted
  else
    let blocks := skipLen / blockSize
    .ok
      { body := out.body ++ chunkHeader chunkTypeDontCare blocks chunkHeaderLen
        curOutPtr := out.curOutPtr + skipLen
        chunkCnt := out.chunkCnt + 1
        crc32 := (sparseCrc32 · zeroBuf)^[blocks] out.crc32 }

/- A gap in front of the offset is a chunk of its own. -/
def skipTo (off : Nat) : Except Fault OutputFile :=
  if out.curOutPtr < off then
    out.emitSkipChunk (off - out.curOutPtr)
  else .ok out

/- The length is rounded up to whole blocks; the rest of the last block is filled with zeros. -/
def writeChunkRaw (off : Nat) (data : List UInt8) (len : Int) : Except Fault OutputFile :=
  if off < out.curOutPtr then .error .aborted
  else do
    let out ← out.skipTo off
    if off % blockSize ≠ 0 ∨ off ≠ out.curOutPtr then
      .error .aborted
    else
      let blocks := (data.length + (blockSize - 1)) / blockSize
      let rndUpLen := blocks * blockSize
      let zeros := List.replicate (rndUpLen - data.length) 0
      let out ← out.fileWrite (chunkHeader chunkTypeRaw blocks (chunkHeaderLen + rndUpLen))
        chunkHeaderLen
      -- A length that is no `int` is negative here.
      let out ← out.fileWrite data len
      let out ← out.fileWrite zeros zeros.length
      .ok
        { out with
          curOutPtr := out.curOutPtr + rndUpLen
          chunkCnt := out.chunkCnt + 1
          crc32 := sparseCrc32 (sparseCrc32 out.crc32 data) zeros }

def writeDataBlock (infoLen : Nat) (out : OutputFile) (d : DataBlock) : Except Fault OutputFile :=
  let len := asInt d.bytes.length
  if infoLen < (d.off + len) % 2 ^ 64 then .error .aborted
  else out.writeChunkRaw d.off d.bytes len

/- `mmap` takes a positive length and whole pages. -/
def writeDataFile (infoLen : Nat) (out : OutputFile)
    (d : DataBlock) (offset : Nat) : Except Fault OutputFile :=
  let len := asInt d.bytes.length
  if infoLen ≤ (d.off + len) % 2 ^ 64 then .error .aborted
  else if len ≤ 0 ∨ offset % blockSize ≠ 0 then .error .aborted
  else out.writeChunkRaw d.off d.bytes len

def writeRange (infoLen : Nat) (out : OutputFile) (d : DataBlock) : Except Fault OutputFile :=
  match d.file with
  | some offset => out.writeDataFile infoLen d offset
  | none => out.writeDataBlock infoLen d

def forEachDataBlock (infoLen : Nat) : OutputFile → Nat → List DataBlock → Except Fault OutputFile
| out, _, [] => .ok out
| out, lastBlock, d :: ds =>
  if d.block < lastBlock then .error .aborted
  else do
    let blocks := (d.bytes.length + (blockSize - 1)) % 2 ^ 32 / blockSize
    let out ← out.writeRange infoLen d
    -- The number of the last block wraps around.
    forEachDataBlock infoLen out ((d.block + blocks + (2 ^ 32 - 1)) % 2 ^ 32) ds

def padOutputFile (len : Nat) : Except Fault OutputFile :=
  if len < out.curOutPtr then .error .aborted else out.skipTo len

/- The header is written again in front of the chunks. -/
def closeOutputFile (infoLen : Nat) (out : OutputFile) : List UInt8 :=
  sparseHeader (infoLen / blockSize) out.chunkCnt out.crc32.toNat ++ out.body

end OutputFile

/- Queue the ranges and write the sparse file. -/
def makeSparse (infoLen : Nat) (ranges : List DataBlock) : Except Fault (List UInt8) := do
  let out ← OutputFile.forEachDataBlock infoLen ⟨[], 0, 0, 0⟩ 0 (queued ranges)
  let out ← out.padOutputFile infoLen
  return out.closeOutputFile infoLen

------
-- The Expander
------

def copyBufSize : Nat := 1024 * 1024

/- What is left of the sparse file, the image with its file position, and the two sums. -/
structure Reader where
  input : List UInt8
  out : List UInt8
  pos : Nat
  crc32 : BitVec 32
  totalBlocks : Nat

/- A gap in front of the position reads as zeros. -/
def Reader.filled (r : Reader) : List UInt8 :=
  r.out ++ List.replicate (r.pos - r.out.length) 0

def processRawChunk (r : Reader) (len : Nat) : Except Fault Reader :=
  if len = 0 then .ok r
  else
    let chunk := min len copyBufSize
    let copybuf := r.input.take chunk
    if r.input.length < chunk then .error .aborted
    else
      processRawChunk
        { r with
          input := r.input.drop chunk
          out := r.filled ++ copybuf
          pos := r.pos + chunk
          crc32 := sparseCrc32 r.crc32 copybuf } (len - chunk)
termination_by len
decreasing_by
  have hSize : 0 < copyBufSize := by decide
  omega

/- The position moves on; the sum takes a block at a time. -/
def processSkipChunk (zerobuf : List UInt8) (blkSz blocks : Nat) (r : Reader) : Reader :=
  { r with pos := r.pos + blocks * blkSz, crc32 := (sparseCrc32 · zerobuf)^[blocks] r.crc32 }

def Reader.count (r : Reader) (blocks : Nat) : Reader :=
  { r with totalBlocks := (r.totalBlocks + blocks) % 2 ^ 32 }

def processChunk (zerobuf : List UInt8) (chunkHdrSz blkSz : Nat)
    (r : Reader) : Except Fault Reader := do
  match ← readRecord [2, 2, 4, 4] r.input with
  | ([chunkType, _, chunkSz, totalSz], rest) =>
    let r := { r with input := rest.drop (chunkHdrSz - chunkHeaderLen) }
    if chunkType = chunkTypeRaw then
      if totalSz ≠ (chunkHdrSz + chunkSz * blkSz) % 2 ^ 32 then
        .error .aborted
      else do
        let r ← processRawChunk r (chunkSz * blkSz)
        .ok (r.count chunkSz)
    else if chunkType = chunkTypeDontCare then
      if totalSz ≠ chunkHdrSz then .error .aborted
      else
        .ok ((processSkipChunk zerobuf blkSz chunkSz r).count chunkSz)
    else .error .aborted
  | _ => .error .aborted

def processChunks (zerobuf : List UInt8) (chunkHdrSz blkSz : Nat) :
    Nat → Reader → Except Fault Reader
| 0, r => .ok r
| n + 1, r => do
    let r ← processChunk zerobuf chunkHdrSz blkSz r
    processChunks zerobuf chunkHdrSz blkSz n r

variable (heap : Nat → UInt8)

/- The buffer is allocated and not cleared. -/
def mallocBuf (size : Nat) : List UInt8 :=
  (List.range size).map heap

def ftruncate (out : List UInt8) (size : Nat) : List UInt8 :=
  (out ++ List.replicate (size - out.length) 0).take size

/- The image, if the expander exits with status 0. -/
def simg2img (input : List UInt8) : Except Fault (List UInt8) := do
  match ← readRecord [4, 2, 2, 2, 2, 4, 4, 4, 4] input with
  | ([magic, majorVersion, _, fileHdrSz, chunkHdrSz, blkSz, totalBlks, totalChunks,
      imageChecksum], rest) =>
    if magic ≠ sparseHeaderMagic ∨ majorVersion ≠ 1 then
      .error .aborted
    else do
      let r ← processChunks (mallocBuf heap blkSz) chunkHdrSz blkSz totalChunks
        ⟨rest.drop (fileHdrSz - sparseHeaderLen), [], 0, 0, 0⟩
      if totalBlks ≠ r.totalBlocks ∨ imageChecksum ≠ r.crc32.toNat then .error .aborted
      else .ok (ftruncate r.out (r.totalBlocks * blkSz))
  | _ => .error .aborted

------
-- Sums Of Pieces
------

variable {r : Reader}

theorem xor_allOnes_twice (v : BitVec 32) : v ^^^ BitVec.allOnes 32 ^^^ BitVec.allOnes 32 = v := by
  rw [BitVec.xor_assoc, BitVec.xor_self, BitVec.xor_zero]

theorem sparseCrc32_append (crc : BitVec 32) (a b : List UInt8) :
    sparseCrc32 (sparseCrc32 crc a) b = sparseCrc32 crc (a ++ b) := by
  simp only [sparseCrc32, foldl_append, xor_allOnes_twice]

theorem sparseCrc32_nil (crc : BitVec 32) : sparseCrc32 crc [] = crc :=
  xor_allOnes_twice crc

theorem sparseCrc32_iterate (buf : List UInt8) (n : Nat) (crc : BitVec 32) :
    (sparseCrc32 · buf)^[n] crc = sparseCrc32 crc (replicate n buf).flatten := by
  induction n generalizing crc with
  | zero => exact (sparseCrc32_nil crc).symm
  | succ n ih => rw [iterate_succ_apply, ih, sparseCrc32_append, replicate_succ, flatten_cons]

------
-- The Queue Is Sorted
------

def Sorted (ds : List DataBlock) : Prop :=
  ds.Pairwise fun a b => a.block ≤ b.block

/- A new range goes behind the lower ones. -/
theorem sorted_insert {front back : List DataBlock}
    {new : DataBlock} (hSorted : Sorted (front ++ back))
    (hFront : ∀ d ∈ front, d.block ≤ new.block) :
    Sorted (front ++ back.takeWhile (·.block < new.block) ++
      new :: back.dropWhile (·.block < new.block)) := by
  have hSplit := takeWhile_append_dropWhile
    (p := (fun d : DataBlock => decide (d.block < new.block)))
    (l := back)
  rw [← hSplit, ← append_assoc] at hSorted
  rcases pairwise_append.mp hSorted with ⟨hLow, hHigh, hCross⟩
  refine pairwise_append.mpr ⟨hLow, pairwise_cons.mpr ⟨?_, hHigh⟩, ?_⟩
  · -- The first of the rest is not lower, the others are above it.
    cases hRest : back.dropWhile (·.block < new.block) with
    | nil => nofun
    | cons first rest =>
      have hFirst := head_dropWhile_not
        (fun d : DataBlock => decide (d.block < new.block)) (l := back)
        (by rw [hRest]; exact cons_ne_nil _ _)
      simp only [hRest, head_cons, decide_eq_false_iff_not] at hFirst
      rw [hRest] at hHigh
      have hAbove := (pairwise_cons.mp hHigh).1
      intro d hD
      rcases mem_cons.mp hD with rfl | hD
      · omega
      · have hD := hAbove d hD
        omega
  · intro a hA b hB
    rcases mem_cons.mp hB with rfl | hB
    · rcases mem_append.mp hA with hA | hA
      · exact hFront a hA
      · have hA := mem_takeWhile_imp hA
        simp only [decide_eq_true_eq] at hA
        omega
    · exact hCross a hA b hB

/- Nothing up to the start of the search is higher. -/
theorem searchStart_le {q : Queue} {head new : DataBlock}
    {rest : List DataBlock} (hBlocks : q.dataBlocks = head :: rest)
    (hSorted : Sorted q.dataBlocks) (hHead : head.block ≤ new.block) :
    ∀ d ∈ q.dataBlocks.take (q.searchStart new + 1), d.block ≤ new.block := by
  have hZero : ∀ d ∈ q.dataBlocks.take 1, d.block ≤ new.block := by simpa [hBlocks] using hHead
  unfold Queue.searchStart
  cases q.lastUsed with
  | none => exact hZero
  | some i =>
    dsimp only
    split
    · rename_i hAny
      rcases Option.any_eq_true _ _ |>.mp hAny with ⟨x, hX, hLess⟩
      simp only [decide_eq_true_eq] at hLess
      rcases List.getElem?_eq_some_iff.mp hX with ⟨hIn, rfl⟩
      intro d hD
      have hPart := hSorted.sublist (take_sublist (i + 1) _)
      rw [← take_concat_get' _ _ hIn] at hD hPart
      rcases mem_append.mp hD with hD | hD
      · have hD := (pairwise_append.mp hPart).2.2 d hD _ (mem_singleton_self _)
        omega
      · rw [mem_singleton.mp hD]
        omega
    · exact hZero

theorem queueDb_sorted (q : Queue) (new : DataBlock) (hSorted : Sorted q.dataBlocks) :
    Sorted (q.queueDb new).dataBlocks ∧ (q.queueDb new).dataBlocks.Perm (new :: q.dataBlocks) := by
  unfold Queue.queueDb
  cases hBlocks : q.dataBlocks with
  | nil => exact ⟨pairwise_singleton _ _, .rfl⟩
  | cons head rest =>
    dsimp only
    rw [← hBlocks]
    split
    · refine ⟨pairwise_cons.mpr ⟨?_, hSorted⟩, .rfl⟩
      rw [hBlocks] at hSorted ⊢
      have hAbove := (pairwise_cons.mp hSorted).1
      intro d hD
      rcases mem_cons.mp hD with rfl | hD
      · omega
      · have hD := hAbove d hD
        omega
    · rename_i hHead
      have hFront := searchStart_le hBlocks hSorted (Nat.le_of_not_lt hHead)
      constructor
      · apply sorted_insert _ hFront
        rwa [take_append_drop]
      · refine perm_middle.trans (List.Perm.cons new ?_)
        rw [append_assoc, takeWhile_append_dropWhile, take_append_drop]

theorem foldl_queueDb (ranges : List DataBlock) (q : Queue) (hSorted : Sorted q.dataBlocks) :
    Sorted (ranges.foldl Queue.queueDb q).dataBlocks ∧
      (ranges.foldl Queue.queueDb q).dataBlocks.Perm (ranges ++ q.dataBlocks) := by
  induction ranges generalizing q with
  | nil => exact ⟨hSorted, .rfl⟩
  | cons d ranges ih =>
    rcases queueDb_sorted q d hSorted with ⟨hNext, hPerm⟩
    rcases ih (q.queueDb d) hNext with ⟨hLast, hAll⟩
    exact ⟨hLast, hAll.trans ((hPerm.append_left ranges).trans perm_middle)⟩

theorem queued_sorted (ranges : List DataBlock) :
    Sorted (queued ranges) ∧ (queued ranges).Perm ranges := by
  have hAll := foldl_queueDb ranges ⟨[], none⟩ List.Pairwise.nil
  rw [append_nil] at hAll
  exact hAll

------
-- The Layout
------

inductive Chunk
| raw (data : List UInt8)
| skip (blocks : Nat)

namespace Chunk

def blocks : Chunk → Nat
| raw data => data.length / blockSize
| skip blocks => blocks

def encode : Chunk → List UInt8
| raw data =>
  chunkHeader chunkTypeRaw (data.length / blockSize) (chunkHeaderLen + data.length) ++ data
| skip blocks => chunkHeader chunkTypeDontCare blocks chunkHeaderLen

/- Its bytes in an image whose gaps are filled with a block. -/
def bytes (fill : List UInt8) : Chunk → List UInt8
| raw data => data
| skip blocks => (replicate blocks fill).flatten

end Chunk

/- The chunk between two offsets, if they are apart. -/
def gap (cur off : Nat) : List Chunk :=
  if cur < off then [.skip ((off - cur) / blockSize)] else []

/- Data up to the end of its last block. -/
def padded (data : List UInt8) : List UInt8 :=
  data ++ replicate ((data.length + (blockSize - 1)) / blockSize * blockSize - data.length) 0

def layout (infoLen : Nat) : Nat → List DataBlock → List Chunk
| cur, [] => gap cur infoLen
| cur, d :: ds =>
  gap cur d.off ++ .raw (padded d.bytes) :: layout infoLen (d.off + (padded d.bytes).length) ds

/- What is left to write is ahead of the output pointer. -/
structure Ahead (infoLen cur : Nat) (ds : List DataBlock) : Prop where
  aligned : infoLen % blockSize = 0
  start : cur % blockSize = 0
  within : cur ≤ infoLen
  below : ∀ d ∈ ds, cur ≤ d.off
  some : ∀ d ∈ ds, 0 < d.bytes.length
  inside : ∀ d ∈ ds, d.stop ≤ infoLen
  apart : ds.Pairwise fun a b => a.stop ≤ b.off

theorem length_padded (data : List UInt8) :
    (padded data).length = (data.length + (blockSize - 1)) / blockSize * blockSize := by
  simp only [padded, length_append, length_replicate, blockSize]
  omega

theorem whole_div (n : Nat) : n * blockSize / blockSize = n :=
  Nat.mul_div_cancel n (by decide)

theorem DataBlock.off_mod (d : DataBlock) : d.off % blockSize = 0 :=
  Nat.mul_mod_left ..

variable {infoLen cur : Nat} {d : DataBlock} {ds : List DataBlock} {chunks : List Chunk}

theorem padded_le {n : Nat} (hAligned : n % blockSize = 0)
    (hStop : d.stop ≤ n) : d.off + (padded d.bytes).length ≤ n := by
  have hOff := d.off_mod
  simp only [DataBlock.stop, length_padded, blockSize] at *
  omega

theorem Ahead.tail (h : Ahead infoLen cur (d :: ds)) :
    Ahead infoLen (d.off + (padded d.bytes).length) ds := by
  have hOff := d.off_mod
  have hApart := pairwise_cons.mp h.apart
  exact
    { aligned := h.aligned
      start := by
        simp only [length_padded, blockSize] at *
        omega
      within := padded_le h.aligned (h.inside d (by simp))
      below := fun e hE => padded_le e.off_mod (hApart.1 e hE)
      some := fun e hE => h.some e (by simp [hE])
      inside := fun e hE => h.inside e (by simp [hE])
      apart := hApart.2 }

------
-- The Writer Emits The Layout
------

/- The file with further chunks. -/
def OutputFile.emits (out : OutputFile) (chunks : List Chunk) : OutputFile :=
  { body := out.body ++ stream Chunk.encode chunks
    curOutPtr := out.curOutPtr + (chunks.map Chunk.blocks).sum * blockSize
    chunkCnt := out.chunkCnt + chunks.length
    crc32 := sparseCrc32 out.crc32 (stream (Chunk.bytes zeroBuf) chunks) }

variable {out : OutputFile}

theorem emits_append (out : OutputFile) (a b : List Chunk) :
    (out.emits a).emits b = out.emits (a ++ b) := by
  simp only [OutputFile.emits, stream_append, append_assoc, map_append, sum_append, add_mul,
    add_assoc, length_append, sparseCrc32_append]

theorem emitSkipChunk_eq {skipLen : Nat} (hSkip : skipLen % blockSize = 0) :
    out.emitSkipChunk skipLen = .ok (out.emits [.skip (skipLen / blockSize)]) := by
  have hBlocks : skipLen / blockSize * blockSize = skipLen :=
    Nat.div_mul_cancel (Nat.dvd_of_mod_eq_zero hSkip)
  simp [OutputFile.emitSkipChunk, OutputFile.emits, hSkip, hBlocks, Chunk.blocks, Chunk.encode,
    Chunk.bytes, sparseCrc32_iterate]

variable {off : Nat}

theorem gap_blocks (hLe : cur ≤ off) (hCur : cur % blockSize = 0) (hOff : off % blockSize = 0) :
    ((gap cur off).map Chunk.blocks).sum * blockSize = off - cur := by
  unfold gap
  split
  · simp only [map_cons, map_nil, sum_singleton, Chunk.blocks, blockSize] at *
    omega
  · simp only [map_nil, sum_nil]
    omega

section

variable (hCur : out.curOutPtr % blockSize = 0) (hOff : off % blockSize = 0)

include hCur hOff

theorem skipTo_eq : out.skipTo off = .ok (out.emits (gap out.curOutPtr off)) := by
  unfold OutputFile.skipTo gap
  split
  · apply emitSkipChunk_eq
    simp only [blockSize] at *
    omega
  · simp [OutputFile.emits, sparseCrc32_nil]

variable {data : List UInt8} (hLe : out.curOutPtr ≤ off)

include hLe

theorem writeChunkRaw_eq (hData : data.length ≤ maxWrite) :
    out.writeChunkRaw off data data.length = .ok (out.emits
      (gap out.curOutPtr off ++ [.raw (padded data)])) := by
  have hPtr : (out.emits (gap out.curOutPtr off)).curOutPtr = off := by
    have hGap := gap_blocks hLe hCur hOff
    simp only [OutputFile.emits, hGap]
    omega
  have hZeros : (data.length + (blockSize - 1)) / blockSize *
      blockSize - data.length ≤ maxWrite := by
    simp only [blockSize, maxWrite] at *
    omega
  rw [OutputFile.writeChunkRaw, if_neg (by omega), skipTo_eq hCur hOff,
    ok_bind, if_neg (by rw [hPtr]; simp [hOff])]
  rw [← emits_append]
  simp only [OutputFile.fileWrite, Int.natCast_nonneg, Nat.cast_le, hData, length_replicate,
    hZeros, and_self, if_true, ok_bind, show chunkHeaderLen ≤ maxWrite by decide]
  simp only [OutputFile.emits, stream_cons, map_cons, Chunk.encode, Chunk.blocks, Chunk.bytes,
    length_padded, whole_div]
  simp [padded, sparseCrc32_append]

/- A length that is too long fails at the write. -/
theorem writeChunkRaw_long (hLen : data.length < 2 ^ 32) (hLong : maxWrite < data.length) :
    out.writeChunkRaw off data (asInt data.length) = .error .aborted := by
  have hInt : ¬ (0 ≤ asInt data.length ∧ asInt data.length ≤ maxWrite) := by
    unfold asInt
    split <;> omega
  rw [OutputFile.writeChunkRaw, if_neg (by omega), skipTo_eq hCur hOff, ok_bind]
  split
  · rfl
  · simp only [OutputFile.fileWrite, if_neg hInt]
    rfl

end

/-
  The length passes as an `int`; a range of a file does not end with the image and starts at a page
  of the file.
-/
def Fits (infoLen : Nat) (d : DataBlock) : Prop :=
  d.bytes.length ≤ maxWrite ∧ ∀ offset ∈ d.file, d.stop < infoLen ∧ offset % blockSize = 0

instance : Decidable (Fits infoLen d) :=
  inferInstanceAs (Decidable (_ ∧ _))

theorem writeRange_eq (hLe : out.curOutPtr ≤ d.off) (hCur : out.curOutPtr % blockSize = 0)
    (hInside : d.stop ≤ infoLen) (hSome : 0 < d.bytes.length) :
    out.writeRange infoLen d = if Fits infoLen d then
      .ok (out.emits (gap out.curOutPtr d.off ++ [.raw (padded d.bytes)]))
      else .error .aborted := by
  have hOff := d.off_mod
  by_cases hLong : maxWrite < d.bytes.length
  · have hFails := writeChunkRaw_long hCur hOff hLe d.lenFits hLong
    rw [if_neg (fun hFits => absurd hFits.1 (by omega))]
    unfold OutputFile.writeRange OutputFile.writeDataBlock OutputFile.writeDataFile
    simp only [hFails]
    split <;> simp
  · have hData : d.bytes.length ≤ maxWrite := by omega
    have hWrite := writeChunkRaw_eq hCur hOff hLe hData
    have hBlock := d.blockFits
    have hInt : asInt d.bytes.length = d.bytes.length :=
      if_pos (by simp only [maxWrite] at hData; omega)
    have hEnd : ((d.off + d.bytes.length : Int)) % 2 ^ 64 = d.stop := by
      simp only [DataBlock.stop, DataBlock.off, blockSize, maxWrite] at *
      omega
    simp only [Fits, hData, true_and, OutputFile.writeRange]
    cases hFile : d.file with
    | none =>
      simp only [OutputFile.writeDataBlock, hInt, hEnd, hWrite]
      rw [if_neg (by omega), if_pos nofun]
    | some offset =>
      simp only [OutputFile.writeDataFile, hInt, hEnd, hWrite, Option.mem_def, Option.some.injEq,
        forall_eq']
      split_ifs <;> first | rfl | omega

/- The writer emits the layout of the ranges if each of them fits, and gives up otherwise. -/
theorem forEach_pad_eq (out : OutputFile) (last : Nat) (hAhead : Ahead infoLen out.curOutPtr ds)
    (hLast : ∀ d ∈ ds, last ≤ d.block) :
    (OutputFile.forEachDataBlock infoLen out last ds >>= (OutputFile.padOutputFile · infoLen)) =
      if ∀ d ∈ ds, Fits infoLen d then
        .ok (out.emits (layout infoLen out.curOutPtr ds))
      else .error .aborted := by
  induction ds generalizing out last with
  | nil =>
    have hWithin := hAhead.within
    simp only [OutputFile.forEachDataBlock, ok_bind, layout, OutputFile.padOutputFile]
    rw [if_neg (by omega), skipTo_eq hAhead.start hAhead.aligned, if_pos nofun]
  | cons d ds ih =>
    have hMem : d ∈ d :: ds := by simp
    have hBelow := hAhead.below d hMem
    have hSome := hAhead.some d hMem
    rw [OutputFile.forEachDataBlock, if_neg (not_lt.mpr (hLast d hMem))]
    simp only [forall_mem_cons, writeRange_eq hBelow hAhead.start (hAhead.inside d hMem) hSome]
    by_cases hFits : Fits infoLen d
    · have hPtr : (out.emits (gap out.curOutPtr d.off ++ [.raw (padded d.bytes)])).curOutPtr =
          d.off + (padded d.bytes).length := by
        have hGap := gap_blocks hBelow hAhead.start d.off_mod
        simp only [OutputFile.emits, map_append, sum_append, add_mul, hGap, map_cons, map_nil,
          sum_singleton, Chunk.blocks, length_padded, whole_div]
        omega
      have hTail := hAhead.tail
      rw [← hPtr] at hTail
      -- The next range starts behind the last block.
      have hNext : ∀ e ∈ ds, (d.block + (d.bytes.length + (blockSize - 1)) % 2 ^ 32 / blockSize +
          (2 ^ 32 - 1)) % 2 ^ 32 ≤ e.block := by
        intro e hE
        have hApart := (pairwise_cons.mp hAhead.apart).1 e hE
        have hFit := hFits.1
        simp only [DataBlock.stop, DataBlock.off, blockSize, maxWrite] at *
        omega
      have hRest := ih _ _ hTail hNext
      rw [emits_append, hPtr, ← append_cons] at hRest
      simp only [hFits, if_true, true_and, ok_bind]
      exact hRest
    · simp only [hFits, if_false, false_and]
      rfl

------
-- What The Layout Shows
------

/- The image between the output pointer and the end. -/
def imageFrom (infoLen cur : Nat) (ds : List DataBlock) : List UInt8 :=
  stream (Chunk.bytes zeroBuf) (layout infoLen cur ds)

theorem stream_gap (hLe : cur ≤ off) (hCur : cur % blockSize = 0) (hOff : off % blockSize = 0) :
    stream (Chunk.bytes zeroBuf) (gap cur off) = replicate (off - cur) 0 := by
  have hBlocks := gap_blocks hLe hCur hOff
  unfold gap at *
  split
  · rename_i hLt
    rw [← hBlocks]
    simp [Chunk.bytes, zeroBuf, whole_div]
  · rw [Nat.sub_eq_zero_of_le (by omega)]
    rfl

theorem imageFrom_cons (h : Ahead infoLen cur (d :: ds)) :
    imageFrom infoLen cur (d :: ds) = replicate (d.off - cur) 0 ++ (padded d.bytes ++
      imageFrom infoLen (d.off + (padded d.bytes).length) ds) := by
  have hGap := stream_gap (h.below d (by simp)) h.start d.off_mod
  simp only [imageFrom, layout, stream_append, stream_cons, hGap]
  rfl

theorem length_imageFrom (h : Ahead infoLen cur ds) :
    (imageFrom infoLen cur ds).length = infoLen - cur := by
  induction ds generalizing cur with
  | nil =>
    rw [imageFrom, layout, stream_gap h.within h.start h.aligned]
    exact length_replicate
  | cons d ds ih =>
    have hTail := h.tail
    have hWithin := hTail.within
    have hBelow := h.below d (by simp)
    simp only [imageFrom_cons h, length_append, ih hTail, length_replicate]
    omega

theorem getElem?_padded {data : List UInt8} {i : Nat} (hIn : i < (padded data).length) :
    (padded data)[i]? = if i < data.length then data[i]? else some 0 := by
  unfold padded at *
  split
  · exact getElem?_append_left ‹_›
  · rw [length_append, length_replicate] at hIn
    rw [getElem?_append_right (by omega), getElem?_replicate, if_pos (by omega)]

/- A byte of the image: in the gap, in the first range with its padding, or behind it. -/
theorem getElem?_imageFrom {j : Nat} (h : Ahead infoLen cur (d :: ds)) (hCur : cur ≤ j) :
    (imageFrom infoLen cur (d :: ds))[j - cur]? = if j < d.off then some 0
      else if j < d.off + (padded d.bytes).length then
        if j < d.stop then d.bytes[j - d.off]? else some 0
      else (imageFrom infoLen (d.off + (padded d.bytes).length)
        ds)[j - (d.off + (padded d.bytes).length)]? := by
  have hBelow := h.below d (by simp)
  rw [imageFrom_cons h]
  split
  · rw [getElem?_append_left (by
      rw [length_replicate]
      omega), getElem?_replicate, if_pos (by omega)]
  · have hPast : j - cur - (d.off - cur) = j - d.off := by omega
    rw [getElem?_append_right (by
      rw [length_replicate]
      omega), length_replicate, hPast]
    split
    · have hIn : j - d.off < (padded d.bytes).length := by omega
      rw [getElem?_append_left hIn, getElem?_padded hIn]
      have hStop : j - d.off < d.bytes.length ↔ j < d.stop := by
        simp only [DataBlock.stop]
        omega
      simp only [hStop]
    · rw [getElem?_append_right (by omega)]
      congr 1
      omega

/- The bytes of the ranges are where they were queued for. -/
theorem imageFrom_holds (h : Ahead infoLen cur ds) {i : Nat}
    (hD : d ∈ ds) (hI : i < d.bytes.length) :
    (imageFrom infoLen cur ds)[d.off + i - cur]? = d.bytes[i]? := by
  induction ds generalizing cur with
  | nil => cases hD
  | cons e ds ih =>
    have hBelow := h.below d hD
    rw [getElem?_imageFrom h (by omega)]
    rcases mem_cons.mp hD with rfl | hLater
    · have hLong : d.bytes.length ≤ (padded d.bytes).length := by simp [padded]
      have hStop : d.off + i < d.stop := Nat.add_lt_add_left hI _
      rw [if_neg (by omega), if_pos (by omega), if_pos hStop, Nat.add_sub_cancel_left]
    · have hNext := h.tail.below d hLater
      rw [if_neg (by omega), if_neg (by omega)]
      exact ih h.tail hLater

/- Everything else is zero. -/
theorem imageFrom_zero (h : Ahead infoLen cur ds) {j : Nat} (hCur : cur ≤ j) (hJ : j < infoLen)
    (hFree : ∀ d ∈ ds, ¬ (d.off ≤ j ∧ j < d.stop)) :
    (imageFrom infoLen cur ds)[j - cur]? = some 0 := by
  induction ds generalizing cur with
  | nil =>
    rw [imageFrom, layout, stream_gap h.within h.start h.aligned,
      getElem?_replicate, if_pos (by omega)]
  | cons d ds ih =>
    have hHere := hFree d (by simp)
    rw [getElem?_imageFrom h hCur]
    split
    · rfl
    · split
      · rw [if_neg (by omega)]
      · exact ih h.tail (by omega) (fun e hE => hFree e (by simp [hE]))

------
-- The Expander Reads The Layout
------

/- What the reader relies on in a chunk. -/
def Chunk.Ok : Chunk → Prop
| .raw data =>
  data.length % blockSize = 0 ∧ 0 < data.length ∧ data.length ≤ maxWrite
| .skip blocks => 0 < blocks ∧ blocks < 2 ^ 32

theorem gap_ok (hOff : off ≤ infoLen) (hSmall : infoLen < 2 ^ 44) (hCur : cur % blockSize = 0)
    (hAligned : off % blockSize = 0) : ∀ c ∈ gap cur off, c.Ok := by
  unfold gap
  split
  · intro c hC
    rw [mem_singleton.mp hC]
    simp only [Chunk.Ok, blockSize] at *
    omega
  · nofun

theorem layout_ok (h : Ahead infoLen cur ds)
    (hSmall : infoLen < 2 ^ 44) (hFits : ∀ d ∈ ds, Fits infoLen d) :
    ∀ c ∈ layout infoLen cur ds, c.Ok := by
  induction ds generalizing cur with
  | nil => exact gap_ok le_rfl hSmall h.start h.aligned
  | cons d ds ih =>
    have hStop := h.inside d (by simp)
    have hSome := h.some d (by simp)
    have hLen := (hFits d (by simp)).1
    have hOff : d.off ≤ infoLen := by
      simp only [DataBlock.stop] at hStop
      omega
    intro c hC
    rcases mem_append.mp hC with hC | hC
    · exact gap_ok hOff hSmall h.start d.off_mod c hC
    · rcases mem_cons.mp hC with rfl | hC
      · simp only [Chunk.Ok, length_padded, blockSize, maxWrite] at *
        omega
      · exact ih h.tail (fun e hE => hFits e (by simp [hE])) c hC

/- What the reader has done when it has read a part. -/
structure Reads (r r' : Reader) (image summed : List UInt8) (blocks : Nat) : Prop where
  image : r'.filled = r.filled ++ image
  inside : r'.out.length ≤ r'.pos
  crc : r'.crc32 = sparseCrc32 r.crc32 summed
  total : r'.totalBlocks = r.totalBlocks + blocks

theorem filled_of_full (hFull : r.pos ≤ r.out.length) : r.filled = r.out := by
  rw [Reader.filled, Nat.sub_eq_zero_of_le hFull]
  exact append_nil _

theorem length_filled (hPos : r.out.length ≤ r.pos) : r.filled.length = r.pos := by
  rw [Reader.filled, length_append, length_replicate]
  omega

theorem processRawChunk_eq (data rest : List UInt8) (r : Reader)
    (hInput : r.input = data ++ rest) (hPos : r.out.length ≤ r.pos) :
    ∃ r', processRawChunk r data.length = .ok r' ∧ r'.input = rest ∧ Reads r r' data data 0 := by
  induction hLen : data.length using Nat.strongRecOn generalizing data r with
  | _ len ih =>
    rw [processRawChunk]
    by_cases hZero : len = 0
    · rw [eq_nil_of_length_eq_zero (hLen.trans hZero)] at hInput ⊢
      rw [if_pos hZero]
      exact ⟨r, rfl, hInput, append_nil _ |>.symm, hPos, (sparseCrc32_nil _).symm, rfl⟩
    · have hSize : 0 < copyBufSize := by decide
      rw [if_neg hZero]
      generalize hChunk : min len copyBufSize = chunk
      have hEnough : ¬ r.input.length < chunk := by
        rw [hInput, length_append]
        omega
      rw [if_neg hEnough, hInput, take_append_of_le_length (by omega),
        drop_append_of_le_length (by omega)]
      let next : Reader :=
        { r with
          input := data.drop chunk ++ rest
          out := r.filled ++ data.take chunk
          pos := r.pos + chunk
          crc32 := sparseCrc32 r.crc32 (data.take chunk) }
      have hFull : next.out.length = next.pos := by
        simp only [next, length_append, length_filled hPos, length_take]
        omega
      rcases ih (len - chunk) (by omega) (data.drop chunk) next rfl
        (le_of_eq hFull) (by rw [length_drop, hLen]) with ⟨r', hRun, hRest, hReads⟩
      refine ⟨r', hRun, hRest, ?_, hReads.inside, ?_, hReads.total⟩
      · rw [hReads.image, filled_of_full (le_of_eq hFull.symm)]
        simp [next]
      · rw [hReads.crc, sparseCrc32_append, take_append_drop]

theorem filled_skip (hPos : r.out.length ≤ r.pos) (n : Nat) :
    { r with pos := r.pos + n }.filled = r.filled ++ replicate n 0 := by
  simp only [Reader.filled, append_assoc, ← replicate_add]
  congr 2
  omega

theorem readRecord_chunkHeader (chunkType chunkSz totalSz : Nat)
    (rest : List UInt8) (hType : chunkType < 256 ^ 2)
    (hSz : chunkSz < 256 ^ 4) (hTotal : totalSz < 256 ^ 4) :
    readRecord [2, 2, 4, 4] (chunkHeader chunkType chunkSz totalSz ++ rest) =
      .ok ([chunkType, 0, chunkSz, totalSz], rest) := by
  refine (readRecord_record [(2, chunkType), (2, 0), (4, chunkSz), (4, totalSz)] rest).trans ?_
  simp only [map_cons, map_nil]
  rw [Nat.mod_eq_of_lt hType, Nat.mod_eq_of_lt hSz, Nat.mod_eq_of_lt hTotal]
  rfl

/- The reader takes a chunk as it was written; what it sums up for a gap is in its buffer. -/
theorem processChunk_eq {c : Chunk} (hOk : c.Ok) (buf rest : List UInt8) (r : Reader)
    (hInput : r.input = c.encode ++ rest) (hPos : r.out.length ≤ r.pos)
    (hTotal : r.totalBlocks + c.blocks < 2 ^ 32) :
    ∃ r', processChunk buf chunkHeaderLen blockSize r = .ok r' ∧ r'.input = rest ∧
      Reads r r' (c.bytes zeroBuf) (c.bytes buf) c.blocks := by
  cases c with
  | raw data =>
    rcases hOk with ⟨hWhole, _, hLen⟩
    have hBlocks : data.length / blockSize * blockSize = data.length :=
      Nat.div_mul_cancel (Nat.dvd_of_mod_eq_zero hWhole)
    have hSize : chunkHeaderLen + data.length < 2 ^ 32 := by
      simp only [chunkHeaderLen, maxWrite] at *
      omega
    have hRead := readRecord_chunkHeader chunkTypeRaw
      (data.length / blockSize) _ (data ++ rest) (by decide)
      (Nat.lt_of_le_of_lt (Nat.le_add_left _ _) hTotal) hSize
    rcases processRawChunk_eq data rest
      { r with input := data ++ rest } rfl hPos with ⟨r', hRun, hRest, hReads⟩
    have hCount : (r'.totalBlocks + data.length / blockSize) %
        2 ^ 32 = r.totalBlocks + data.length / blockSize := by
      rw [hReads.total]
      exact Nat.mod_eq_of_lt hTotal
    refine ⟨r'.count (data.length / blockSize), ?_, hRest, hReads.image, hReads.inside, hReads.crc,
      hCount⟩
    rw [processChunk, hInput, Chunk.encode, append_assoc, hRead, ok_bind]
    simp only [if_true, hBlocks, Nat.mod_eq_of_lt hSize, ne_eq, not_true, if_false, Nat.sub_self,
      drop_zero, hRun, ok_bind]
  | skip blocks =>
    have hRead := readRecord_chunkHeader chunkTypeDontCare blocks
      chunkHeaderLen rest (by decide) hOk.2 (by decide)
    have hNotRaw : chunkTypeDontCare ≠ chunkTypeRaw := by decide
    have hCount : (r.totalBlocks + blocks) % 2 ^ 32 = r.totalBlocks + blocks :=
      Nat.mod_eq_of_lt hTotal
    have hFilled := filled_skip hPos (blocks * blockSize)
    refine ⟨(processSkipChunk buf blockSize blocks
      { r with input := rest }).count blocks, ?_, rfl, ?_, ?_, ?_, hCount⟩
    · rw [processChunk, hInput, Chunk.encode, hRead, ok_bind]
      simp only [if_neg hNotRaw, if_true, ne_eq, not_true, if_false, Nat.sub_self, drop_zero]
    · simp only [Chunk.bytes, zeroBuf, flatten_replicate_replicate]
      exact hFilled
    · exact Nat.le_add_right_of_le hPos
    · exact sparseCrc32_iterate buf blocks r.crc32

/- And the chunks of an image one after the other. -/
theorem processChunks_layout (hOk : ∀ c ∈ chunks, c.Ok) (buf : List UInt8) (r : Reader)
    (hInput : r.input = stream Chunk.encode chunks) (hPos : r.out.length ≤ r.pos)
    (hTotal : r.totalBlocks + (chunks.map Chunk.blocks).sum < 2 ^ 32) :
    ∃ r', processChunks buf chunkHeaderLen blockSize chunks.length r = .ok r' ∧
      Reads r r' (stream (Chunk.bytes zeroBuf) chunks) (stream (Chunk.bytes buf) chunks)
        (chunks.map Chunk.blocks).sum := by
  induction chunks generalizing r with
  | nil => exact ⟨r, rfl, append_nil _ |>.symm, hPos, (sparseCrc32_nil _).symm, rfl⟩
  | cons c chunks ih =>
    rw [map_cons, sum_cons] at hTotal ⊢
    rcases processChunk_eq (hOk c (by simp)) buf _ r hInput hPos
      (by omega) with ⟨next, hStep, hRest, hFirst⟩
    have hSum := hFirst.total
    rcases ih (fun e hE => hOk e (by simp [hE])) next hRest
      hFirst.inside (by omega) with ⟨last, hRun, hReads⟩
    refine ⟨last, ?_, ?_, hReads.inside, ?_, ?_⟩
    · rw [length_cons, processChunks, hStep, ok_bind, hRun]
    · rw [hReads.image, hFirst.image, append_assoc, stream_cons]
    · rw [hReads.crc, hFirst.crc, sparseCrc32_append, stream_cons]
    · rw [hReads.total, hFirst.total, add_assoc]

------
-- The Image
------

/- Disjoint ranges within an image of whole blocks, in any order. -/
structure Valid (infoLen : Nat) (ranges : List DataBlock) : Prop where
  aligned : infoLen % blockSize = 0
  some : ∀ d ∈ ranges, 0 < d.bytes.length
  inside : ∀ d ∈ ranges, d.stop ≤ infoLen
  apart : ranges.Pairwise fun a b => a.stop ≤ b.off ∨ b.stop ≤ a.off

/- The queued bytes at their offsets and zeros elsewhere. -/
structure Expanded (infoLen : Nat) (ranges : List DataBlock) (image : List UInt8) : Prop where
  length : image.length = infoLen
  holds : ∀ d ∈ ranges, ∀ i < d.bytes.length, image[d.off + i]? = d.bytes[i]?
  zero : ∀ j < infoLen, (∀ d ∈ ranges, ¬ (d.off ≤ j ∧ j < d.stop)) → image[j]? = Option.some 0

/- The chunks of the sparse file. -/
def chunksOf (infoLen : Nat) (ranges : List DataBlock) : List Chunk :=
  layout infoLen 0 (queued ranges)

def sparseFile (infoLen : Nat) (ranges : List DataBlock) : List UInt8 :=
  (OutputFile.emits ⟨[], 0, 0, 0⟩ (chunksOf infoLen ranges)).closeOutputFile infoLen

/- The checksum is the same with the buffer's content in the gaps; so it is if there are none. -/
def SumsAgree (infoLen : Nat) (ranges : List DataBlock) : Prop :=
  sparseCrc32 0 (stream (Chunk.bytes (mallocBuf heap blockSize)) (chunksOf infoLen ranges)) =
    sparseCrc32 0 (stream (Chunk.bytes zeroBuf) (chunksOf infoLen ranges))

instance (heap : Nat → UInt8) (ranges : List DataBlock) :
    Decidable (SumsAgree heap infoLen ranges) :=
  inferInstanceAs (Decidable (_ = _))

variable {ranges : List DataBlock}

theorem Valid.ahead (h : Valid infoLen ranges) : Ahead infoLen 0 (queued ranges) := by
  rcases queued_sorted ranges with ⟨hSorted, hPerm⟩
  have hMem : ∀ d ∈ queued ranges, d ∈ ranges := fun d hD => hPerm.mem_iff.mp hD
  have hApart := (hPerm.pairwise_iff Or.symm).mpr h.apart
  exact
    { aligned := h.aligned
      start := rfl
      within := Nat.zero_le _
      below := fun _ _ => Nat.zero_le _
      some := fun d hD => h.some d (hMem d hD)
      inside := fun d hD => h.inside d (hMem d hD)
      apart := by
        refine (hSorted.and hApart).imp_of_mem ?_
        rintro a b - hB ⟨hLe, hOr⟩
        have hSome := h.some b (hMem b hB)
        have hOff : a.off ≤ b.off := Nat.mul_le_mul_right _ hLe
        simp only [DataBlock.stop] at *
        omega }

theorem Valid.expanded (h : Valid infoLen ranges) :
    Expanded infoLen ranges (imageFrom infoLen 0 (queued ranges)) := by
  have hPerm := (queued_sorted ranges).2
  exact
    { length := length_imageFrom h.ahead
      holds := fun d hD i hI => imageFrom_holds h.ahead (hPerm.mem_iff.mpr hD) hI
      zero := fun j hJ hFree =>
        imageFrom_zero h.ahead (Nat.zero_le _) hJ (fun d hD => hFree d (hPerm.mem_iff.mp hD)) }

theorem makeSparse_eq (h : Valid infoLen ranges) :
    makeSparse infoLen ranges = if ∀ d ∈ ranges, Fits infoLen d then
      .ok (sparseFile infoLen ranges)
      else .error .aborted := by
  have hSame : makeSparse infoLen ranges = (OutputFile.forEachDataBlock infoLen ⟨[], 0, 0, 0⟩ 0
      (queued ranges) >>= (OutputFile.padOutputFile · infoLen)) >>=
        fun out => .ok (out.closeOutputFile infoLen) := by
    rw [bind_assoc]
    rfl
  rw [hSame, forEach_pad_eq ⟨[], 0, 0, 0⟩ 0 h.ahead (fun _ _ => Nat.zero_le _)]
  simp only [(queued_sorted ranges).2.mem_iff]
  split <;> rfl

theorem simg2img_header (blks chunks sum : Nat) (body : List UInt8) :
    simg2img heap (sparseHeader blks chunks sum ++ body) = (do
      let r ← processChunks (mallocBuf heap blockSize) chunkHeaderLen
        blockSize (chunks % 2 ^ 32) ⟨body, [], 0, 0, 0⟩
      if blks % 2 ^ 32 ≠ r.totalBlocks ∨ sum % 2 ^ 32 ≠ r.crc32.toNat then .error .aborted
      else .ok (ftruncate r.out (r.totalBlocks * blockSize))) := by
  have hRead := readRecord_record
    [(4, sparseHeaderMagic), (2, 1), (2, 0), (2, sparseHeaderLen), (2, chunkHeaderLen),
      (4, blockSize), (4, blks), (4, chunks), (4, sum)] body
  simp only [map_cons, map_nil] at hRead
  rw [simg2img, sparseHeader, hRead]
  rfl

theorem length_simg2img {heap : Nat → UInt8} {blks chunks sum : Nat} {body image : List UInt8}
    (hRun : simg2img heap (sparseHeader blks chunks sum ++ body) = .ok image) :
    image.length = blks % 2 ^ 32 * blockSize := by
  rw [simg2img_header] at hRun
  rcases bind_eq_ok.mp hRun with ⟨r, _, hEnd⟩
  split at hEnd
  · cases hEnd
  · rename_i hSame
    push Not at hSame
    cases hEnd
    simp only [ftruncate, length_take, length_append, length_replicate, ← hSame.1]
    omega

theorem length_stream_bytes (hOk : ∀ c ∈ chunks, c.Ok) :
    (stream (Chunk.bytes zeroBuf) chunks).length = (chunks.map Chunk.blocks).sum * blockSize ∧
      chunks.length ≤ (chunks.map Chunk.blocks).sum := by
  induction chunks with
  | nil => exact ⟨rfl, le_refl _⟩
  | cons c chunks ih =>
    rcases ih (fun e hE => hOk e (by simp [hE])) with ⟨hLen, hLe⟩
    have hThis := hOk c (by simp)
    simp only [stream_cons, length_append, hLen, map_cons, sum_cons, length_cons]
    cases c with
    | raw data =>
      simp only [Chunk.Ok, Chunk.bytes, Chunk.blocks, blockSize] at *
      omega
    | skip blocks =>
      simp only [Chunk.Ok, Chunk.bytes, Chunk.blocks, zeroBuf, flatten_replicate_replicate,
        length_replicate] at *
      exact ⟨(add_mul ..).symm, by omega⟩

/- The expander on the file that was written. -/
theorem simg2img_eq (h : Valid infoLen ranges)
    (hSmall : infoLen < 2 ^ 44) (hFits : ∀ d ∈ ranges, Fits infoLen d) (heap : Nat → UInt8) :
    simg2img heap (sparseFile infoLen ranges) = if SumsAgree heap infoLen ranges then
      .ok (imageFrom infoLen 0 (queued ranges))
      else .error .aborted := by
  have hPerm := (queued_sorted ranges).2
  have hOk : ∀ c ∈ chunksOf infoLen ranges, c.Ok := layout_ok h.ahead hSmall
      (fun d hD => hFits d (hPerm.mem_iff.mp hD))
  have hLength : (imageFrom infoLen 0 (queued ranges)).length = infoLen := length_imageFrom h.ahead
  rcases length_stream_bytes hOk with ⟨hSum, hCount⟩
  have hBlocks : infoLen / blockSize = ((chunksOf infoLen ranges).map Chunk.blocks).sum :=
    Nat.div_eq_of_eq_mul_left (by decide) (hLength.symm.trans hSum)
  have hLess : infoLen / blockSize < 2 ^ 32 := by
    simp only [blockSize]
    omega
  rcases processChunks_layout hOk (mallocBuf heap blockSize)
    ⟨stream Chunk.encode (chunksOf infoLen ranges), [], 0, 0, 0⟩ rfl
    le_rfl (by rw [← hBlocks, Nat.zero_add]; exact hLess)
    with ⟨r, hRun, hImage, hInside, hCrc, hTotal⟩
  rw [zero_add, ← hBlocks] at hTotal
  have hPos := length_filled hInside
  have hFile : ftruncate r.out (r.totalBlocks * blockSize) =
      imageFrom infoLen 0 (queued ranges) := by
    have hEnd : r.totalBlocks * blockSize = r.pos := by
      rw [← hPos, hImage, hTotal, hBlocks]
      exact hSum.symm
    rw [hEnd, ftruncate]
    exact (take_of_length_le (le_of_eq hPos)).trans hImage
  rw [sparseFile, OutputFile.closeOutputFile, simg2img_header]
  simp only [OutputFile.emits, nil_append, zero_add]
  rw [Nat.mod_eq_of_lt (by omega), hRun, ok_bind, hFile, hTotal, Nat.mod_eq_of_lt hLess,
    Nat.mod_eq_of_lt (BitVec.isLt _), hCrc]
  by_cases hAgree : SumsAgree heap infoLen ranges
  · rw [if_pos hAgree]
    apply if_neg
    rintro (hNe | hNe)
    · exact hNe rfl
    · exact hNe (congrArg BitVec.toNat hAgree.symm)
  · rw [if_neg hAgree]
    exact if_pos (.inr fun hEq => hAgree (BitVec.eq_of_toNat_eq hEq).symm)

/-
  The expanded image is the one that was queued if and only if its blocks can be counted in 32 bits,
  the ranges fit and the sum over what the buffer holds is the one over zeros.
-/
theorem sparse_image_expands_iff (heap : Nat → UInt8) (infoLen : Nat)
    (ranges : List DataBlock) (hValid : Valid infoLen ranges) :
    (∃ file image, makeSparse infoLen ranges = .ok file ∧ simg2img heap file = .ok image ∧
      Expanded infoLen ranges image) ↔
      infoLen < 2 ^ 44 ∧ (∀ d ∈ ranges, Fits infoLen d) ∧ SumsAgree heap infoLen ranges := by
  rw [makeSparse_eq hValid]
  constructor
  · rintro ⟨file, image, hFile, hRun, hExpanded⟩
    split at hFile
    · rename_i hFits
      cases hFile
      have hSmall : infoLen < 2 ^ 44 := by
        have hLength := length_simg2img hRun
        rw [hExpanded.length] at hLength
        simp only [blockSize] at hLength
        omega
      rw [simg2img_eq hValid hSmall hFits] at hRun
      split at hRun
      · exact ⟨hSmall, hFits, ‹_›⟩
      · cases hRun
    · cases hFile
  · rintro ⟨hSmall, hFits, hAgree⟩
    refine ⟨_, _, if_pos hFits, ?_, hValid.expanded⟩
    rw [simg2img_eq hValid hSmall hFits, if_pos hAgree]

/- An image of one block, from memory or from a file. -/
def wholeBlock (file : Option Nat) : DataBlock :=
  { block := 0
    bytes := replicate 4096 1
    file := file
    blockFits := by decide
    lenFits := by
      rw [length_replicate]
      decide }

variable (file : Option Nat)

theorem length_wholeBlock : (wholeBlock file).bytes.length = 4096 :=
  length_replicate

theorem off_wholeBlock : (wholeBlock file).off = 0 :=
  zero_mul _

theorem stop_wholeBlock : (wholeBlock file).stop = 4096 := by
  rw [DataBlock.stop, off_wholeBlock, length_wholeBlock]

theorem valid_wholeBlock {infoLen : Nat} (hAligned : infoLen % blockSize = 0)
    (hInside : 4096 ≤ infoLen) : Valid infoLen [wholeBlock file] :=
  { aligned := hAligned
    some := by simp [length_wholeBlock]
    inside := by simpa [stop_wholeBlock] using hInside
    apart := pairwise_singleton _ _ }

/- In front of a gap it is expanded if the buffer holds zeros. -/
theorem sparse_image_with_gap :
    ∃ file image, makeSparse 8192 [wholeBlock (some 0)] = .ok file ∧
      simg2img (fun _ => 0) file = .ok image ∧ Expanded 8192 [wholeBlock (some 0)] image := by
  refine (sparse_image_expands_iff (fun _ => 0) 8192 [wholeBlock (some 0)]
    (valid_wholeBlock _ rfl (by decide))).mpr ⟨by decide, ?_, ?_⟩
  · intro d hD
    rw [mem_singleton.mp hD, Fits, stop_wholeBlock, length_wholeBlock]
    decide
  · have hBuf : mallocBuf (fun _ => 0) blockSize = zeroBuf := by
      rw [mallocBuf, map_const', length_range, zeroBuf]
    rw [SumsAgree, hBuf]

/- At the end of the image the writer refuses one from a file. -/
theorem file_block_at_end_refused :
    Valid 4096 [wholeBlock (some 0)] ∧ makeSparse 4096 [wholeBlock (some 0)] = .error .aborted := by
  have hValid : Valid 4096 [wholeBlock (some 0)] := valid_wholeBlock _ rfl le_rfl
  refine ⟨hValid, ?_⟩
  rw [makeSparse_eq hValid]
  apply if_neg
  intro hFits
  have hEnd := ((hFits _ (mem_singleton_self _)).2 0 rfl).1
  rw [stop_wholeBlock] at hEnd
  exact lt_irrefl _ hEnd

end OpenIvi.Ext4.Sparse
