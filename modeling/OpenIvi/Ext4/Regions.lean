import Mathlib.Logic.Function.Basic
import OpenIvi.Lib.Buffer

/-
  The block groups and the allocations of make_ext4fs, and the extents of a file.

  A group hands out its blocks from the front: the blocks up to `firstFreeBlock` are in use, and
  `freeBlocks` blocks from there on are free. The last group may be cut off by the end of the
  filesystem; the blocks that it lacks are marked as used from the start.

  Without `force` a call of `error` ends the program.

  The bitmap of a group agrees with its counters: the blocks before `firstFreeBlock` are marked and
  the free blocks are not. So reserving free blocks succeeds, and it marks just these; giving back
  the last blocks clears them again.

  An allocation is a linked list of regions. Its first, last and next region are kept apart from the
  links; the list that `allocate_blocks` makes has its first region as the last one.
  `do_inode_allocate_extents` allocates one block more than the file has. It gives the block back,
  or it takes the block for the extents.

  Main declarations:
    * `GroupOk`
    * `initGroups_ok`
    * `doAllocate`
    * `reduceAllocation`
-/

------
-- Filesystems
------

namespace OpenIvi.Ext4

open Lib List Function

/-
  What the allocator uses of `info` and `aux_info`. A block holds the bitmap of a group, and block
  numbers do not wrap.
-/
structure Geometry where
  blockSize : Nat
  blocksPerGroup : Nat
  groups : Nat
  firstDataBlock : Nat
  lenBlocks : Nat
  inodeTableBlocks : Nat
  bgDescBlocks : Nat
  bgDescReserveBlocks : Nat
  /- `ext4_bg_has_super_block`. -/
  hasSuperBlock : Nat → Bool
  blockSize_min : 1024 ≤ blockSize
  blockSize_max : blockSize < 2 ^ 31
  bitmap_fits : blocksPerGroup ≤ 8 * blockSize
  addressable : firstDataBlock + groups * blocksPerGroup < 2 ^ 32

/- `struct block_group_info`. -/
structure BlockGroup where
  firstBlock : Nat
  headerBlocks : Nat
  dataBlocksUsed : Nat
  blockBitmap : Buffer
  freeBlocks : Nat
  firstFreeBlock : Nat

------
-- Bitmaps
------

/- `bitmap_set_bit`. It says whether the bit was set. -/
def bitmapSetBit (bitmap : Buffer) (bit : Nat) : Except Fault (Bool × Buffer) := do
  let byte ← bitmap.load (bit / 8)
  if byte &&& Bitmap.mask bit ≠ 0 then return (true, bitmap)
  else
    return (false, bitmap.set (bit / 8) (byte ||| Bitmap.mask bit))

/- `bitmap_set_8_bits`. It says whether one was set. -/
def bitmapSet8Bits (bitmap : Buffer) (bit : Nat) : Except Fault (Bool × Buffer) := do
  let byte ← bitmap.load (bit / 8)
  return (byte ≠ 0, bitmap.set (bit / 8) 255)

/- The variables of the loops in `reserve_blocks`. -/
structure Cursor where
  i : Nat
  block : Nat
  bitmap : Buffer

/-
  A pass of one of these loops, which marks some blocks. A block that is reserved already is an
  error.
-/
def reserveBody (more : Nat → Nat → Bool) (width : Nat)
    (mark : Buffer → Nat → Except Fault (Bool × Buffer))
    (c : Cursor) : Except Fault (Ctl Cursor Cursor) :=
  if more c.i c.block then do
    let (taken, bitmap) ← mark c.bitmap c.block
    if taken then .error .aborted
    else
      return .again ⟨c.i + width, c.block + width, bitmap⟩
  else .ok (.done c)

/- The blocks up to the next byte of the bitmap. -/
def reserveFirst (num : Nat) : Cursor → Except Fault (Ctl Cursor Cursor) :=
  reserveBody (fun i block => i < num && block % 8 != 0) 1 bitmapSetBit

/- Whole bytes of the bitmap. -/
def reserveBytes (num : Nat) : Cursor → Except Fault (Ctl Cursor Cursor) :=
  reserveBody (fun i _ => i + 8 ≤ num - num % 8) 8 bitmapSet8Bits

/- The blocks that are left. -/
def reserveLast (num : Nat) : Cursor → Except Fault (Ctl Cursor Cursor) :=
  reserveBody (fun i _ => i < num) 1 bitmapSetBit

/- `reserve_blocks`. There is no result for -1. -/
def reserveBlocks (bg : BlockGroup) (start num : Nat) : Except Fault (Option BlockGroup) :=
  if num > bg.freeBlocks then .ok none
  else do
    let c ← loop (reserveFirst num) (num + 1) ⟨0, start, bg.blockBitmap⟩
    let c ← loop (reserveBytes num) (num + 1) c
    let c ← loop (reserveLast num) (num + 1) c
    return some
      { bg with
        blockBitmap := c.bitmap
        freeBlocks := bg.freeBlocks - num
        firstFreeBlock := if start = bg.firstFreeBlock then start + num
          else bg.firstFreeBlock }

/- The loop of `free_blocks`, from the block on down. -/
def clearBits : Nat → Nat → Buffer → Except Fault Buffer
| 0, _, bitmap => .ok bitmap
| n + 1, block, bitmap => do
    let byte ← bitmap.load (block / 8)
    clearBits n ((block + (2 ^ 32 - 1)) % 2 ^ 32) (bitmap.set (block / 8)
        (byte &&& ~~~Bitmap.mask block))

def freeBlocks (bg : BlockGroup) (numBlocks : Nat) : Except Fault BlockGroup := do
  let block := (bg.firstFreeBlock + (2 ^ 32 - 1)) % 2 ^ 32
  let bitmap ← clearBits numBlocks block bg.blockBitmap
  return { bg with
    blockBitmap := bitmap
    freeBlocks := bg.freeBlocks + numBlocks
    firstFreeBlock := bg.firstFreeBlock - numBlocks }

------
-- Groups
------

section

variable (geo : Geometry)

/- `overrun` in `init_bg`. It wraps for every group that ends before the filesystem does. -/
def overrun (bg : BlockGroup) : Nat :=
  (((bg.firstBlock + geo.blocksPerGroup : Int) - geo.lenBlocks) % 2 ^ 32).toNat

/- The blocks behind the end of the filesystem. -/
def reserveOverrun (bg : BlockGroup) : Except Fault BlockGroup :=
  if overrun geo bg > 0 then do
    let reserved ← reserveBlocks bg (geo.blocksPerGroup - overrun geo bg) (overrun geo bg)
    return reserved.getD bg
  else .ok bg

/- `header_blocks` in `init_bg`. -/
def headerBlocks (i : Nat) : Nat :=
  2 + geo.inodeTableBlocks + if geo.hasSuperBlock i then
      1 + geo.bgDescBlocks + geo.bgDescReserveBlocks
    else 0

/- The group with all its blocks free. -/
def emptyGroup (i : Nat) : BlockGroup :=
  { firstBlock := geo.firstDataBlock + i * geo.blocksPerGroup
    headerBlocks := headerBlocks geo i
    dataBlocksUsed := 0
    blockBitmap := List.replicate geo.blockSize 0
    freeBlocks := geo.blocksPerGroup
    firstFreeBlock := 0 }

def initBg (i : Nat) : Except Fault BlockGroup := do
  let bg := emptyGroup geo i
  match ← reserveBlocks bg bg.firstFreeBlock bg.headerBlocks with
  | none => .error .aborted
  | some bg => reserveOverrun geo bg

structure Region where
  block : Nat
  len : Nat
  bg : Nat
  next : Option Nat
  prev : Option Nat

/- The groups, and the regions that were allocated. -/
structure Fs where
  bgs : Nat → BlockGroup
  heap : Nat → Option Region
  /- The next address that `malloc` gives. -/
  brk : Nat

/- The group before it is set up. -/
def noGroup : BlockGroup := ⟨0, 0, 0, [], 0, 0⟩

/- The first groups are set up in turn. -/
def initGroups (geo : Geometry) : Nat → Except Fault (Nat → BlockGroup)
| 0 => .ok fun _ => noGroup
| i + 1 => do
    let bgs ← initGroups geo i
    let bg ← initBg geo i
    return Function.update bgs i bg

def blockAllocatorInit : Except Fault Fs := do
  let bgs ← initGroups geo geo.groups
  return ⟨bgs, fun _ => none, 0⟩

end

variable (fs : Fs)

def ext4AllocateBlocksFromBlockGroup (len bgNum : Nat) : Except Fault (Option (Fs × Nat)) :=
  let bg := fs.bgs bgNum
  if bg.freeBlocks < len then .ok none
  else do
    match ← reserveBlocks bg bg.firstFreeBlock len with
    | none => .error .aborted
    | some reserved =>
      let used := (reserved.dataBlocksUsed + len) % 2 ^ 32
      let fs :=
        { fs with bgs := Function.update fs.bgs bgNum { reserved with dataBlocksUsed := used } }
      return some (fs, bg.firstBlock + bg.firstFreeBlock)

------
-- Reserving
------

variable {bit : Nat}

/- The blocks are not in use. -/
def Clear (bitmap : Buffer) (start num : Nat) : Prop :=
  ∀ k, start ≤ k → k < start + num → Bitmap.test bitmap k = false

/- The blocks so far are marked. -/
structure Reserved (bitmap : Buffer) (start num : Nat) (c : Cursor) : Prop where
  block : c.block = start + c.i
  bound : c.i ≤ num
  marks : Bitmap.Marks bitmap c.bitmap start c.block

variable {bitmap : Buffer}

theorem exists_byte (hFits : bit < 8 * bitmap.length) : ∃ byte, bitmap[bit / 8]? = some byte :=
  ⟨_, getElem?_eq_getElem (by omega)⟩

/- Marking one free block. -/
theorem bitmapSetBit_spec (hFits : bit + 1 ≤ 8 * bitmap.length) (hClear : Clear bitmap bit 1) :
    ∃ bitmap', bitmapSetBit bitmap bit = .ok (false, bitmap') ∧
      Bitmap.Marks bitmap bitmap' bit (bit + 1) := by
  rcases exists_byte hFits with ⟨byte, hByte⟩
  have hBit := hClear bit le_rfl (by omega)
  rw [Bitmap.test_eq_of_byte hByte] at hBit
  have hZero : ¬ byte &&& Bitmap.mask bit ≠ 0 := by
    rw [Bitmap.and_mask_ne_zero_iff, hBit]
    simp
  refine ⟨_, ?_, Bitmap.marks_or_mask hByte⟩
  unfold bitmapSetBit
  rw [Buffer.load_eq hByte, ok_bind, if_neg hZero]
  rfl

theorem bitmapSet8Bits_spec (hFits : bit + 8 ≤ 8 * bitmap.length)
    (hClear : Clear bitmap bit 8) (hAligned : bit % 8 = 0) :
    ∃ bitmap', bitmapSet8Bits bitmap bit = .ok (false, bitmap') ∧
      Bitmap.Marks bitmap bitmap' bit (bit + 8) := by
  have hLess : bit < 8 * bitmap.length := by omega
  rcases exists_byte hLess with ⟨byte, hByte⟩
  have hZero := Bitmap.byte_eq_zero hByte hAligned hClear
  refine ⟨_, ?_, Bitmap.marks_full_byte hByte hAligned⟩
  unfold bitmapSet8Bits
  rw [Buffer.load_eq hByte, ok_bind, hZero]
  rfl

/-
  A loop that marks blocks as long as there are any goes on to its end. Where it goes on, `Fine`
  holds of the block.
-/
theorem loop_reserveBody {start num : Nat} (hFits : start + num ≤ 8 * bitmap.length)
    (hClear : Clear bitmap start num) (more : Nat → Nat → Bool)
    (Fine : Nat → Prop) {width : Nat} (hWidth : 0 < width)
    (hMore : ∀ i block, more i block = true → i + width ≤ num)
    {mark : Buffer → Nat → Except Fault (Bool × Buffer)}
    (hFine : ∀ block, Fine block → Fine (block + width))
    (hMark : ∀ {bm : Buffer} {block : Nat}, block + width ≤ 8 * bm.length →
      Clear bm block width → Fine block → ∃ bm', mark bm block = .ok (false, bm') ∧
        Bitmap.Marks bm bm' block (block + width)) {c : Cursor}
    (hStart : Reserved bitmap start num c) (hStartFine : more c.i c.block = true → Fine c.block) :
    ∃ c', loop (reserveBody more width mark) (num + 1) c = .ok c' ∧ Reserved bitmap start num c' ∧
      more c'.i c'.block = false := by
  apply loop_total (fun c =>
      Reserved bitmap start num c ∧ (more c.i c.block = true → Fine c.block))
    (fun c => num - c.i)
    (fun c => Reserved bitmap start num c ∧ more c.i c.block = false)
  · rintro c ⟨⟨hBlock, hBound, hMarks⟩, hFineC⟩
    unfold reserveBody
    cases hGo : more c.i c.block with
    | false =>
      left
      exact ⟨c, rfl, ⟨hBlock, hBound, hMarks⟩, hGo⟩
    | true =>
      right
      have hNext := hMore _ _ hGo
      have hLength := hMarks.length
      have hRest : Clear c.bitmap c.block width := by
        intro k hFrom hTo
        rw [hMarks.test_eq, hClear k (by omega) (by omega),
          decide_eq_false (by omega : ¬ k < c.block)]
        simp
      rcases hMark (by omega) hRest (hFineC hGo) with ⟨bm', hRun, hMarked⟩
      refine ⟨⟨c.i + width, c.block + width, bm'⟩, ?_, ⟨⟨?_, hNext, ?_⟩, ?_⟩, ?_⟩
      · simp only [if_true, hRun, ok_bind]
        rfl
      · change c.block + width = start + (c.i + width)
        omega
      · exact hMarks.trans hMarked (by omega) (Nat.le_add_right ..)
      · intro _
        exact hFine _ (hFineC hGo)
      · change num - (c.i + width) < num - c.i
        omega
  · exact ⟨hStart, hStartFine⟩
  · omega

/- Free blocks are reserved, and no others. -/
theorem reserveBlocks_spec {bg : BlockGroup} {start num : Nat} (hFree : num ≤ bg.freeBlocks)
    (hFits : start + num ≤ 8 * bg.blockBitmap.length) (hClear : Clear bg.blockBitmap start num) :
    ∃ bitmap, reserveBlocks bg start num = .ok (some
      { bg with
        blockBitmap := bitmap
        freeBlocks := bg.freeBlocks - num
        firstFreeBlock := if start = bg.firstFreeBlock then start + num
          else bg.firstFreeBlock }) ∧
      Bitmap.Marks bg.blockBitmap bitmap start (start + num) := by
  have hStart : Reserved bg.blockBitmap start num ⟨0, start, bg.blockBitmap⟩ :=
    ⟨rfl, Nat.zero_le _, Bitmap.Marks.refl _ _⟩
  rcases loop_reserveBody hFits hClear (fun i block => i < num && block % 8 != 0)
    (fun _ => True) Nat.one_pos
    (by
      intro i block hGo
      simp only [Bool.and_eq_true, decide_eq_true_eq] at hGo
      omega)
    (fun _ _ => trivial)
    (fun hBytes hBits _ => bitmapSetBit_spec hBytes hBits)
    hStart (fun _ => trivial) with ⟨c₁, hRun₁, hReserved₁, hStop₁⟩
  rcases loop_reserveBody hFits hClear (fun i _ => i + 8 ≤ num - num % 8)
    (fun block => block % 8 = 0) (by decide : 0 < 8)
    (by
      intro i block hGo
      simp only [decide_eq_true_eq] at hGo
      omega)
    (by
      omega)
    bitmapSet8Bits_spec hReserved₁
    (by
      intro hGo
      simp only [decide_eq_true_eq] at hGo
      simp only [Bool.and_eq_false_iff, decide_eq_false_iff_not, bne_eq_false_iff_eq] at hStop₁
      omega) with ⟨c₂, hRun₂, hReserved₂, _⟩
  rcases loop_reserveBody hFits hClear (fun i _ => decide (i < num)) (fun _ => True) one_pos (by
      intro i block hGo
      simp only [decide_eq_true_eq] at hGo
      omega)
    (fun _ _ => trivial)
    (fun hBytes hBits _ => bitmapSetBit_spec hBytes hBits)
    hReserved₂ (fun _ => trivial) with ⟨c₃, hRun₃, ⟨hBlock₃, hBound₃, hMarks₃⟩, hStop₃⟩
  have hAll : c₃.block = start + num := by
    simp only [decide_eq_false_iff_not] at hStop₃
    omega
  rw [hAll] at hMarks₃
  refine ⟨c₃.bitmap, ?_, hMarks₃⟩
  unfold reserveBlocks
  rw [if_neg (by omega : ¬ num > bg.freeBlocks)]
  unfold reserveFirst reserveBytes reserveLast
  rw [hRun₁, ok_bind, hRun₂, ok_bind, hRun₃, ok_bind]
  rfl

------
-- Groups
------

/- The bitmap of the group agrees with its counters. -/
structure GroupOk (geo : Geometry) (i : Nat) (bg : BlockGroup) : Prop where
  first : bg.firstBlock = geo.firstDataBlock + i * geo.blocksPerGroup
  length : bg.blockBitmap.length = geo.blockSize
  header : 0 < bg.firstFreeBlock
  limit : bg.firstFreeBlock + bg.freeBlocks ≤ geo.blocksPerGroup
  used : ∀ k, k < bg.firstFreeBlock → Bitmap.test bg.blockBitmap k = true
  free : Clear bg.blockBitmap bg.firstFreeBlock bg.freeBlocks

variable {geo : Geometry} {i : Nat} {bg : BlockGroup}

theorem GroupOk.fits (hOk : GroupOk geo i bg) {k : Nat}
    (hK : k ≤ geo.blocksPerGroup) : k ≤ 8 * bg.blockBitmap.length := by
  rw [hOk.length]
  exact le_trans hK geo.bitmap_fits

/- The next blocks of the group are taken. -/
theorem GroupOk.reserve (hOk : GroupOk geo i bg) {len : Nat} (hLen : len ≤ bg.freeBlocks) :
    ∃ bitmap, reserveBlocks bg bg.firstFreeBlock len = .ok (some
      { bg with
        blockBitmap := bitmap
        freeBlocks := bg.freeBlocks - len
        firstFreeBlock := bg.firstFreeBlock + len }) ∧
      ∀ used, GroupOk geo i
        { bg with
          dataBlocksUsed := used
          blockBitmap := bitmap
          freeBlocks := bg.freeBlocks - len
          firstFreeBlock := bg.firstFreeBlock + len } := by
  have hLimit := hOk.limit
  have hClear : Clear bg.blockBitmap bg.firstFreeBlock len := by
    intro k hFrom hTo
    exact hOk.free k hFrom (by omega)
  rcases reserveBlocks_spec hLen (hOk.fits (by omega)) hClear with ⟨bitmap, hRun, hMarks⟩
  rw [if_pos rfl] at hRun
  refine ⟨bitmap, hRun, ?_⟩
  intro used
  refine
    { first := hOk.first
      length := hMarks.length.trans hOk.length
      header := Nat.lt_of_lt_of_le hOk.header (Nat.le_add_right ..)
      limit := ?_
      used := ?_
      free := ?_ }
  · change bg.firstFreeBlock + len + (bg.freeBlocks - len) ≤ _
    omega
  · intro k hK
    rw [hMarks.test_eq]
    by_cases hOld : k < bg.firstFreeBlock
    · rw [hOk.used k hOld, Bool.true_or]
    · simp [hK, Nat.le_of_not_lt hOld]
  · intro k hFrom hTo
    change bg.firstFreeBlock + len ≤ k at hFrom
    change k < bg.firstFreeBlock + len + (bg.freeBlocks - len) at hTo
    rw [hMarks.test_eq, hOk.free k (by omega) (by omega)]
    simp [Nat.not_lt_of_le hFrom]

/- The last block of the group is given back. -/
theorem GroupOk.freeBlocks_one (hOk : GroupOk geo i bg)
    (hI : i < geo.groups) (hMore : 1 < bg.firstFreeBlock) :
    ∃ bg', freeBlocks bg 1 = .ok bg' ∧ GroupOk geo i bg' ∧
      bg'.firstFreeBlock = bg.firstFreeBlock - 1 := by
  have hLimit := hOk.limit
  have hAll := geo.addressable
  have hOne : geo.blocksPerGroup ≤ geo.groups * geo.blocksPerGroup :=
    Nat.le_mul_of_pos_left _ (by omega)
  have hLast : (bg.firstFreeBlock + (2 ^ 32 - 1)) % 2 ^ 32 = bg.firstFreeBlock - 1 := by omega
  have hFits := hOk.fits (by omega : bg.firstFreeBlock ≤ geo.blocksPerGroup)
  have hIn : bg.firstFreeBlock - 1 < 8 * bg.blockBitmap.length := by omega
  rcases exists_byte hIn with ⟨byte, hByte⟩
  have hTest := Bitmap.test_and_not_mask hByte
  refine ⟨{ bg with
    blockBitmap := bg.blockBitmap.set ((bg.firstFreeBlock - 1) / 8)
      (byte &&& ~~~Bitmap.mask (bg.firstFreeBlock - 1))
    freeBlocks := bg.freeBlocks + 1
    firstFreeBlock := bg.firstFreeBlock - 1 }, ?_, ?_, rfl⟩
  · unfold freeBlocks
    simp only [clearBits, hLast, Buffer.load_eq hByte, ok_bind]
    rfl
  · refine
      { first := hOk.first
        length := (length_set ..).trans hOk.length
        header := Nat.sub_pos_of_lt hMore
        limit := ?_
        used := ?_
        free := ?_ }
    · change bg.firstFreeBlock - 1 + (bg.freeBlocks + 1) ≤ _
      omega
    · intro k hK
      change k < bg.firstFreeBlock - 1 at hK
      refine (hTest k).trans ?_
      rw [hOk.used k (by omega), decide_eq_false (by omega : ¬ k = bg.firstFreeBlock - 1)]
      rfl
    · intro k hFrom hTo
      change bg.firstFreeBlock - 1 ≤ k at hFrom
      change k < bg.firstFreeBlock - 1 + (bg.freeBlocks + 1) at hTo
      refine (hTest k).trans ?_
      by_cases hSame : k = bg.firstFreeBlock - 1
      · rw [decide_eq_true hSame, Bool.not_true, Bool.and_false]
      · rw [hOk.free k (by omega) (by omega), Bool.false_and]

theorem test_replicate_zero (n k : Nat) : Bitmap.test (replicate n 0) k = false := by
  have hZero : (replicate n (0 : UInt8)).getD (k / 8) 0 = 0 := by
    by_cases hIn : k / 8 < n
    · simp [hIn]
    · simp [hIn]
  rw [Bitmap.test, hZero]
  simp

/- The blocks that the group lacks are behind the free ones. -/
theorem GroupOk.reserveOverrun (hOk : GroupOk geo i bg)
    (hFull : bg.firstFreeBlock + bg.freeBlocks = geo.blocksPerGroup) :
    Ensures (Ext4.reserveOverrun geo bg) (GroupOk geo i) := by
  apply Ensures.ite
  · intro _
    generalize overrun geo bg = lacks
    by_cases hBig : lacks > bg.freeBlocks
    · have hRun : reserveBlocks bg (geo.blocksPerGroup - lacks) lacks = .ok none := if_pos hBig
      rw [hRun]
      exact .ok hOk
    · have hClear : Clear bg.blockBitmap (geo.blocksPerGroup - lacks) lacks := by
        intro k hFrom hTo
        exact hOk.free k (by omega) (by omega)
      rcases reserveBlocks_spec (Nat.le_of_not_lt hBig) (hOk.fits (by omega)) hClear with
        ⟨bitmap, hRun, hMarks⟩
      rw [hRun]
      apply Ensures.ok
      by_cases hNone : geo.blocksPerGroup - lacks = bg.firstFreeBlock
      · -- no block of the group is free
        simp only [if_pos hNone, Option.getD_some]
        refine
          { first := hOk.first
            length := hMarks.length.trans hOk.length
            header := by
              change 0 < geo.blocksPerGroup - lacks + lacks
              have := hOk.header
              omega
            limit := by
              change geo.blocksPerGroup - lacks + lacks + (bg.freeBlocks - lacks) ≤ _
              omega
            used := ?_
            free := ?_ }
        · intro k hK
          change k < geo.blocksPerGroup - lacks + lacks at hK
          rw [hMarks.test_eq]
          by_cases hOld : k < bg.firstFreeBlock
          · rw [hOk.used k hOld, Bool.true_or]
          · simp only [← Bool.decide_and]
            rw [decide_eq_true (by omega), Bool.or_true]
        · intro k hFrom hTo
          change geo.blocksPerGroup - lacks + lacks ≤ k at hFrom
          change k < geo.blocksPerGroup - lacks + lacks + (bg.freeBlocks - lacks) at hTo
          omega
      · simp only [if_neg hNone, Option.getD_some]
        refine
          { first := hOk.first
            length := hMarks.length.trans hOk.length
            header := hOk.header
            limit := by
              change bg.firstFreeBlock + (bg.freeBlocks - lacks) ≤ _
              omega
            used := ?_
            free := ?_ }
        · intro k hK
          rw [hMarks.test_eq, hOk.used k hK, Bool.true_or]
        · intro k hFrom hTo
          change k < bg.firstFreeBlock + (bg.freeBlocks - lacks) at hTo
          rw [hMarks.test_eq, hOk.free k hFrom (by omega), decide_eq_false
              (by omega : ¬ geo.blocksPerGroup - lacks ≤ k)]
          rfl
  · intro _
    exact .ok hOk

/- A group that is set up is in order. -/
theorem initBg_ok (geo : Geometry) (i : Nat) : Ensures (initBg geo i) (GroupOk geo i) := by
  unfold initBg
  by_cases hBig : headerBlocks geo i > geo.blocksPerGroup
  · have hRun : reserveBlocks (emptyGroup geo i) (emptyGroup geo i).firstFreeBlock
        (emptyGroup geo i).headerBlocks = .ok none :=
      if_pos hBig
    simp only [hRun, ok_bind]
    exact .error
  · have hFits : (emptyGroup geo i).firstFreeBlock + headerBlocks geo i ≤
        8 * (emptyGroup geo i).blockBitmap.length := by
      have hBitmap := geo.bitmap_fits
      simp only [emptyGroup, length_replicate]
      omega
    have hFree : headerBlocks geo i ≤ (emptyGroup geo i).freeBlocks := Nat.le_of_not_lt hBig
    rcases reserveBlocks_spec hFree hFits (fun k _ _ => test_replicate_zero _ k) with
      ⟨bitmap, hRun, hMarks⟩
    rw [if_pos rfl] at hRun
    simp only [emptyGroup, Nat.zero_add] at hRun hMarks ⊢
    simp only [hRun, ok_bind]
    apply GroupOk.reserveOverrun
    · refine
        { first := rfl
          length := hMarks.length.trans (length_replicate ..)
          header := by
            change 0 < headerBlocks geo i
            unfold headerBlocks
            omega
          limit := by
            change headerBlocks geo i + (geo.blocksPerGroup - headerBlocks geo i) ≤ _
            omega
          used := ?_
          free := ?_ }
      · intro k hK
        rw [hMarks.test_eq]
        simp [hK]
      · intro k hFrom _
        rw [hMarks.test_eq, test_replicate_zero]
        simp [hFrom]
    · change headerBlocks geo i + (geo.blocksPerGroup - headerBlocks geo i) = _
      omega

theorem initGroups_ok (geo : Geometry) (n : Nat) :
    Ensures (initGroups geo n) (fun bgs => ∀ i, i < n → GroupOk geo i (bgs i)) := by
  induction n with
  | zero => exact .ok (by omega)
  | succ n ih =>
    refine .bind ih ?_
    intro bgs hBgs
    refine .bind (initBg_ok geo n) ?_
    intro bg hBg
    apply Ensures.ok
    intro i hI
    by_cases hLast : i = n
    · rw [hLast, update_self]
      exact hBg
    · rw [update_of_ne hLast]
      exact hBgs i (by omega)

------
-- Regions
------

namespace Fs

/- The region that a pointer points to. -/
def get : Option Nat → Except Fault Region
| none => .error .nullPointer
| some p =>
  match fs.heap p with
  | some r => .ok r
  | none => .error .outOfBounds

def set (p : Nat) (r : Region) : Fs :=
  { fs with heap := Function.update fs.heap p (some r) }

/- `malloc` for a region. -/
def alloc (r : Region) : Fs × Nat :=
  ({ fs.set fs.brk r with brk := fs.brk + 1 }, fs.brk)

/- `free` of a region. -/
def free (p : Nat) : Fs :=
  { fs with heap := Function.update fs.heap p none }

end Fs

def ext4AllocateContiguousBlocks (fs : Fs) (len : Nat) : List Nat → Except Fault (Fs × Option Nat)
| [] => .ok (fs, none)
| i :: groups => do
    match ← ext4AllocateBlocksFromBlockGroup fs len i with
    | some (fs, block) =>
      let (fs, reg) := fs.alloc ⟨block, len, i, none, none⟩
      return (fs, some reg)
    | none => ext4AllocateContiguousBlocks fs len groups

def allocateBlock (fs : Fs) : List Nat → Except Fault (Fs × Option Nat)
| [] => .ok (fs, none)
| i :: groups => do
    match ← ext4AllocateBlocksFromBlockGroup fs 1 i with
    | some (fs, block) => return (fs, some block)
    | none => allocateBlock fs groups

section

variable (geo : Geometry)

def ext4AllocatePartial (fs : Fs) (len : Nat) : Except Fault (Fs × Option Nat) :=
  let unused := (List.range geo.groups).find? fun i => (fs.bgs i).dataBlocksUsed == 0
  match unused with
  | none => .ok (fs, none)
  | some i =>
    let bgLen := (fs.bgs i).freeBlocks
    if len ≤ bgLen then
      ext4AllocateContiguousBlocks fs len (List.range geo.groups)
    else do
      match ← ext4AllocateBlocksFromBlockGroup fs bgLen i with
      | none => .error .aborted
      | some (fs, block) =>
        let (fs, reg) := fs.alloc ⟨block, bgLen, i, none, none⟩
        return (fs, some reg)

/- The region is put behind the one before it. -/
def linkRegion (prevReg : Option Nat) (reg : Nat) : Except Fault Fs :=
  match prevReg with
  | none => .ok fs
  | some q => do
      let before ← fs.get (some q)
      let fs := fs.set q { before with next := some reg }
      let r ← fs.get (some reg)
      return fs.set reg { r with prev := some q }

/- The variables of the loop. -/
structure Gather where
  fs : Fs
  firstReg : Option Nat
  prevReg : Option Nat
  len : Nat

def gatherBody (g : Gather) : Except Fault (Ctl Gather (Fs × Option Nat)) :=
  if g.len > 0 then do
    match ← ext4AllocatePartial geo g.fs g.len with
    | (fs, none) => return .done (fs, none)
    | (fs, some reg) =>
      let fs ← linkRegion fs g.prevReg reg
      let r ← fs.get (some reg)
      return .again ⟨fs, some (g.firstReg.getD reg), some reg, g.len - r.len⟩
  else .ok (.done (g.fs, g.firstReg))

/-
  `ext4_allocate_multiple_contiguous_blocks`. A region of no blocks is found again and again; then
  the loop does not end.
-/
def ext4AllocateMultipleContiguousBlocks (fs : Fs) (len : Nat) : Except Fault (Fs × Option Nat) :=
  loop (gatherBody geo) (len + 1) ⟨fs, none, none, len⟩

def doAllocate (fs : Fs) (len : Nat) : Except Fault (Fs × Option Nat) := do
  match ← ext4AllocateContiguousBlocks fs len (List.range geo.groups) with
  | (fs, some reg) => return (fs, some reg)
  | (fs, none) => ext4AllocateMultipleContiguousBlocks geo fs len

------
-- Allocations
------

structure RegionList where
  first : Option Nat
  last : Option Nat
  iter : Option Nat
  partialIter : Nat

structure BlockAllocation where
  list : RegionList
  oobList : RegionList

def emptyList : RegionList := ⟨none, none, none, 0⟩

def allocateBlocks (fs : Fs) (len : Nat) : Except Fault (Fs × Option BlockAllocation) := do
  match ← doAllocate geo fs len with
  | (fs, none) => return (fs, none)
  | (fs, some reg) => return (fs, some ⟨⟨some reg, some reg, some reg, 0⟩, emptyList⟩)

end

/- The regions from a pointer on. -/
def regionsFrom (fs : Fs) : Nat → Option Nat → Except Fault (List Region)
| _, none => .ok []
| 0, some _ => .error .outOfFuel
| fuel + 1, some p => do
    let r ← fs.get (some p)
    let rest ← regionsFrom fs fuel r.next
    return r :: rest

variable (alloc : BlockAllocation)

def blockAllocationNumRegions : Except Fault Nat := do
  let regions ← regionsFrom fs fs.brk alloc.list.first
  return regions.length

/- `free_blocks` in the group of the region. -/
def freeRegionBlocks (r : Region) (numBlocks : Nat) : Except Fault Fs := do
  let bg ← freeBlocks (fs.bgs r.bg) numBlocks
  return { fs with bgs := Function.update fs.bgs r.bg bg }

/- The last region is unlinked. -/
def dropLast (reg : Option Nat) : Except Fault (Fs × BlockAllocation) :=
  match reg with
  | some q => do
      let r ← fs.get (some q)
      return (fs.set q { r with next := none }, alloc)
  | none => .ok (fs, { alloc with list := emptyList })

/- The variables of the loop. -/
structure Reduction where
  fs : Fs
  alloc : BlockAllocation
  len : Nat

def reduceBody (s : Reduction) : Except Fault (Ctl Reduction (Fs × BlockAllocation)) :=
  if s.len = 0 then .ok (.done (s.fs, s.alloc))
  else do
    let lastReg ← s.fs.get s.alloc.list.last
    let p := s.alloc.list.last.getD 0
    if lastReg.len > s.len then
      let fs ← freeRegionBlocks s.fs lastReg s.len
      let fs := fs.set p { lastReg with len := lastReg.len - s.len }
      return .again ⟨fs, s.alloc, 0⟩
    else
      let fs ← freeRegionBlocks s.fs lastReg lastReg.len
      let (fs, alloc) ← dropLast fs s.alloc lastReg.prev
      return .again ⟨fs.free p, alloc, s.len - lastReg.len⟩

def reduceAllocation (len : Nat) : Except Fault (Fs × BlockAllocation) :=
  loop reduceBody (len + 2) ⟨fs, alloc, len⟩

------
-- Splitting
------

/- The loop at the start of `do_split_allocation`. -/
def skipRegions (fs : Fs) : Nat → Option Nat → Nat → Except Fault (Option Nat × Nat)
| _, none, len => .ok (none, len)
| 0, some _, _ => .error .outOfFuel
| fuel + 1, some p, len => do
    let r ← fs.get (some p)
    if len ≥ r.len then skipRegions fs fuel r.next (len - r.len)
    else return (some p, len)

def doSplitAllocation (len : Nat) : Except Fault (Fs × BlockAllocation × Option Nat) := do
  match ← skipRegions fs (fs.brk + 1) alloc.list.iter len with
  | (none, _) => return (fs, alloc, none)
  | (some p, len) =>
    if len > 0 then
      let r ← fs.get (some p)
      let (fs, new) := fs.alloc ⟨r.block + len, r.len - len, r.bg, r.next, some p⟩
      let fs := fs.set p { r with next := some new, len := len }
      return (fs, { alloc with list := { alloc.list with iter := some new } }, alloc.list.iter)
    else return (fs, alloc, some p)

def splitAllocation (len : Nat) : Except Fault (Fs × BlockAllocation × Option Nat) := do
  let (fs, alloc, _) ← doSplitAllocation fs alloc alloc.list.partialIter
  let (fs, alloc, middle) ← doSplitAllocation fs alloc len
  return (fs, { alloc with list := { alloc.list with partialIter := 0 } }, middle)

/- An assignment to the link of a region, if there is one. -/
def setNext (at_ next : Option Nat) : Except Fault Fs :=
  match at_ with
  | none => .ok fs
  | some p => do
      let r ← fs.get (some p)
      return fs.set p { r with next := next }

def setPrev (at_ prev : Option Nat) : Except Fault Fs :=
  match at_ with
  | none => .ok fs
  | some p => do
      let r ← fs.get (some p)
      return fs.set p { r with prev := prev }

def regionListRemove (list : RegionList) (p : Nat) : Except Fault (Fs × RegionList) := do
  let reg ← fs.get (some p)
  let fs ← setNext fs reg.prev reg.next
  let fs ← setPrev fs reg.next reg.prev
  let list := if list.first = some p then { list with first := reg.next }
    else list
  let list := if list.last = some p then { list with last := reg.prev }
    else list
  let reg ← fs.get (some p)
  return (fs.set p { reg with next := none, prev := none }, list)

def regionListAppend (list : RegionList) (p : Nat) : Except Fault (Fs × RegionList) :=
  match list.first with
  | none => do
      let reg ← fs.get (some p)
      return (fs.set p { reg with next := none, prev := none }, ⟨some p, some p, some p, 0⟩)
  | some _ => do
      let last ← fs.get list.last
      let fs := fs.set (list.last.getD 0)
        { last with next := some p }
      let reg ← fs.get (some p)
      return (fs.set p { reg with next := none, prev := list.last }, { list with last := some p })

/- The variables of the loop. -/
structure Moving where
  fs : Fs
  alloc : BlockAllocation
  oob : Option Nat

def moveBody (s : Moving) : Except Fault (Ctl Moving (Fs × BlockAllocation)) :=
  match s.oob with
  | none => .ok (.done (s.fs, s.alloc))
  | some p =>
    if s.oob = s.alloc.list.iter then
      .ok (.done (s.fs, s.alloc))
    else do
      let reg ← s.fs.get (some p)
      let (fs, list) ← regionListRemove s.fs s.alloc.list p
      let (fs, oobList) ← regionListAppend fs s.alloc.oobList p
      return .again ⟨fs, ⟨list, oobList⟩, reg.next⟩

/- `reserve_oob_blocks`. The result is not used. -/
def reserveOobBlocks (blocks : Nat) : Except Fault (Fs × BlockAllocation) := do
  let (fs, alloc, oob) ← splitAllocation fs alloc blocks
  loop moveBody (fs.brk + 1) ⟨fs, alloc, oob⟩

def ext4AllocateFailed : Nat := 2 ^ 32 - 1

/- The loop of `get_oob_block`. -/
def blockFrom (fs : Fs) : Nat → Option Nat → Nat → Except Fault Nat
| _, none, _ => .ok ext4AllocateFailed
| 0, some _, _ => .error .outOfFuel
| fuel + 1, some p, block => do
    let r ← fs.get (some p)
    if block < r.len then return r.block + block
    else blockFrom fs fuel r.next (block - r.len)

def getOobBlock (block : Nat) : Except Fault Nat :=
  blockFrom fs (fs.brk + 1) alloc.oobList.iter (block + alloc.oobList.partialIter)

------
-- Extents Of An Inode
------

/- `struct ext4_extent_header`. -/
structure ExtentHeader where
  ehMagic : Nat
  ehEntries : Nat
  ehMax : Nat
  ehDepth : Nat
  ehGeneration : Nat

/- `struct ext4_extent`. -/
structure Extent where
  eeBlock : Nat
  eeLen : Nat
  eeStartHi : Nat
  eeStartLo : Nat
deriving DecidableEq

/- A header with the extents behind it. -/
structure ExtentNode where
  header : ExtentHeader
  slots : List Extent

/- The block that the entry behind the header names. -/
structure Leaf where
  eiBlock : Nat
  eiLeafLo : Nat
  eiLeafHi : Nat
  node : ExtentNode

/- What `do_inode_allocate_extents` sets in the inode. -/
structure Inode where
  root : ExtentNode
  leaf : Option Leaf
  iSizeLo : Nat
  iSizeHigh : Nat
  iBlocksLo : Nat
  iBlocksHigh : Nat

def ext4ExtMagic : Nat := 0xf30a

/- The loop that writes an extent for every region. -/
def extentsOf : Nat → Nat → List Region → List Extent
| _, _, [] => []
| fileBlock, partialIter, r :: rest =>
  let regionLen := r.len - partialIter
  ⟨fileBlock, regionLen % 2 ^ 16, 0, r.block⟩ :: extentsOf (fileBlock + regionLen) 0 rest

/- The extents are written over what was there. -/
def putExtents (slots extents : List Extent) : Except Fault (List Extent) :=
  if extents.length ≤ slots.length then
    .ok (extents ++ slots.drop extents.length)
  else .error .outOfBounds

/- Slots in memory from `calloc`. -/
def zeroSlots (n : Nat) : List Extent :=
  List.replicate n ⟨0, 0, 0, 0⟩

/-
  Free the block that was allocated too much, or take it for the extents: the last result, if it is
  not 0.
-/
def takeExtentBlock (allocationLen : Nat) : Except Fault (Fs × BlockAllocation × Nat) :=
  if allocationLen ≤ 3 then do
    let (fs, alloc) ← reduceAllocation fs alloc 1
    return (fs, alloc, 0)
  else do
    let (fs, alloc) ← reserveOobBlocks fs alloc 1
    let extentBlock ← getOobBlock fs alloc 0
    return (fs, alloc, extentBlock)

/- The extents are put into the inode, which has four slots. -/
def extentsInInode (extents : List Extent) (allocationLen : Nat) :
    Except Fault (ExtentNode × Option Leaf) := do
  let slots ← putExtents (zeroSlots 4) extents
  return (⟨⟨ext4ExtMagic, allocationLen % 2 ^ 16, 3, 0, 0⟩, slots⟩, none)

section

variable (geo : Geometry)

/-
  The extents are put into a block. The test for the size of the block compares with its size in
  bytes less one.
-/
def extentsInLeaf (extents : List Extent) (allocationLen extentBlock : Nat) :
    Except Fault (Option (ExtentNode × Option Leaf)) :=
  if geo.blockSize - 12 / 12 < allocationLen then .ok none
  else do
    let ehMax := (geo.blockSize - 12) / 12
    let slots ← putExtents (zeroSlots ehMax) extents
    let leaf : ExtentNode := ⟨⟨ext4ExtMagic, allocationLen % 2 ^ 16, ehMax % 2 ^ 16, 0, 0⟩, slots⟩
    return some (⟨⟨ext4ExtMagic, 1, 3, 1, 0⟩, zeroSlots 4⟩, some ⟨0, extentBlock, 0, leaf⟩)

/- The header and the extents. -/
def attachExtents (fs : Fs) (alloc : BlockAllocation) (allocationLen extentBlock : Nat) :
    Except Fault (Option (ExtentNode × Option Leaf)) := do
  let regions ← regionsFrom fs fs.brk alloc.list.iter
  let extents := extentsOf 0 alloc.list.partialIter regions
  if extentBlock = 0 then
    return some (← extentsInInode extents allocationLen)
  else extentsInLeaf geo extents allocationLen extentBlock

/- `block_len` for a length. -/
def blockLenOf (len : Nat) : Nat :=
  (len + geo.blockSize - 1) % 2 ^ 64 / geo.blockSize % 2 ^ 32

/- The inode with its extents. -/
def finishInode (len extentBlock : Nat) (extents : ExtentNode × Option Leaf) : Inode :=
  let blockLen := if extentBlock ≠ 0 then (blockLenOf geo len + 1) % 2 ^ 32
    else blockLenOf geo len
  let blocks := blockLen * geo.blockSize / 512
  { root := extents.1
    leaf := extents.2
    iSizeLo := len % 2 ^ 32
    iSizeHigh := len / 2 ^ 32
    iBlocksLo := blocks % 2 ^ 32
    iBlocksHigh := blocks / 2 ^ 32 % 2 ^ 16 }

def rewindAlloc : BlockAllocation :=
  { alloc with list := { alloc.list with iter := alloc.list.first, partialIter := 0 } }

/- `do_inode_allocate_extents` for an inode that is in memory from `calloc`. -/
def doInodeAllocateExtents (fs : Fs) (len : Nat) :
    Except Fault (Fs × Option (Inode × BlockAllocation)) := do
  match ← allocateBlocks geo fs ((blockLenOf geo len + 1) % 2 ^ 32) with
  | (fs, none) => return (fs, none)
  | (fs, some alloc) =>
    let allocationLen ← blockAllocationNumRegions fs alloc
    let (fs, alloc, extentBlock) ← takeExtentBlock fs alloc allocationLen
    let extents ← attachExtents geo fs alloc allocationLen extentBlock
    return (fs, extents.map fun extents =>
      (finishInode geo len extentBlock extents, rewindAlloc alloc))

end

end OpenIvi.Ext4
