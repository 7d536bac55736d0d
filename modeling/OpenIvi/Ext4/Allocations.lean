import Mathlib.Data.List.Nodup
import OpenIvi.Ext4.Regions

/-
  What `do_allocate` gives.

  A block is taken if it is before the free blocks of its group. An allocation is a chain of regions
  of blocks that were not taken before; together they have the length that was asked for, and the
  first region was the last one that was taken from its group.

  Main declarations:
    * `Taken`
    * `FsOk`
    * `allocateBlocksFromBlockGroup_spec`
    * `doAllocate_spec`
-/

------
-- Blocks In Use
------

namespace OpenIvi.Ext4

open Lib List Function

variable {p : Nat} {r : Region} {g : Gather} {prevReg : Option Nat}

def Geometry.groupStart (geo : Geometry) (i : Nat) : Nat :=
  geo.firstDataBlock + i * geo.blocksPerGroup

/- The block is in use. -/
def Taken (geo : Geometry) (fs : Fs) (b : Nat) : Prop :=
  ∃ i k, i < geo.groups ∧ k < (fs.bgs i).firstFreeBlock ∧ b = geo.groupStart i + k

/- The blocks of a region are in use. -/
def RegionOk (geo : Geometry) (fs : Fs) (r : Region) : Prop :=
  0 < r.block ∧ ∀ b ∈ range' r.block r.len, Taken geo fs b

structure FsOk (geo : Geometry) (fs : Fs) : Prop where
  groups : ∀ i, i < geo.groups → GroupOk geo i (fs.bgs i)
  fresh : ∀ p, fs.brk ≤ p → fs.heap p = none
  regions : ∀ p r, fs.heap p = some r → RegionOk geo fs r

/- The blocks were free and are in use now. -/
structure Gains (geo : Geometry) (fs fs' : Fs) (blocks : List Nat) : Prop where
  nodup : blocks.Nodup
  free : ∀ b ∈ blocks, ¬ Taken geo fs b
  taken : ∀ b ∈ blocks, Taken geo fs' b
  mono : ∀ b, Taken geo fs b → Taken geo fs' b

variable {geo : Geometry} {fs fs' fs'' : Fs}

theorem Gains.refl (geo : Geometry) (fs : Fs) : Gains geo fs fs [] :=
  ⟨nodup_nil, by simp, by simp, fun _ h => h⟩

theorem Gains.trans {blocks more : List Nat}
    (hFirst : Gains geo fs fs' blocks) (hSecond : Gains geo fs' fs'' more) :
    Gains geo fs fs'' (blocks ++ more) where
  nodup := by
    refine List.Nodup.append hFirst.nodup hSecond.nodup ?_
    intro b hOld hNew
    exact hSecond.free b hNew (hFirst.taken b hOld)
  free := by
    intro b hB hTaken
    rcases mem_append.mp hB with hOld | hNew
    · exact hFirst.free b hOld hTaken
    · exact hSecond.free b hNew (hFirst.mono b hTaken)
  taken := by
    intro b hB
    rcases mem_append.mp hB with hOld | hNew
    · exact hSecond.mono b (hFirst.taken b hOld)
    · exact hSecond.taken b hNew
  mono := fun b hB => hSecond.mono b (hFirst.mono b hB)

theorem taken_congr (hBgs : fs.bgs = fs'.bgs) {b : Nat} : Taken geo fs b ↔ Taken geo fs' b := by
  unfold Taken
  rw [hBgs]

theorem Gains.congr {blocks : List Nat} (hGains : Gains geo fs fs' blocks)
    (hBgs : fs'.bgs = fs''.bgs) : Gains geo fs fs'' blocks where
  nodup := hGains.nodup
  free := hGains.free
  taken := fun b hB => (taken_congr hBgs).mp (hGains.taken b hB)
  mono := fun b hB => (taken_congr hBgs).mp (hGains.mono b hB)

theorem RegionOk.mono (hOk : RegionOk geo fs r)
    (hMono : ∀ b, Taken geo fs b → Taken geo fs' b) : RegionOk geo fs' r :=
  ⟨hOk.1, fun b hB => hMono b (hOk.2 b hB)⟩

/- A block is in one group only. -/
theorem eq_of_groupStart_add {i j k l : Nat}
    (hK : k < geo.blocksPerGroup) (hL : l < geo.blocksPerGroup)
    (hEq : geo.groupStart i + k = geo.groupStart j + l) : i = j ∧ k = l := by
  unfold Geometry.groupStart at hEq
  have hSum : k + geo.blocksPerGroup * i = l + geo.blocksPerGroup * j := by
    rw [Nat.mul_comm geo.blocksPerGroup i, Nat.mul_comm geo.blocksPerGroup j]
    omega
  have hDiv := congrArg (· / geo.blocksPerGroup) hSum
  have hMod := congrArg (· % geo.blocksPerGroup) hSum
  have hPos : 0 < geo.blocksPerGroup := by omega
  simp only [Nat.add_mul_div_left _ _ hPos, Nat.add_mul_mod_self_left, Nat.div_eq_of_lt hK,
    Nat.div_eq_of_lt hL, Nat.mod_eq_of_lt hK, Nat.mod_eq_of_lt hL] at hDiv hMod
  omega

theorem FsOk.taken_iff (hOk : FsOk geo fs) {i k : Nat}
    (hI : i < geo.groups) (hK : k < geo.blocksPerGroup) :
    Taken geo fs (geo.groupStart i + k) ↔ k < (fs.bgs i).firstFreeBlock := by
  constructor
  · rintro ⟨j, l, hJ, hL, hEq⟩
    have hLimit := (hOk.groups j hJ).limit
    rcases eq_of_groupStart_add hK (by omega) hEq with ⟨hSame, hOffset⟩
    rw [hSame, hOffset]
    exact hL
  · intro hLess
    exact ⟨i, k, hI, hLess, rfl⟩

/- A block in use is marked in the bitmap. -/
def Marked (geo : Geometry) (fs : Fs) (b : Nat) : Prop :=
  ∃ i k, i < geo.groups ∧ k < geo.blocksPerGroup ∧ b = (fs.bgs i).firstBlock + k ∧
    Bitmap.test (fs.bgs i).blockBitmap k = true

theorem FsOk.marked (hOk : FsOk geo fs) {b : Nat} (hTaken : Taken geo fs b) : Marked geo fs b := by
  rcases hTaken with ⟨i, k, hI, hK, hB⟩
  have hGroup := hOk.groups i hI
  have hLimit := hGroup.limit
  refine ⟨i, k, hI, by omega, ?_, hGroup.used k hK⟩
  rw [hB, hGroup.first]
  rfl

------
-- Blocks From One Group
------

/- The next blocks of a group were taken. -/
structure Grab (geo : Geometry) (fs fs' : Fs) (i block len : Nat) : Prop where
  group : i < geo.groups
  heap : fs'.heap = fs.heap
  brk : fs'.brk = fs.brk
  others : ∀ j, j ≠ i → fs'.bgs j = fs.bgs j
  start : block = geo.groupStart i + (fs.bgs i).firstFreeBlock
  enough : len ≤ (fs.bgs i).freeBlocks
  firstFree : (fs'.bgs i).firstFreeBlock = (fs.bgs i).firstFreeBlock + len
  free : (fs'.bgs i).freeBlocks = (fs.bgs i).freeBlocks - len
  used : (fs'.bgs i).dataBlocksUsed = ((fs.bgs i).dataBlocksUsed + len) % 2 ^ 32
  ok : GroupOk geo i (fs'.bgs i)

variable {i block len : Nat}

theorem allocateBlocksFromBlockGroup_spec (hOk : FsOk geo fs) (hI : i < geo.groups) (len : Nat) :
    ((fs.bgs i).freeBlocks < len ∧ ext4AllocateBlocksFromBlockGroup fs len i = .ok none) ∨
      ∃ fs' block, ext4AllocateBlocksFromBlockGroup fs len i = .ok (some (fs', block)) ∧
        Grab geo fs fs' i block len := by
  have hGroup := hOk.groups i hI
  by_cases hFew : (fs.bgs i).freeBlocks < len
  · left
    exact ⟨hFew, if_pos hFew⟩
  · right
    rcases hGroup.reserve (Nat.le_of_not_lt hFew) with ⟨bitmap, hRun, hAfter⟩
    refine ⟨{ fs with
        bgs := update fs.bgs i
          { fs.bgs i with
            dataBlocksUsed := ((fs.bgs i).dataBlocksUsed + len) % 2 ^ 32
            blockBitmap := bitmap
            freeBlocks := (fs.bgs i).freeBlocks - len
            firstFreeBlock := (fs.bgs i).firstFreeBlock + len } },
      (fs.bgs i).firstBlock + (fs.bgs i).firstFreeBlock, ?_,
      { group := hI
        heap := rfl
        brk := rfl
        others := fun j hJ => update_of_ne hJ ..
        start := ?_
        enough := Nat.le_of_not_lt hFew
        firstFree := ?_
        free := ?_
        used := ?_
        ok := ?_ }⟩
    · unfold ext4AllocateBlocksFromBlockGroup
      simp only [if_neg hFew, hRun, ok_bind]
      rfl
    · rw [hGroup.first]
      rfl
    · simp only [update_self]
    · simp only [update_self]
    · simp only [update_self]
    · simp only [update_self]
      exact hAfter _

section

variable (hGrab : Grab geo fs fs' i block len) (hOk : FsOk geo fs)

include hGrab hOk

theorem Grab.gains : Gains geo fs fs' (range' block len) := by
  have hLimit := (hOk.groups i hGrab.group).limit
  have hEnough := hGrab.enough
  have hStart := hGrab.start
  refine ⟨nodup_range', ?_, ?_, ?_⟩
  · intro b hB hTaken
    rw [mem_range'_1] at hB
    obtain ⟨k, hEq⟩ : ∃ k, b = geo.groupStart i + k := ⟨b - geo.groupStart i, by omega⟩
    rw [hEq, hOk.taken_iff hGrab.group (by omega)] at hTaken
    omega
  · intro b hB
    rw [mem_range'_1] at hB
    refine ⟨i, b - geo.groupStart i, hGrab.group, ?_, by omega⟩
    rw [hGrab.firstFree]
    omega
  · rintro b ⟨j, k, hJ, hK, hEq⟩
    refine ⟨j, k, hJ, ?_, hEq⟩
    by_cases hSame : j = i
    · rw [hSame, hGrab.firstFree]
      rw [hSame] at hK
      omega
    · rw [hGrab.others j hSame]
      exact hK

theorem Grab.fsOk : FsOk geo fs' where
  groups := by
    intro j hJ
    by_cases hSame : j = i
    · rw [hSame]
      exact hGrab.ok
    · rw [hGrab.others j hSame]
      exact hOk.groups j hJ
  fresh := by
    rw [hGrab.heap, hGrab.brk]
    exact hOk.fresh
  regions := by
    rw [hGrab.heap]
    intro p r hR
    exact (hOk.regions p r hR).mono (hGrab.gains hOk).mono

theorem Grab.regionOk (next prev : Option Nat) : RegionOk geo fs' ⟨block, len, i, next, prev⟩ := by
  refine ⟨?_, (hGrab.gains hOk).taken⟩
  have hHeader := (hOk.groups i hGrab.group).header
  have hStart := hGrab.start
  change 0 < block
  omega

end

------
-- Chains Of Regions
------

/- A region of a chain, with its address. -/
structure Piece where
  ptr : Nat
  block : Nat
  len : Nat
  bg : Nat

def Piece.blocks (c : Piece) : List Nat :=
  range' c.block c.len

/- The address of the first region. -/
def headPtr (cs : List Piece) : Option Nat :=
  cs.head?.map Piece.ptr

/- The regions are linked in both directions. -/
def DChain (fs : Fs) : Option Nat → List Piece → Prop
| _, [] => True
| prev, c :: cs =>
  fs.heap c.ptr = some ⟨c.block, c.len, c.bg, headPtr cs, prev⟩ ∧ DChain fs (some c.ptr) cs

/- The regions are linked forwards. -/
def Chain (fs : Fs) : List Piece → Prop
| [] => True
| c :: cs =>
  (∃ prev, fs.heap c.ptr = some ⟨c.block, c.len, c.bg, headPtr cs, prev⟩) ∧ Chain fs cs

variable {cs : List Piece} {prev : Option Nat}

theorem DChain.chain (hChain : DChain fs prev cs) : Chain fs cs := by
  induction cs generalizing prev with
  | nil => exact trivial
  | cons c cs ih => exact ⟨⟨prev, hChain.1⟩, ih hChain.2⟩

theorem Chain.congr (hChain : Chain fs cs)
    (hSame : ∀ c ∈ cs, fs'.heap c.ptr = fs.heap c.ptr) : Chain fs' cs := by
  induction cs with
  | nil => exact trivial
  | cons c cs ih =>
    rcases hChain with ⟨⟨prev, hHeap⟩, hRest⟩
    refine ⟨⟨prev, ?_⟩, ih hRest ?_⟩
    · rw [hSame c (by simp)]
      exact hHeap
    · intro d hD
      exact hSame d (by simp [hD])

theorem DChain.congr (hChain : DChain fs prev cs)
    (hSame : ∀ c ∈ cs, fs'.heap c.ptr = fs.heap c.ptr) : DChain fs' prev cs := by
  induction cs generalizing prev with
  | nil => exact trivial
  | cons c cs ih =>
    rcases hChain with ⟨hHeap, hRest⟩
    refine ⟨?_, ih hRest ?_⟩
    · rw [hSame c (by simp)]
      exact hHeap
    · intro d hD
      exact hSame d (by simp [hD])

/- A region that is not in the chain is changed. -/
theorem DChain.set (hChain : DChain fs prev cs) (hNot : p ∉ cs.map Piece.ptr)
    (r : Region) : DChain (fs.set p r) prev cs := by
  apply hChain.congr
  intro c hC
  refine update_of_ne ?_ ..
  intro hEq
  exact hNot (hEq ▸ mem_map_of_mem hC)

theorem DChain.last {c : Piece} (hChain : DChain fs prev (cs ++ [c])) :
    ∃ before, fs.heap c.ptr = some ⟨c.block, c.len, c.bg, none, before⟩ := by
  induction cs generalizing prev with
  | nil => exact ⟨prev, hChain.1⟩
  | cons d cs ih => exact ih hChain.2

/- A region is put behind the last one. -/
theorem DChain.link {c new : Piece} {before : Option Nat} (hChain : DChain fs prev (cs ++ [c]))
    (hLast : fs.heap c.ptr = some ⟨c.block, c.len, c.bg, none, before⟩)
    (hNodup : ((cs ++ [c]).map Piece.ptr).Nodup) (hNew : ∀ d ∈ cs ++ [c], d.ptr ≠ new.ptr)
    (hHeap : fs'.heap = update (update fs.heap c.ptr (some
      ⟨c.block, c.len, c.bg, some new.ptr, before⟩)) new.ptr
        (some ⟨new.block, new.len, new.bg, none, some c.ptr⟩)) :
    DChain fs' prev (cs ++ [c] ++ [new]) := by
  induction cs generalizing prev with
  | nil =>
    have hBefore : before = prev := by
      have hEq := hLast.symm.trans hChain.1
      injection hEq with hEq
      exact congrArg Region.prev hEq
    refine ⟨?_, ?_, trivial⟩
    · rw [hHeap, update_of_ne (hNew c (by simp)), update_self, hBefore]
      rfl
    · rw [hHeap, update_self]
      rfl
  | cons d cs ih =>
    simp only [cons_append, map_cons, nodup_cons] at hNodup
    have hNe : d.ptr ≠ c.ptr := by
      intro hEq
      apply hNodup.1
      rw [hEq]
      simp
    refine ⟨?_, ih hChain.2 hNodup.2 ?_⟩
    · rw [hHeap, update_of_ne (hNew d (by simp)), update_of_ne hNe]
      have hHead : headPtr (cs ++ [c]) = headPtr (cs ++ [c] ++ [new]) := by cases cs <;> rfl
      exact hChain.1.trans
        (congrArg (fun next => some (Region.mk d.block d.len d.bg next prev)) hHead)
    · intro e hE
      exact hNew e (by simp only [cons_append, mem_cons, hE, or_true])

------
-- One Region
------

/- Blocks were taken from a group for a new region. -/
structure Added (geo : Geometry) (fs fs' : Fs) (c : Piece) : Prop where
  ptr : c.ptr = fs.brk
  brk : fs'.brk = fs.brk + 1
  heap : fs'.heap = update fs.heap c.ptr (some ⟨c.block, c.len, c.bg, none, none⟩)
  grab : ∃ fs₁, Grab geo fs fs₁ c.bg c.block c.len ∧ fs₁.bgs = fs'.bgs

variable {c : Piece}

theorem Grab.added {i block len : Nat} (hGrab : Grab geo fs fs' i block len) :
    Added geo fs (fs'.alloc ⟨block, len, i, none, none⟩).1 ⟨fs'.brk, block, len, i⟩ where
  ptr := hGrab.brk
  brk := congrArg (· + 1) hGrab.brk
  heap := by
    rw [← hGrab.heap]
    rfl
  grab := ⟨fs', hGrab, rfl⟩

theorem Added.gains (hAdded : Added geo fs fs' c)
    (hOk : FsOk geo fs) : Gains geo fs fs' c.blocks := by
  rcases hAdded.grab with ⟨fs₁, hGrab, hBgs⟩
  exact (hGrab.gains hOk).congr hBgs

theorem Added.fsOk (hAdded : Added geo fs fs' c) (hOk : FsOk geo fs) : FsOk geo fs' := by
  rcases hAdded.grab with ⟨fs₁, hGrab, hBgs⟩
  have hOk₁ := hGrab.fsOk hOk
  have hMono : ∀ b, Taken geo fs₁ b → Taken geo fs' b := fun _ => (taken_congr hBgs).mp
  refine ⟨?_, ?_, ?_⟩
  · rw [← hBgs]
    exact hOk₁.groups
  · intro p hP
    rw [hAdded.brk] at hP
    rw [hAdded.heap, hAdded.ptr, update_of_ne (by omega)]
    exact hOk.fresh p (by omega)
  · intro p r hR
    rw [hAdded.heap] at hR
    by_cases hNew : p = c.ptr
    · rw [hNew, update_self] at hR
      injection hR with hR
      rw [← hR]
      exact (hGrab.regionOk hOk none none).mono hMono
    · rw [update_of_ne hNew, ← hGrab.heap] at hR
      exact (hOk₁.regions p r hR).mono hMono

theorem Added.full (hAdded : Added geo fs fs' c) (hLen : 0 < c.len)
    {j : Nat} (hFull : (fs.bgs j).freeBlocks = 0) : fs'.bgs j = fs.bgs j := by
  rcases hAdded.grab with ⟨fs₁, hGrab, hBgs⟩
  have hOther : j ≠ c.bg := by
    intro hEq
    have hEnough := hGrab.enough
    rw [← hEq] at hEnough
    omega
  rw [← hBgs]
  exact hGrab.others j hOther

/- `ext4_allocate_contiguous_blocks`. -/
theorem allocateContiguousBlocks_spec (hOk : FsOk geo fs) (len : Nat) (groups : List Nat)
    (hGroups : ∀ i ∈ groups, i < geo.groups) :
    (ext4AllocateContiguousBlocks fs len groups = .ok (fs, none) ∧
      ∀ i ∈ groups, (fs.bgs i).freeBlocks < len) ∨
      ∃ fs' c, ext4AllocateContiguousBlocks fs len groups = .ok (fs', some c.ptr) ∧
        Added geo fs fs' c ∧ c.len = len := by
  induction groups with
  | nil =>
    left
    exact ⟨rfl, by simp⟩
  | cons i groups ih =>
    unfold ext4AllocateContiguousBlocks
    rcases allocateBlocksFromBlockGroup_spec hOk (hGroups i (by simp)) len with
      ⟨hFew, hRun⟩ | ⟨fs₁, block, hRun, hGrab⟩
    · rw [hRun, ok_bind]
      rcases ih fun j hJ => hGroups j (by simp [hJ]) with ⟨hNone, hAll⟩ | hSome
      · left
        refine ⟨hNone, ?_⟩
        intro j hJ
        rcases mem_cons.mp hJ with hEq | hTail
        · rw [hEq]
          exact hFew
        · exact hAll j hTail
      · right
        exact hSome
    · right
      rw [hRun, ok_bind]
      exact ⟨_, ⟨fs₁.brk, block, len, i⟩, rfl, hGrab.added, rfl⟩

/- The first unused group has no free blocks. -/
def Stuck (geo : Geometry) (fs : Fs) : Prop :=
  ∃ i, ((range geo.groups).find? fun i => (fs.bgs i).dataBlocksUsed == 0) = some i ∧
    (fs.bgs i).freeBlocks = 0

/- The free blocks of the unused groups. -/
def unusedFree (geo : Geometry) (fs : Fs) : List Nat :=
  ((range geo.groups).filter fun i => (fs.bgs i).dataBlocksUsed == 0).map
    fun i => (fs.bgs i).freeBlocks

/- The lengths of the regions that are taken from unused groups: all of each group but the last. -/
def gatheredLens : List Nat → Nat → Option (List Nat)
| _, 0 => some []
| [], _ + 1 => none
| free :: rest, len + 1 =>
  if len + 1 ≤ free then some [len + 1]
  else if free = 0 then none
  else (gatheredLens rest (len + 1 - free)).map (free :: ·)

/- The lengths of the regions for a request, by the counters of the groups. -/
def regionLens (geo : Geometry) (fs : Fs) (len : Nat) : Option (List Nat) :=
  if ∃ i ∈ range geo.groups, len ≤ (fs.bgs i).freeBlocks then some [len]
  else if len = 0 then none
  else gatheredLens (unusedFree geo fs) len

theorem filter_of_find? {q q' : Nat → Bool} {l : List Nat} {i : Nat} (hNodup : l.Nodup)
    (hFind : l.find? q = some i) (hSame : ∀ j, j ≠ i → q' j = q j) (hGone : q' i = false) :
    l.filter q = i :: l.filter q' := by
  induction l with
  | nil => cases hFind
  | cons a l ih =>
    rcases nodup_cons.mp hNodup with ⟨hA, hL⟩
    by_cases hQ : q a = true
    · rw [find?_cons_of_pos hQ] at hFind
      cases hFind
      have hRest : l.filter q = l.filter q' :=
        filter_congr fun j hJ => (hSame j fun hEq => hA (hEq ▸ hJ)).symm
      simp [hQ, hGone, hRest]
    · rw [find?_cons_of_neg hQ] at hFind
      have hNe : a ≠ i := fun hEq => hA (hEq ▸ mem_of_find?_eq_some hFind)
      have hNot : ¬ q' a = true := hSame a hNe ▸ hQ
      rw [filter_cons_of_neg hQ, filter_cons_of_neg hNot]
      exact ih hL hFind

theorem Grab.used_ne {i block len : Nat} (hGrab : Grab geo fs fs' i block len) (hOk : FsOk geo fs)
    (hBefore : (fs.bgs i).dataBlocksUsed = 0) (hLen : len ≠ 0) :
    (fs'.bgs i).dataBlocksUsed ≠ 0 := by
  have hEnough := hGrab.enough
  have hLimit := (hOk.groups i hGrab.group).limit
  have hSize := geo.addressable
  have hGroup := Nat.le_mul_of_pos_left geo.blocksPerGroup (Nat.zero_lt_of_lt hGrab.group)
  rw [hGrab.used, hBefore, zero_add, Nat.mod_eq_of_lt (by omega)]
  exact hLen

/- The first unused group is used. -/
theorem unusedFree_eq (fs' : Fs) {i : Nat} (hFind : ((range geo.groups).find? fun i =>
      (fs.bgs i).dataBlocksUsed == 0) = some i)
    (hOthers : ∀ j, j ≠ i → fs'.bgs j = fs.bgs j) (hUsed : (fs'.bgs i).dataBlocksUsed ≠ 0) :
    unusedFree geo fs = (fs.bgs i).freeBlocks :: unusedFree geo fs' := by
  have hGone : ((fs'.bgs i).dataBlocksUsed == 0) = false := by simpa using hUsed
  have hSame : ∀ j, j ≠ i →
      ((fs'.bgs j).dataBlocksUsed == 0) = ((fs.bgs j).dataBlocksUsed == 0) :=
    fun j hJ => by rw [hOthers j hJ]
  have hFilter := filter_of_find? nodup_range hFind hSame hGone
  unfold unusedFree
  rw [hFilter, map_cons]
  congr 1
  apply map_congr_left
  intro j hJ
  rw [hOthers j]
  intro hEq
  rw [hEq] at hJ
  simp [hGone] at hJ

/- `ext4_allocate_partial`. A region that is shorter than was asked for takes all of its group. -/
theorem allocatePartial_spec (hOk : FsOk geo fs) {len : Nat} (hLen : 0 < len) :
    (ext4AllocatePartial geo fs len = .ok (fs, none) ∧
      gatheredLens (unusedFree geo fs) len = none) ∨ ∃ fs' c,
      ext4AllocatePartial geo fs len = .ok (fs', some c.ptr) ∧ Added geo fs fs' c ∧ c.len ≤ len ∧
      (c.len < len → (fs'.bgs c.bg).freeBlocks = 0) ∧ (c.len = 0 → Stuck geo fs) ∧
      gatheredLens (unusedFree geo fs) len = if c.len = 0 then none
        else (gatheredLens (unusedFree geo fs') (len - c.len)).map (c.len :: ·) := by
  obtain ⟨n, rfl⟩ := Nat.exists_eq_succ_of_ne_zero hLen.ne'
  unfold ext4AllocatePartial
  cases hFind : (range geo.groups).find? fun i => (fs.bgs i).dataBlocksUsed == 0 with
  | none =>
    left
    have hUnused : unusedFree geo fs = [] := by
      rw [unusedFree, filter_eq_nil_iff.mpr (find?_eq_none.mp hFind), map_nil]
    exact ⟨rfl, by rw [hUnused]; rfl⟩
  | some i =>
    have hI : i < geo.groups := mem_range.mp (mem_of_find?_eq_some hFind)
    have hUnused := unusedFree_eq
      { fs with bgs := update fs.bgs i { fs.bgs i with dataBlocksUsed := 1 } } hFind
      (fun j hJ => update_of_ne hJ ..) (by simp)
    right
    simp only
    by_cases hFits : n + 1 ≤ (fs.bgs i).freeBlocks
    · rw [if_pos hFits]
      rcases allocateContiguousBlocks_spec hOk (n + 1) (range geo.groups) (by simp) with
        ⟨_, hFew⟩ | ⟨fs', c, hRun, hAdded, hLen⟩
      · exact absurd (hFew i (mem_range.mpr hI)) (not_lt.mpr hFits)
      · refine ⟨fs', c, hRun, hAdded, by omega, by omega, by omega, ?_⟩
        rw [hUnused, gatheredLens, if_pos hFits, hLen, if_neg (by omega), Nat.sub_self]
        simp [gatheredLens]
    · rw [if_neg hFits]
      rcases allocateBlocksFromBlockGroup_spec hOk hI (fs.bgs i).freeBlocks with
        ⟨hFew, _⟩ | ⟨fs₁, block, hRun, hGrab⟩
      · omega
      · rw [hRun, ok_bind]
        refine ⟨_, ⟨fs₁.brk, block, (fs.bgs i).freeBlocks, i⟩, rfl, hGrab.added, ?_, ?_, ?_, ?_⟩
        · change (fs.bgs i).freeBlocks ≤ n + 1
          omega
        · intro _
          change (fs₁.bgs i).freeBlocks = 0
          rw [hGrab.free, Nat.sub_self]
        · intro hZero
          exact ⟨i, hFind, hZero⟩
        · change _ = if (fs.bgs i).freeBlocks = 0 then none else
            (gatheredLens (unusedFree geo fs₁) (n + 1 - (fs.bgs i).freeBlocks)).map _
          by_cases hZero : (fs.bgs i).freeBlocks = 0
          · rw [hUnused, gatheredLens, if_neg hFits, if_pos hZero, if_pos hZero]
          · have hUsed := hGrab.used_ne hOk (by simpa using find?_some hFind) hZero
            rw [unusedFree_eq fs₁ hFind hGrab.others hUsed, gatheredLens, if_neg hFits,
              if_neg hZero]

/- The same group is found once more. -/
theorem allocatePartial_stuck (hOk : FsOk geo fs)
    (hStuck : Stuck geo fs) {len : Nat} (hLen : 0 < len) :
    ∃ fs' c, ext4AllocatePartial geo fs len = .ok (fs', some c.ptr) ∧
      Added geo fs fs' c ∧ c.len = 0 ∧ Stuck geo fs' := by
  rcases hStuck with ⟨i, hFind, hFree⟩
  have hI : i < geo.groups := mem_range.mp (mem_of_find?_eq_some hFind)
  have hUnused : (fs.bgs i).dataBlocksUsed = 0 := by simpa using find?_some hFind
  unfold ext4AllocatePartial
  rw [hFind]
  simp only
  rw [if_neg (by omega), hFree]
  rcases allocateBlocksFromBlockGroup_spec hOk hI 0 with ⟨hFew, _⟩ | ⟨fs₁, block, hRun, hGrab⟩
  · omega
  · rw [hRun, ok_bind]
    refine ⟨_, ⟨fs₁.brk, block, 0, i⟩, rfl, hGrab.added, rfl, i, ?_, ?_⟩
    · have hSame : (fun j => (fs₁.bgs j).dataBlocksUsed == 0) =
          fun j => (fs.bgs j).dataBlocksUsed == 0 := by
        funext j
        by_cases hJ : j = i
        · simp [hJ, hGrab.used, hUnused]
        · rw [hGrab.others j hJ]
      exact (congrArg (fun unused => (range geo.groups).find? unused) hSame).trans hFind
    · change (fs₁.bgs i).freeBlocks = 0
      rw [hGrab.free, hFree]

------
-- Several Regions
------

variable {fs₀ : Fs}

theorem FsOk.set (hOk : FsOk geo fs)
    (hP : fs.heap p = some r) {r' : Region} (hR' : RegionOk geo fs r') :
    FsOk geo (fs.set p r') where
  groups := hOk.groups
  fresh := by
    intro q hQ
    have hNe : q ≠ p := by
      intro hEq
      rw [hEq] at hQ
      rw [hOk.fresh p hQ] at hP
      cases hP
    exact (update_of_ne hNe ..).trans (hOk.fresh q hQ)
  regions := by
    intro q s hS
    by_cases hSame : q = p
    · rw [hSame] at hS
      have hEq : s = r' := Option.some.inj (hS.symm.trans (update_self ..))
      rw [hEq]
      exact hR'
    · exact hOk.regions q s ((update_of_ne hSame ..).symm.trans hS)

theorem get_region_eq (hP : fs.heap p = some r) : fs.get (some p) = .ok r := by
  simp only [Fs.get, hP]

/- The new region is linked to the one before it. -/
theorem linkRegion_spec (hOk : FsOk geo fs)
    (hC : fs.heap c.ptr = some ⟨c.block, c.len, c.bg, none, none⟩)
    {q : Nat} (hNe : q ≠ c.ptr) {before : Region} (hQ : fs.heap q = some before) :
    ∃ fs', linkRegion fs (some q) c.ptr = .ok fs' ∧
      FsOk geo fs' ∧ fs'.bgs = fs.bgs ∧ fs'.brk = fs.brk ∧
      fs'.heap = update (update fs.heap q (some { before with next := some c.ptr })) c.ptr
          (some ⟨c.block, c.len, c.bg, none, some q⟩) := by
  have hC₁ : (fs.set q { before with next := some c.ptr }).heap c.ptr =
      some ⟨c.block, c.len, c.bg, none, none⟩ :=
    (update_of_ne hNe.symm ..).trans hC
  have hOk₁ : FsOk geo (fs.set q { before with next := some c.ptr }) :=
    hOk.set hQ (hOk.regions q before hQ)
  have hRegion := hOk₁.regions c.ptr _ hC₁
  have hLinked : RegionOk geo (fs.set q { before with next := some c.ptr })
      ⟨c.block, c.len, c.bg, none, some q⟩ :=
    ⟨hRegion.1, hRegion.2⟩
  refine ⟨_, ?_, hOk₁.set hC₁ hLinked, rfl, rfl, rfl⟩
  unfold linkRegion
  simp only [get_region_eq hQ, ok_bind, get_region_eq hC₁]
  rfl

/- How the heap looks with the new region linked. -/
def LinkedHeap (heap heap' : Nat → Option Region) (prevReg : Option Nat) (c : Piece) : Prop :=
  match prevReg with
  | none => heap' = update heap c.ptr (some ⟨c.block, c.len, c.bg, none, none⟩)
  | some q =>
    ∃ before, heap q = some before ∧ heap' = update (update heap q
        (some { before with next := some c.ptr })) c.ptr (some ⟨c.block, c.len, c.bg, none, some q⟩)

/- A pass of the loop that gets a region. -/
theorem gatherBody_again (hOk : FsOk geo g.fs) (hLen : 0 < g.len) {fs₁ : Fs} (hRun :
      ext4AllocatePartial geo g.fs g.len = .ok (fs₁, some c.ptr))
    (hAdded : Added geo g.fs fs₁ c) (hPrev : ∀ q, g.prevReg = some q → ∃ r, g.fs.heap q = some r) :
    ∃ fs₂, gatherBody geo g = .ok (.again
      ⟨fs₂, some (g.firstReg.getD c.ptr), some c.ptr, g.len - c.len⟩) ∧
      FsOk geo fs₂ ∧ fs₂.bgs = fs₁.bgs ∧ fs₂.brk = g.fs.brk + 1 ∧
      LinkedHeap g.fs.heap fs₂.heap g.prevReg c := by
  have hOk₁ := hAdded.fsOk hOk
  have hC : fs₁.heap c.ptr = some ⟨c.block, c.len, c.bg, none, none⟩ := by
    rw [hAdded.heap, update_self]
  unfold gatherBody
  rw [if_pos hLen, hRun, ok_bind]
  cases hReg : g.prevReg with
  | none =>
    refine ⟨fs₁, ?_, hOk₁, rfl, hAdded.brk, hAdded.heap⟩
    simp only [linkRegion, ok_bind, get_region_eq hC]
    rfl
  | some q =>
    rcases hPrev q hReg with ⟨before, hBefore⟩
    have hNe : q ≠ c.ptr := by
      intro hEq
      rw [hEq, hAdded.ptr, hOk.fresh _ le_rfl] at hBefore
      cases hBefore
    have hQ : fs₁.heap q = some before := by
      rw [hAdded.heap, update_of_ne hNe]
      exact hBefore
    rcases linkRegion_spec hOk₁ hC hNe hQ with ⟨fs₂, hLink, hOk₂, hBgs, hBrk, hHeap⟩
    have hC₂ : fs₂.heap c.ptr = some ⟨c.block, c.len, c.bg, none, some q⟩ := by
      rw [hHeap, update_self]
    refine ⟨fs₂, ?_, hOk₂, hBgs, hBrk.trans hAdded.brk, before, hBefore, ?_⟩
    · simp only [hLink, ok_bind, get_region_eq hC₂]
      rfl
    · rw [hHeap, hAdded.heap, update_comm hNe, update_idem]
      exact update_comm hNe.symm ..

variable {heap heap' : Nat → Option Region}

theorem LinkedHeap.self (hLinked : LinkedHeap heap heap' prevReg c) :
    ∃ r, heap' c.ptr = some r := by
  cases prevReg with
  | none =>
    rw [hLinked]
    exact ⟨_, update_self ..⟩
  | some q =>
    rcases hLinked with ⟨before, _, hHeap⟩
    rw [hHeap]
    exact ⟨_, update_self ..⟩

/- With no free block in the group, the loop does not end. -/
theorem gather_diverges (hOk : FsOk geo g.fs) (hStuck : Stuck geo g.fs) (hLen : 0 < g.len)
    (hPrev : ∀ q, g.prevReg = some q → ∃ r, g.fs.heap q = some r)
    (fuel : Nat) : loop (gatherBody geo) fuel g = .error .outOfFuel := by
  induction fuel generalizing g with
  | zero => rfl
  | succ fuel ih =>
    rcases allocatePartial_stuck hOk hStuck hLen with ⟨fs₁, c, hRun, hAdded, hZero, hStuck₁⟩
    rcases gatherBody_again hOk hLen hRun hAdded hPrev with ⟨fs₂, hBody, hOk₂, hBgs, _, hLinked⟩
    have hStuck₂ : Stuck geo fs₂ := by
      unfold Stuck
      rw [hBgs]
      exact hStuck₁
    simp only [loop, hBody]
    apply ih hOk₂ hStuck₂
    · change 0 < g.len - c.len
      omega
    · intro q hQ
      cases hQ
      exact hLinked.self

/-
  The regions so far: a chain of new addresses with blocks that were free. The first one took all of
  its group.
-/
structure Gathered (geo : Geometry) (fs₀ fs : Fs) (cs : List Piece) : Prop where
  ok : FsOk geo fs
  chain : DChain fs none cs
  nodup : (cs.map Piece.ptr).Nodup
  new : ∀ c ∈ cs, fs₀.brk ≤ c.ptr ∧ c.ptr < fs.brk
  count : fs₀.brk + cs.length = fs.brk
  old : ∀ p, p < fs₀.brk → fs.heap p = fs₀.heap p
  only : ∀ p r, fs₀.brk ≤ p → fs.heap p = some r → ∃ c ∈ cs, p = c.ptr
  gains : Gains geo fs₀ fs (cs.flatMap Piece.blocks)
  positive : ∀ c ∈ cs, 0 < c.len
  top : ∀ c, cs.head? = some c → c.bg < geo.groups ∧ geo.groupStart c.bg < c.block ∧
      c.block + c.len = geo.groupStart c.bg + (fs.bgs c.bg).firstFreeBlock

theorem gathered_nil (hOk : FsOk geo fs) : Gathered geo fs fs [] where
  ok := hOk
  chain := trivial
  nodup := nodup_nil
  new := by simp
  count := rfl
  old := fun _ _ => rfl
  only := by
    intro p r hP hR
    rw [hOk.fresh p hP] at hR
    cases hR
  gains := Gains.refl geo fs
  positive := by simp
  top := by simp

/- The address of the last region. -/
def lastPtr (cs : List Piece) : Option Nat :=
  cs.getLast?.map Piece.ptr

theorem LinkedHeap.other (hLinked : LinkedHeap heap heap' prevReg c)
    (hNew : p ≠ c.ptr) (hPrev : prevReg ≠ some p) : heap' p = heap p := by
  cases prevReg with
  | none => rw [hLinked, update_of_ne hNew]
  | some q =>
    rcases hLinked with ⟨before, _, hHeap⟩
    have hNe : p ≠ q := fun hEq => hPrev (by rw [hEq])
    rw [hHeap, update_of_ne hNew, update_of_ne hNe]

theorem Gathered.chain_snoc (hCs : Gathered geo fs₀ fs cs) (hPtr : c.ptr = fs.brk)
    (hLinked : LinkedHeap fs.heap fs'.heap (lastPtr cs) c) : DChain fs' none (cs ++ [c]) := by
  rcases eq_nil_or_concat cs with hNil | ⟨ds, d, hSnoc⟩
  · rw [hNil] at hLinked ⊢
    refine ⟨?_, trivial⟩
    rw [hLinked, update_self]
    rfl
  · rw [concat_eq_append] at hSnoc
    have hChain := hCs.chain
    have hNodup := hCs.nodup
    have hNew := hCs.new
    rw [hSnoc] at hChain hNodup hNew hLinked ⊢
    rcases hChain.last with ⟨before, hLast⟩
    have hPrev : lastPtr (ds ++ [d]) = some d.ptr := by simp [lastPtr]
    rw [hPrev] at hLinked
    rcases hLinked with ⟨r, hR, hHeap⟩
    have hSame : r = ⟨d.block, d.len, d.bg, none, before⟩ := Option.some.inj (hR.symm.trans hLast)
    rw [hSame] at hHeap
    refine hChain.link hLast hNodup ?_ hHeap
    intro e hE
    have hLess := (hNew e hE).2
    omega

/- One region more. -/
theorem Gathered.snoc (hCs : Gathered geo fs₀ fs cs) {fs₁ : Fs}
    (hAdded : Added geo fs fs₁ c) (hLen : 0 < c.len) (hOk : FsOk geo fs') (hBgs : fs'.bgs = fs₁.bgs)
    (hBrk : fs'.brk = fs.brk + 1) (hLinked : LinkedHeap fs.heap fs'.heap (lastPtr cs) c)
    (hFull : ∀ e, cs.head? = some e → (fs.bgs e.bg).freeBlocks = 0) :
    Gathered geo fs₀ fs' (cs ++ [c]) := by
  have hPtr := hAdded.ptr
  have hCount := hCs.count
  have hLastMem : ∀ p, lastPtr cs = some p → ∃ e ∈ cs, p = e.ptr := by
    intro p hP
    rcases Option.map_eq_some_iff.mp hP with ⟨e, hE, hEq⟩
    exact ⟨e, mem_of_getLast? hE, hEq.symm⟩
  refine
    { ok := hOk
      chain := hCs.chain_snoc hPtr hLinked
      nodup := ?_
      new := ?_
      count := ?_
      old := ?_
      only := ?_
      gains := ?_
      positive := ?_
      top := ?_ }
  · rw [map_append, nodup_append]
    refine ⟨hCs.nodup, by simp, ?_⟩
    intro p hP q hQ
    rcases mem_map.mp hP with ⟨e, hE, hEq⟩
    have hLess := (hCs.new e hE).2
    have hQEq : q = c.ptr := by simpa using hQ
    omega
  · intro e hE
    rcases mem_append.mp hE with hOld | hLast
    · have hBounds := hCs.new e hOld
      omega
    · rw [mem_singleton.mp hLast]
      omega
  · rw [length_append, length_singleton]
    omega
  · intro p hP
    rw [hLinked.other (by omega) ?_]
    · exact hCs.old p hP
    · intro hEq
      rcases hLastMem p hEq with ⟨e, hE, hSame⟩
      have hBounds := (hCs.new e hE).1
      omega
  · intro p r hP hR
    by_cases hNew : p = c.ptr
    · exact ⟨c, by simp, hNew⟩
    · by_cases hLast : lastPtr cs = some p
      · rcases hLastMem p hLast with ⟨e, hE, hEq⟩
        exact ⟨e, by simp [hE], hEq⟩
      · rw [hLinked.other hNew hLast] at hR
        rcases hCs.only p r hP hR with ⟨e, hE, hEq⟩
        exact ⟨e, by simp [hE], hEq⟩
  · rw [flatMap_append]
    refine hCs.gains.trans ?_
    rw [flatMap_singleton]
    exact (hAdded.gains hCs.ok).congr hBgs.symm
  · intro e hE
    rcases mem_append.mp hE with hOld | hLast
    · exact hCs.positive e hOld
    · rw [mem_singleton.mp hLast]
      exact hLen
  · intro e hE
    rw [hBgs]
    cases cs with
    | nil =>
      cases hE
      rcases hAdded.grab with ⟨fs₂, hGrab, hBgs₂⟩
      have hHeader := (hCs.ok.groups _ hGrab.group).header
      have hStart := hGrab.start
      refine ⟨hGrab.group, by omega, ?_⟩
      rw [← hBgs₂, hGrab.firstFree]
      omega
    | cons d ds =>
      cases hE
      rw [hAdded.full hLen (hFull e rfl)]
      exact hCs.top e rfl

/- What comes of a request for blocks. -/
inductive Outcome (geo : Geometry) (fs₀ : Fs) (len : Nat) : Except Fault (Fs × Option Nat) → Prop
| failed {fs : Fs} (hOk : FsOk geo fs) (hMono : ∀ b, Taken geo fs₀ b → Taken geo fs b)
    (hLens : regionLens geo fs₀ len = none) : Outcome geo fs₀ len (.ok (fs, none))
| endless (hLens : regionLens geo fs₀ len = none) : Outcome geo fs₀ len (.error .outOfFuel)
| empty {fs : Fs} (c : Piece) (hAdded : Added geo fs₀ fs c) (hEmpty : c.len = 0) (hLen : len = 0)
    (hLens : regionLens geo fs₀ len = some [0]) : Outcome geo fs₀ len (.ok (fs, some c.ptr))
| got {fs : Fs} (c : Piece) (cs : List Piece) (hCs : Gathered geo fs₀ fs (c :: cs))
    (hSum : ((c :: cs).map Piece.len).sum = len)
    (hLens : regionLens geo fs₀ len = some ((c :: cs).map Piece.len)) :
    Outcome geo fs₀ len (.ok (fs, some c.ptr))

theorem lastPtr_live (hCs : Gathered geo fs₀ fs cs) {q : Nat}
    (hQ : lastPtr cs = some q) : ∃ r, fs.heap q = some r := by
  rcases eq_nil_or_concat cs with hNil | ⟨ds, d, hSnoc⟩
  · rw [hNil] at hQ
    cases hQ
  · rw [concat_eq_append] at hSnoc
    have hChain := hCs.chain
    rw [hSnoc] at hChain hQ
    have hEq : d.ptr = q := by simpa [lastPtr] using hQ
    rcases hChain.last with ⟨before, hLast⟩
    rw [hEq] at hLast
    exact ⟨_, hLast⟩

/-
  The loop takes regions until the request is met. The first group that it takes from has not enough
  blocks for all.
-/
theorem gather_spec {len : Nat} (hCs : Gathered geo fs₀ g.fs cs) (hFirst : g.firstReg = headPtr cs)
    (hLast : g.prevReg = lastPtr cs) (hSum : (cs.map Piece.len).sum + g.len = len)
    (hLens : regionLens geo fs₀ len =
      (gatheredLens (unusedFree geo g.fs) g.len).map (cs.map Piece.len ++ ·))
    (hFew : cs = [] → 0 < g.len ∧ ∀ i, i < geo.groups → (g.fs.bgs i).freeBlocks < g.len)
    (hFull : ∀ e, cs.head? = some e → (g.fs.bgs e.bg).freeBlocks = 0)
    {fuel : Nat} (hFuel : g.len < fuel) : Outcome geo fs₀ len (loop (gatherBody geo) fuel g) := by
  induction fuel generalizing g cs with
  | zero => cases hFuel
  | succ fuel ih =>
    have hPrev : ∀ q, g.prevReg = some q → ∃ r, g.fs.heap q = some r := by
      intro q hQ
      rw [hLast] at hQ
      exact lastPtr_live hCs hQ
    by_cases hLen : 0 < g.len
    · rcases allocatePartial_spec hCs.ok hLen with
        ⟨hNone, hNoLens⟩ | ⟨fs₁, c, hRun, hAdded, hLe, hAll, hZero, hNext⟩
      · have hBody : gatherBody geo g = .ok (.done (g.fs, none)) := by
          unfold gatherBody
          rw [if_pos hLen, hNone, ok_bind]
          rfl
        simp only [loop, hBody]
        rw [hNoLens] at hLens
        exact .failed hCs.ok hCs.gains.mono hLens
      · by_cases hC : c.len = 0
        · rw [gather_diverges hCs.ok (hZero hC) hLen hPrev]
          rw [hNext, if_pos hC] at hLens
          exact .endless hLens
        · rcases gatherBody_again hCs.ok hLen hRun hAdded hPrev
            with ⟨fs₂, hBody, hOk₂, hBgs, hBrk, hLinked⟩
          simp only [loop, hBody]
          rw [hLast] at hLinked
          have hSnoc := hCs.snoc hAdded (by omega) hOk₂ hBgs hBrk hLinked hFull
          refine ih hSnoc ?_ ?_ ?_ ?_ ?_ ?_ ?_
          · rw [hFirst]
            cases cs with
            | nil | cons d ds => rfl
          · simp [lastPtr]
          · simp only [map_append, sum_append, map_cons, map_nil, sum_singleton]
            omega
          · have hSame : unusedFree geo fs₂ = unusedFree geo fs₁ := by
              unfold unusedFree
              rw [hBgs]
            rw [hLens, hNext, if_neg hC, Option.map_map, hSame]
            simp [Function.comp_def]
          · intro hNil
            simp at hNil
          · intro e hE
            rw [hBgs]
            cases cs with
            | nil =>
              cases hE
              rcases hAdded.grab with ⟨_, hGrab, _⟩
              have hEnough := hGrab.enough
              have hLess := (hFew rfl).2 c.bg hGrab.group
              exact hAll (by omega)
            | cons d ds =>
              cases hE
              rw [hAdded.full (by omega) (hFull e rfl)]
              exact hFull e rfl
          · change g.len - c.len < fuel
            omega
    · have hBody : gatherBody geo g = .ok (.done (g.fs, g.firstReg)) := by
        unfold gatherBody
        rw [if_neg hLen]
      simp only [loop, hBody]
      rw [hFirst]
      cases cs with
      | nil => exact absurd (hFew rfl).1 hLen
      | cons c cs =>
        rw [Nat.eq_zero_of_not_pos hLen, gatheredLens, Option.map_some, append_nil] at hLens
        exact .got c cs hCs (by omega) hLens

/- `do_allocate`. -/
theorem doAllocate_spec (hOk : FsOk geo fs) (len : Nat) :
    Outcome geo fs len (doAllocate geo fs len) := by
  unfold doAllocate
  rcases allocateContiguousBlocks_spec hOk len (range geo.groups) (by simp) with
    ⟨hNone, hFew⟩ | ⟨fs', c, hRun, hAdded, hLen⟩
  · have hNot : ¬ ∃ i ∈ range geo.groups, len ≤ (fs.bgs i).freeBlocks :=
      fun ⟨i, hI, hEnough⟩ => absurd (hFew i hI) (not_lt.mpr hEnough)
    rw [hNone, ok_bind]
    by_cases hZero : len = 0
    · rw [hZero] at hNot ⊢
      exact .failed hOk (fun _ => id) (by rw [regionLens, if_neg hNot, if_pos rfl])
    · refine gather_spec (g := ⟨fs, none, none, len⟩) (gathered_nil hOk) rfl rfl (zero_add len)
        ?_ ?_ ?_ (Nat.lt_succ_self len)
      · rw [regionLens, if_neg hNot, if_neg hZero]
        simp
      · intro _
        exact ⟨Nat.pos_of_ne_zero hZero, fun i hI => hFew i (mem_range.mpr hI)⟩
      · intro e hE
        cases hE
  · have hLens : regionLens geo fs len = some [c.len] := by
      rcases hAdded.grab with ⟨_, hGrab, _⟩
      rw [regionLens, if_pos ⟨c.bg, mem_range.mpr hGrab.group, hLen ▸ hGrab.enough⟩, hLen]
    rw [hRun, ok_bind]
    by_cases hZero : len = 0
    · exact .empty c hAdded (hLen.trans hZero) hZero (by rw [hLens, hLen, hZero])
    · have hCs := (gathered_nil hOk).snoc hAdded (by omega)
        (hAdded.fsOk hOk) rfl hAdded.brk hAdded.heap
        (fun e hE => by cases hE)
      exact .got c [] hCs (by simp [hLen]) hLens

end OpenIvi.Ext4
