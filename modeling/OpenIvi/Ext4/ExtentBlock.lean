import OpenIvi.Ext4.Allocations

/-
  The block that is allocated on top of those of the file.

  With few regions the last block of the first region is given back, for the first region is the
  last one of the list. With many regions the first block of the first region is split off for the
  extents. Neither works if the first of several regions has one block only: the list is dropped, or
  all but the first region are taken off it.

  Main declarations:
    * `Kept`
    * `Moved`
    * `move_all`
    * `takeExtentBlock_spec`
-/

------
-- Walking Along A Chain
------

namespace OpenIvi.Ext4

open Lib List Function

variable {p : Nat} {ds : List Piece} {c d : Piece} {geo : Geometry} {fs fs₀ fs' : Fs}

/- Where a region is and how long. -/
def Region.extent (r : Region) : Nat × Nat :=
  (r.block, r.len)

def Piece.extent (c : Piece) : Nat × Nat :=
  (c.block, c.len)

variable {cs : List Piece}

theorem regionsFrom_chain (hChain : Chain fs cs) {fuel : Nat} (hFuel : cs.length ≤ fuel) :
    ∃ regions, regionsFrom fs fuel (headPtr cs) = .ok regions ∧
      regions.map Region.extent = cs.map Piece.extent := by
  induction cs generalizing fuel with
  | nil =>
    refine ⟨[], ?_, rfl⟩
    cases fuel with
    | zero | succ fuel => rfl
  | cons c cs ih =>
    cases fuel with
    | zero => simp at hFuel
    | succ fuel =>
      rcases hChain with ⟨⟨prev, hHeap⟩, hRest⟩
      rcases ih hRest (by simpa using hFuel) with ⟨regions, hRun, hSame⟩
      refine ⟨⟨c.block, c.len, c.bg, headPtr cs, prev⟩ :: regions, ?_, ?_⟩
      · change regionsFrom fs (fuel + 1) (some c.ptr) = _
        rw [regionsFrom, get_region_eq hHeap, ok_bind, hRun]
        rfl
      · rw [map_cons, hSame]
        rfl

theorem Chain.mem (hChain : Chain fs cs) (hD : d ∈ cs) :
    ∃ next prev, fs.heap d.ptr = some ⟨d.block, d.len, d.bg, next, prev⟩ := by
  induction cs with
  | nil => cases hD
  | cons c cs ih =>
    rcases hChain with ⟨⟨prev, hHeap⟩, hRest⟩
    rcases mem_cons.mp hD with hEq | hTail
    · rw [hEq]
      exact ⟨headPtr cs, prev, hHeap⟩
    · exact ih hRest hTail

/- The new list of an allocation. -/
def freshAllocation (p : Nat) : BlockAllocation :=
  ⟨⟨some p, some p, some p, 0⟩, emptyList⟩

theorem numRegions_eq (hCs : Gathered geo fs₀ fs (c :: cs)) :
    blockAllocationNumRegions fs (freshAllocation c.ptr) = .ok (cs.length + 1) := by
  have hCount := hCs.count
  rcases regionsFrom_chain hCs.chain.chain (by omega : (c :: cs).length ≤ fs.brk) with
    ⟨regions, hRun, hSame⟩
  have hLength := congrArg length hSame
  rw [length_map, length_map] at hLength
  change (regionsFrom fs fs.brk (headPtr (c :: cs)) >>= _) = _
  rw [hRun, ok_bind, hLength]
  rfl

------
-- Giving The Block Back
------

/- The last block of the first region is free again. -/
structure Freed (geo : Geometry) (fs fs' : Fs) (c : Piece) : Prop where
  heap : fs'.heap = fs.heap
  brk : fs'.brk = fs.brk
  groups : ∀ i, i < geo.groups → GroupOk geo i (fs'.bgs i)
  taken : ∀ b, Taken geo fs' b ↔ Taken geo fs b ∧ b ≠ c.block + c.len - 1

/- The first region without its last block. -/
def Piece.shorten (c : Piece) : Piece :=
  { c with len := c.len - 1 }

/- Regions of blocks that were free: a file can be mapped to them. -/
structure Kept (geo : Geometry) (fs₀ fs : Fs) (cs : List Piece) : Prop where
  ok : FsOk geo fs
  chain : Chain fs cs
  count : cs.length ≤ fs.brk
  gains : Gains geo fs₀ fs (cs.flatMap Piece.blocks)

/- The rest of the first region, at a new address. -/
def Piece.rest (c : Piece) (p : Nat) : Piece :=
  ⟨p, c.block + 1, c.len - 1, c.bg⟩

section

variable (hCs : Gathered geo fs₀ fs (c :: cs))

include hCs

theorem freeRegionBlocks_spec (next prev : Option Nat) :
    ∃ fs', freeRegionBlocks fs ⟨c.block, c.len, c.bg, next, prev⟩ 1 = .ok fs' ∧
      Freed geo fs fs' c := by
  rcases hCs.top c rfl with ⟨hI, hStart, hTop⟩
  have hLen := hCs.positive c (by simp)
  have hGroup := hCs.ok.groups c.bg hI
  have hLimit := hGroup.limit
  rcases hGroup.freeBlocks_one hI (by omega) with ⟨bg, hRun, hOk, hFirst⟩
  generalize hFs :
    { fs with bgs := update fs.bgs c.bg bg } = fs'
  have hSelf : fs'.bgs c.bg = bg := by
    rw [← hFs]
    exact update_self ..
  have hOther : ∀ j, j ≠ c.bg → fs'.bgs j = fs.bgs j := by
    intro j hJ
    rw [← hFs]
    exact update_of_ne hJ ..
  refine ⟨fs', ?_, by rw [← hFs], by rw [← hFs], ?_, ?_⟩
  · unfold freeRegionBlocks
    rw [hRun, ok_bind, ← hFs]
    rfl
  · intro i hIn
    by_cases hSame : i = c.bg
    · rw [hSame, hSelf]
      exact hOk
    · rw [hOther i hSame]
      exact hCs.ok.groups i hIn
  · intro b
    constructor
    · rintro ⟨j, k, hJ, hK, hB⟩
      by_cases hSame : j = c.bg
      · rw [hSame, hSelf, hFirst] at hK
        rw [hSame] at hB
        exact ⟨⟨c.bg, k, hI, by omega, hB⟩, by omega⟩
      · rw [hOther j hSame] at hK
        refine ⟨⟨j, k, hJ, hK, hB⟩, ?_⟩
        intro hLast
        have hLimitJ := (hCs.ok.groups j hJ).limit
        have hEq : geo.groupStart j + k = geo.groupStart c.bg +
            ((fs.bgs c.bg).firstFreeBlock - 1) := by
          omega
        exact hSame (eq_of_groupStart_add (by omega) (by omega) hEq).1
    · rintro ⟨⟨j, k, hJ, hK, hB⟩, hNe⟩
      refine ⟨j, k, hJ, ?_, hB⟩
      by_cases hSame : j = c.bg
      · rw [hSame] at hK hB ⊢
        rw [hSelf, hFirst]
        omega
      · rw [hOther j hSame]
        exact hK

theorem Gathered.last_mem : c.block + c.len - 1 ∈ c.blocks := by
  have hLen := hCs.positive c (by simp)
  unfold Piece.blocks
  rw [mem_range'_1]
  omega

theorem Gathered.ptr_ne (hD : d ∈ cs) : d.ptr ≠ c.ptr := by
  intro hEq
  have hNodup := hCs.nodup
  rw [map_cons, nodup_cons] at hNodup
  apply hNodup.1
  rw [← hEq]
  exact mem_map_of_mem hD

/- A part of the first region in its place. -/
theorem Gathered.part (hPart : ∀ b ∈ d.blocks, b ∈ c.blocks) :
    ((d :: cs).flatMap Piece.blocks).Nodup ∧
      ∀ b ∈ (d :: cs).flatMap Piece.blocks, b ∈ (c :: cs).flatMap Piece.blocks := by
  have hNodup := hCs.gains.nodup
  rcases nodup_append.mp hNodup with ⟨_, hRest, hApart⟩
  refine ⟨nodup_append.mpr ⟨nodup_range', hRest, fun a hA => hApart a (hPart a hA)⟩, ?_⟩
  intro b hB
  rcases mem_append.mp hB with hHead | hTail
  · exact mem_append_left _ (hPart b hHead)
  · exact mem_append_right _ hTail

section

variable (hFreed : Freed geo fs fs' c)

include hFreed

theorem Freed.mono : ∀ b, Taken geo fs₀ b → Taken geo fs' b := by
  intro b hB
  refine (hFreed.taken b).mpr ⟨hCs.gains.mono b hB, ?_⟩
  intro hEq
  rw [hEq] at hB
  refine hCs.gains.free _ ?_ hB
  exact mem_append_left _ hCs.last_mem

variable (hOk₀ : FsOk geo fs₀)

include hOk₀

/- The block is in no other region. -/
theorem Freed.other_region {r : Region} (hR : fs.heap p = some r) (hP : p ≠ c.ptr) :
    RegionOk geo fs' r := by
  have hOk := hCs.ok.regions p r hR
  have hLast := hCs.last_mem
  refine ⟨hOk.1, ?_⟩
  intro b hB
  refine (hFreed.taken b).mpr ⟨hOk.2 b hB, ?_⟩
  intro hEq
  rw [hEq] at hB
  by_cases hOld : p < fs₀.brk
  · rw [hCs.old p hOld] at hR
    have hTaken := (hOk₀.regions p r hR).2 _ hB
    refine hCs.gains.free _ ?_ hTaken
    exact mem_append_left _ hLast
  · rcases hCs.only p r (by omega) hR with ⟨d, hD, hPtr⟩
    rcases mem_cons.mp hD with hSame | hTail
    · rw [hSame] at hPtr
      exact hP hPtr
    · rcases hCs.chain.chain.mem hD with ⟨next, prev, hHeap⟩
      rw [hPtr, hHeap] at hR
      cases hR
      have hNodup := hCs.gains.nodup
      exact disjoint_of_nodup_append hNodup hLast (mem_flatMap.mpr ⟨d, hTail, hB⟩)

/- The first region is changed or freed. -/
theorem Freed.fsOk {x : Option Region} (hX : ∀ r, x = some r → RegionOk geo fs' r) :
    FsOk geo
      { fs' with heap := update fs'.heap c.ptr x } := by
  have hPtr := (hCs.new c (by simp)).2
  refine ⟨hFreed.groups, ?_, ?_⟩
  · intro p hP
    rw [hFreed.brk] at hP
    change update fs'.heap c.ptr x p = none
    rw [update_of_ne (by omega), hFreed.heap]
    exact hCs.ok.fresh p hP
  · intro p r hR
    change update fs'.heap c.ptr x p = some r at hR
    by_cases hSame : p = c.ptr
    · rw [hSame, update_self] at hR
      exact hX r hR
    · rw [update_of_ne hSame, hFreed.heap] at hR
      exact hFreed.other_region hCs hOk₀ hR hSame

theorem Freed.keep :
    Kept geo fs₀ (fs'.set c.ptr ⟨c.block, c.len - 1, c.bg, headPtr cs, none⟩)
      (c.shorten :: cs) := by
  have hCount := hCs.count
  have hNodup := hCs.gains.nodup
  have hShort : ∀ b ∈ c.shorten.blocks, b ∈ c.blocks := by
    intro b hB
    simp only [Piece.blocks, Piece.shorten, mem_range'_1] at hB ⊢
    omega
  rcases hCs.part hShort with ⟨hApart, hAll⟩
  have hAway : ∀ b ∈ (c.shorten :: cs).flatMap Piece.blocks, b ≠ c.block + c.len - 1 := by
    intro b hB
    rcases mem_append.mp hB with hHead | hTail
    · simp only [Piece.blocks, Piece.shorten, mem_range'_1] at hHead
      omega
    · intro hEq
      rw [hEq] at hTail
      exact disjoint_of_nodup_append hNodup hCs.last_mem hTail
  refine ⟨hFreed.fsOk hCs hOk₀ ?_, ⟨⟨none, ?_⟩, ?_⟩, ?_, hApart, ?_, ?_, (hFreed.mono hCs :)⟩
  · intro r hR
    cases hR
    have hOld := hCs.ok.regions c.ptr _ hCs.chain.1
    refine ⟨hOld.1, ?_⟩
    intro b hB
    refine (hFreed.taken b).mpr ⟨hOld.2 b (hShort b hB), hAway b ?_⟩
    exact mem_append_left _ hB
  · exact update_self ..
  · apply hCs.chain.chain.2.congr
    intro d hD
    have hSame : (fs'.set c.ptr ⟨c.block, c.len - 1, c.bg, headPtr cs, none⟩).heap
        d.ptr = fs'.heap d.ptr :=
      update_of_ne (hCs.ptr_ne hD) ..
    rw [hSame, hFreed.heap]
  · change (c.shorten :: cs).length ≤ fs'.brk
    rw [hFreed.brk]
    simp only [length_cons] at hCount ⊢
    omega
  · intro b hB
    exact hCs.gains.free b (hAll b hB)
  · intro b hB
    exact (hFreed.taken b).mpr ⟨hCs.gains.taken b (hAll b hB), hAway b hB⟩

end

/- With a first region of two blocks or more, it is shortened. -/
theorem reduceAllocation_long (hOk₀ : FsOk geo fs₀) (hLong : 1 < c.len) :
    ∃ fs', reduceAllocation fs (freshAllocation c.ptr) 1 = .ok (fs', freshAllocation c.ptr) ∧
      Kept geo fs₀ fs' (c.shorten :: cs) := by
  rcases freeRegionBlocks_spec hCs (headPtr cs) none with ⟨fs₁, hFree, hFreed⟩
  have hHeap := hCs.chain.1
  refine ⟨_, ?_, hFreed.keep hCs hOk₀⟩
  have hFirst : reduceBody ⟨fs, freshAllocation c.ptr, 1⟩ = .ok (.again ⟨fs₁.set c.ptr
      ⟨c.block, c.len - 1, c.bg, headPtr cs, none⟩, freshAllocation c.ptr, 0⟩) := by
    unfold reduceBody
    simp only [one_ne_zero, if_false, freshAllocation, get_region_eq hHeap, ok_bind, hLong,
      gt_iff_lt, if_true, hFree, Option.getD_some]
    rfl
  unfold reduceAllocation
  simp only [loop, hFirst]
  rfl

/- A first region of one block is dropped with all others. -/
theorem reduceAllocation_short (hOk₀ : FsOk geo fs₀) (hShort : c.len = 1) :
    ∃ fs', reduceAllocation fs (freshAllocation c.ptr) 1 = .ok (fs', ⟨emptyList, emptyList⟩) ∧
      FsOk geo fs' ∧ ∀ b, Taken geo fs₀ b → Taken geo fs' b := by
  rcases freeRegionBlocks_spec hCs (headPtr cs) none with ⟨fs₁, hFree, hFreed⟩
  have hHeap := hCs.chain.1
  refine ⟨fs₁.free c.ptr, ?_, hFreed.fsOk hCs hOk₀ (fun r hR => by cases hR), (hFreed.mono hCs :)⟩
  have hFirst : reduceBody ⟨fs, freshAllocation c.ptr, 1⟩ =
      .ok (.again ⟨fs₁.free c.ptr, ⟨emptyList, emptyList⟩, 0⟩) := by
    rw [hShort] at hFree hHeap
    unfold reduceBody
    simp only [one_ne_zero, if_false, freshAllocation, get_region_eq hHeap, ok_bind, gt_iff_lt,
      lt_irrefl, hFree, dropLast, Option.getD_some]
    rfl
  unfold reduceAllocation
  simp only [loop, hFirst]
  rfl

------
-- Taking The Block For The Extents
------

theorem doSplitAllocation_zero :
    doSplitAllocation fs (freshAllocation c.ptr) 0 =
      .ok (fs, freshAllocation c.ptr, some c.ptr) := by
  have hLen := hCs.positive c (by simp)
  have hSkip : skipRegions fs (fs.brk + 1) (some c.ptr) 0 = .ok (some c.ptr, 0) := by
    rw [skipRegions, get_region_eq hCs.chain.1, ok_bind, if_neg (Nat.not_le_of_lt hLen)]
    rfl
  unfold doSplitAllocation
  simp only [freshAllocation, hSkip, ok_bind, gt_iff_lt, Nat.lt_irrefl, if_false]
  rfl

/- The first block is split off from the others. -/
theorem splitAllocation_long (hLong : 1 < c.len) :
    splitAllocation fs (freshAllocation c.ptr) 1 = .ok (
      ((fs.alloc ⟨c.block + 1, c.len - 1, c.bg, headPtr cs, some c.ptr⟩).1.set c.ptr
        ⟨c.block, 1, c.bg, some fs.brk, none⟩),
      ⟨⟨some c.ptr, some c.ptr, some fs.brk, 0⟩, emptyList⟩, some c.ptr) := by
  have hHeap := hCs.chain.1
  have hSkip : skipRegions fs (fs.brk + 1) (some c.ptr) 1 = .ok (some c.ptr, 1) := by
    rw [skipRegions, get_region_eq hHeap, ok_bind, if_neg (Nat.not_le_of_lt hLong)]
    rfl
  unfold splitAllocation
  have hZero := doSplitAllocation_zero hCs
  simp only [freshAllocation] at hZero ⊢
  rw [hZero, ok_bind]
  simp only [doSplitAllocation, hSkip, ok_bind, gt_iff_lt, Nat.zero_lt_one, if_true,
    get_region_eq hHeap]
  rfl

/- All of a first region of one block is skipped. -/
theorem splitAllocation_short (hShort : c.len = 1) :
    splitAllocation fs (freshAllocation c.ptr) 1 = .ok (fs, freshAllocation c.ptr, headPtr cs) := by
  have hHeap := hCs.chain.1
  have hCount := hCs.count
  have hNext : skipRegions fs fs.brk (headPtr cs) 0 = .ok (headPtr cs, 0) := by
    cases cs with
    | nil =>
      cases fs.brk with
      | zero | succ n => rfl
    | cons d ds =>
      have hLen := hCs.positive d (by simp)
      obtain ⟨n, hBrk⟩ : ∃ n, fs.brk = n + 1 := by
        refine ⟨fs.brk - 1, ?_⟩
        simp only [length_cons] at hCount
        omega
      change skipRegions fs fs.brk (some d.ptr) 0 = .ok (some d.ptr, 0)
      rw [hBrk, skipRegions, get_region_eq hCs.chain.2.1, ok_bind, if_neg (Nat.not_le_of_lt hLen)]
      rfl
  have hSkip : skipRegions fs (fs.brk + 1) (some c.ptr) 1 = .ok (headPtr cs, 0) := by
    rw [skipRegions, get_region_eq hHeap, ok_bind, if_pos (Nat.le_of_eq hShort), hShort]
    exact hNext
  have hZero := doSplitAllocation_zero hCs
  unfold splitAllocation
  simp only [freshAllocation] at hZero ⊢
  rw [hZero, ok_bind]
  simp only [doSplitAllocation, hSkip, ok_bind]
  cases hHead : headPtr cs with
  | none | some p => rfl

/- How the list and the heap look afterwards. -/
theorem reserveOobBlocks_heap (hLong : 1 < c.len) :
    ∃ fs', reserveOobBlocks fs (freshAllocation c.ptr) 1 = .ok (fs',
      ⟨⟨some fs.brk, none, some fs.brk, 0⟩, ⟨some c.ptr, some c.ptr, some c.ptr, 0⟩⟩) ∧
      fs'.bgs = fs.bgs ∧ fs'.brk = fs.brk + 1 ∧
      fs'.heap c.ptr = some ⟨c.block, 1, c.bg, none, none⟩ ∧
      fs'.heap fs.brk = some ⟨c.block + 1, c.len - 1, c.bg, headPtr cs, none⟩ ∧
      ∀ p, p ≠ c.ptr → p ≠ fs.brk → fs'.heap p = fs.heap p := by
  have hNe : c.ptr ≠ fs.brk := by
    have hLess := (hCs.new c (by simp)).2
    omega
  generalize hFs₁ : ((fs.alloc ⟨c.block + 1, c.len - 1, c.bg, headPtr cs, some c.ptr⟩).1.set c.ptr
      ⟨c.block, 1, c.bg, some fs.brk, none⟩) = fs₁
  have hSplit := splitAllocation_long hCs hLong
  rw [hFs₁] at hSplit
  have hC₁ : fs₁.heap c.ptr = some ⟨c.block, 1, c.bg, some fs.brk, none⟩ := by
    rw [← hFs₁]
    exact update_self ..
  have hQ₁ : fs₁.heap fs.brk = some ⟨c.block + 1, c.len - 1, c.bg, headPtr cs, some c.ptr⟩ := by
    rw [← hFs₁]
    exact (update_of_ne hNe.symm ..).trans (update_self ..)
  have hOther₁ : ∀ p, p ≠ c.ptr → p ≠ fs.brk → fs₁.heap p = fs.heap p := by
    intro p hP hQ
    rw [← hFs₁]
    exact (update_of_ne hP ..).trans (update_of_ne hQ ..)
  generalize hFs₂ : fs₁.set fs.brk ⟨c.block + 1, c.len - 1, c.bg, headPtr cs, none⟩ = fs₂
  have hC₂ : fs₂.heap c.ptr = some ⟨c.block, 1, c.bg, some fs.brk, none⟩ := by
    rw [← hFs₂]
    exact (update_of_ne hNe ..).trans hC₁
  generalize hFs₃ : fs₂.set c.ptr ⟨c.block, 1, c.bg, none, none⟩ = fs₃
  have hC₃ : fs₃.heap c.ptr = some ⟨c.block, 1, c.bg, none, none⟩ := by
    rw [← hFs₃]
    exact update_self ..
  have hRemove : regionListRemove fs₁ ⟨some c.ptr, some c.ptr, some fs.brk, 0⟩ c.ptr =
      .ok (fs₃, ⟨some fs.brk, none, some fs.brk, 0⟩) := by
    unfold regionListRemove
    simp only [get_region_eq hC₁, ok_bind, setNext, setPrev, get_region_eq hQ₁, hFs₂, pure,
      Except.pure, get_region_eq hC₂, hFs₃, if_true]
  have hAppend : regionListAppend fs₃ emptyList c.ptr =
      .ok (fs₃.set c.ptr ⟨c.block, 1, c.bg, none, none⟩,
        ⟨some c.ptr, some c.ptr, some c.ptr, 0⟩) := by
    unfold regionListAppend
    simp only [emptyList, get_region_eq hC₃, ok_bind]
    rfl
  have hMove : moveBody ⟨fs₁, ⟨⟨some c.ptr, some c.ptr, some fs.brk, 0⟩, emptyList⟩, some c.ptr⟩ =
      .ok (.again ⟨fs₃.set c.ptr ⟨c.block, 1, c.bg, none, none⟩,
          ⟨⟨some fs.brk, none, some fs.brk, 0⟩, ⟨some c.ptr, some c.ptr, some c.ptr, 0⟩⟩,
          some fs.brk⟩) := by
    have hDiffers : ¬ some c.ptr = some fs.brk := fun hEq => hNe (Option.some.inj hEq)
    unfold moveBody
    simp only [if_neg hDiffers, get_region_eq hC₁, ok_bind, hRemove, hAppend]
    rfl
  have hBrk : fs₁.brk = fs.brk + 1 := by
    rw [← hFs₁]
    rfl
  refine ⟨fs₃.set c.ptr ⟨c.block, 1, c.bg, none, none⟩, ?_, ?_, ?_, update_self .., ?_, ?_⟩
  · unfold reserveOobBlocks
    rw [hSplit, ok_bind]
    simp only [hBrk, loop, hMove]
    simp only [moveBody, if_true]
  · rw [← hFs₃, ← hFs₂, ← hFs₁]
    rfl
  · rw [← hBrk, ← hFs₃, ← hFs₂]
    rfl
  · refine (update_of_ne hNe.symm ..).trans ?_
    rw [← hFs₃, ← hFs₂]
    exact (update_of_ne hNe.symm ..).trans (update_self ..)
  · intro p hP hQ
    refine (update_of_ne hP ..).trans ?_
    rw [← hOther₁ p hP hQ, ← hFs₃, ← hFs₂]
    exact (update_of_ne hP ..).trans (update_of_ne hQ ..)

/- The rest of the first region maps the file. -/
theorem reserveOobBlocks_long (hLong : 1 < c.len) :
    ∃ fs' oobList, reserveOobBlocks fs (freshAllocation c.ptr) 1 =
      .ok (fs', ⟨⟨some fs.brk, none, some fs.brk, 0⟩, oobList⟩) ∧
      getOobBlock fs' ⟨⟨some fs.brk, none, some fs.brk, 0⟩, oobList⟩ 0 = .ok c.block ∧
      Kept geo fs₀ fs' (c.rest fs.brk :: cs) := by
  rcases reserveOobBlocks_heap hCs hLong with ⟨fs', hRun, hBgs, hBrk, hC, hQ, hOther⟩
  refine ⟨fs', _, hRun, ?_, ?_⟩
  · unfold getOobBlock
    rw [blockFrom, get_region_eq hC]
    rfl
  · have hCount := hCs.count
    have hTaken : ∀ b, Taken geo fs b → Taken geo fs' b := fun _ => (taken_congr hBgs.symm).mp
    have hOld := hCs.ok.regions c.ptr _ hCs.chain.1
    have hFirst : ∀ b ∈ range' c.block 1, b ∈ c.blocks := by
      intro b hB
      simp only [Piece.blocks, mem_range'_1] at hB ⊢
      omega
    have hRest : ∀ b ∈ (c.rest fs.brk).blocks, b ∈ c.blocks := by
      intro b hB
      simp only [Piece.blocks, Piece.rest, mem_range'_1] at hB ⊢
      omega
    rcases hCs.part hRest with ⟨hApart, hAll⟩
    refine ⟨⟨?_, ?_, ?_⟩, ⟨⟨none, hQ⟩, ?_⟩, ?_, hApart, ?_, ?_, ?_⟩
    · rw [hBgs]
      exact hCs.ok.groups
    · intro p hP
      have hPtr := (hCs.new c (by simp)).2
      rw [hOther p (by omega) (by omega)]
      exact hCs.ok.fresh p (by omega)
    · intro p r hR
      by_cases hSame : p = c.ptr
      · rw [hSame, hC] at hR
        cases hR
        exact ⟨hOld.1, fun b hB => hTaken b (hOld.2 b (hFirst b hB))⟩
      · by_cases hNew : p = fs.brk
        · rw [hNew, hQ] at hR
          cases hR
          exact ⟨Nat.succ_pos _, fun b hB => hTaken b (hOld.2 b (hRest b hB))⟩
        · rw [hOther p hSame hNew] at hR
          exact (hCs.ok.regions p r hR).mono hTaken
    · apply hCs.chain.chain.2.congr
      intro d hD
      have hLess := (hCs.new d (by simp [hD])).2
      exact hOther d.ptr (hCs.ptr_ne hD) (by omega)
    · simp only [length_cons] at hCount ⊢
      omega
    · intro b hB
      exact hCs.gains.free b (hAll b hB)
    · intro b hB
      exact hTaken b (hCs.gains.taken b (hAll b hB))
    · intro b hB
      exact hTaken b (hCs.gains.mono b hB)

end

------
-- A First Region Of One Block
------

variable {fs'' : Fs}

/- Only links between regions were changed. -/
structure Relinked (fs fs' : Fs) : Prop where
  bgs : fs'.bgs = fs.bgs
  brk : fs'.brk = fs.brk
  extents : ∀ p, (fs'.heap p).map Region.extent = (fs.heap p).map Region.extent

theorem Relinked.refl (fs : Fs) : Relinked fs fs :=
  ⟨rfl, rfl, fun _ => rfl⟩

theorem Relinked.trans (hFirst : Relinked fs fs') (hSecond : Relinked fs' fs'') :
    Relinked fs fs'' where
  bgs := hSecond.bgs.trans hFirst.bgs
  brk := hSecond.brk.trans hFirst.brk
  extents := fun p => (hSecond.extents p).trans (hFirst.extents p)

theorem relinked_set {r : Region} (hR : fs.heap p = some r) (r' : Region)
    (hExtent : r'.extent = r.extent) : Relinked fs (fs.set p r') where
  bgs := rfl
  brk := rfl
  extents := by
    intro q
    by_cases hSame : q = p
    · rw [hSame, hR]
      have hSelf : (fs.set p r').heap p = some r' := update_self ..
      rw [hSelf, Option.map_some, Option.map_some, hExtent]
    · have hOther : (fs.set p r').heap q = fs.heap q := update_of_ne hSame ..
      rw [hOther]

theorem Relinked.fsOk (hRelinked : Relinked fs fs') (hOk : FsOk geo fs) : FsOk geo fs' where
  groups := by
    rw [hRelinked.bgs]
    exact hOk.groups
  fresh := by
    intro p hP
    rw [hRelinked.brk] at hP
    have hSame := hRelinked.extents p
    rw [hOk.fresh p hP, Option.map_none] at hSame
    exact Option.map_eq_none_iff.mp hSame
  regions := by
    intro p r' hR'
    have hSame := hRelinked.extents p
    rw [hR', Option.map_some] at hSame
    rcases Option.map_eq_some_iff.mp hSame.symm with ⟨r, hR, hExtent⟩
    have hOld := (hOk.regions p r hR).mono (fun _ => (taken_congr hRelinked.bgs.symm).mp)
    have hBlock : r'.block = r.block := (congrArg Prod.fst hExtent).symm
    have hLen : r'.len = r.len := (congrArg Prod.snd hExtent).symm
    unfold RegionOk
    rw [hBlock, hLen]
    exact hOld

/- The first region of a chain gets another predecessor. -/
theorem setPrev_head {prev : Option Nat}
    (hChain : DChain fs prev cs) (hNodup : (cs.map Piece.ptr).Nodup) (prev' : Option Nat) :
    ∃ fs', setPrev fs (headPtr cs) prev' = .ok fs' ∧ Relinked fs fs' ∧ DChain fs' prev' cs ∧
      ∀ p, p ∉ cs.map Piece.ptr → fs'.heap p = fs.heap p := by
  cases cs with
  | nil => exact ⟨fs, rfl, Relinked.refl fs, trivial, fun _ _ => rfl⟩
  | cons d ds =>
    rcases hChain with ⟨hD, hRest⟩
    rw [map_cons, nodup_cons] at hNodup
    refine ⟨fs.set d.ptr ⟨d.block, d.len, d.bg, headPtr ds, prev'⟩, ?_, relinked_set hD _ rfl,
      ⟨update_self .., ?_⟩, ?_⟩
    · change setPrev fs (some d.ptr) prev' = _
      unfold setPrev
      simp only [get_region_eq hD, ok_bind]
      rfl
    · exact hRest.set hNodup.1 _
    · intro p hP
      refine update_of_ne ?_ ..
      intro hEq
      apply hP
      rw [hEq, map_cons]
      exact mem_cons_self ..

/- The second region is taken off the list. -/
theorem regionListRemove_second
    (hChain : DChain fs none (c :: d :: ds)) (hNodup : ((c :: d :: ds).map Piece.ptr).Nodup) :
    ∃ fs', regionListRemove fs (freshAllocation c.ptr).list d.ptr =
      .ok (fs', (freshAllocation c.ptr).list) ∧ Relinked fs fs' ∧ DChain fs' none (c :: ds) ∧
      fs'.heap d.ptr = some ⟨d.block, d.len, d.bg, none, none⟩ ∧
      ∀ p, p ∉ (c :: d :: ds).map Piece.ptr → fs'.heap p = fs.heap p := by
  rcases hChain with ⟨hC, hD, hRest⟩
  simp only [map_cons, nodup_cons, mem_cons, not_or] at hNodup
  rcases hNodup with ⟨⟨hCD, hCRest⟩, hDRest, hNodup⟩
  generalize hFs₁ : fs.set c.ptr ⟨c.block, c.len, c.bg, headPtr ds, none⟩ = fs₁
  have hLinked₁ : Relinked fs fs₁ := by
    rw [← hFs₁]
    exact relinked_set hC _ rfl
  have hC₁ : fs₁.heap c.ptr = some ⟨c.block, c.len, c.bg, headPtr ds, none⟩ := by
    rw [← hFs₁]
    exact update_self ..
  have hOther₁ : ∀ p, p ≠ c.ptr → fs₁.heap p = fs.heap p := by
    intro p hP
    rw [← hFs₁]
    exact update_of_ne hP ..
  have hRest₁ : DChain fs₁ (some d.ptr) ds := by
    rw [← hFs₁]
    exact hRest.set hCRest _
  rcases setPrev_head hRest₁ hNodup (some c.ptr) with ⟨fs₂, hSet, hLinked₂, hRest₂, hOther₂⟩
  have hD₂ : fs₂.heap d.ptr = some ⟨d.block, d.len, d.bg, headPtr ds, some c.ptr⟩ := by
    rw [hOther₂ _ hDRest, hOther₁ _ (Ne.symm hCD)]
    exact hD
  refine ⟨fs₂.set d.ptr ⟨d.block, d.len, d.bg, none, none⟩, ?_,
    (hLinked₁.trans hLinked₂).trans (relinked_set hD₂ _ rfl), ⟨?_, ?_⟩, update_self .., ?_⟩
  · have hNe : ¬ some c.ptr = some d.ptr := fun hEq => hCD (Option.some.inj hEq)
    unfold regionListRemove
    simp only [get_region_eq hD, ok_bind, setNext, get_region_eq hC, hFs₁, pure, Except.pure, hSet,
      freshAllocation, hNe, if_false, get_region_eq hD₂]
  · refine (update_of_ne hCD ..).trans ?_
    rw [hOther₂ _ hCRest]
    exact hC₁
  · exact hRest₂.set hDRest _
  · intro p hP
    simp only [map_cons, mem_cons, not_or] at hP
    refine (update_of_ne hP.2.1 ..).trans ?_
    rw [hOther₂ _ hP.2.2, hOther₁ _ hP.1]

/-
  The regions of the file that are on the other list so far: the first one is the next to be used,
  and the last one is not among those that are left.
-/
inductive Moved (fs : Fs) (c : Piece) (cs left : List Piece) : RegionList → Prop
| start (hAll : left = cs) : Moved fs c cs left emptyList
| going {oobList : RegionList} {last : Nat} {r : Region} (hFirst : oobList.first.isSome)
    (hIter : oobList.iter = headPtr cs) (hPartial : oobList.partialIter = 0)
    (hLast : oobList.last = some last) (hLive : fs.heap last = some r)
    (hNot : last ∉ (c :: left).map Piece.ptr) : Moved fs c cs left oobList

variable {left : List Piece} {oobList : RegionList}

theorem Moved.congr (hMoved : Moved fs c cs left oobList) (hSame :
      ∀ p, p ∉ (c :: left).map Piece.ptr → fs'.heap p = fs.heap p) :
    Moved fs' c cs left oobList := by
  cases hMoved with
  | start hAll => exact .start hAll
  | @going _ last r hFirst hIter hPartial hLast hLive hNot =>
    exact .going hFirst hIter hPartial hLast ((hSame last hNot).trans hLive) hNot

theorem Moved.last_ne (hMoved : Moved fs c cs left oobList)
    (hP : p ∈ (c :: left).map Piece.ptr) : oobList.last ≠ some p := by
  cases hMoved with
  | start hAll => simp [emptyList]
  | @going _ last r hFirst hIter hPartial hLast hLive hNot =>
    intro hEq
    rw [hLast] at hEq
    cases hEq
    exact hNot hP

/- A region is put on the other list. -/
theorem regionListAppend_moved (hMoved : Moved fs c cs (d :: ds) oobList)
    (hD : fs.heap d.ptr = some ⟨d.block, d.len, d.bg, none, none⟩)
    (hNot : d.ptr ∉ (c :: ds).map Piece.ptr) :
    ∃ fs' oobList', regionListAppend fs oobList d.ptr = .ok (fs', oobList') ∧
      Relinked fs fs' ∧ Moved fs' c cs ds oobList' ∧
      ∀ p, p ≠ d.ptr → oobList.last ≠ some p → fs'.heap p = fs.heap p := by
  cases hMoved with
  | start hAll =>
    refine ⟨fs.set d.ptr ⟨d.block, d.len, d.bg, none, none⟩,
      ⟨some d.ptr, some d.ptr, some d.ptr, 0⟩, ?_, relinked_set hD _ rfl, ?_, ?_⟩
    · unfold regionListAppend
      simp only [emptyList, get_region_eq hD, ok_bind]
      rfl
    · refine .going rfl ?_ rfl rfl (update_self ..) hNot
      rw [← hAll]
      rfl
    · intro p hP _
      exact update_of_ne hP ..
  | @going _ last r hFirst hIter hPartial hLast hLive hAway =>
    simp only [map_cons, mem_cons, not_or] at hAway
    have hD₁ : (fs.set last { r with next := some d.ptr }).heap d.ptr =
        some ⟨d.block, d.len, d.bg, none, none⟩ :=
      (update_of_ne (Ne.symm hAway.2.1) ..).trans hD
    refine ⟨(fs.set last { r with next := some d.ptr }).set
        d.ptr ⟨d.block, d.len, d.bg, none, some last⟩, { oobList with last := some d.ptr }, ?_,
      (relinked_set hLive { r with next := some d.ptr } rfl).trans
        (relinked_set hD₁ ⟨d.block, d.len, d.bg, none, some last⟩ rfl),
      .going hFirst hIter hPartial rfl (update_self ..) hNot, ?_⟩
    · rcases Option.isSome_iff_exists.mp hFirst with ⟨first, hFirst⟩
      unfold regionListAppend
      rw [hFirst]
      simp only [hLast, get_region_eq hLive, ok_bind, Option.getD_some, get_region_eq hD₁]
      rfl
    · intro p hP hOther
      have hNe : p ≠ last := by
        intro hEq
        exact hOther (hEq ▸ hLast)
      exact (update_of_ne hP ..).trans (update_of_ne hNe ..)

/- All regions but the first one are moved to the other list. -/
theorem move_all (hChain : DChain fs none (c :: left)) (hNodup : ((c :: left).map Piece.ptr).Nodup)
    (hMoved : Moved fs c cs left oobList) {fuel : Nat} (hFuel : left.length < fuel) :
    ∃ fs' oobList', loop moveBody fuel ⟨fs, ⟨(freshAllocation c.ptr).list, oobList⟩, headPtr left⟩ =
      .ok (fs', ⟨(freshAllocation c.ptr).list, oobList'⟩) ∧ Relinked fs fs' ∧ DChain fs' none [c] ∧
      Moved fs' c cs [] oobList' := by
  induction left generalizing fs oobList fuel with
  | nil =>
    cases fuel with
    | zero => cases hFuel
    | succ fuel => exact ⟨fs, oobList, rfl, Relinked.refl fs, hChain, hMoved⟩
  | cons d ds ih =>
    cases fuel with
    | zero => cases hFuel
    | succ fuel =>
      have hD := hChain.2.1
      rcases regionListRemove_second hChain hNodup with
        ⟨fs₁, hRemove, hLinked₁, hChain₁, hD₁, hOther₁⟩
      simp only [map_cons, nodup_cons, mem_cons, not_or] at hNodup
      rcases hNodup with ⟨⟨hCD, hCRest⟩, hDRest, hNodup⟩
      have hNot : d.ptr ∉ (c :: ds).map Piece.ptr := by
        simp only [map_cons, mem_cons, not_or]
        exact ⟨Ne.symm hCD, hDRest⟩
      rcases regionListAppend_moved (hMoved.congr hOther₁) hD₁ hNot with
        ⟨fs₂, oobList₂, hAppend, hLinked₂, hMoved₂, hOther₂⟩
      have hChain₂ : DChain fs₂ none (c :: ds) := by
        apply hChain₁.congr
        intro e hE
        have hMem := mem_map_of_mem (f := Piece.ptr) hE
        apply hOther₂
        · intro hEq
          exact hNot (hEq ▸ hMem)
        · apply hMoved.last_ne
          simp only [map_cons, mem_cons] at hMem ⊢
          tauto
      have hBody : moveBody ⟨fs, ⟨(freshAllocation c.ptr).list, oobList⟩, some d.ptr⟩ =
          .ok (.again ⟨fs₂, ⟨(freshAllocation c.ptr).list, oobList₂⟩, headPtr ds⟩) := by
        have hNe : ¬ some d.ptr = (freshAllocation c.ptr).list.iter :=
          fun hEq => hCD (Option.some.inj hEq).symm
        unfold moveBody
        simp only [if_neg hNe, get_region_eq hD, ok_bind, hRemove, hAppend]
        rfl
      rcases ih hChain₂ (by simp [hCRest, hNodup]) hMoved₂ (Nat.lt_of_succ_lt_succ hFuel) with
        ⟨fs', oobList', hRun, hLinked, hEnd, hMoved'⟩
      refine ⟨fs', oobList', ?_, (hLinked₁.trans hLinked₂).trans hLinked, hEnd, hMoved'⟩
      change loop moveBody (fuel + 1) ⟨fs, _, some d.ptr⟩ = _
      simp only [loop, hBody]
      exact hRun

/- The second region is taken for the extents. -/
theorem reserveOobBlocks_short (hCs : Gathered geo fs₀ fs (c :: d :: cs)) (hShort : c.len = 1) :
    ∃ fs' oobList, reserveOobBlocks fs (freshAllocation c.ptr) 1 =
      .ok (fs', ⟨(freshAllocation c.ptr).list, oobList⟩) ∧
      getOobBlock fs' ⟨(freshAllocation c.ptr).list, oobList⟩ 0 = .ok d.block ∧
      Relinked fs fs' ∧ DChain fs' none [c] := by
  have hCount := hCs.count
  simp only [length_cons] at hCount
  have hFuel : (d :: cs).length < fs.brk + 1 := by
    rw [length_cons]
    omega
  rcases move_all hCs.chain hCs.nodup (.start rfl) hFuel with
    ⟨fs', oobList, hMove, hLinked, hChain, hMoved⟩
  refine ⟨fs', oobList, ?_, ?_, hLinked, hChain⟩
  · unfold reserveOobBlocks
    rw [splitAllocation_short hCs hShort, ok_bind]
    exact hMove
  · have hLen := hCs.positive d (by simp)
    have hD := hLinked.extents d.ptr
    rw [hCs.chain.2.1, Option.map_some] at hD
    rcases Option.map_eq_some_iff.mp hD with ⟨r, hR, hExtent⟩
    have hBlock : r.block = d.block := congrArg Prod.fst hExtent
    have hSame : r.len = d.len := congrArg Prod.snd hExtent
    cases hMoved with
    | start hAll => cases hAll
    | @going _ last _ hFirst hIter hPartial hLast hLive hNot =>
      unfold getOobBlock
      rw [hIter, hPartial]
      change blockFrom fs' (fs'.brk + 1) (some d.ptr) 0 = _
      rw [blockFrom, get_region_eq hR, ok_bind, if_pos (by omega), hBlock]
      rfl

/-
  What is left of the regions for the file. They have the length of the file only if the first one
  was longer than one block.
-/
inductive Trimmed (geo : Geometry) (fs₀ : Fs) (c : Piece) (cs : List Piece) :
    Fs × BlockAllocation × Nat → Prop
| mapped {fs : Fs} {alloc : BlockAllocation} {extentBlock : Nat} (first : Piece) (hLong : 1 < c.len)
    (hLen : first.len = c.len - 1) (hKept : Kept geo fs₀ fs (first :: cs))
    (hIter : alloc.list.iter = some first.ptr) (hPartial : alloc.list.partialIter = 0)
    (hBlock : extentBlock = 0 ↔ cs.length + 1 ≤ 3) : Trimmed geo fs₀ c cs (fs, alloc, extentBlock)
| dropped {fs : Fs} (hShort : c.len = 1) (hFew : cs.length + 1 ≤ 3) (hOk : FsOk geo fs)
    (hMono : ∀ b, Taken geo fs₀ b → Taken geo fs b) :
    Trimmed geo fs₀ c cs (fs, ⟨emptyList, emptyList⟩, 0)
| moved {fs : Fs} {oobList : RegionList} {extentBlock : Nat} (hShort : c.len = 1)
    (hMany : 3 < cs.length + 1) (hOk : FsOk geo fs) (hMono : ∀ b, Taken geo fs₀ b → Taken geo fs b)
    (hChain : DChain fs none [c]) (hBrk : 1 ≤ fs.brk) (hBlock : extentBlock ≠ 0) :
    Trimmed geo fs₀ c cs (fs, ⟨(freshAllocation c.ptr).list, oobList⟩, extentBlock)

theorem takeExtentBlock_spec (hOk₀ : FsOk geo fs₀) (hCs : Gathered geo fs₀ fs (c :: cs)) :
    ∃ result, takeExtentBlock fs (freshAllocation c.ptr) (cs.length + 1) = .ok result ∧
      Trimmed geo fs₀ c cs result := by
  have hLen := hCs.positive c (by simp)
  have hBlockC := (hCs.ok.regions c.ptr _ hCs.chain.1).1
  unfold takeExtentBlock
  by_cases hFew : cs.length + 1 ≤ 3
  · rw [if_pos hFew]
    by_cases hShort : c.len = 1
    · rcases reduceAllocation_short hCs hOk₀ hShort with ⟨fs', hRun, hOk, hMono⟩
      rw [hRun, ok_bind]
      exact ⟨_, rfl, .dropped hShort hFew hOk hMono⟩
    · rcases reduceAllocation_long hCs hOk₀ (by omega) with ⟨fs', hRun, hKept⟩
      rw [hRun, ok_bind]
      exact ⟨_, rfl, .mapped c.shorten (by omega) rfl hKept rfl
        rfl (iff_of_true rfl hFew)⟩
  · rw [if_neg hFew]
    by_cases hShort : c.len = 1
    · cases cs with
      | nil => simp at hFew
      | cons d ds =>
        rcases reserveOobBlocks_short hCs hShort with ⟨fs', oobList, hRun, hOob, hLinked, hChain⟩
        have hBlockD := (hCs.ok.regions d.ptr _ hCs.chain.2.1).1
        have hBrk := hLinked.brk
        have hCount := hCs.count
        simp only [length_cons] at hCount
        rw [hRun, ok_bind]
        simp only [hOob, ok_bind]
        exact ⟨_, rfl, .moved hShort (by omega) (hLinked.fsOk hCs.ok)
          (fun b hB => (taken_congr hLinked.bgs.symm).mp (hCs.gains.mono b hB))
          hChain (by omega) (ne_of_gt hBlockD)⟩
    · rcases reserveOobBlocks_long hCs (by omega) with ⟨fs', oobList, hRun, hOob, hKept⟩
      rw [hRun, ok_bind]
      simp only [hOob, ok_bind]
      exact ⟨_, rfl, .mapped (c.rest fs.brk) (by omega) rfl hKept
        rfl rfl (iff_of_false (ne_of_gt hBlockC) hFew)⟩

end OpenIvi.Ext4
