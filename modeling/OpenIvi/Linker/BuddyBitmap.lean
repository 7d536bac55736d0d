import Mathlib.Data.List.Range
import OpenIvi.Lib.Tiling
import OpenIvi.Lib.Loop

/-
  The buddy allocator of the dynamic linker.

  An `unsigned long` has 32 bits, and the order of a slot has seven. `ba_free` may look at the slot
  behind the bitmap; what it finds there is an argument of the call. Writing to that slot is a
  fault.

  `Shows` ties the bitmap to the blocks of a buddy tree. The first slot of a block has its order and
  its flag. The other slots keep old orders, but none of them is marked as allocated. The slot that
  `ba_free` looks at is the first one of the other half, so it is never an old one.

  `Holds` says that the bitmap shows the blocks of a buddy tree of 256 slots in which no two halves
  are both free. There is one lemma for each call. `HeapInv` adds that the blocks in use are the
  live allocations of the clients.

  It stays in its bitmap as long as something is allocated. A free that gives back the last
  allocation merges all blocks into one and then looks at the slot behind the bitmap.

  Main declarations:
    * `Ba`
    * `Shows`
    * `HeapInv.step`
    * `buddy_allocator_tiled`
-/

------
-- The Bitmap
------

namespace OpenIvi.Linker

open Lib Lib.Buddy List

/- An `unsigned long`. -/
abbrev ULong := BitVec 32

structure BaBits where
  allocated : Bool
  order : Nat
deriving DecidableEq

structure Ba where
  base : ULong
  size : ULong
  minAlloc : ULong
  maxOrder : Nat
  numEntries : Nat
  bitmap : List BaBits
deriving DecidableEq

variable (bitmap : List BaBits)

/- The slot at `i`, or what lies behind the bitmap. -/
def load (past : BaBits) (i : Nat) : Except Fault BaBits :=
  match bitmap[i]? with
  | some bits => .ok bits
  | none =>
    if i = bitmap.length then .ok past
    else .error .outOfBounds

/- A slot of the bitmap. -/
def loadBits (i : Nat) : Except Fault BaBits :=
  match bitmap[i]? with
  | some bits => .ok bits
  | none => .error .outOfBounds

/- Assign the order of a slot. -/
def setOrder (i order : Nat) : Except Fault (List BaBits) := do
  let bits ← loadBits bitmap i
  return bitmap.set i { bits with order := order % 2 ^ 7 }

/- Assign the flag of a slot. -/
def setAllocated (i : Nat) (allocated : Bool) : Except Fault (List BaBits) := do
  let bits ← loadBits bitmap i
  return bitmap.set i { bits with allocated := allocated }

------
-- Calls
------

def baOrder (minAlloc len : ULong) : Nat :=
  let len := (len + minAlloc - 1) / minAlloc
  let len := len - 1
  ((List.range 32).find? fun i => len >>> i = 0).getD 32

/- One pass of the loop of `ba_init`. -/
def baInitBit (numEntries i : Nat) (s : List BaBits × Nat) : Except Fault (List BaBits × Nat) :=
  if numEntries.testBit i then do
    let bitmap ← setOrder s.1 s.2 i
    let bits ← loadBits bitmap s.2
    return (bitmap, s.2 + 2 ^ bits.order)
  else .ok s

def baInit (ba : Ba) : Except Fault Ba := do
  let maxOrder := baOrder ba.minAlloc ba.size
  let maxOrder := if ba.maxOrder = 0 ∨ ba.maxOrder > maxOrder then maxOrder
    else ba.maxOrder
  let s ← (List.range 32).reverse.foldlM (fun s i => baInitBit ba.numEntries i s) (ba.bitmap, 0)
  return { ba with maxOrder := maxOrder, bitmap := s.1 }

/- One pass of the loop of `ba_free`. -/
def baFreeBody (past : BaBits) (numEntries : Nat) (s : List BaBits × Nat) :
    Except Fault (Ctl (List BaBits × Nat) (List BaBits)) := do
  let (bitmap, curr) := s
  let bits ← load bitmap past curr
  let buddy := curr ^^^ 2 ^ bits.order
  let other ← load bitmap past buddy
  if !other.allocated && other.order == bits.order then
    let bitmap ← setOrder bitmap buddy (other.order + 1)
    let bitmap ← setOrder bitmap curr (bits.order + 1)
    let curr := min buddy curr
    if curr < numEntries then return .again (bitmap, curr)
    else return .done bitmap
  else return .done bitmap

def baFree (ba : Ba) (past : BaBits) (index : Nat) : Except Fault Ba := do
  let bitmap ← setAllocated ba.bitmap index false
  let bitmap ← loop (baFreeBody past ba.numEntries) (ba.numEntries + 1) (bitmap, index)
  return { ba with bitmap := bitmap }

/- The block fits better than `best_fit`, which is `none` where the code has -1. -/
def fitsBetter (bits : BaBits) (order : Nat) : Option Nat → Except Fault Bool
| none => .ok (decide (bits.order > order % 256))
| some bestFit =>
  if bits.order > order % 256 then do
    let best ← loadBits bitmap bestFit
    return decide (bits.order < best.order)
  else .ok false

/- One pass of the search of `ba_allocate`. -/
def findBody (ba : Ba) (order : Nat) (s : Nat × Option Nat) :
    Except Fault (Ctl (Nat × Option Nat) (Option Nat)) := do
  let (curr, bestFit) := s
  if curr < ba.numEntries then
    let bits ← loadBits ba.bitmap curr
    if !bits.allocated then
      if bits.order = order % 256 then
        return .done (some curr)
      else
        let better ← fitsBetter ba.bitmap bits order bestFit
        let bestFit := if better then some curr else bestFit
        return .again (curr + 2 ^ bits.order, bestFit)
    else return .again (curr + 2 ^ bits.order, bestFit)
  else return .done bestFit

/- One pass of the splitting of `ba_allocate`. -/
def splitBody (order bestFit : Nat) (bitmap : List BaBits) :
    Except Fault (Ctl (List BaBits) (List BaBits)) := do
  let bits ← loadBits bitmap bestFit
  if bits.order > order % 256 then
    let bitmap ← setOrder bitmap bestFit (bits.order - 1)
    let buddy := bestFit ^^^ 2 ^ (bits.order - 1)
    let bitmap ← setOrder bitmap buddy (bits.order - 1)
    return .again bitmap
  else return .done bitmap

/- `ba_allocate`; `none` is the -1 that it returns. -/
def baAllocate (ba : Ba) (len : ULong) : Except Fault (Option Nat × Ba) := do
  let order := baOrder ba.minAlloc len
  if order > ba.maxOrder then return (none, ba)
  else
    let bestFit ← loop (findBody ba order) (ba.numEntries + 1) (0, none)
    match bestFit with
    | none => return (none, ba)
    | some bestFit =>
      let bitmap ← loop (splitBody order bestFit) (2 ^ 7) ba.bitmap
      let bitmap ← setAllocated bitmap bestFit true
      return (some bestFit, { ba with bitmap := bitmap })

def baNonprelink : Ba where
  base := 0x80000000
  size := 0x90000000 - 0x80000000
  minAlloc := 0x00100000
  maxOrder := 0
  numEntries := 256
  bitmap := List.replicate 256 ⟨false, 0⟩

------
-- Clients
------

/- What a client does next. -/
inductive BaOp where
| allocate (len : ULong)
| free (index : Nat) (past : BaBits)

/- The allocator and the allocations that are live. -/
structure Heap where
  ba : Ba
  live : List (Nat × ULong)

def heapStep (h : Heap) : BaOp → Except Fault Heap
| .allocate len => do
    let (index, ba) ← baAllocate h.ba len
    match index with
    | none => return { h with ba := ba }
    | some index => return ⟨ba, (index, len) :: h.live⟩
| .free index past => do
    let ba ← baFree h.ba past index
    return ⟨ba, h.live.filter fun p => p.1 ≠ index⟩

------
-- Orders
------

variable {len : ULong}

def libInc : Nat := 2 ^ 20

/- `ba_order` is the least order with room for as many slots. -/
theorem baOrder_le (minAlloc len : ULong) (order : Nat) : baOrder minAlloc len ≤ order ↔
    ((len + minAlloc - 1) / minAlloc - 1).toNat < 2 ^ order := by
  unfold baOrder
  simp only
  generalize (len + minAlloc - 1) / minAlloc - 1 = k
  have hShift : ∀ i : Nat, k >>> i = 0 ↔ k.toNat < 2 ^ i := by
    intro i
    rw [← BitVec.toNat_inj, BitVec.toNat_ushiftRight, Nat.shiftRight_eq_div_pow]
    exact Nat.div_eq_zero_iff_lt (Nat.two_pow_pos i)
  simp only [hShift]
  cases hFind : (range 32).find? (fun i => k.toNat < 2 ^ i) with
  | none =>
    constructor
    · intro hLe
      exact Nat.lt_of_lt_of_le k.isLt (Nat.pow_le_pow_right (by decide) hLe)
    · intro hLt
      by_contra hNot
      exact find?_eq_none.mp hFind order (mem_range.mpr (Nat.lt_of_not_le hNot))
        (decide_eq_true hLt)
  | some i =>
    rcases find?_range_eq_some.mp hFind with ⟨hI, _, hFirst⟩
    constructor
    · intro hLe
      exact Nat.lt_of_lt_of_le (of_decide_eq_true hI) (Nat.pow_le_pow_right (by decide) hLe)
    · intro hOrder
      by_contra hNot
      have hNone := hFirst order (Nat.lt_of_not_le hNot)
      simp only [Bool.not_eq_true', decide_eq_false_iff_not] at hNone
      exact hNone hOrder

/- The number of slots, in the arithmetic of the code. -/
theorem toNat_slots (len : ULong) : ((len + 0x00100000 - 1) / 0x00100000 - 1).toNat =
    (2 ^ 32 - 1 + (len.toNat + 2 ^ 20 - 1) % 2 ^ 32 / 2 ^ 20) % 2 ^ 32 := by
  have hSum : (len + 0x00100000 - 1).toNat = (len.toNat + 2 ^ 20 - 1) % 2 ^ 32 := by bv_omega
  rw [BitVec.toNat_sub, BitVec.toNat_udiv, hSum]
  rfl

------
-- The Bitmap And The Tree
------

/- The first slot of the block says what it is. -/
structure BlockAt (bitmap : List BaBits) (b : Block) : Prop where
  first : bitmap[b.start]? = some ⟨b.used, b.order⟩
  inner : ∀ j, b.start < j → j < b.start + b.size → ∃ order, bitmap[j]? = some ⟨false, order⟩

def Shows (bs : List Block) : Prop :=
  ∀ b ∈ bs, BlockAt bitmap b

/- The bitmaps are the same but for `size` slots at `i`. -/
structure SameBut (i size : Nat) (bitmap bitmap' : List BaBits) : Prop where
  length : bitmap'.length = bitmap.length
  before : ∀ j < i, bitmap'[j]? = bitmap[j]?
  behind : ∀ j, i + size ≤ j → bitmap'[j]? = bitmap[j]?

variable {bitmap bitmap' : List BaBits} {n i : Nat} {b : Block} {t l r : Tree n} {size : Nat}

theorem shows_append {bs bs' : List Block} :
    Shows bitmap (bs ++ bs') ↔ Shows bitmap bs ∧ Shows bitmap bs' :=
  forall_mem_append

theorem shows_singleton : Shows bitmap [b] ↔ BlockAt bitmap b :=
  forall_mem_singleton

theorem SameBut.refl (i size : Nat) (bitmap : List BaBits) : SameBut i size bitmap bitmap :=
  ⟨rfl, fun _ _ => rfl, fun _ _ => rfl⟩

theorem SameBut.trans {bitmap'' : List BaBits} (h : SameBut i size bitmap bitmap')
    (h' : SameBut i size bitmap' bitmap'') : SameBut i size bitmap bitmap'' := by
  refine ⟨h'.length.trans h.length, ?_, ?_⟩
  · intro j hJ
    exact (h'.before j hJ).trans (h.before j hJ)
  · intro j hJ
    exact (h'.behind j hJ).trans (h.behind j hJ)

theorem SameBut.mono {i' size' : Nat} (h : SameBut i size bitmap bitmap') (hStart : i' ≤ i)
    (hEnd : i + size ≤ i' + size') : SameBut i' size' bitmap bitmap' := by
  refine ⟨h.length, ?_, ?_⟩
  · intro j hJ
    exact h.before j (lt_of_lt_of_le hJ hStart)
  · intro j hJ
    exact h.behind j (le_trans hEnd hJ)

theorem sameBut_set {j : Nat} (bits : BaBits) (hStart : i ≤ j)
    (hEnd : j < i + size) : SameBut i size bitmap (bitmap.set j bits) := by
  refine ⟨length_set, ?_, ?_⟩
  · intro k hK
    rw [getElem?_set_ne (by omega)]
  · intro k hK
    rw [getElem?_set_ne (by omega)]

theorem SameBut.shows_left (h : SameBut (i + 2 ^ n) (2 ^ n) bitmap bitmap')
    (hShows : Shows bitmap (blocks i t)) : Shows bitmap' (blocks i t) := by
  intro b hB
  have hBounds := bounds_of_mem hB
  refine ⟨?_, ?_⟩
  · rw [h.before _ (start_lt_of_mem hB)]
    exact (hShows b hB).first
  · intro j hLt hEnd
    rw [h.before j (by omega)]
    exact (hShows b hB).inner j hLt hEnd

theorem SameBut.shows_right (h : SameBut i (2 ^ n) bitmap bitmap')
    (hShows : Shows bitmap (blocks (i + 2 ^ n) t)) : Shows bitmap' (blocks (i + 2 ^ n) t) := by
  intro b hB
  have hBounds := bounds_of_mem hB
  refine ⟨?_, ?_⟩
  · rw [h.behind _ hBounds.1]
    exact (hShows b hB).first
  · intro j hLt hEnd
    rw [h.behind j (by omega)]
    exact (hShows b hB).inner j hLt hEnd

/- The first slot tells a free tree from the others. -/
theorem first_slot (hShows : Shows bitmap (blocks i t)) :
    ∃ bits, bitmap[i]? = some bits ∧ (bits = ⟨false, n⟩ ↔ t = .free) := by
  rcases exists_first i t with ⟨b, hMem, hStart⟩
  have hFirst := (hShows b hMem).first
  rw [hStart] at hFirst
  refine ⟨_, hFirst, ?_⟩
  constructor
  · intro hBits
    injection hBits with hUsed hOrder
    exact eq_free_of_mem hMem hUsed hOrder
  · intro hFree
    subst hFree
    rw [mem_singleton.mp hMem]

variable {bits : BaBits}

theorem loadBits_eq (hGet : bitmap[i]? = some bits) : loadBits bitmap i = .ok bits := by
  simp only [loadBits, hGet]

theorem load_eq (past : BaBits) (hGet : bitmap[i]? = some bits) :
    load bitmap past i = .ok bits := by
  simp only [load, hGet]

theorem setOrder_eq {order : Nat} (hGet : bitmap[i]? = some bits) (hOrder : order < 2 ^ 7) :
    setOrder bitmap i order = .ok (bitmap.set i ⟨bits.allocated, order⟩) := by
  simp only [setOrder, loadBits_eq hGet, ok_bind, Nat.mod_eq_of_lt hOrder]
  rfl

theorem setAllocated_eq (allocated : Bool) (hGet : bitmap[i]? = some bits) :
    setAllocated bitmap i allocated = .ok (bitmap.set i ⟨allocated, bits.order⟩) := by
  simp only [setAllocated, loadBits_eq hGet, ok_bind]
  rfl

theorem getElem?_set_of_some {bits' : BaBits} (hGet : bitmap[i]? = some bits) :
    (bitmap.set i bits')[i]? = some bits' :=
  getElem?_set_self (List.getElem?_eq_some_iff.mp hGet).1

theorem BlockAt.set_first {used : Bool} (hBlock : BlockAt bitmap b) :
    BlockAt (bitmap.set b.start ⟨used, b.order⟩) ⟨b.start, b.order, used⟩ := by
  refine ⟨getElem?_set_of_some hBlock.first, ?_⟩
  intro j hLt hEnd
  rw [getElem?_set_ne (ne_of_lt hLt)]
  exact hBlock.inner j hLt hEnd

/- Two halves of one order make a block of the next. -/
theorem BlockAt.join (hL : BlockAt bitmap ⟨i, n, false⟩)
    (hR : BlockAt bitmap ⟨i + 2 ^ n, n, false⟩) :
    BlockAt ((bitmap.set (i + 2 ^ n) ⟨false, n + 1⟩).set i ⟨false, n + 1⟩) ⟨i, n + 1, false⟩ := by
  have hPos : 0 < 2 ^ n := Nat.two_pow_pos n
  have hNe : i + 2 ^ n ≠ i := by omega
  refine ⟨?_, ?_⟩
  · apply getElem?_set_of_some
    rw [getElem?_set_ne hNe]
    exact hL.first
  · intro j hLt hEnd
    rw [getElem?_set_ne (ne_of_lt hLt)]
    by_cases hMiddle : j = i + 2 ^ n
    · rw [hMiddle]
      exact ⟨n + 1, getElem?_set_of_some hR.first⟩
    · rw [getElem?_set_ne (Ne.symm hMiddle)]
      rcases lt_or_ge j (i + 2 ^ n) with hLeft | hRight
      · exact hL.inner j hLt hLeft
      · apply hR.inner j
        · simp only
          omega
        · simp only [Block.size] at hEnd ⊢
          omega

/- And the other way round. -/
theorem BlockAt.halve (hBlock : BlockAt bitmap ⟨i, n + 1, false⟩) :
    ∃ order, bitmap[i + 2 ^ n]? = some ⟨false, order⟩ ∧ BlockAt
      ((bitmap.set i ⟨false, n⟩).set (i + 2 ^ n) ⟨false, n⟩)
      ⟨i, n, false⟩ ∧
      BlockAt ((bitmap.set i ⟨false, n⟩).set (i + 2 ^ n) ⟨false, n⟩) ⟨i + 2 ^ n, n, false⟩ := by
  have hPos : 0 < 2 ^ n := Nat.two_pow_pos n
  have hSize : (Block.mk i (n + 1) false).size = 2 ^ n + 2 ^ n := by
    simp only [Block.size, Nat.pow_succ]
    omega
  have hInner := hBlock.inner
  simp only [hSize] at hInner
  rcases hInner (i + 2 ^ n) (by omega) (by omega) with ⟨order, hMiddle⟩
  have hOther : ∀ j, i < j → j < i + (2 ^ n + 2 ^ n) → j ≠ i + 2 ^ n →
      ∃ order, ((bitmap.set i ⟨false, n⟩).set (i + 2 ^ n)
        ⟨false, n⟩)[j]? = some ⟨false, order⟩ := by
    intro j hLt hEnd hNe
    rw [getElem?_set_ne (Ne.symm hNe), getElem?_set_ne (ne_of_lt hLt)]
    exact hInner j hLt hEnd
  refine ⟨order, hMiddle, ⟨?_, ?_⟩, ⟨?_, ?_⟩⟩
  · rw [getElem?_set_ne (by simp only; omega)]
    exact getElem?_set_of_some hBlock.first
  · intro j hLt hEnd
    simp only [Block.size] at hLt hEnd
    exact hOther j hLt (by omega) (by omega)
  · apply getElem?_set_of_some
    rw [getElem?_set_ne (by omega)]
    exact hMiddle
  · intro j hLt hEnd
    simp only [Block.size] at hLt hEnd
    exact hOther j (by omega) (by omega) (by omega)

------
-- Freeing
------

variable {past : BaBits} {x order numEntries : Nat}

section

variable {curr other : Nat} (hCurr : bitmap[curr]? = some ⟨false, n⟩)
variable (hBuddy : buddy curr n = other)

include hCurr hBuddy

/- A pass that puts a block and its buddy together. -/
theorem baFreeBody_merge (hOther : bitmap[other]? = some ⟨false, n⟩)
    (hOrder : n + 1 < 2 ^ 7) (hLt : min other curr < numEntries) :
    baFreeBody past numEntries (bitmap, curr) = .ok (.again
      ((bitmap.set other ⟨false, n + 1⟩).set curr ⟨false, n + 1⟩, min other curr)) := by
  have hNe : other ≠ curr := by
    rw [← hBuddy]
    exact buddy_ne curr n
  have hCurr' : (bitmap.set other ⟨false, n + 1⟩)[curr]? = some ⟨false, n⟩ := by
    rw [getElem?_set_ne hNe]
    exact hCurr
  unfold buddy at hBuddy
  simp only [baFreeBody, load_eq past hCurr, ok_bind, hBuddy, load_eq past hOther,
    setOrder_eq hOther hOrder, setOrder_eq hCurr' hOrder, hLt, if_true, Bool.not_false,
    beq_self_eq_true, Bool.and_self]
  rfl

/- A pass that finds the buddy in use or divided. -/
theorem baFreeBody_stop {bits : BaBits} (hOther : load bitmap past other = .ok bits)
    (hNot : bits ≠ ⟨false, n⟩) :
    baFreeBody past numEntries (bitmap, curr) = .ok (.done bitmap) := by
  have hTest : (!bits.allocated && bits.order == n) = false := by
    rcases bits with ⟨allocated, order⟩
    cases allocated with
    | true => rfl
    | false =>
      simp only [Bool.not_false, Bool.true_and, beq_eq_false_iff_ne]
      intro hEq
      exact hNot (congrArg (BaBits.mk false) hEq)
  unfold buddy at hBuddy
  simp only [baFreeBody, load_eq past hCurr, ok_bind, hBuddy, hOther, hTest]
  rfl

end

/- What a pass does at the half that has become free. -/
theorem baFreeBody_halves {curr : Nat} (hAligned : 2 ^ (n + 1) ∣ i)
    (hOrder : n + 1 < 2 ^ 7) (hLt : i < numEntries) (hShowsL : Shows bitmap (blocks i l))
    (hShowsR : Shows bitmap (blocks (i + 2 ^ n) r))
    (hCurr : (curr = i ∧ l = .free) ∨ (curr = i + 2 ^ n ∧ r = .free)) :
    ∃ bitmap', SameBut i (2 ^ (n + 1)) bitmap bitmap' ∧ Shows bitmap' (blocks i (merge l r)) ∧
      ((merge l r = .free ∧ baFreeBody past numEntries (bitmap, curr) = .ok (.again (bitmap', i))) ∨
      (merge l r ≠ .free ∧ baFreeBody past numEntries (bitmap, curr) = .ok (.done bitmap'))) := by
  have hBuddyL := buddy_of_dvd hAligned
  have hBuddyR : buddy (i + 2 ^ n) n = i := by rw [← hBuddyL, buddy_buddy]
  rcases first_slot hShowsL with ⟨bitsL, hGetL, hFreeL⟩
  rcases first_slot hShowsR with ⟨bitsR, hGetR, hFreeR⟩
  by_cases hBoth : l = .free ∧ r = .free
  · rcases hBoth with ⟨rfl, rfl⟩
    rw [hFreeL.mpr rfl] at hGetL
    rw [hFreeR.mpr rfl] at hGetR
    have hJoin := (shows_singleton.mp hShowsL).join (shows_singleton.mp hShowsR)
    have hSame : SameBut i (2 ^ (n + 1)) bitmap ((bitmap.set (i + 2 ^ n) ⟨false, n + 1⟩).set i
        ⟨false, n + 1⟩) := by
      refine (sameBut_set _ ?_ ?_).trans (sameBut_set _ ?_ ?_)
      · omega
      · omega
      · omega
      · omega
    refine ⟨_, hSame, shows_singleton.mpr hJoin, .inl ⟨rfl, ?_⟩⟩
    rcases hCurr with ⟨rfl, _⟩ | ⟨rfl, _⟩
    · rw [baFreeBody_merge hGetL hBuddyL hGetR hOrder (by omega), min_eq_right (by omega)]
    · rw [baFreeBody_merge hGetR hBuddyR hGetL hOrder (by omega), min_eq_left (by omega),
        set_comm _ _ (by omega)]
  · rw [merge_eq_node hBoth]
    refine ⟨bitmap, .refl _ _ _, shows_append.mpr ⟨hShowsL, hShowsR⟩, .inr ⟨nofun, ?_⟩⟩
    rcases hCurr with ⟨rfl, hFree⟩ | ⟨rfl, hFree⟩
    · rw [hFreeL.mpr hFree] at hGetL
      apply baFreeBody_stop hGetL hBuddyL (load_eq past hGetR)
      intro hBits
      exact hBoth ⟨hFree, hFreeR.mp hBits⟩
    · rw [hFreeR.mpr hFree] at hGetR
      apply baFreeBody_stop hGetR hBuddyR (load_eq past hGetL)
      intro hBits
      exact hBoth ⟨hFreeL.mp hBits, hFree⟩

/- The loop of `ba_free` has climbed to the root of the tree, or it has stopped on the way. -/
inductive Climbed (past : BaBits) (numEntries : Nat) (s : List BaBits × Nat) (n i : Nat)
    (bitmap : List BaBits) (t : Tree n) : Prop where
| root {passes : Nat} (hFree : t = .free) (hPasses : passes ≤ n)
    (hRun : ∀ fuel, loop (baFreeBody past numEntries) (fuel + passes) s =
      loop (baFreeBody past numEntries) fuel (bitmap, i)) :
    Climbed past numEntries s n i bitmap t
| stopped {passes : Nat} (hFree : t ≠ .free) (hPasses : passes ≤ n)
    (hRun : ∀ fuel, loop (baFreeBody past numEntries) (fuel + passes) s = .ok bitmap) :
    Climbed past numEntries s n i bitmap t

/- From the root of one half to the root of both. -/
theorem Climbed.halves {s : List BaBits × Nat} {curr : Nat}
    {h : Tree n} (hAligned : 2 ^ (n + 1) ∣ i) (hOrder : n + 1 < 2 ^ 7) (hLt : i < numEntries)
    (hShowsL : Shows bitmap (blocks i l)) (hShowsR : Shows bitmap (blocks (i + 2 ^ n) r))
    (hCurr : (curr = i ∧ l = h) ∨ (curr = i + 2 ^ n ∧ r = h))
    (hClimbed : Climbed past numEntries s n curr bitmap h) :
    ∃ bitmap', SameBut i (2 ^ (n + 1)) bitmap bitmap' ∧ Shows bitmap' (blocks i (merge l r)) ∧
      Climbed past numEntries s (n + 1) i bitmap' (merge l r) := by
  cases hClimbed with
  | @root passes hFree hPasses hRun =>
    have hMore : passes + 1 ≤ n + 1 := Nat.succ_le_succ hPasses
    rw [hFree] at hCurr
    rcases baFreeBody_halves hAligned hOrder hLt hShowsL hShowsR hCurr with
      ⟨bitmap', hSame, hShows, ⟨hMerged, hBody⟩ | ⟨hMerged, hBody⟩⟩
    · refine ⟨bitmap', hSame, hShows, .root hMerged hMore ?_⟩
      intro fuel
      rw [← Nat.add_assoc, Nat.add_right_comm, hRun, loop, hBody]
    · refine ⟨bitmap', hSame, hShows, .stopped hMerged hMore ?_⟩
      intro fuel
      rw [← Nat.add_assoc, Nat.add_right_comm, hRun, loop, hBody]
  | stopped hFree hPasses hRun =>
    have hNot : ¬ (l = .free ∧ r = .free) := by
      rintro ⟨hL, hR⟩
      rcases hCurr with ⟨_, hEq⟩ | ⟨_, hEq⟩
      · exact hFree (hEq.symm.trans hL)
      · exact hFree (hEq.symm.trans hR)
    rw [merge_eq_node hNot]
    exact ⟨bitmap, .refl _ _ _, shows_append.mpr ⟨hShowsL, hShowsR⟩,
      .stopped (by simp) (Nat.le_succ_of_le hPasses) hRun⟩

/- The loop frees the block and merges what it can. -/
theorem climb (past : BaBits) (hAligned : 2 ^ n ∣ i)
    (hOrder : n < 2 ^ 7) (hLt : i + 2 ^ n ≤ numEntries) (hShows : Shows bitmap (blocks i t))
    (hX : ⟨x, order, true⟩ ∈ blocks i t) :
    ∃ bitmap', SameBut i (2 ^ n) bitmap bitmap' ∧ Shows bitmap' (blocks i (release x i t)) ∧
      Climbed past numEntries (bitmap.set x ⟨false, order⟩, x) n i bitmap' (release x i t) := by
  induction t generalizing i with
  | free => cases mem_singleton.mp hX
  | used =>
    cases mem_singleton.mp hX
    refine ⟨_, sameBut_set _ le_rfl ?_, shows_singleton.mpr (shows_singleton.mp hShows).set_first,
      .root rfl (Nat.zero_le _) fun _ => rfl⟩
    exact Nat.lt_add_of_pos_right (Nat.two_pow_pos _)
  | @node n l r ihL ihR =>
    rcases dvd_halves hAligned with ⟨hLeft, hRight⟩
    rcases shows_append.mp hShows with ⟨hShowsL, hShowsR⟩
    rcases mem_half hX with ⟨hHalf, hXL⟩ | ⟨hHalf, hXR⟩
    · rcases ihL hLeft (by omega) (by omega) hShowsL hXL with ⟨bitmap1, hSame1, hShows1, hClimbed⟩
      rcases hClimbed.halves hAligned hOrder (by omega) hShows1 (hSame1.shows_right hShowsR)
        (.inl ⟨rfl, rfl⟩) with ⟨bitmap', hSame, hShows', hClimbed'⟩
      rw [release, if_pos hHalf]
      exact ⟨bitmap', (hSame1.mono le_rfl (by omega)).trans hSame, hShows', hClimbed'⟩
    · rcases ihR hRight (by omega) (by omega) hShowsR hXR with ⟨bitmap1, hSame1, hShows1, hClimbed⟩
      rcases hClimbed.halves hAligned hOrder (by omega) (hSame1.shows_left hShowsL) hShows1
        (.inr ⟨rfl, rfl⟩) with ⟨bitmap', hSame, hShows', hClimbed'⟩
      rw [release, if_neg hHalf]
      exact ⟨bitmap', (hSame1.mono (by omega) (by omega)).trans hSame, hShows', hClimbed'⟩

------
-- Allocating
------

variable {ba : Ba}

/- The smallest free block of the order or above it. -/
def Fit (order : Nat) (bs : List Block) : Option Nat → Prop
| none => ∀ b ∈ bs, b.used = false → b.order < order
| some x =>
  ∃ b ∈ bs, b.start = x ∧ b.used = false ∧ order ≤ b.order ∧
    ∀ b' ∈ bs, b'.used = false → order ≤ b'.order → b.order ≤ b'.order

variable {best : Option Nat} {bs : List Block}

/- One more block that does not fit better. -/
theorem Fit.keep {b : Block} (hFit : Fit order bs best)
    (hNot : b.used = true ∨ b.order < order) : Fit order (bs ++ [b]) best := by
  have hMem : ∀ b' ∈ bs ++ [b], b'.used = false → b' ∈ bs ∨ b'.order < order := by
    intro b' hB' hFree
    rcases mem_append.mp hB' with hOld | hNew
    · exact .inl hOld
    · rw [mem_singleton.mp hNew] at hFree ⊢
      rcases hNot with hUsed | hSmall
      · rw [hUsed] at hFree
        cases hFree
      · exact .inr hSmall
  cases best with
  | none =>
    intro b' hB' hFree
    rcases hMem b' hB' hFree with hOld | hSmall
    · exact hFit b' hOld hFree
    · exact hSmall
  | some x =>
    rcases hFit with ⟨best, hBest, hStart, hFree, hLe, hLeast⟩
    refine ⟨best, mem_append_left _ hBest, hStart, hFree, hLe, ?_⟩
    intro b' hB' hFree' hLe'
    rcases hMem b' hB' hFree' with hOld | hSmall
    · exact hLeast b' hOld hFree' hLe'
    · omega

/- One more free block, and the better of the two. -/
theorem Fit.better {b : Block} (hShows : Shows ba.bitmap bs) (hFit : Fit order bs best)
    (hFree : b.used = false) (hOrder : order < 256) (hLt : order < b.order) :
    ∃ better, fitsBetter ba.bitmap ⟨false, b.order⟩ order best = .ok better ∧ Fit order (bs ++ [b])
      (if better then some b.start else best) := by
  have hMod : order % 256 = order := Nat.mod_eq_of_lt hOrder
  have hMem : b ∈ bs ++ [b] := mem_append_right bs mem_cons_self
  cases best with
  | none =>
    refine ⟨true, ?_, ?_⟩
    · simp only [fitsBetter, hMod, gt_iff_lt, hLt, decide_true]
    · refine ⟨b, hMem, rfl, hFree, le_of_lt hLt, ?_⟩
      intro b' hB' hFree' hLe'
      rcases mem_append.mp hB' with hOld | hNew
      · have hNone := hFit b' hOld hFree'
        omega
      · rw [mem_singleton.mp hNew]
  | some x =>
    rcases hFit with ⟨best, hBest, hStart, hBestFree, hLe, hLeast⟩
    have hLoad : loadBits ba.bitmap x = .ok ⟨best.used, best.order⟩ := by
      rw [← hStart]
      exact loadBits_eq (hShows best hBest).first
    refine ⟨decide (b.order < best.order), ?_, ?_⟩
    · simp only [fitsBetter, hMod, gt_iff_lt, hLt, if_true, hLoad, ok_bind]
      rfl
    · by_cases hBetter : b.order < best.order
      · rw [if_pos (decide_eq_true hBetter)]
        refine ⟨b, hMem, rfl, hFree, le_of_lt hLt, ?_⟩
        intro b' hB' hFree' hLe'
        rcases mem_append.mp hB' with hOld | hNew
        · exact le_trans (le_of_lt hBetter) (hLeast b' hOld hFree' hLe')
        · rw [mem_singleton.mp hNew]
      · rw [decide_eq_false hBetter]
        refine ⟨best, mem_append_left _ hBest, hStart, hBestFree, hLe, ?_⟩
        intro b' hB' hFree' hLe'
        rcases mem_append.mp hB' with hOld | hNew
        · exact hLeast b' hOld hFree' hLe'
        · rw [mem_singleton.mp hNew]
          exact Nat.le_of_not_lt hBetter

theorem fitsBetter_small {o : Nat} (best : Option Nat) (hOrder : order < 256) (hSmall : o < order) :
    fitsBetter bitmap ⟨false, o⟩ order best = .ok false := by
  have hMod : order % 256 = order := Nat.mod_eq_of_lt hOrder
  cases best with
  | none =>
    simp only [fitsBetter, hMod, gt_iff_lt]
    rw [decide_eq_false (by omega)]
  | some x =>
    simp only [fitsBetter, hMod, gt_iff_lt]
    rw [if_neg (by omega)]

/- One pass of the search looks at one more block. -/
theorem findBody_spec {seen : List Block} {b : Block}
    (hOrder : order < 256) (hLt : b.start < ba.numEntries)
    (hBlock : BlockAt ba.bitmap b) (hSeen : Shows ba.bitmap seen) (hFit : Fit order seen best) :
    (b.used = false ∧ b.order = order ∧ findBody ba order (b.start, best) =
      .ok (.done (some b.start))) ∨
    ∃ best', Fit order (seen ++ [b]) best' ∧ findBody ba order (b.start, best) =
      .ok (.again (b.start + 2 ^ b.order, best')) := by
  have hMod : order % 256 = order := Nat.mod_eq_of_lt hOrder
  have hLoad := loadBits_eq hBlock.first
  cases hUsed : b.used with
  | true =>
    rw [hUsed] at hLoad
    refine .inr ⟨best, hFit.keep (.inl hUsed), ?_⟩
    simp only [findBody, hLt, if_true, hLoad, ok_bind, Bool.not_true, Bool.false_eq_true, if_false]
    rfl
  | false =>
    rw [hUsed] at hLoad
    simp only [findBody, hLt, if_true, hLoad, ok_bind, Bool.not_false, hMod]
    by_cases hExact : b.order = order
    · refine .inl ⟨trivial, hExact, ?_⟩
      simp only [hExact, if_true]
      rfl
    · simp only [hExact, if_false]
      refine .inr ?_
      rcases lt_or_ge order b.order with hMore | hLess
      · rcases hFit.better hSeen hUsed hOrder hMore with ⟨better, hBetter, hFit'⟩
        rw [hBetter, ok_bind]
        exact ⟨_, hFit', rfl⟩
      · have hSmall : b.order < order := by omega
        rw [fitsBetter_small best hOrder hSmall, ok_bind]
        exact ⟨best, hFit.keep (.inr hSmall), rfl⟩

/- The search walks over the blocks and finds what fits. -/
theorem loop_find (hOrder : order < 256) (hShows : Shows ba.bitmap bs) :
    ∀ (rest seen : List Block) (curr fuel : Nat) (best : Option Nat), bs = seen ++ rest →
      Tiles Block.start Block.size curr rest ba.numEntries → Fit order seen best →
      rest.length < fuel →
      ∃ r, loop (findBody ba order) fuel (curr, best) = .ok r ∧ Fit order bs r := by
  intro rest
  induction rest with
  | nil =>
    intro seen curr fuel best hBs hTiles hFit hFuel
    obtain ⟨fuel, rfl⟩ : ∃ k, fuel = k + 1 := ⟨fuel - 1, by omega⟩
    have hEnd : curr = ba.numEntries := hTiles
    rw [append_nil] at hBs
    refine ⟨best, ?_, hBs ▸ hFit⟩
    simp only [loop, findBody, hEnd, lt_irrefl, if_false]
    rfl
  | cons b rest ih =>
    intro seen curr fuel best hBs hTiles hFit hFuel
    obtain ⟨fuel, rfl⟩ : ∃ k, fuel = k + 1 := ⟨fuel - 1, by omega⟩
    have hBounds := hTiles.mem_bounds mem_cons_self
    rcases hTiles with ⟨hStart, hRest⟩
    subst hStart
    have hPos : 0 < b.size := Nat.two_pow_pos b.order
    have hLt : b.start < ba.numEntries := by omega
    have hMem : b ∈ bs := by
      rw [hBs]
      exact mem_append_right seen mem_cons_self
    have hSeen : Shows ba.bitmap seen := by
      intro b' hB'
      apply hShows
      rw [hBs]
      exact mem_append_left _ hB'
    rcases findBody_spec hOrder hLt (hShows b hMem) hSeen hFit with
      ⟨hFree, hExact, hPass⟩ | ⟨best', hFit', hPass⟩
    · refine ⟨some b.start, ?_, b, hMem, rfl, hFree, le_of_eq hExact.symm, ?_⟩
      · simp only [loop, hPass]
      · omega
    · simp only [loop, hPass]
      exact ih (seen ++ [b]) _ fuel best' (by rw [hBs, append_assoc]; rfl) hRest hFit'
        (Nat.lt_of_succ_lt_succ hFuel)

theorem splitBody_done {old : BaBits} (hOrder : old.order ≤ order)
    (hSmall : order < 256) (hFirst : bitmap[i]? = some old) :
    splitBody order i bitmap = .ok (.done bitmap) := by
  have hNot : ¬ old.order > order % 256 := by
    omega
  simp only [splitBody, loadBits_eq hFirst, ok_bind, hNot, if_false]
  rfl

/- A larger one is. -/
theorem splitBody_again {old : Nat} (hAligned : 2 ^ (n + 1) ∣ i)
    (hOrder : order ≤ n) (hSmall : n + 1 < 2 ^ 7) (hFirst : bitmap[i]? = some ⟨false, n + 1⟩)
    (hMiddle : bitmap[i + 2 ^ n]? = some ⟨false, old⟩) :
    splitBody order i bitmap = .ok (.again ((bitmap.set i ⟨false, n⟩).set
      (i + 2 ^ n) ⟨false, n⟩)) := by
  have hNe : i ≠ i + 2 ^ n := Nat.ne_of_lt (Nat.lt_add_of_pos_right (Nat.two_pow_pos n))
  have hMiddle' : (bitmap.set i ⟨false, n⟩)[i + 2 ^ n]? = some ⟨false, old⟩ := by
    rw [getElem?_set_ne hNe]
    exact hMiddle
  have hBuddy : i ^^^ 2 ^ n = i + 2 ^ n := buddy_of_dvd hAligned
  have hMore : n + 1 > order % 256 := by
    omega
  simp only [splitBody, loadBits_eq hFirst, ok_bind, hMore, if_true, Nat.add_sub_cancel, hBuddy,
    setOrder_eq hFirst (Nat.lt_of_succ_lt hSmall), setOrder_eq hMiddle' (Nat.lt_of_succ_lt hSmall)]
  rfl

/- The block is halved until it has the order. -/
theorem split (hAligned : 2 ^ n ∣ i) (hOrder : order ≤ n)
    (hSmall : n < 2 ^ 7) (hBlock : BlockAt bitmap ⟨i, n, false⟩) :
    ∃ bitmap' passes, passes ≤ n + 1 ∧ Returns (splitBody order i) passes bitmap bitmap' ∧
      bitmap'[i]? = some ⟨false, order⟩ ∧ SameBut i (2 ^ n) bitmap (bitmap'.set i ⟨true, order⟩) ∧
      Shows (bitmap'.set i ⟨true, order⟩) (blocks i (carve order n)) := by
  have hPos : ∀ k, i < i + 2 ^ k := by
    intro k
    exact Nat.lt_add_of_pos_right (Nat.two_pow_pos k)
  induction n generalizing bitmap with
  | zero =>
    have hEq : order = 0 := Nat.le_zero.mp hOrder
    subst hEq
    exact ⟨bitmap, 1, le_rfl, .done (splitBody_done le_rfl (by omega) hBlock.first), hBlock.first,
      sameBut_set _ le_rfl (hPos 0), shows_singleton.mpr hBlock.set_first⟩
  | succ n ih =>
    by_cases hLt : n < order
    · have hEq : order = n + 1 := by omega
      subst hEq
      refine ⟨bitmap, 1, by omega, .done (splitBody_done le_rfl (by omega) hBlock.first),
        hBlock.first, sameBut_set _ le_rfl (hPos (n + 1)), ?_⟩
      rw [carve, if_pos hLt]
      exact shows_singleton.mpr hBlock.set_first
    · have hLe := Nat.le_of_not_lt hLt
      rcases hBlock.halve with ⟨old, hMiddle, hLeft, hRight⟩
      have hPass := splitBody_again hAligned hLe hSmall hBlock.first hMiddle
      rcases ih (dvd_halves hAligned).1 hLe (Nat.lt_of_succ_lt hSmall) hLeft with
        ⟨bitmap', passes, hPasses, hRun, hFirst, hSame, hShows⟩
      refine ⟨bitmap', passes + 1, Nat.succ_le_succ hPasses, .again hPass hRun, hFirst, ?_, ?_⟩
      · refine ((sameBut_set _ le_rfl (hPos (n + 1))).trans (sameBut_set _ ?_ ?_)).trans
          (hSame.mono le_rfl ?_)
        · omega
        · omega
        · omega
      · rw [carve, if_neg hLt]
        refine shows_append.mpr ⟨hShows, ?_⟩
        exact hSame.shows_right (shows_singleton.mpr hRight)

/- The rest of the tree stays as it is. -/
theorem shows_reserve {m : Nat} (hShows : Shows bitmap (blocks i t))
    (hX : ⟨x, m, false⟩ ∈ blocks i t) (hSame : SameBut x (2 ^ m) bitmap bitmap')
    (hCarved : Shows bitmap' (blocks x (carve order m))) :
    Shows bitmap' (blocks i (reserve x order i t)) := by
  induction t generalizing i with
  | free =>
    cases mem_singleton.mp hX
    exact hCarved
  | used => cases mem_singleton.mp hX
  | @node n l r ihL ihR =>
    rcases shows_append.mp hShows with ⟨hShowsL, hShowsR⟩
    rcases mem_half hX with ⟨hHalf, hXL⟩ | ⟨hHalf, hXR⟩
    · have hBounds := bounds_of_mem hXL
      rw [reserve, if_pos hHalf]
      refine shows_append.mpr ⟨ihL hShowsL hXL, ?_⟩
      exact (hSame.mono hBounds.1 hBounds.2).shows_right hShowsR
    · have hBounds := bounds_of_mem hXR
      rw [reserve, if_neg hHalf]
      refine shows_append.mpr ⟨?_, ihR hShowsR hXR⟩
      exact (hSame.mono hBounds.1 hBounds.2).shows_left hShowsL

------
-- Calls
------

variable {x : Nat} {len : ULong}

/- The blocks that a walk over the bitmap visits. -/
def walk (ba : Ba) : Nat → Nat → Except Fault (List Block)
| 0, _ => .error .outOfFuel
| fuel + 1, curr =>
  if curr < ba.numEntries then do
    let bits ← loadBits ba.bitmap curr
    let rest ← walk ba fuel (curr + 2 ^ bits.order)
    return ⟨curr, bits.order, bits.allocated⟩ :: rest
  else .ok []

/- The slot behind the bitmap is no free block of order 8. -/
def NoBlock (past : BaBits) : Prop :=
  ¬ (past.allocated = false ∧ past.order = 8)

/- The bitmap is that of a tree of 256 slots. -/
structure Holds (ba : Ba) (t : Tree 8) : Prop where
  shown : Shows ba.bitmap (blocks 0 t)
  merged : Merged t
  length : ba.bitmap.length = 256
  entries : ba.numEntries = 256
  maxOrder : ba.maxOrder = 8
  minAlloc : ba.minAlloc = 0x00100000

variable {ba : Ba} {t : Tree 8} {order : Nat}

theorem Holds.tiles (hHolds : Holds ba t) :
    Tiles Block.start Block.size 0 (blocks 0 t)
      ba.numEntries := by
  rw [hHolds.entries]
  exact tiles_blocks 0 t

theorem Holds.blocks_length (hHolds : Holds ba t) : (blocks 0 t).length < ba.numEntries + 1 := by
  have hLe := hHolds.tiles.length_le (fun b => Nat.two_pow_pos b.order)
  omega

theorem walk_eq {bs : List Block} {curr fuel : Nat} (hShows : Shows ba.bitmap bs)
    (hTiles : Tiles Block.start Block.size curr bs ba.numEntries)
    (hFuel : bs.length < fuel) : walk ba fuel curr = .ok bs := by
  induction bs generalizing curr fuel with
  | nil =>
    obtain ⟨fuel, rfl⟩ : ∃ k, fuel = k + 1 := ⟨fuel - 1, by omega⟩
    have hEnd : curr = ba.numEntries := hTiles
    rw [walk, if_neg (by omega)]
  | cons b bs ih =>
    obtain ⟨fuel, rfl⟩ : ∃ k, fuel = k + 1 := ⟨fuel - 1, by omega⟩
    have hBounds := hTiles.mem_bounds mem_cons_self
    have hPos : 0 < b.size := Nat.two_pow_pos b.order
    rcases hTiles with ⟨hStart, hRest⟩
    have hFirst := (hShows b mem_cons_self).first
    rw [hStart] at hFirst
    have hWalk : walk ba fuel (curr + 2 ^ b.order) = .ok bs := by
      apply ih _ hRest (Nat.lt_of_succ_lt_succ hFuel)
      intro b' hB'
      exact hShows b' (mem_cons_of_mem b hB')
    simp only [walk, loadBits_eq hFirst, ok_bind, hWalk]
    rw [if_pos (by omega), ← hStart]
    rfl

/- The allocator after `ba_init`. -/
def noneTaken : Ba :=
  { baNonprelink with maxOrder := 8, bitmap := (replicate 256 ⟨false, 0⟩).set 0 ⟨false, 8⟩ }

/- `ba_init` leaves one free block. -/
theorem baInit_holds : ∃ ba, baInit baNonprelink = .ok ba ∧ Holds ba .free := by
  refine ⟨noneTaken, by decide +kernel, ?_⟩
  refine ⟨?_, trivial, ?_, rfl, rfl, rfl⟩
  · refine shows_singleton.mpr ⟨rfl, ?_⟩
    intro j hLt hEnd
    refine ⟨0, ?_⟩
    simp only [Block.size] at hLt hEnd
    rw [noneTaken, getElem?_set_ne (ne_of_lt hLt), getElem?_replicate_of_lt (by omega)]
  · rw [noneTaken, length_set, length_replicate]

theorem Holds.free {past : BaBits} (hHolds : Holds ba t) (hPast : NoBlock past)
    (hX : ⟨x, order, true⟩ ∈ blocks 0 t) :
    ∃ ba', baFree ba past x = .ok ba' ∧ Holds ba' (release x 0 t) := by
  have hFirst := (hHolds.shown _ hX).first
  have hEnd : 0 + 2 ^ 8 ≤ ba.numEntries := by
    rw [hHolds.entries]
    exact le_rfl
  rcases climb past (dvd_zero _) (by decide) hEnd hHolds.shown hX with
    ⟨bitmap', hSame, hShows, hClimbed⟩
  have hLength : bitmap'.length = 256 := hSame.length.trans hHolds.length
  -- at the root the slot behind the bitmap is looked at
  have hRun : loop (baFreeBody past ba.numEntries) (ba.numEntries + 1)
      (ba.bitmap.set x ⟨false, order⟩, x) = .ok bitmap' := by
    cases hClimbed with
    | @stopped passes _ hPasses hRun =>
      rw [← hRun (ba.numEntries + 1 - passes), Nat.sub_add_cancel (by omega)]
    | @root passes hFree hPasses hRun =>
      rw [hFree] at hShows
      have hRoot := (shows_singleton.mp hShows).first
      have hLoad : load bitmap' past (0 + 2 ^ 8) = .ok past := by
        have hNone : bitmap'[0 + 2 ^ 8]? = none := getElem?_eq_none (Nat.le_of_eq hLength)
        rw [load, hNone, hLength]
        rfl
      have hStop : baFreeBody past ba.numEntries (bitmap', 0) = .ok (.done bitmap') := by
        apply baFreeBody_stop hRoot (buddy_of_dvd (dvd_zero _)) hLoad
        intro hBits
        rw [hBits] at hPast
        exact hPast ⟨rfl, rfl⟩
      rw [show ba.numEntries + 1 = ba.numEntries - passes + 1 + passes by omega, hRun, loop, hStop]
  refine ⟨{ ba with bitmap := bitmap' }, ?_, ?_⟩
  · unfold baFree
    rw [setAllocated_eq false hFirst, ok_bind, hRun]
    rfl
  · exact ⟨hShows, merged_release x 0 hHolds.merged, hLength, hHolds.entries, hHolds.maxOrder,
      hHolds.minAlloc⟩

/-
  `ba_allocate` reserves a free block that is large enough for the order of the bytes, or there is
  none.
-/
theorem Holds.allocate_order (len : ULong) (hHolds : Holds ba t) :
    (baAllocate ba len = .ok (none, ba) ∧ ∀ b ∈ blocks 0 t, b.used = false →
      b.order < baOrder ba.minAlloc len) ∨
    ∃ x m ba', baAllocate ba len = .ok (some x, ba') ∧ ⟨x, m, false⟩ ∈ blocks 0 t ∧
      baOrder ba.minAlloc len ≤ m ∧ Holds ba' (reserve x (baOrder ba.minAlloc len) 0 t) := by
  obtain ⟨order, hEq⟩ : ∃ order, order = baOrder ba.minAlloc len := ⟨_, rfl⟩
  rw [← hEq]
  by_cases hMax : order > ba.maxOrder
  · refine .inl ⟨?_, ?_⟩
    · unfold baAllocate
      simp only [← hEq, hMax, if_true]
      rfl
    · intro b hMem _
      have hLe := order_le_of_mem hMem
      rw [hHolds.maxOrder] at hMax
      omega
  · have hSmall : order ≤ 8 := by
      rw [hHolds.maxOrder] at hMax
      omega
    have hByte : order < 256 := by omega
    rcases loop_find hByte hHolds.shown (blocks 0 t) [] 0 _
      none rfl hHolds.tiles (fun _ hMem => nomatch hMem)
      hHolds.blocks_length with ⟨r, hFind, hFit⟩
    cases r with
    | none =>
      refine .inl ⟨?_, hFit⟩
      unfold baAllocate
      simp only [← hEq, hMax, if_false, hFind, ok_bind]
      rfl
    | some x =>
      rcases hFit with ⟨⟨start, m, used⟩, hMem, rfl, rfl, hLe, _⟩
      have hM := order_le_of_mem hMem
      have hAligned := blocks_aligned (dvd_zero _) hMem
      rcases split hAligned hLe (by omega) (hHolds.shown _ hMem) with
        ⟨bitmap', passes, hPasses, hRun, hFirst, hSame, hShows⟩
      refine .inr ⟨start, m, { ba with bitmap := bitmap'.set start ⟨true, order⟩ }, ?_, hMem, hLe,
        ?_⟩
      · unfold baAllocate
        simp only [← hEq, hMax, if_false, hFind, ok_bind]
        rw [hRun.loop_eq (by omega), ok_bind, setAllocated_eq true hFirst]
        rfl
      · exact ⟨shows_reserve hHolds.shown hMem hSame hShows,
          merged_reserve start order 0 hHolds.merged, hSame.length.trans hHolds.length,
          hHolds.entries, hHolds.maxOrder, hHolds.minAlloc⟩

/- There is a free block for the bytes. -/
def HasRoom (bs : List Block) (len : ULong) : Prop :=
  ∃ b ∈ bs, b.used = false ∧ len.toNat ≤ b.size * libInc

/- What that means for the bytes of a request in range. -/
theorem Holds.allocate (hHolds : Holds ba t)
    (hPos : 0 < len.toNat) (hLt : len.toNat < 2 ^ 32 - libInc) :
    (baAllocate ba len = .ok (none, ba) ∧ ¬ HasRoom (blocks 0 t) len) ∨
    ∃ x m order ba', baAllocate ba len = .ok (some x, ba') ∧ ⟨x, m, false⟩ ∈ blocks 0 t ∧
      order ≤ m ∧ len.toNat ≤ 2 ^ order * libInc ∧ Holds ba' (reserve x order 0 t) := by
  have hOrder : ∀ order, baOrder 0x00100000 len ≤ order ↔ len.toNat ≤ 2 ^ order * libInc := by
    intro order
    rw [baOrder_le, toNat_slots]
    unfold libInc at hLt ⊢
    omega
  rw [← hHolds.minAlloc] at hOrder
  rcases hHolds.allocate_order len with ⟨hNone, hSmall⟩ | ⟨x, m, ba', hSome, hMem, hLe, hHolds'⟩
  · refine .inl ⟨hNone, ?_⟩
    rintro ⟨b, hMem, hFree, hLen⟩
    have hLess := hSmall b hMem hFree
    have hLe := (hOrder b.order).mpr hLen
    omega
  · exact .inr ⟨x, m, _, ba', hSome, hMem, hLe, (hOrder _).mp le_rfl, hHolds'⟩

------
-- Sequences Of Calls
------

/- A request in range, or a live index to be freed. -/
def Valid (h : Heap) : BaOp → Prop
| .allocate len =>
  0 < len.toNat ∧ len.toNat < 2 ^ 32 - libInc
| .free index past =>
  index ∈ h.live.map Prod.fst ∧ NoBlock past

/- What is freed is live. -/
def FreesLive (h : Heap) : BaOp → Prop
| .allocate _ => True
| .free index _ => index ∈ h.live.map Prod.fst

/- No free block is seen behind the bitmap. -/
def BaOp.Clear : BaOp → Prop
| .allocate _ => True
| .free _ past => NoBlock past

/- The blocks in use are the live allocations. -/
structure HeapInv (h : Heap) (t : Tree 8) : Prop where
  holds : Holds h.ba t
  backed : ∀ p ∈ h.live, ∃ order, ⟨p.1, order, true⟩ ∈ blocks 0 t ∧ p.2.toNat ≤ 2 ^ order * libInc
  live : ∀ b ∈ blocks 0 t, b.used = true → ∃ p ∈ h.live, p.1 = b.start
  nodup : (h.live.map Prod.fst).Nodup

/-
  The walk over the bitmap tiles the slots with aligned blocks. Those in use are the live
  allocations, and no two buddies are both free.
-/
structure TiledBy (h : Heap) (bs : List Block) : Prop where
  walked : walk h.ba (h.ba.numEntries + 1) 0 = .ok bs
  tiles : Tiles Block.start Block.size 0 bs 256
  aligned : ∀ b ∈ bs, b.size ∣ b.start
  live : ∀ p ∈ h.live, ∃ b ∈ bs, b.start = p.1 ∧ b.used = true ∧ p.2.toNat ≤ b.size * libInc
  used : ∀ b ∈ bs, b.used = true → ∃ p ∈ h.live, p.1 = b.start
  disjoint : h.live.Pairwise fun p q =>
    ∀ b ∈ bs, ∀ b' ∈ bs, b.start = p.1 → b'.start = q.1 → Apart b b'
  buddies : ∀ b ∈ bs, ∀ b' ∈ bs, b.used = false → b'.used = false → b'.order = b.order →
      b'.start ≠ buddy b.start b.order

variable {h : Heap}

section

variable (hInv : HeapInv h t)

include hInv

/- An allocation takes a block that was free. -/
theorem HeapInv.reserve {ba : Ba} {m : Nat} (hX : ⟨x, m, false⟩ ∈ blocks 0 t)
    (hOrder : order ≤ m) (hLen : len.toNat ≤ 2 ^ order * libInc)
    (hHolds : Holds ba (reserve x order 0 t)) :
    HeapInv ⟨ba, (x, len) :: h.live⟩ (reserve x order 0 t) := by
  refine ⟨hHolds, ?_, ?_, ?_⟩
  · intro p hP
    rcases mem_cons.mp hP with hNew | hOld
    · rw [hNew]
      exact ⟨order, (mem_blocks_reserve hX hOrder rfl).mpr (.inr rfl), hLen⟩
    · rcases hInv.backed p hOld with ⟨o, hBlock, hFits⟩
      exact ⟨o, (mem_blocks_reserve hX hOrder rfl).mpr (.inl hBlock), hFits⟩
  · intro b hB hUsed
    rcases (mem_blocks_reserve hX hOrder hUsed).mp hB with hOld | hNew
    · rcases hInv.live b hOld hUsed with ⟨p, hP, hStart⟩
      exact ⟨p, mem_cons_of_mem _ hP, hStart⟩
    · rw [hNew]
      exact ⟨_, mem_cons_self, rfl⟩
  · refine nodup_cons.mpr ⟨?_, hInv.nodup⟩
    intro hMem
    rcases mem_map.mp hMem with ⟨p, hP, hEq⟩
    rcases hInv.backed p hP with ⟨o, hBlock, _⟩
    have hSame := eq_of_start_eq hX hBlock hEq.symm
    cases hSame

/- A free gives back the block of a live allocation. -/
theorem HeapInv.release {ba : Ba} (hX : ⟨x, order, true⟩ ∈ blocks 0 t)
    (hHolds : Holds ba (release x 0 t)) :
    HeapInv ⟨ba, h.live.filter fun p => p.1 ≠ x⟩ (release x 0 t) := by
  refine ⟨hHolds, ?_, ?_, ?_⟩
  · intro p hP
    rcases mem_filter.mp hP with ⟨hP, hNe⟩
    rcases hInv.backed p hP with ⟨o, hBlock, hFits⟩
    exact ⟨o, (mem_blocks_release hX rfl).mpr ⟨hBlock, of_decide_eq_true hNe⟩, hFits⟩
  · intro b hB hUsed
    rcases (mem_blocks_release hX hUsed).mp hB with ⟨hOld, hNe⟩
    rcases hInv.live b hOld hUsed with ⟨p, hP, hStart⟩
    refine ⟨p, mem_filter.mpr ⟨hP, ?_⟩, hStart⟩
    rw [hStart]
    exact decide_eq_true hNe
  · exact hInv.nodup.sublist (filter_sublist.map Prod.fst)

/- A request of any size. One that is out of range fails. -/
theorem HeapInv.allocate (len : ULong) :
    ∃ h', heapStep h (.allocate len) = .ok h' ∧ ∃ t', HeapInv h' t' := by
  by_cases hRange : Valid h (.allocate len)
  · rcases hInv.holds.allocate hRange.1 hRange.2 with
      ⟨hNone, _⟩ | ⟨x, m, order, ba, hSome, hX, hOrder, hLen, hHolds⟩
    · refine ⟨h, ?_, t, hInv⟩
      rw [heapStep, hNone]
      rfl
    · refine ⟨_, ?_, _, hInv.reserve hX hOrder hLen hHolds⟩
      rw [heapStep, hSome]
      rfl
  · refine ⟨h, ?_, t, hInv⟩
    have hLarge : 8 < baOrder 0x00100000 len := by
      rw [← not_le, baOrder_le, toNat_slots]
      unfold Valid libInc at hRange
      omega
    rw [← hInv.holds.minAlloc] at hLarge
    simp [heapStep, baAllocate, hInv.holds.maxOrder, hLarge]

theorem HeapInv.block_of_live (hLive : x ∈ h.live.map Prod.fst) :
    ∃ order, ⟨x, order, true⟩ ∈ blocks 0 t := by
  rcases mem_map.mp hLive with ⟨p, hP, rfl⟩
  rcases hInv.backed p hP with ⟨order, hX, _⟩
  exact ⟨order, hX⟩

/- One call of a client. -/
theorem HeapInv.step {op : BaOp} (hOp : FreesLive h op ∧ op.Clear) :
    ∃ h', heapStep h op = .ok h' ∧ ∃ t', HeapInv h' t' := by
  cases op with
  | allocate len => exact hInv.allocate len
  | free index past =>
    rcases hInv.block_of_live hOp.1 with ⟨order, hX⟩
    rcases hInv.holds.free hOp.2 hX with ⟨ba, hFree, hHolds⟩
    refine ⟨_, ?_, _, hInv.release hX hHolds⟩
    rw [heapStep, hFree]
    rfl

theorem HeapInv.tiledBy : TiledBy h (blocks 0 t) := by
  refine ⟨?_, tiles_blocks 0 t, ?_, ?_, hInv.live, ?_, ?_⟩
  · exact walk_eq hInv.holds.shown hInv.holds.tiles hInv.holds.blocks_length
  · intro b hB
    exact blocks_aligned (dvd_zero _) hB
  · intro p hP
    rcases hInv.backed p hP with ⟨order, hBlock, hFits⟩
    exact ⟨_, hBlock, rfl, rfl, hFits⟩
  · apply (pairwise_map.mp hInv.nodup).imp
    intro p q hNe b hB b' hB' hP hQ
    have hApart : (blocks 0 t).Pairwise Apart := (tiles_blocks 0 t).pairwise.imp Or.inl
    apply hApart.forall hB hB'
    intro hEq
    rw [hEq, hQ] at hP
    exact hNe hP.symm
  · intro b hB b' hB' hFree hFree' hOrder
    exact no_free_buddies hInv.holds.merged (dvd_zero _) hB hB' hFree hFree' hOrder

end

/- Nothing is live after `ba_init`. -/
theorem heapInv_init {ba : Ba} (hInit : baInit baNonprelink = .ok ba) :
    ∃ t, HeapInv ⟨ba, []⟩ t := by
  rcases baInit_holds with ⟨ba0, hInit0, hHolds⟩
  rw [hInit] at hInit0
  injection hInit0 with hEq
  subst hEq
  refine ⟨.free, hHolds, nofun, ?_, nodup_nil⟩
  intro b hB hUsed
  rw [mem_singleton.mp hB] at hUsed
  cases hUsed

/-
  After every sequence of requests and frees the bitmap is tiled, and a request fails only if no
  free block is large enough.
-/
theorem buddy_allocator_tiled (ba : Ba) (ops : List BaOp) (hInit : baInit baNonprelink = .ok ba)
    (hValid : Along heapStep Valid ⟨ba, []⟩ ops) :
    ∃ h bs, run heapStep ⟨ba, []⟩ ops = .ok h ∧ TiledBy h bs ∧
      ∀ len : ULong, 0 < len.toNat → len.toNat < 2 ^ 32 - libInc →
        ∃ index ba', baAllocate h.ba len = .ok (index, ba') ∧
          (index = none ↔ ¬ HasRoom bs len) := by
  have hStart := heapInv_init hInit
  have hStep : ∀ h op, (∃ t, HeapInv h t) → Valid h op →
      ∃ h', heapStep h op = .ok h' ∧ ∃ t, HeapInv h' t := by
    rintro h op ⟨t, hInv⟩ hOp
    cases op with
    | allocate len => exact hInv.allocate len
    | free index past => exact hInv.step hOp
  rcases run_preserves hStep hStart hValid with ⟨h, hRun, t, hInv⟩
  refine ⟨h, blocks 0 t, hRun, hInv.tiledBy, ?_⟩
  intro len hPos hLt
  rcases hInv.holds.allocate hPos hLt with
    ⟨hNone, hFull⟩ | ⟨x, m, order, ba', hSome, hX, hOrder, hLen, _⟩
  · exact ⟨none, h.ba, hNone, fun _ => hFull, fun _ => rfl⟩
  · refine ⟨some x, ba', hSome, nofun, ?_⟩
    intro hFull
    refine absurd ⟨_, hX, rfl, le_trans hLen ?_⟩ hFull
    exact Nat.mul_le_mul_right _ (Nat.pow_le_pow_right (by decide) hOrder)

/- Two slots are taken, and the first one is given back. -/
theorem buddy_allocator_tiled_freed :
    ∃ h bs, run heapStep ⟨noneTaken, []⟩ [.allocate 5, .allocate 5, .free 0 ⟨true, 0⟩] = .ok h ∧
      TiledBy h bs := by
  have hValid : Along heapStep Valid ⟨noneTaken, []⟩
      [.allocate 5, .allocate 5, .free 0 ⟨true, 0⟩] :=
    .cons rfl ⟨by decide, by decide⟩ (.cons rfl ⟨by decide, by decide⟩
      ⟨⟨.tail _ (.head _), by simp [NoBlock]⟩, fun _ _ => trivial⟩)
  rcases buddy_allocator_tiled _ _ (by decide +kernel) hValid with ⟨h, bs, hRun, hTiled, _⟩
  exact ⟨h, bs, hRun, hTiled⟩

/- Whatever was allocated and freed, the space is one block again when nothing is live. -/
theorem freed_space_is_whole (ba : Ba) (ops : List BaOp) (hInit : baInit baNonprelink = .ok ba)
    (hOps : Along heapStep (fun h op => FreesLive h op ∧ op.Clear) ⟨ba, []⟩ ops) :
    ∃ h, run heapStep ⟨ba, []⟩ ops = .ok h ∧
      (h.live = [] → walk h.ba (h.ba.numEntries + 1) 0 = .ok [⟨0, 8, false⟩]) := by
  have hStep : ∀ h op, (∃ t, HeapInv h t) → FreesLive h op ∧ op.Clear →
      ∃ h', heapStep h op = .ok h' ∧ ∃ t, HeapInv h' t := by
    rintro h op ⟨t, hInv⟩ hOp
    exact hInv.step hOp
  rcases run_preserves hStep (heapInv_init hInit) hOps with ⟨h, hRun, t, hInv⟩
  refine ⟨h, hRun, ?_⟩
  intro hLive
  have hUnused : ∀ b ∈ blocks 0 t, b.used = false := by
    intro b hB
    by_contra hUsed
    rcases hInv.live b hB (Bool.not_eq_false _ ▸ hUsed) with ⟨p, hP, _⟩
    rw [hLive] at hP
    cases hP
  rw [hInv.tiledBy.walked, eq_free_of_unused hInv.holds.merged hUnused]
  rfl

/- Two slots are taken and given back, and a request in between is too large. -/
theorem freed_space_is_whole_two :
    ∃ h, run heapStep ⟨noneTaken, []⟩ [.allocate 5, .allocate 5, .free 0 ⟨true, 0⟩, .allocate
      0xffffffff, .free 1 ⟨true, 0⟩] = .ok h ∧
      walk h.ba (h.ba.numEntries + 1) 0 = .ok [⟨0, 8, false⟩] := by
  have hClear : NoBlock ⟨true, 0⟩ := by simp [NoBlock]
  have hOps : Along heapStep (fun h op => FreesLive h op ∧ op.Clear) ⟨noneTaken, []⟩
      [.allocate 5, .allocate 5, .free 0 ⟨true, 0⟩, .allocate 0xffffffff, .free 1 ⟨true, 0⟩] :=
    .cons rfl ⟨trivial, trivial⟩ (.cons rfl ⟨trivial, trivial⟩
      (.cons rfl ⟨.tail _ (.head _), hClear⟩ (.cons rfl ⟨trivial, trivial⟩
        ⟨⟨.head _, hClear⟩, fun _ _ => trivial⟩)))
  rcases freed_space_is_whole _ _ (by decide +kernel) hOps with ⟨h, hRun, hWhole⟩
  refine ⟨h, hRun, hWhole ?_⟩
  have hLive := congrArg (Except.map Heap.live) hRun
  exact Except.ok.inj (hLive.symm.trans (by decide +kernel))

/- One pass of the loop of `ba_free`, where a look behind the bitmap is a fault. -/
def baFreeBodyInside (numEntries : Nat) (s : List BaBits × Nat) :
    Except Fault (Ctl (List BaBits × Nat) (List BaBits)) := do
  let bits ← loadBits s.1 s.2
  let _ ← loadBits s.1 (s.2 ^^^ 2 ^ bits.order)
  baFreeBody bits numEntries s

def baFreeInside (ba : Ba) (index : Nat) : Except Fault Ba := do
  let bitmap ← setAllocated ba.bitmap index false
  let bitmap ← loop (baFreeBodyInside ba.numEntries) (ba.numEntries + 1) (bitmap, index)
  return { ba with bitmap := bitmap }

/- A call of a client; what lies behind the bitmap does not matter. -/
def heapStepInside (h : Heap) : BaOp → Except Fault Heap
| .allocate len => heapStep h (.allocate len)
| .free index _ => do
    let ba ← baFreeInside h.ba index
    return ⟨ba, h.live.filter fun p => p.1 ≠ index⟩

/- A free block of the size of the bitmap: who sees it behind the bitmap writes to it. -/
def decoy : BaBits := ⟨false, 8⟩

/- A pass that the decoy does not lead astray has stayed inside. -/
theorem baFreeBodyInside_eq {bitmap : List BaBits} {curr : Nat} (hLength : bitmap.length = 2 ^ 8)
    (hCurr : curr < 2 ^ 8) :
    baFreeBodyInside 256 (bitmap, curr) = baFreeBody decoy 256 (bitmap, curr) := by
  obtain ⟨bits, hBits⟩ : ∃ bits, bitmap[curr]? = some bits :=
    ⟨_, getElem?_eq_getElem (hLength ▸ hCurr)⟩
  cases hOther : bitmap[curr ^^^ 2 ^ bits.order]? with
  | some other =>
    simp only [baFreeBodyInside, baFreeBody, loadBits_eq hBits, loadBits_eq hOther,
      load_eq _ hBits, load_eq _ hOther, ok_bind]
  | none =>
    simp only [baFreeBodyInside, baFreeBody, loadBits_eq hBits, load_eq _ hBits, ok_bind]
    simp only [loadBits, load, setOrder, hOther]
    split
    next hEnd =>
      -- only the block of the whole bitmap has its buddy right behind it
      have hBit := (congrArg (Nat.testBit · 8) (hEnd.trans hLength)).trans Nat.testBit_two_pow_self
      have hOrder : bits.order = 8 := by
        simpa [Nat.testBit_xor, Nat.testBit_lt_two_pow hCurr, Nat.testBit_two_pow] using hBit
      simp [decoy, hOrder]
      rfl
    next => rfl

theorem baFreeBody_again {past : BaBits} {numEntries : Nat} {s next : List BaBits × Nat}
    (hBody : baFreeBody past numEntries s = .ok (.again next)) :
    next.1.length = s.1.length ∧ next.2 < numEntries := by
  simp only [baFreeBody, setOrder, bind_eq_ok] at hBody
  rcases hBody with ⟨bits, _, other, _, hBody⟩
  split at hBody
  · simp only [bind_eq_ok, pure_eq_ok] at hBody
    grind [length_set]
  · cases hBody

theorem loop_inside {bitmap : List BaBits} {curr : Nat} (fuel : Nat)
    (hLength : bitmap.length = 2 ^ 8) (hCurr : curr < 2 ^ 8) :
    loop (baFreeBodyInside 256) fuel (bitmap, curr) =
      loop (baFreeBody decoy 256) fuel (bitmap, curr) := by
  induction fuel generalizing bitmap curr with
  | zero => rfl
  | succ fuel ih =>
    rw [loop, loop, baFreeBodyInside_eq hLength hCurr]
    split
    next => rfl
    next => rfl
    next hBody =>
      rcases baFreeBody_again hBody with ⟨hSame, hNext⟩
      exact ih (hSame.trans hLength) hNext

variable {ba : Ba} {h : Heap} {t : Tree 8}

/- `ba_free` stays inside if it does not merge everything. -/
theorem Holds.free_inside {x order : Nat} (hHolds : Holds ba t)
    (hX : ⟨x, order, true⟩ ∈ blocks 0 t) :
    (release x 0 t ≠ .free ∧ ∃ ba', baFreeInside ba x = .ok ba' ∧ Holds ba' (release x 0 t)) ∨
    (release x 0 t = .free ∧ baFreeInside ba x = .error .outOfBounds) := by
  have hFirst := (hHolds.shown _ hX).first
  have hEntries := hHolds.entries
  have hIn : x < 2 ^ 8 := by
    have hBounds := start_lt_of_mem hX
    omega
  rcases climb decoy (dvd_zero _) (by decide) hEntries.ge hHolds.shown hX with
    ⟨bitmap', hSame, hShows, hClimbed⟩
  have hLength : bitmap'.length = 256 := hSame.length.trans hHolds.length
  have hSet : (ba.bitmap.set x ⟨false, order⟩).length = 2 ^ 8 := length_set.trans hHolds.length
  have hLoop := loop_inside 257 hSet hIn
  rw [hEntries] at hClimbed
  cases hClimbed with
  | @stopped passes hFree hPasses hRun =>
    refine .inl ⟨hFree, { ba with bitmap := bitmap' }, ?_, hShows,
      merged_release x 0 hHolds.merged, hLength, hEntries, hHolds.maxOrder, hHolds.minAlloc⟩
    have hStop := hRun (257 - passes)
    rw [Nat.sub_add_cancel (by omega)] at hStop
    simp [baFreeInside, setAllocated_eq false hFirst, hEntries, hLoop, hStop]
  | @root passes hFree hPasses hRun =>
    -- the root is taken for the buddy of the decoy
    refine .inr ⟨hFree, ?_⟩
    rw [hFree] at hShows
    have hRoot : bitmap'[0]? = some ⟨false, 8⟩ := (shows_singleton.mp hShows).first
    have hNone : bitmap'[2 ^ 8]? = none := getElem?_eq_none (Nat.le_of_eq hLength)
    have hPass : baFreeBody decoy 256 (bitmap', 0) = .error .outOfBounds := by
      simp only [baFreeBody, load, hRoot, ok_bind, Nat.zero_xor, hNone, hLength, setOrder, loadBits]
      rfl
    have hOut := hRun (256 - passes + 1)
    rw [loop, hPass, show 256 - passes + 1 + passes = 257 by omega] at hOut
    simp [baFreeInside, setAllocated_eq false hFirst, hEntries, hLoop, hOut]
    rfl

/- What a client frees is not the last that is live. -/
def StaysLive (h : Heap) : BaOp → Prop
| .allocate _ => True
| .free index _ => ∃ p ∈ h.live, p.1 ≠ index

/- Everything is merged if nothing stays live. -/
theorem HeapInv.release_eq_free {x order : Nat} (hInv : HeapInv h t)
    (hX : ⟨x, order, true⟩ ∈ blocks 0 t) :
    Buddy.release x 0 t = .free ↔ ¬ ∃ p ∈ h.live, p.1 ≠ x := by
  constructor
  · rintro hFree ⟨p, hP, hNe⟩
    rcases hInv.backed p hP with ⟨order, hY, _⟩
    have hLeft := (mem_blocks_release hX rfl).mpr ⟨hY, hNe⟩
    rw [hFree] at hLeft
    cases congrArg Block.used (mem_singleton.mp hLeft)
  · intro hNone
    apply eq_free_of_unused (merged_release x 0 hInv.holds.merged)
    intro b hB
    by_contra hUsed
    rw [Bool.not_eq_false] at hUsed
    rcases (mem_blocks_release hX hUsed).mp hB with ⟨hOld, hNe⟩
    rcases hInv.live b hOld hUsed with ⟨p, hP, hStart⟩
    exact hNone ⟨p, hP, hStart ▸ hNe⟩

theorem HeapInv.step_inside (hInv : HeapInv h t) {op : BaOp} (hFrees : FreesLive h op) :
    (StaysLive h op ∧ ∃ h', heapStepInside h op = .ok h' ∧ ∃ t', HeapInv h' t') ∨
    (¬ StaysLive h op ∧ heapStepInside h op = .error .outOfBounds) := by
  cases op with
  | allocate len => exact .inl ⟨trivial, hInv.allocate len⟩
  | free index past =>
    rcases hInv.block_of_live hFrees with ⟨order, hX⟩
    rcases hInv.holds.free_inside hX with ⟨hFree, ba, hBa, hHolds⟩ | ⟨hFree, hOut⟩
    · refine .inl ⟨not_not.mp ((hInv.release_eq_free hX).not.mp hFree), _, ?_, _,
        hInv.release hX hHolds⟩
      simp [heapStepInside, hBa]
    · refine .inr ⟨(hInv.release_eq_free hX).mp hFree, ?_⟩
      rw [heapStepInside, hOut]
      rfl

/-
  From `ba_init` on, the calls of a client that frees what is live stay inside the bitmap if and
  only if each free leaves something allocated.
-/
theorem buddy_allocator_inside_iff (ba : Ba) (ops : List BaOp)
    (hInit : baInit baNonprelink = .ok ba)
    (hFrees : Along heapStepInside FreesLive ⟨ba, []⟩ ops) :
    (∃ h, run heapStepInside ⟨ba, []⟩ ops = .ok h) ↔
      Along heapStepInside StaysLive ⟨ba, []⟩ ops := by
  have hStart := heapInv_init hInit
  generalize (⟨ba, []⟩ : Heap) = h at hStart hFrees ⊢
  rcases hStart with ⟨t, hInv⟩
  induction ops generalizing h t with
  | nil => exact iff_of_true ⟨h, rfl⟩ trivial
  | cons op ops ih =>
    rcases hInv.step_inside hFrees.1 with ⟨hStays, h', hStep, t', hInv'⟩ | ⟨hLast, hStep⟩
    · rw [run, hStep, ok_bind]
      refine (ih h' (hFrees.2 h' hStep) t' hInv').trans ?_
      exact ⟨.cons hStep hStays, fun hAlong => hAlong.2 h' hStep⟩
    · rw [run, hStep]
      refine iff_of_false ?_ fun hAlong => hLast hAlong.1
      rintro ⟨h', hRun⟩
      cases hRun

/- Two slots are taken, and the first one is given back. -/
theorem buddy_allocator_inside_two :
    ∃ h, run heapStepInside ⟨noneTaken, []⟩
      [.allocate 5, .allocate 5, .free 0 decoy] = .ok h := by
  refine (buddy_allocator_inside_iff _ _ (by decide +kernel) ?_).mpr ?_
  · exact .cons rfl trivial (.cons rfl trivial ⟨.tail _ (.head _), fun _ _ => trivial⟩)
  · exact .cons rfl trivial (.cons rfl trivial ⟨⟨_, .head _, by decide⟩, fun _ _ => trivial⟩)

/- A slot is allocated and given back. -/
theorem last_free_leaves_bitmap : ∃ ba h, baInit baNonprelink = .ok ba ∧
    heapStepInside ⟨ba, []⟩ (.allocate 5) = .ok h ∧ 0 ∈ h.live.map Prod.fst ∧
    heapStepInside h (.free 0 decoy) = .error .outOfBounds := by
  refine ⟨noneTaken, _, by decide +kernel, rfl, ?_, ?_⟩
  · simp
  · rfl

end OpenIvi.Linker
