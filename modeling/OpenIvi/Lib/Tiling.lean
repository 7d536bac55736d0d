import Mathlib.Data.List.Chain
import Mathlib.Data.Nat.Bitwise
import Mathlib.Data.UInt

/-
  Segments that tile an interval.

  A list of segments, each with a start and a size, tiles the interval from `s` to `e` if every
  segment starts where the one before it ends.

  A tree of height `n` divides `2 ^ n` slots into blocks, each of a power of two. `release` frees a
  block and puts free halves together again; `reserve` takes a free block, halving it until it has
  the order that was asked for.

  Main declarations:
    * `Tiles`
    * `Tiles.flatten_slices`
    * `Buddy.Tree`
    * `Buddy.mem_blocks_release`
-/

namespace OpenIvi.Lib

open List

variable {α : Type} (start size : α → Nat)

/- The segments tile the interval from `s` to `e`. -/
def Tiles : Nat → List α → Nat → Prop
| s, [], e => s = e
| s, c :: cs, e =>
  start c = s ∧ Tiles (s + size c) cs e

variable {start size : α → Nat} {s e : Nat} {cs : List α}

theorem tiles_append {ds : List α} :
    Tiles start size s (cs ++ ds) e ↔ ∃ m, Tiles start size s cs m ∧ Tiles start size m ds e := by
  induction cs generalizing s with
  | nil => simp [Tiles]
  | cons c cs ih =>
    simp only [cons_append, Tiles, ih]
    constructor
    · rintro ⟨hStart, m, hLeft, hRight⟩
      exact ⟨m, ⟨hStart, hLeft⟩, hRight⟩
    · rintro ⟨m, ⟨hStart, hLeft⟩, hRight⟩
      exact ⟨hStart, m, hLeft, hRight⟩

section

variable (h : Tiles start size s cs e)

include h

theorem Tiles.le : s ≤ e := by
  induction cs generalizing s with
  | nil => exact le_of_eq h
  | cons c cs ih =>
    have hLe := ih h.2
    omega

theorem Tiles.sum : s + (cs.map size).sum = e := by
  induction cs generalizing s with
  | nil => exact h
  | cons c cs ih =>
    rw [map_cons, sum_cons, ← add_assoc]
    exact ih h.2

theorem Tiles.mem_bounds {c : α} (hMem : c ∈ cs) : s ≤ start c ∧ start c + size c ≤ e := by
  induction cs generalizing s with
  | nil => cases hMem
  | cons d cs ih =>
    rcases h with ⟨hStart, hRest⟩
    rcases mem_cons.mp hMem with rfl | hTail
    · have hLe := hRest.le
      omega
    · have hBounds := ih hRest hTail
      omega

theorem Tiles.pairwise : cs.Pairwise (fun c d => start c + size c ≤ start d) := by
  induction cs generalizing s with
  | nil => exact List.Pairwise.nil
  | cons c cs ih =>
    rcases h with ⟨hStart, hRest⟩
    refine List.Pairwise.cons ?_ (ih hRest)
    intro d hMem
    have hBounds := hRest.mem_bounds hMem
    omega

theorem Tiles.length_le (hPos : ∀ c, 0 < size c) : s + cs.length ≤ e := by
  induction cs generalizing s with
  | nil => exact le_of_eq h
  | cons c cs ih =>
    have hLe := ih h.2
    have hSize := hPos c
    simp only [length_cons]
    omega

end

theorem Tiles.replace {before old new after : List α}
    (h : Tiles start size s (before ++ old ++ after) e)
    (hSame : ∀ m n, Tiles start size m old n → Tiles start size m new n) :
    Tiles start size s (before ++ new ++ after) e := by
  rcases tiles_append.mp h with ⟨n, hFront, hAfter⟩
  rcases tiles_append.mp hFront with ⟨m, hBefore, hOld⟩
  exact tiles_append.mpr ⟨n, tiles_append.mpr ⟨m, hBefore, hSame m n hOld⟩, hAfter⟩

theorem Tiles.flatten_slices {β : Type} (h : Tiles start size s cs e) (l : List β) :
    (cs.map (fun c => (l.drop (start c)).take (size c))).flatten = (l.drop s).take (e - s) := by
  induction cs generalizing s with
  | nil =>
    have hEq : s = e := h
    simp [hEq]
  | cons c cs ih =>
    rcases h with ⟨hStart, hRest⟩
    have hLe := hRest.le
    have hSum : e - s = size c + (e - (s + size c)) := by omega
    rw [map_cons, flatten_cons, ih hRest, hStart, hSum, take_add, drop_drop]

end OpenIvi.Lib

------
-- Buddies
------

namespace OpenIvi.Lib.Buddy

open List

/- The other half of the block that a block is one half of. -/
def buddy (x order : Nat) : Nat :=
  x ^^^ 2 ^ order

theorem buddy_buddy (x order : Nat) : buddy (buddy x order) order = x := by
  unfold buddy
  rw [Nat.xor_assoc, Nat.xor_self, Nat.xor_zero]

theorem buddy_ne (x order : Nat) : buddy x order ≠ x := by
  intro hEq
  have hZero : 2 ^ order = 0 := by
    rw [← Nat.xor_right_inj (x := x), Nat.xor_zero]
    exact hEq
  exact absurd hZero (Nat.two_pow_pos order).ne'

/- Behind an even block lies its buddy. -/
theorem buddy_of_dvd {x order : Nat} (hAligned : 2 ^ (order + 1) ∣ x) :
    buddy x order = x + 2 ^ order := by
  rcases hAligned with ⟨q, hQ⟩
  have hLt : 2 ^ order < 2 ^ (order + 1) := Nat.pow_lt_pow_right (by decide) (Nat.lt_succ_self _)
  unfold buddy
  rw [hQ]
  apply Nat.eq_of_testBit_eq
  intro j
  rw [Nat.testBit_two_pow_mul_add _ hLt, Nat.testBit_xor, Nat.testBit_two_pow_mul]
  by_cases hJ : j < order + 1
  · simp [hJ, Nat.not_le.mpr hJ]
  · have hNe : order ≠ j := by omega
    simp [hJ, Nat.le_of_not_lt hJ, Nat.testBit_two_pow_of_ne hNe]

theorem buddy_div {order n : Nat} (x : Nat) (hLt : order < n) :
    buddy x order / 2 ^ n = x / 2 ^ n := by
  unfold buddy
  rw [← Nat.shiftRight_eq_div_pow, ← Nat.shiftRight_eq_div_pow, Nat.shiftRight_xor_distrib,
    Nat.shiftRight_eq_div_pow (2 ^ order), Nat.div_eq_of_lt (Nat.pow_lt_pow_right (by decide) hLt),
    Nat.xor_zero]

------
-- Trees And Blocks
------

/- A division of `2 ^ n` slots into blocks. -/
inductive Tree : Nat → Type where
| free {n : Nat} : Tree n
| used {n : Nat} : Tree n
| node {n : Nat} (l r : Tree n) : Tree (n + 1)

/- A block of `2 ^ order` slots. -/
structure Block where
  start : Nat
  order : Nat
  used : Bool
deriving DecidableEq

def Block.size (b : Block) : Nat :=
  2 ^ b.order

/- The blocks of a tree whose slots begin at `i`. -/
def blocks : {n : Nat} → Nat → Tree n → List Block
| n, i, .free => [⟨i, n, false⟩]
| n, i, .used => [⟨i, n, true⟩]
| _, i, @Tree.node n l r =>
  blocks i l ++ blocks (i + 2 ^ n) r
termination_by structural _ _ t => t

/- No two halves are both free. -/
def Merged : {n : Nat} → Tree n → Prop
| _, .free => True
| _, .used => True
| _, .node l r =>
  ¬ (l = .free ∧ r = .free) ∧ Merged l ∧ Merged r

variable {n i : Nat} {t : Tree n} {b b' : Block}

theorem dvd_halves (hAligned : 2 ^ (n + 1) ∣ i) : 2 ^ n ∣ i ∧ 2 ^ n ∣ i + 2 ^ n := by
  have hLeft : 2 ^ n ∣ i := (Nat.pow_dvd_pow 2 (Nat.le_succ n)).trans hAligned
  exact ⟨hLeft, Nat.dvd_add hLeft (Nat.dvd_refl _)⟩

theorem tiles_blocks (i : Nat) (t : Tree n) :
    Tiles Block.start Block.size i (blocks i t) (i + 2 ^ n) := by
  induction t generalizing i with
  | free | used => exact ⟨rfl, rfl⟩
  | @node n l r ihL ihR =>
    refine tiles_append.mpr ⟨i + 2 ^ n, ihL i, ?_⟩
    have hEnd : i + 2 ^ (n + 1) = i + 2 ^ n + 2 ^ n := by omega
    rw [hEnd]
    exact ihR (i + 2 ^ n)

theorem bounds_of_mem (hMem : b ∈ blocks i t) : i ≤ b.start ∧ b.start + b.size ≤ i + 2 ^ n :=
  (tiles_blocks i t).mem_bounds hMem

theorem start_lt_of_mem (hMem : b ∈ blocks i t) : b.start < i + 2 ^ n := by
  have hBounds := bounds_of_mem hMem
  have hPos : 0 < b.size := Nat.two_pow_pos b.order
  omega

theorem order_le_of_mem (hMem : b ∈ blocks i t) : b.order ≤ n := by
  induction t generalizing i with
  | free | used => rw [mem_singleton.mp hMem]
  | node l r ihL ihR =>
    rcases mem_append.mp hMem with hL | hR
    · exact Nat.le_succ_of_le (ihL hL)
    · exact Nat.le_succ_of_le (ihR hR)

theorem mem_half {l r : Tree n} (hMem : b ∈ blocks i (.node l r)) :
    (b.start < i + 2 ^ n ∧ b ∈ blocks i l) ∨
      (¬ b.start < i + 2 ^ n ∧ b ∈ blocks (i + 2 ^ n) r) := by
  rcases mem_append.mp hMem with hL | hR
  · exact .inl ⟨start_lt_of_mem hL, hL⟩
  · exact .inr ⟨not_lt.mpr (bounds_of_mem hR).1, hR⟩

/- No two blocks begin at the same slot. -/
theorem eq_of_start_eq (hMem : b ∈ blocks i t)
    (hMem' : b' ∈ blocks i t) (hStart : b.start = b'.start) : b = b' := by
  induction t generalizing i with
  | free | used => rw [mem_singleton.mp hMem, mem_singleton.mp hMem']
  | node l r ihL ihR =>
    have hHalf := mem_half hMem
    rw [hStart] at hHalf
    rcases hHalf with ⟨hLt, hL⟩ | ⟨hGe, hR⟩
    · rcases mem_half hMem' with ⟨_, hL'⟩ | ⟨hGe', _⟩
      · exact ihL hL hL'
      · exact absurd hLt hGe'
    · rcases mem_half hMem' with ⟨hLt', _⟩ | ⟨_, hR'⟩
      · exact absurd hLt' hGe
      · exact ihR hR hR'

/- The blocks have no slot in common. -/
def Apart (b b' : Block) : Prop :=
  b.start + b.size ≤ b'.start ∨ b'.start + b'.size ≤ b.start

instance : Std.Symm Apart where
  symm _ _ := Or.symm

theorem exists_first (i : Nat) (t : Tree n) : ∃ b ∈ blocks i t, b.start = i := by
  induction t generalizing i with
  | free | used => exact ⟨_, mem_cons_self, rfl⟩
  | node l r ihL _ =>
    rcases ihL i with ⟨b, hMem, hStart⟩
    exact ⟨b, mem_append_left _ hMem, hStart⟩

theorem blocks_aligned (hAligned : 2 ^ n ∣ i) (hMem : b ∈ blocks i t) : 2 ^ b.order ∣ b.start := by
  induction t generalizing i with
  | free | used =>
    rw [mem_singleton.mp hMem]
    exact hAligned
  | node l r ihL ihR =>
    rcases dvd_halves hAligned with ⟨hLeft, hRight⟩
    rcases mem_append.mp hMem with hL | hR
    · exact ihL hLeft hL
    · exact ihR hRight hR

/- A free block as large as the tree is all of it. -/
theorem eq_free_of_mem (hMem : b ∈ blocks i t)
    (hFree : b.used = false) (hOrder : b.order = n) : t = .free := by
  cases t with
  | free => rfl
  | used =>
    rw [mem_singleton.mp hMem] at hFree
    cases hFree
  | node l r =>
    rcases mem_append.mp hMem with hL | hR
    · have hLe := order_le_of_mem hL
      omega
    · have hLe := order_le_of_mem hR
      omega

/- The halves do not share a larger aligned block. -/
theorem div_halves {l r : Tree n} (hAligned : 2 ^ n ∣ i) (hL : b ∈ blocks i l)
    (hR : b' ∈ blocks (i + 2 ^ n) r) : b.start / 2 ^ n ≠ b'.start / 2 ^ n := by
  rcases hAligned with ⟨q, hQ⟩
  have hPos : 0 < 2 ^ n := Nat.two_pow_pos n
  have hLeft : b.start < (q + 1) * 2 ^ n := by
    have hLt := start_lt_of_mem hL
    rw [hQ] at hLt
    rw [Nat.add_mul, Nat.mul_comm q, Nat.one_mul]
    exact hLt
  have hRight : (q + 1) * 2 ^ n ≤ b'.start := by
    have hLe := (bounds_of_mem hR).1
    rw [hQ] at hLe
    rw [add_mul, mul_comm q, one_mul]
    exact hLe
  have hDivLeft := (Nat.div_lt_iff_lt_mul hPos).mpr hLeft
  have hDivRight := (Nat.le_div_iff_mul_le hPos).mpr hRight
  omega

/- A tree with nothing in use is one free block. -/
theorem eq_free_of_unused (hMerged : Merged t) (hNone : ∀ b ∈ blocks i t, b.used = false) :
    t = .free := by
  induction t generalizing i with
  | free => rfl
  | used => cases hNone _ mem_cons_self
  | node l r ihL ihR =>
    rcases hMerged with ⟨hNot, hL, hR⟩
    have hLeft := ihL hL fun b hB => hNone b (mem_append_left _ hB)
    have hRight := ihR hR fun b hB => hNone b (mem_append_right _ hB)
    exact absurd ⟨hLeft, hRight⟩ hNot

/- Of two buddies at least one is in use. -/
theorem no_free_buddies (hMerged : Merged t) (hAligned : 2 ^ n ∣ i) (hMem : b ∈ blocks i t)
    (hMem' : b' ∈ blocks i t) (hFree : b.used = false)
    (hFree' : b'.used = false) (hOrder : b'.order = b.order) :
    b'.start ≠ buddy b.start b.order := by
  induction t generalizing i with
  | free | used =>
    rw [mem_singleton.mp hMem, mem_singleton.mp hMem']
    exact (buddy_ne _ _).symm
  | @node n l r ihL ihR =>
    rcases hMerged with ⟨hNot, hMergedL, hMergedR⟩
    rcases dvd_halves hAligned with ⟨hLeft, hRight⟩
    -- in different halves, as large as these or smaller
    have hCross : ∀ {x y : Block}, x ∈ blocks i l → y ∈ blocks (i + 2 ^ n) r → x.used = false →
        y.used = false → y.order = x.order → y.start ≠ buddy x.start x.order := by
      intro x y hX hY hFreeX hFreeY hSame hBuddy
      rcases lt_or_ge x.order n with hLt | hGe
      · apply div_halves hLeft hX hY
        rw [hBuddy, buddy_div x.start hLt]
      · have hTop : x.order = n := le_antisymm (order_le_of_mem hX) hGe
        exact hNot ⟨eq_free_of_mem hX hFreeX hTop, eq_free_of_mem hY hFreeY (hSame.trans hTop)⟩
    rcases mem_append.mp hMem with hL | hR
    · rcases mem_append.mp hMem' with hL' | hR'
      · exact ihL hMergedL hLeft hL hL'
      · exact hCross hL hR' hFree hFree' hOrder
    · rcases mem_append.mp hMem' with hL' | hR'
      · intro hBuddy
        apply hCross hL' hR hFree' hFree hOrder.symm
        rw [hBuddy, hOrder, buddy_buddy]
      · exact ihR hMergedR hRight hR hR'

------
-- Releasing And Reserving
------

/- Two free halves are one free block. -/
def merge : {n : Nat} → Tree n → Tree n → Tree (n + 1)
| _, .free, .free => .free
| _, .free, .used => .node .free .used
| _, .free, .node l r => .node .free (.node l r)
| _, .used, r => .node .used r
| _, .node l l', r => .node (.node l l') r

/- Free the block at `x`, of a tree that begins at `i`. -/
def release (x : Nat) : {n : Nat} → Nat → Tree n → Tree n
| _, _, .free => .free
| _, _, .used => .free
| _, i, @Tree.node n l r =>
  if x < i + 2 ^ n then merge (release x i l) r
  else merge l (release x (i + 2 ^ n) r)
termination_by structural _ _ t => t

/- A free tree with its first `2 ^ order` slots taken. -/
def carve (order : Nat) : (n : Nat) → Tree n
| 0 => .used
| n + 1 =>
  if n < order then .used else .node (carve order n) .free

/- Take slots of the free block at `x`. -/
def reserve (x order : Nat) : {n : Nat} → Nat → Tree n → Tree n
| n, _, .free => carve order n
| _, _, .used => .used
| _, i, @Tree.node n l r =>
  if x < i + 2 ^ n then .node (reserve x order i l) r
  else .node l (reserve x order (i + 2 ^ n) r)
termination_by structural _ _ t => t

variable {x order : Nat}

theorem merge_eq_node {l r : Tree n}
    (hNot : ¬ (l = .free ∧ r = .free)) : merge l r = .node l r := by
  cases l with
  | free =>
    cases r with
    | free => exact absurd ⟨rfl, rfl⟩ hNot
    | used | node r r' => rfl
  | used | node l l' => rfl

theorem merged_merge {l r : Tree n} (hL : Merged l) (hR : Merged r) : Merged (merge l r) := by
  by_cases hFree : l = .free ∧ r = .free
  · rcases hFree with ⟨rfl, rfl⟩
    exact trivial
  · rw [merge_eq_node hFree]
    exact ⟨hFree, hL, hR⟩

theorem merged_release (x i : Nat) (hMerged : Merged t) : Merged (release x i t) := by
  induction t generalizing i with
  | free | used => exact trivial
  | node l r ihL ihR =>
    rcases hMerged with ⟨_, hL, hR⟩
    unfold release
    split
    · exact merged_merge (ihL i hL) hR
    · exact merged_merge hL (ihR _ hR)

theorem not_mem_free (hUsed : b.used = true) : b ∉ blocks i (.free : Tree n) := by
  intro hB
  rw [mem_singleton.mp hB] at hUsed
  cases hUsed

/- The blocks in use are those of the halves. -/
theorem mem_blocks_merge {l r : Tree n} (hUsed : b.used = true) :
    b ∈ blocks i (merge l r) ↔ b ∈ blocks i l ∨ b ∈ blocks (i + 2 ^ n) r := by
  by_cases hFree : l = .free ∧ r = .free
  · rcases hFree with ⟨rfl, rfl⟩
    exact iff_of_false (not_mem_free hUsed)
      (not_or.mpr ⟨not_mem_free hUsed, not_mem_free hUsed⟩)
  · rw [merge_eq_node hFree]
    exact mem_append

/- After the release all other blocks are still in use. -/
theorem mem_blocks_release (hX : ⟨x, order, true⟩ ∈ blocks i t) (hUsed : b.used = true) :
    b ∈ blocks i (release x i t) ↔ b ∈ blocks i t ∧ b.start ≠ x := by
  induction t generalizing i with
  | free => cases mem_singleton.mp hX
  | used =>
    cases mem_singleton.mp hX
    apply iff_of_false (not_mem_free hUsed)
    rintro ⟨hB, hNe⟩
    exact hNe (congrArg Block.start (mem_singleton.mp hB))
  | @node n l r ihL ihR =>
    -- the block is in one half, so not in the other
    rcases mem_half hX with ⟨hLt, hXL⟩ | ⟨hLt, hXR⟩
    · have hOther : b ∈ blocks (i + 2 ^ n) r → b.start ≠ x := by
        intro hB hEq
        rw [← hEq] at hLt
        exact absurd (bounds_of_mem hB).1 (not_le.mpr hLt)
      rw [release, if_pos hLt, mem_blocks_merge hUsed, ihL hXL, blocks, mem_append]
      tauto
    · have hOther : b ∈ blocks i l → b.start ≠ x := by
        intro hB hEq
        rw [← hEq] at hLt
        exact absurd (start_lt_of_mem hB) hLt
      rw [release, if_neg hLt, mem_blocks_merge hUsed, ihR hXR, blocks, mem_append]
      tauto

theorem carve_ne_free (order n : Nat) : carve order n ≠ .free := by
  cases n with
  | zero => exact nofun
  | succ n =>
    unfold carve
    split <;> exact nofun

theorem merged_carve (order n : Nat) : Merged (carve order n) := by
  induction n with
  | zero => exact trivial
  | succ n ih =>
    unfold carve
    split
    · exact trivial
    · refine ⟨?_, ih, trivial⟩
      intro hFree
      exact carve_ne_free order n hFree.1

theorem mem_blocks_carve (hOrder : order ≤ n) (hUsed : b.used = true) :
    b ∈ blocks i (carve order n) ↔ b = ⟨i, order, true⟩ := by
  induction n with
  | zero =>
    rw [Nat.le_zero.mp hOrder]
    exact mem_singleton
  | succ n ih =>
    unfold carve
    by_cases hLt : n < order
    · have hEq : order = n + 1 := by omega
      rw [if_pos hLt, hEq]
      exact mem_singleton
    · rw [if_neg hLt, blocks, mem_append, ih (Nat.le_of_not_lt hLt)]
      simp [not_mem_free hUsed]

theorem reserve_ne_free (x order i : Nat) (t : Tree n) : reserve x order i t ≠ .free := by
  cases t with
  | free => exact carve_ne_free order _
  | used => exact nofun
  | node l r =>
    unfold reserve
    split <;> exact nofun

theorem merged_reserve (x order i : Nat) (hMerged : Merged t) : Merged (reserve x order i t) := by
  induction t generalizing i with
  | free => exact merged_carve order _
  | used => exact trivial
  | node l r ihL ihR =>
    rcases hMerged with ⟨_, hL, hR⟩
    unfold reserve
    split
    · refine ⟨?_, ihL i hL, hR⟩
      intro hFree
      exact reserve_ne_free x order i l hFree.1
    · refine ⟨?_, hL, ihR _ hR⟩
      intro hFree
      exact reserve_ne_free x order _ r hFree.2

/- One more block is in use. -/
theorem mem_blocks_reserve {m : Nat} (hX : ⟨x, m, false⟩ ∈ blocks i t) (hOrder : order ≤ m)
    (hUsed : b.used = true) :
    b ∈ blocks i (reserve x order i t) ↔ b ∈ blocks i t ∨ b = ⟨x, order, true⟩ := by
  induction t generalizing i with
  | free =>
    cases mem_singleton.mp hX
    rw [reserve, mem_blocks_carve hOrder hUsed]
    simp [not_mem_free hUsed]
  | used => cases mem_singleton.mp hX
  | @node n l r ihL ihR =>
    rcases mem_half hX with ⟨hLt, hXL⟩ | ⟨hLt, hXR⟩
    · rw [reserve, if_pos hLt, blocks, mem_append, ihL hXL, blocks, mem_append]
      tauto
    · rw [reserve, if_neg hLt, blocks, mem_append, ihR hXR, blocks, mem_append]
      tauto

end OpenIvi.Lib.Buddy
