import Mathlib.Data.List.Induction
import Mathlib.Data.Nat.ModEq
import Mathlib.Logic.Function.Basic
import OpenIvi.Lib.Loop

/-
  Ring buffers with separately kept head, tail and count.

  An access outside of the slots is the fault `outOfBounds`. `Ring.Holds` relates a ring to the list
  of its elements, oldest first.

  Items may be numbered in the order in which they come and kept in the slots of a ring. The items
  from `lo` on and before `hi` are in use. In a plain ring item `i` stands in slot `i % n`; in a
  ring over a pool the slot names the cell of the pool that has it, and the cells that are not in
  use may be taken in any order.

  Main declarations:
    * `Ring`
    * `Ring.Filled.holds`
    * `RingPool.take`
    * `RingPool.give`
-/

------
-- Rings
------

namespace OpenIvi.Lib

structure Ring (α : Type) (n : Nat) where
  slots : Vector α n
  head : Nat
  tail : Nat
  count : Nat
deriving DecidableEq, Repr

namespace Ring

variable {α : Type} {n : Nat}

/- A ring with no element and the same value in all slots. -/
def empty (blank : α) : Ring α n where
  slots := Vector.replicate n blank
  head := 0
  tail := 0
  count := 0

variable (r : Ring α n)

/- The element at the head. -/
def peek : Except Fault α :=
  match r.slots[r.head]? with
  | some x => .ok x
  | none => .error .outOfBounds

/- Store at the tail and advance the tail modulo the size. -/
def push (x : α) : Except Fault (Ring α n) :=
  if r.tail < n then
    .ok
      { r with
        slots := r.slots.setIfInBounds r.tail x
        tail := (r.tail + 1) % n
        count := r.count + 1 }
  else
    .error .outOfBounds

/- Store at the tail and advance the tail without wrapping. -/
def fill (x : α) : Except Fault (Ring α n) :=
  if r.tail < n then
    .ok
      { r with slots := r.slots.setIfInBounds r.tail x, tail := r.tail + 1, count := r.count + 1 }
  else
    .error .outOfBounds

/- Take the head out, leaving a blank in its slot. -/
def pop (blank : α) : Except Fault (α × Ring α n) :=
  match r.slots[r.head]? with
  | some x =>
    .ok (x,
      { r with
          slots := r.slots.setIfInBounds r.head blank
          head := (r.head + 1) % n
          count := r.count - 1 })
  | none => .error .outOfBounds

/- The elements from the head on. -/
def contents : List α :=
  (List.range r.count).filterMap fun i => r.slots[(r.head + i) % n]?

/- The ring holds the elements `xs`, oldest first. -/
structure Holds (r : Ring α n) (xs : List α) : Prop where
  head_lt : r.head < n
  count_eq : r.count = xs.length
  tail_eq : r.tail = (r.head + xs.length) % n
  room : xs.length ≤ n
  slots_eq : ∀ i, i < xs.length → r.slots[(r.head + i) % n]? = xs[i]?

------
-- Rings And The Lists They Hold
------

open List

theorem slot_inj {head i j : Nat} (hi : i < n) (hj : j < n)
    (hSlot : (head + i) % n = (head + j) % n) : i = j := by
  have hMod : i ≡ j [MOD n] := Nat.ModEq.add_left_cancel' head hSlot
  unfold Nat.ModEq at hMod
  rwa [Nat.mod_eq_of_lt hi, Nat.mod_eq_of_lt hj] at hMod

/- Reading a list index by index gives the list. -/
theorem filterMap_range_getElem? (xs : List α) :
    ((range xs.length).filterMap fun i => xs[i]?) = xs := by
  induction xs using reverseRecOn with
  | nil => rfl
  | append_singleton xs x ih =>
    have hOld : ((range xs.length).filterMap fun i =>
            (xs ++ [x])[i]?) = (range xs.length).filterMap fun i => xs[i]? := by
      apply filterMap_congr
      intro i hi
      exact getElem?_append_left (mem_range.mp hi)
    rw [length_append, length_singleton, range_succ, filterMap_append, hOld, ih]
    simp

namespace Holds

variable {r : Ring α n} {xs : List α} {x : α}

theorem empty (hSize : 0 < n) (blank : α) : Holds (Ring.empty (n := n) blank) [] where
  head_lt := hSize
  count_eq := rfl
  tail_eq := by simp [Ring.empty]
  room := by simp
  slots_eq := by simp

theorem contents_eq (h : Holds r xs) : r.contents = xs := by
  have hMap : r.contents = (range xs.length).filterMap fun i =>
          xs[i]? := by
    unfold contents
    rw [h.count_eq]
    apply filterMap_congr
    intro i hi
    exact h.slots_eq i (mem_range.mp hi)
  rw [hMap]
  exact filterMap_range_getElem? xs

/- A push adds an element behind the others. -/
theorem push_eq (h : Holds r xs) (hRoom : xs.length < n) (x : α) :
    ∃ next, r.push x = .ok next ∧ Holds next (xs ++ [x]) := by
  have hTail : r.tail < n := by
    rw [h.tail_eq]
    exact Nat.mod_lt _ (by omega)
  refine ⟨_, by rw [push, if_pos hTail], ?_⟩
  exact
    { head_lt := h.head_lt
      count_eq := by simp [h.count_eq]
      tail_eq := by simp [h.tail_eq, Nat.add_assoc]
      room := by
        rw [length_append, length_singleton]
        omega
      slots_eq := by
        intro i hi
        rw [length_append, length_singleton] at hi
        by_cases hOld : i < xs.length
        · have hNe : r.tail ≠ (r.head + i) % n := by
            intro hEq
            rw [h.tail_eq] at hEq
            have hSame := slot_inj (by omega) (by omega) hEq
            omega
          rw [getElem?_append_left hOld, Vector.getElem?_setIfInBounds, if_neg hNe]
          exact h.slots_eq i hOld
        · have hLast : i = xs.length := by omega
          subst hLast
          rw [getElem?_append_right le_rfl, ← h.tail_eq, Vector.getElem?_setIfInBounds]
          simp [hTail] }

theorem head_eq (h : Holds r (x :: xs)) : r.slots[r.head]? = some x := by
  have hFirst := h.slots_eq 0 (by simp)
  rwa [Nat.add_zero, Nat.mod_eq_of_lt h.head_lt] at hFirst

/- A pop takes the oldest element out. -/
theorem pop_eq (h : Holds r (x :: xs)) (blank : α) :
    ∃ next, r.pop blank = .ok (x, next) ∧ Holds next xs := by
  have hRoom := h.room
  have hHead := h.head_lt
  rw [length_cons] at hRoom
  refine ⟨_, by rw [pop, h.head_eq], ?_⟩
  have hNext (i : Nat) : ((r.head + 1) % n + i) % n = (r.head + (i + 1)) % n := by
    rw [Nat.mod_add_mod]
    congr 1
    omega
  exact
    { head_lt := Nat.mod_lt _ (by omega)
      count_eq := by simp [h.count_eq]
      tail_eq := by
        rw [hNext]
        exact h.tail_eq
      room := by omega
      slots_eq := by
        intro i hi
        have hNe : r.head ≠ (r.head + (i + 1)) % n := by
          intro hEq
          have hZero : (r.head + 0) % n = (r.head + (i + 1)) % n := by
            rwa [Nat.add_zero, Nat.mod_eq_of_lt hHead]
          have hSame := slot_inj (by omega) (by omega) hZero
          omega
        rw [hNext, Vector.getElem?_setIfInBounds, if_neg hNe,
          h.slots_eq (i + 1) (by simpa using hi)]
        simp }

end Holds

/- The elements stand in the first slots, from zero on. -/
structure Filled (r : Ring α n) (xs : List α) : Prop where
  head_eq : r.head = 0
  count_eq : r.count = xs.length
  tail_eq : r.tail = xs.length
  slots_eq : ∀ i, i < xs.length → r.slots[i]? = xs[i]?

/- Filling an element in puts it behind the others. -/
theorem Filled.fill_eq {r : Ring α n} {xs : List α}
    (h : Filled r xs) (hRoom : xs.length < n) (x : α) :
    ∃ next, r.fill x = .ok next ∧ Filled next (xs ++ [x]) := by
  have hTail : r.tail < n := by
    rw [h.tail_eq]
    exact hRoom
  refine ⟨_, by rw [fill, if_pos hTail], ?_⟩
  exact
    { head_eq := h.head_eq
      count_eq := by simp [h.count_eq]
      tail_eq := by simp [h.tail_eq]
      slots_eq := by
        intro i hi
        rw [length_append, length_singleton] at hi
        rw [Vector.getElem?_setIfInBounds]
        by_cases hOld : i < xs.length
        · have hNe : r.tail ≠ i := by
            rw [h.tail_eq]
            omega
          rw [if_neg hNe, getElem?_append_left hOld]
          exact h.slots_eq i hOld
        · have hLast : i = xs.length := by omega
          subst hLast
          rw [h.tail_eq, getElem?_append_right le_rfl]
          simp [hRoom] }

theorem Filled.empty (blank : α) : Filled (Ring.empty (n := n) blank) [] where
  head_eq := rfl
  count_eq := rfl
  tail_eq := rfl
  slots_eq := by simp

theorem Filled.holds {r : Ring α n} {xs : List α} (h : Filled r xs) (hRoom : xs.length < n) :
    Holds r xs where
  head_lt := by
    rw [h.head_eq]
    omega
  count_eq := h.count_eq
  tail_eq := by rw [h.head_eq, h.tail_eq, Nat.zero_add, Nat.mod_eq_of_lt hRoom]
  room := by omega
  slots_eq := by
    intro i hi
    rw [h.head_eq, Nat.zero_add, Nat.mod_eq_of_lt (by omega)]
    exact h.slots_eq i hi

end Ring

------
-- Rings Of Numbered Items
------

open List Function

variable {n lo hi : Nat}

theorem slot_ne_next {i : Nat} (hLo : lo ≤ i) (hHi : i < hi)
    (hRoom : hi < lo + n) : i % n ≠ hi % n := by
  intro hEq
  have hSame : (lo + (i - lo)) % n = (lo + (hi - lo)) % n := by
    rwa [Nat.add_sub_cancel' hLo, Nat.add_sub_cancel' (by omega)]
  have hInj := Ring.slot_inj (by omega) (by omega) hSame
  omega

/- The items in use stand in their slots. -/
def InSlots (n : Nat) (slots : Nat → Option Nat) (lo hi : Nat) : Prop :=
  ∀ i, lo ≤ i → i < hi → slots (i % n) = some i

theorem InSlots.push {slots : Nat → Option Nat} (h : InSlots n slots lo hi) (hRoom : hi < lo + n) :
    InSlots n (update slots (hi % n) (some hi)) lo (hi + 1) := by
  intro i hLo hHi
  by_cases hLast : i = hi
  · rw [hLast, update_self]
  · have hOld : i < hi := by omega
    rw [update_of_ne (slot_ne_next hLo hOld hRoom)]
    exact h i hLo hOld

theorem InSlots.pop {slots : Nat → Option Nat}
    (h : InSlots n slots lo hi) : InSlots n slots (lo + 1) hi :=
  fun i hLo hHi => h i (by omega) hHi

------
-- Rings Over A Pool
------

variable {β : Type} {free : List β} {slots : Nat → β} {cells : β → Option Nat}

/-
  The slots of the items in use name cells that have these items and are not free. There are `n`
  cells in all.
-/
structure RingPool (n : Nat) (free : List β) (slots : Nat → β)
    (cells : β → Option Nat) (lo hi : Nat) : Prop where
  le : lo ≤ hi
  nodup : free.Nodup
  count : free.length + hi = n + lo
  cell : ∀ i, lo ≤ i → i < hi → cells (slots (i % n)) = some i
  taken : ∀ i, lo ≤ i → i < hi → slots (i % n) ∉ free

namespace RingPool

theorem start {cells : Nat → Option Nat} (slots : Nat → Nat) :
    RingPool n (range n) slots cells 0 0 where
  le := Nat.le_refl 0
  nodup := nodup_range
  count := by rw [length_range]
  cell := fun i _ hHi => absurd hHi (Nat.not_lt_zero i)
  taken := fun i _ hHi => absurd hHi (Nat.not_lt_zero i)

section

variable {b : β} (h : RingPool n free slots cells lo hi) (hFree : b ∈ free)

include h hFree

theorem room : hi < lo + n := by
  have hPos := length_pos_of_mem hFree
  have hCount := h.count
  omega

theorem slot_update {i : Nat} (hLo : lo ≤ i) (hHi : i < hi) :
    update slots (hi % n) b (i % n) = slots (i % n) :=
  update_of_ne (slot_ne_next hLo hHi (h.room hFree)) _ _

/- The next item goes to any cell that is free. -/
theorem take [DecidableEq β] :
    RingPool n (free.erase b) (update slots (hi % n) b) (update cells b (some hi)) lo (hi + 1) where
  le := Nat.le_succ_of_le h.le
  nodup := h.nodup.erase b
  count := by
    have hPos := length_pos_of_mem hFree
    have hCount := h.count
    rw [length_erase_of_mem hFree]
    omega
  cell := by
    intro i hLo hHi
    by_cases hLast : i = hi
    · rw [hLast, update_self, update_self]
    · have hOld : i < hi := by omega
      have hNe : slots (i % n) ≠ b := by
        intro hEq
        exact h.taken i hLo hOld (hEq ▸ hFree)
      rw [h.slot_update hFree hLo hOld, update_of_ne hNe]
      exact h.cell i hLo hOld
  taken := by
    intro i hLo hHi
    by_cases hLast : i = hi
    · rw [hLast, update_self]
      exact h.nodup.not_mem_erase
    · have hOld : i < hi := by omega
      rw [h.slot_update hFree hLo hOld]
      intro hMem
      exact h.taken i hLo hOld (mem_of_mem_erase hMem)

end

/- The cell of the first item in use may be given back. -/
theorem give [DecidableEq β] (h : RingPool n free slots cells lo hi) (hUsed : lo < hi) :
    RingPool n (slots (lo % n) :: free) slots (update cells (slots (lo % n)) none) (lo + 1) hi := by
  -- The items in their cells tell the cells apart.
  have hNe : ∀ i, lo + 1 ≤ i → i < hi → slots (i % n) ≠ slots (lo % n) := by
    intro i hLo hHi hEq
    have hItem := h.cell i (by omega) hHi
    rw [hEq, h.cell lo (le_refl lo) hUsed] at hItem
    have hSame := Option.some.inj hItem
    omega
  exact
    { le := hUsed
      nodup := nodup_cons.mpr ⟨h.taken lo (le_refl lo) hUsed, h.nodup⟩
      count := by
        have hCount := h.count
        rw [length_cons]
        omega
      cell := by
        intro i hLo hHi
        rw [update_of_ne (hNe i hLo hHi)]
        exact h.cell i (by omega) hHi
      taken := by
        intro i hLo hHi hMem
        rcases mem_cons.mp hMem with hFirst | hOld
        · exact hNe i hLo hHi hFirst
        · exact h.taken i (by omega) hHi hOld }

end RingPool

end OpenIvi.Lib
