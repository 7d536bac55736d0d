import OpenIvi.Lib.Loop

/-
  Maps that are kept in slots.

  A map is the list of its keys with their values. A key keeps the slot it got first: a new value
  for it replaces the old one in place, and a new key gets the next slot.

  Main declarations:
    * `SlotMap.get`
    * `SlotMap.put`
    * `SlotMap.put_of_first`
    * `SlotMap.put_of_absent`
-/

------
-- Reading And Writing
------

namespace OpenIvi.Lib.SlotMap

open List

section

variable {α β : Type} [DecidableEq α]

/- The value of a key. -/
def get : List (α × β) → α → Option β
| [], _ => none
| (key, value) :: m, k =>
  if key = k then some value else get m k

/- Give a key a value. -/
def put : List (α × β) → α → β → List (α × β)
| [], k, v => [(k, v)]
| (key, value) :: m, k, v =>
  if key = k then (k, v) :: m
  else (key, value) :: put m k v

variable {m : List (α × β)} {k k' : α} {v : β}

theorem get_put_self (m : List (α × β)) (k : α) (v : β) : get (put m k v) k = some v := by
  induction m with
  | nil => simp [get, put]
  | cons p m ih =>
    rcases p with ⟨key, value⟩
    by_cases hKey : key = k
    · simp [get, put, hKey]
    · simp [get, put, hKey, ih]

theorem get_put_of_ne (m : List (α × β)) (v : β) (hNe : k' ≠ k) :
    get (put m k v) k' = get m k' := by
  induction m with
  | nil => simp [get, put, hNe.symm]
  | cons p m ih =>
    rcases p with ⟨key, value⟩
    by_cases hKey : key = k
    · simp [get, put, hKey, hNe.symm]
    · simp [get, put, hKey, ih]

theorem mem_keys_of_get (hGet : get m k = some v) : k ∈ m.map Prod.fst := by
  induction m with
  | nil => cases hGet
  | cons p m ih =>
    rcases p with ⟨key, value⟩
    by_cases hKey : key = k
    · simp [hKey]
    · simp only [get, hKey, if_false] at hGet
      exact mem_cons_of_mem _ (ih hGet)

end

------
-- Slots
------

section

variable {α β : Type} {m : List (α × β)} {k : α} {v : β}

/- No slot below `i` has the key. -/
def AbsentBelow (m : List (α × β)) (k : α) (i : Nat) : Prop :=
  ∀ j p, j < i → m[j]? = some p → p.1 ≠ k

/- The slot `i` is the first one with the key. -/
structure FirstAt (m : List (α × β)) (k : α) (i : Nat) (v : β) : Prop where
  slot : m[i]? = some (k, v)
  first : AbsentBelow m k i

variable {i : Nat} {p : α × β}

theorem AbsentBelow.succ (hBelow : AbsentBelow m k i) (hSlot : m[i]? = some p)
    (hNe : p.1 ≠ k) : AbsentBelow m k (i + 1) := by
  intro j q hLess hAt
  rcases Nat.lt_succ_iff_lt_or_eq.mp hLess with hLt | hEq
  · exact hBelow j q hLt hAt
  · subst hEq
    rw [hSlot] at hAt
    injection hAt with hQ
    rw [← hQ]
    exact hNe

theorem AbsentBelow.tail (hBelow : AbsentBelow (p :: m) k (i + 1)) :
    p.1 ≠ k ∧ AbsentBelow m k i := by
  refine ⟨hBelow 0 p (Nat.succ_pos i) rfl, ?_⟩
  intro j q hLess hAt
  exact hBelow (j + 1) q (Nat.succ_lt_succ hLess) hAt

theorem FirstAt.tail (hFirst : FirstAt (p :: m) k (i + 1) v) : p.1 ≠ k ∧ FirstAt m k i v :=
  ⟨hFirst.first.tail.1, hFirst.slot, hFirst.first.tail.2⟩

variable [DecidableEq α]

theorem get_of_first (hFirst : FirstAt m k i v) : get m k = some v := by
  induction m generalizing i with
  | nil => cases hFirst.slot
  | cons p m ih =>
    rcases p with ⟨key, value⟩
    cases i with
    | zero =>
      have hHead : (key, value) = (k, v) := Option.some.inj hFirst.slot
      rw [hHead]
      simp [get]
    | succ i =>
      rcases hFirst.tail with ⟨hNe, hTail⟩
      simp only [get, hNe, if_false]
      exact ih hTail

/- The new value goes to the slot of the key. -/
theorem put_of_first (v' : β) (hFirst : FirstAt m k i v) : put m k v' = m.set i (k, v') := by
  induction m generalizing i with
  | nil => cases hFirst.slot
  | cons p m ih =>
    rcases p with ⟨key, value⟩
    cases i with
    | zero =>
      have hHead : (key, value) = (k, v) := Option.some.inj hFirst.slot
      injection hHead with hKey
      simp [put, hKey]
    | succ i =>
      rcases hFirst.tail with ⟨hNe, hTail⟩
      simp only [put, hNe, if_false, set_cons_succ]
      rw [ih hTail]

theorem get_of_absent (hAbsent : AbsentBelow m k m.length) : get m k = none := by
  induction m with
  | nil => rfl
  | cons p m ih =>
    rcases hAbsent.tail with ⟨hNe, hTail⟩
    simp only [get, hNe, if_false]
    exact ih hTail

theorem put_of_absent (v : β) (hAbsent : AbsentBelow m k m.length) : put m k v = m ++ [(k, v)] := by
  induction m with
  | nil => rfl
  | cons p m ih =>
    rcases hAbsent.tail with ⟨hNe, hTail⟩
    simp only [put, hNe, if_false, cons_append]
    rw [ih hTail]

end

end OpenIvi.Lib.SlotMap
