import Mathlib.Data.List.Chain
import Mathlib.Data.List.Nodup
import Mathlib.Data.UInt

/-
  Linked lists over arbitrary nodes.

  The fields of the nodes are functions, and an assignment to a field is an update of its function.

  A `Chain` is singly linked. Its links sit at locations: in the head of a list or in a node. A
  location is what a pointer to a link points to, so that a node is taken out or put in by one
  assignment there.

  A `Ring` is doubly linked and closed by a node that is not an element.

  Main declarations:
    * `Loc`
    * `Chain`
    * `Ring.insert_last`
    * `Ring.remove`
-/

------
-- Singly Linked Chains
------

namespace OpenIvi.Lib.LinkedList

open List Function

section

variable {α β : Type}

/- Where a link is kept. -/
inductive Loc (β α : Type) where
| head (b : β)
| after (a : α)
deriving DecidableEq

/- The links from a location lead through the nodes. -/
def Path (link : Loc β α → Option α) : Loc β α → List α → Prop
| _, [] => True
| l, a :: as => link l = some a ∧ Path link (.after a) as

/- The location behind the nodes. -/
def endLoc : Loc β α → List α → Loc β α
| l, [] => l
| _, a :: as => endLoc (.after a) as

/- The links lead through the nodes and end there. -/
def Chain (link : Loc β α → Option α) (l : Loc β α) (as : List α) : Prop :=
  Path link l as ∧ link (endLoc l as) = none

/- The locations of the links of a chain. -/
def locs (l : Loc β α) (as : List α) : List (Loc β α) :=
  l :: as.map Loc.after

variable {link : Loc β α → Option α} {l : Loc β α} {as xs ys : List α} {a : α} {b : β}

theorem path_append : Path link l (xs ++ ys) ↔ Path link l xs ∧ Path link (endLoc l xs) ys := by
  induction xs generalizing l with
  | nil => simp [Path, endLoc]
  | cons x xs ih => simp [Path, endLoc, ih, and_assoc]

theorem endLoc_append : endLoc l (xs ++ ys) = endLoc (endLoc l xs) ys := by
  induction xs generalizing l with
  | nil => rfl
  | cons x xs ih => exact ih

theorem chain_append : Chain link l (xs ++ ys) ↔ Path link l xs ∧ Chain link (endLoc l xs) ys := by
  unfold Chain
  rw [path_append, endLoc_append, and_assoc]

theorem endLoc_mem_locs (l : Loc β α) (as : List α) : endLoc l as ∈ locs l as := by
  induction as generalizing l with
  | nil => simp [endLoc, locs]
  | cons a as ih =>
    have hMem := ih (.after a)
    simp only [endLoc, locs, map_cons, mem_cons] at hMem ⊢
    exact .inr hMem

theorem Chain.link_eq (hChain : Chain link l as) : link l = as.head? := by
  cases as with
  | nil => exact hChain.2
  | cons a as => exact hChain.1.1

theorem Chain.tail (hChain : Chain link l (a :: as)) : Chain link (.after a) as :=
  ⟨hChain.1.2, hChain.2⟩

theorem chain_cons (hLink : link l = some a)
    (hRest : Chain link (.after a) as) : Chain link l (a :: as) :=
  ⟨⟨hLink, hRest.1⟩, hRest.2⟩

theorem nodup_locs (b : β) (hNodup : as.Nodup) : (locs (.head b) as).Nodup := by
  refine nodup_cons.mpr ⟨?_, ?_⟩
  · simp
  · exact hNodup.map fun _ _ hEq => Loc.after.inj hEq

theorem endLoc_not_mem {locs' : List (Loc β α)}
    (hHead : .head b ∉ locs') (hAfter : ∀ x ∈ xs, .after x ∉ locs') :
    endLoc (.head b) xs ∉ locs' := by
  have hMem := endLoc_mem_locs (Loc.head b) xs
  simp only [locs, mem_cons, mem_map] at hMem
  rcases hMem with hEnd | ⟨x, hX, hEnd⟩
  · rw [hEnd]
    exact hHead
  · rw [← hEnd]
    exact hAfter x hX

theorem head_mem_locs {b' : β} : Loc.head b ∈ locs (.head b') ys ↔ b = b' := by
  simp [locs]

theorem after_mem_locs_head {b' : β} : Loc.after a ∈ locs (.head b') ys ↔ a ∈ ys := by
  simp [locs]

variable [DecidableEq α] [DecidableEq β] {v : Option α} {loc : Loc β α}

theorem Path.update_of_not_mem
    (hPath : Path link l as) (hNot : loc ∉ locs l as) : Path (update link loc v) l as := by
  induction as generalizing l with
  | nil => exact trivial
  | cons a as ih =>
    simp only [locs, map_cons, mem_cons, not_or] at hNot
    refine ⟨?_, ih hPath.2 ?_⟩
    · rw [update_of_ne (Ne.symm hNot.1)]
      exact hPath.1
    · simp only [locs, mem_cons, not_or]
      exact hNot.2

theorem Chain.update_of_not_mem (hChain : Chain link l as) (hNot : loc ∉ locs l as) :
    Chain (update link loc v) l as := by
  refine ⟨hChain.1.update_of_not_mem hNot, ?_⟩
  rw [update_of_ne]
  · exact hChain.2
  · intro hEq
    rw [← hEq] at hNot
    exact hNot (endLoc_mem_locs l as)

/- Nor does one behind the nodes of a path. -/
theorem Path.update_end (hPath : Path link l as) (hNodup : (locs l as).Nodup) :
    Path (update link (endLoc l as) v) l as := by
  induction as generalizing l with
  | nil => exact trivial
  | cons a as ih =>
    have hSplit := nodup_cons.mp hNodup
    refine ⟨?_, ih hPath.2 hSplit.2⟩
    rw [update_of_ne]
    · exact hPath.1
    · intro hEq
      apply hSplit.1
      rw [hEq]
      exact endLoc_mem_locs (.after a) as

/- Take out a node: its link replaces the link to it. -/
theorem Chain.unlink (hChain : Chain link (.head b) (xs ++ a :: ys))
    (hNodup : (xs ++ a :: ys).Nodup) :
    Chain (update link (endLoc (.head b) xs) (link (.after a))) (.head b) (xs ++ ys) := by
  rcases chain_append.mp hChain with ⟨hPath, hRest⟩
  have hXs : xs.Nodup := (nodup_append.mp hNodup).1
  have hTail := hRest.tail
  have hDisjoint : ∀ x ∈ xs, x ∉ ys := by
    intro x hX hY
    exact (nodup_append.mp hNodup).2.2 x hX x (mem_cons_of_mem a hY) rfl
  refine chain_append.mpr ⟨hPath.update_end (nodup_locs b hXs), ?_⟩
  cases ys with
  | nil =>
    refine ⟨trivial, ?_⟩
    simp only [endLoc, update_self]
    exact hTail.2
  | cons y ys =>
    refine chain_cons ?_ ?_
    · rw [update_self]
      exact hTail.1.1
    · apply hTail.tail.update_of_not_mem
      apply endLoc_not_mem
      · simp [locs]
      · intro x hX hMem
        apply hDisjoint x hX
        simpa [locs, eq_comm] using hMem

theorem Chain.link_last (hChain : Chain link (.head b) xs)
    (hNodup : xs.Nodup) (hNew : a ∉ xs) (hLink : link (.after a) = none) :
    Chain (update link (endLoc (.head b) xs) (some a)) (.head b) (xs ++ [a]) := by
  refine chain_append.mpr ⟨hChain.1.update_end (nodup_locs b hNodup), ?_⟩
  refine ⟨⟨update_self .., trivial⟩, ?_⟩
  rw [endLoc, endLoc, update_of_ne]
  · exact hLink
  · intro hEq
    have hMem := endLoc_mem_locs (Loc.head b) xs
    rw [← hEq, after_mem_locs_head] at hMem
    exact hNew hMem

end

------
-- Doubly Linked Rings
------

section

variable {ν : Type}

/- Two nodes that follow each other. -/
def Linked (next prev : ν → ν) (x y : ν) : Prop :=
  next x = y ∧ prev y = x

/- From the node `s` through the elements back to it. -/
structure Ring (next prev : ν → ν) (s : ν) (as : List ν) : Prop where
  nodup : (s :: as).Nodup
  linked : (s :: as ++ [s]).IsChain (Linked next prev)

variable {next prev next' prev' : ν → ν} {s e : ν} {as l r : List ν}

/- Links stay as they are where no node on their side of the list changes. -/
theorem isChain_linked_congr {nodes : List ν} (hChain : nodes.IsChain (Linked next prev))
    (hNext : ∀ x ∈ nodes.dropLast, next' x = next x) (hPrev : ∀ y ∈ nodes.tail, prev' y = prev y) :
    nodes.IsChain (Linked next' prev') := by
  induction nodes with
  | nil => exact .nil
  | cons x nodes ih =>
    cases nodes with
    | nil => exact .singleton x
    | cons y nodes =>
      rcases isChain_cons_cons.mp hChain with ⟨hLinked, hRest⟩
      refine isChain_cons_cons.mpr ⟨?_, ?_⟩
      · refine ⟨?_, ?_⟩
        · rw [hNext x (by simp)]
          exact hLinked.1
        · rw [hPrev y (by simp)]
          exact hLinked.2
      · apply ih hRest
        · intro z hZ
          exact hNext z (by simp [hZ])
        · intro z hZ
          exact hPrev z (by
            exact mem_cons_of_mem y hZ)

theorem Ring.empty (hNext : next s = s) (hPrev : prev s = s) : Ring next prev s [] :=
  ⟨nodup_singleton s, isChain_cons_cons.mpr ⟨⟨hNext, hPrev⟩, .singleton s⟩⟩

section

variable (hRing : Ring next prev s as)

include hRing

theorem Ring.next_eq : next s = (as ++ [s]).head (by simp) := by
  cases as with
  | nil | cons a as => exact (isChain_cons_cons.mp hRing.linked).1.1

theorem Ring.prev_eq : prev s = (s :: as).getLast (by simp) := by
  have hJoin := (isChain_append.mp hRing.linked).2.2
  have hLinked := hJoin ((s :: as).getLast (by simp)) (getLast?_eq_some_getLast (by simp)) s rfl
  exact hLinked.2

theorem Ring.reverse : Ring prev next s as.reverse := by
  constructor
  · have hNodup := nodup_cons.mp hRing.nodup
    refine nodup_cons.mpr ⟨?_, ?_⟩
    · rw [mem_reverse]
      exact hNodup.1
    · exact nodup_reverse.mpr hNodup.2
  · have hList : s :: as.reverse ++ [s] = (s :: as ++ [s]).reverse := by simp
    rw [hList, isChain_reverse]
    apply hRing.linked.imp
    intro x y hLinked
    exact ⟨hLinked.2, hLinked.1⟩

end

theorem Ring.walk_nodup (hNodup : (s :: as).Nodup) :
    (s :: as ++ [s]).dropLast.Nodup ∧ (s :: as ++ [s]).tail.Nodup := by
  rw [dropLast_concat]
  exact ⟨hNodup, (perm_append_singleton s as).nodup_iff.mpr hNodup⟩

variable [DecidableEq ν]

/- Two lists of links are joined by the links between their ends. -/
theorem isChain_linked_join {p q : ν} (xs : List ν) {ys : List ν}
    (hXs : (xs ++ [p]).IsChain (Linked next prev)) (hYs : (q :: ys).IsChain (Linked next prev))
    (hNext : (xs ++ p :: q :: ys).dropLast.Nodup) (hPrev : (xs ++ p :: q :: ys).tail.Nodup) :
    (xs ++ p :: q :: ys).IsChain (Linked (update next p q) (update prev q p)) := by
  have hDrop : (xs ++ p :: q :: ys).dropLast = xs ++ p :: (q :: ys).dropLast := by simp
  have hTail : (xs ++ p :: q :: ys).tail = (xs ++ [p]).tail ++ q :: ys := by
    cases xs with
    | nil | cons x xs => simp
  rw [hDrop, nodup_middle, nodup_cons, mem_append, not_or] at hNext
  rw [hTail, nodup_middle, nodup_cons, mem_append, not_or] at hPrev
  rw [append_cons]
  refine isChain_append.mpr ⟨?_, ?_, ?_⟩
  · apply isChain_linked_congr hXs
    · rw [dropLast_concat]
      exact fun x hX => update_of_ne (ne_of_mem_of_not_mem hX hNext.1.1) ..
    · exact fun y hY => update_of_ne (ne_of_mem_of_not_mem hY hPrev.1.1) ..
  · apply isChain_linked_congr hYs
    · exact fun x hX => update_of_ne (ne_of_mem_of_not_mem hX hNext.1.2) ..
    · exact fun y hY => update_of_ne (ne_of_mem_of_not_mem hY hPrev.1.2) ..
  · simp [Linked]

/- Put a node in front of the first element. -/
theorem Ring.insert_first (hRing : Ring next prev s as) (hNew : e ∉ s :: as) :
    Ring (update (update next e (next s)) s e) (update (update prev e s) (next s) e)
      s (e :: as) := by
  have hNodup : (s :: e :: as).Nodup :=
    (Perm.swap e s as).nodup_iff.mpr (nodup_cons.mpr ⟨hNew, hRing.nodup⟩)
  rcases exists_cons_of_ne_nil (append_ne_nil_of_right_ne_nil as (cons_ne_nil s [])) with
    ⟨q, ys, hQ⟩
  have hNe : e ≠ q := by
    rintro rfl
    have hMem : e ∈ as ++ [s] := hQ ▸ mem_cons_self
    exact hNew (by simpa [or_comm] using hMem)
  rcases hRing with ⟨hOld, hLinked⟩
  have hAll := walk_nodup hNodup
  have hRest := walk_nodup hOld
  rw [cons_append, hQ] at hLinked hRest
  rw [cons_append, cons_append, hQ] at hAll
  rcases isChain_cons_cons.mp hLinked with ⟨hFirst, hChain⟩
  rw [hFirst.1, update_comm hNe]
  refine ⟨hNodup, ?_⟩
  rw [cons_append, cons_append, hQ]
  have hE := isChain_linked_join [] (.singleton e) hChain
    (hAll.2.sublist (dropLast_sublist _)) hRest.2
  exact isChain_linked_join [] (.singleton s) hE hAll.1 hAll.2

theorem Ring.insert_last (hRing : Ring next prev s as) (hNew : e ∉ s :: as) :
    Ring (update (update next e s) (prev s) e) (update (update prev e (prev s)) s e)
      s (as ++ [e]) := by
  have hOther : e ∉ s :: as.reverse := by simpa using hNew
  have hLast := (hRing.reverse.insert_first hOther).reverse
  rw [reverse_cons, reverse_reverse] at hLast
  exact hLast

/- Take a node out of the ring. -/
theorem Ring.remove (hRing : Ring next prev s (l ++ e :: r)) :
    Ring (update next (prev e) (next e)) (update prev (next e) (prev e)) s (l ++ r) := by
  have hSub : (l ++ r).Sublist (l ++ e :: r) := List.Sublist.append_left (sublist_cons_self e r) l
  have hNodup : (s :: (l ++ r)).Nodup := hRing.nodup.sublist (hSub.cons_cons s)
  refine ⟨hNodup, ?_⟩
  have hAll := walk_nodup hNodup
  have hWalk := hRing.linked
  rcases exists_cons_of_ne_nil (append_ne_nil_of_right_ne_nil r (cons_ne_nil s [])) with ⟨q, ys, hQ⟩
  rcases (eq_nil_or_concat (s :: l)).resolve_left (cons_ne_nil s l) with ⟨xs, p, hP⟩
  have hNew : s :: (l ++ r) ++ [s] = xs ++ p :: q :: ys := by
    rw [← cons_append, hP, concat_eq_append, append_assoc, hQ, append_assoc]
    rfl
  have hOld : s :: (l ++ e :: r) ++ [s] = xs ++ [p] ++ e :: q :: ys := by
    rw [← cons_append, hP, concat_eq_append, append_assoc, cons_append, hQ]
  rw [hNew] at hAll ⊢
  rw [hOld] at hWalk
  rcases isChain_append.mp hWalk with ⟨hLeft, hRight, hJoin⟩
  rcases isChain_cons_cons.mp hRight with ⟨hNext, hRest⟩
  have hPrev := (hJoin p (by simp) e rfl).2
  rw [hNext.1, hPrev]
  exact isChain_linked_join xs hLeft hRest hAll.1 hAll.2

end

end OpenIvi.Lib.LinkedList
