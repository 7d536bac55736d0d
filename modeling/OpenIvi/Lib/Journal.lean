import Mathlib.Data.UInt

/-
  Programs that are cut off between their effects.

  A journal is the list of the effects of a run of a program, in order, with its result or the value
  with which it returned early. A run that is cut off has applied a number of these effects from the
  first on.

  `Safely` is a triple with a condition for every cut: it holds before the first effect, between any
  two of them and behind the last one. `RunsTo` is the triple for runs that are not cut off and do
  not return early.

  Main declarations:
    * `Journal`
    * `Journal.cut`
    * `Safely.emitAll`
    * `RunsTo.bind`
-/

------
-- Journals
------

namespace OpenIvi.Lib

/- The effects of a run and its result. -/
structure Journal (ε ρ α : Type) where
  effects : List ε
  result : Except ρ α

namespace Journal

variable {ε ρ α β σ : Type}

/- Return early. -/
def stop (r : ρ) : Journal ε ρ α where
  effects := []
  result := .error r

/- Have the given effects. -/
def emitAll (es : List ε) : Journal ε ρ Unit where
  effects := es
  result := .ok ()

/- Have one effect. -/
def emit (e : ε) : Journal ε ρ Unit :=
  emitAll [e]

/- Run one program and then another one. -/
def andThen (p : Journal ε ρ α) (f : α → Journal ε ρ β) : Journal ε ρ β :=
  match p.result with
  | .error r => ⟨p.effects, .error r⟩
  | .ok a => ⟨p.effects ++ (f a).effects, (f a).result⟩

instance : Monad (Journal ε ρ) where
  pure a := ⟨[], .ok a⟩
  bind := andThen

/- The value with which a program returns. -/
def returned (p : Journal ε ρ ρ) : ρ :=
  match p.result with
  | .error r => r
  | .ok r => r

variable (apply : σ → ε → σ)

/- The state when the program is cut off after `k` effects. -/
def cut (p : Journal ε ρ α) (k : Nat) (s : σ) : σ :=
  (p.effects.take k).foldl apply s

/- The state after all effects. -/
def after (p : Journal ε ρ α) (s : σ) : σ :=
  p.effects.foldl apply s

end Journal

------
-- Triples For Cuts
------

open Journal

variable {ε ρ α β σ : Type} {apply : σ → ε → σ}

/- From `s` on, `P` holds at every cut, and `Q` behind a run that does not return early. -/
structure Safely (apply : σ → ε → σ) (P : σ → Prop) (Q : α → σ → Prop)
    (s : σ) (p : Journal ε ρ α) : Prop where
  cuts : ∀ k, P (p.cut apply k s)
  returns : ∀ a, p.result = .ok a → Q a (p.after apply s)

namespace Safely

variable {P : σ → Prop} {s : σ} {Q R : α → σ → Prop} {p : Journal ε ρ α}

theorem pure {a : α} (hCut : P s) (hReturn : Q a s) :
    Safely apply P Q s (Pure.pure a : Journal ε ρ α) where
  cuts := by
    intro k
    cases k <;> exact hCut
  returns := by
    intro b hb
    cases hb
    exact hReturn

theorem stop {r : ρ} (hCut : P s) : Safely apply P Q s (Journal.stop r) where
  cuts := by
    intro k
    cases k <;> exact hCut
  returns := by
    intro a ha
    cases ha

/- Effects that keep a stronger condition. -/
theorem emitAll {R : σ → Prop} {es : List ε} (hCut : ∀ t, R t → P t)
    (hKeeps : ∀ t, ∀ e ∈ es, R t → R (apply t e)) (hStart : R s) :
    Safely apply P (fun _ t => R t ∧ t = es.foldl apply s) s
      (Journal.emitAll es : Journal ε ρ Unit) := by
  have hAll : ∀ ds : List ε, (∀ e ∈ ds, e ∈ es) → ∀ t, R t → R (ds.foldl apply t) := by
    intro ds
    induction ds with
    | nil =>
      intro _ t ht
      exact ht
    | cons d ds ih =>
      intro hSubset t ht
      apply ih
      · intro e he
        exact hSubset e (by simp [he])
      · exact hKeeps t d (hSubset d (by simp)) ht
  constructor
  · intro k
    apply hCut
    apply hAll _ _ s hStart
    intro e he
    exact List.mem_of_mem_take he
  · intro a _
    exact ⟨hAll es (fun _ he => he) s hStart, rfl⟩

theorem emit {Q : Unit → σ → Prop} {e : ε} (hBefore : P s)
    (hAfter : P (apply s e)) (hReturn : Q () (apply s e)) :
    Safely apply P Q s (Journal.emit e : Journal ε ρ Unit) where
  cuts := by
    intro k
    cases k with
    | zero => exact hBefore
    | succ k =>
      simp only [cut, Journal.emit, Journal.emitAll, List.take_succ_cons, List.take_nil]
      exact hAfter
  returns := by
    intro a _
    exact hReturn

/- The second program starts where the first one ends. -/
theorem bind {Q : β → σ → Prop} {f : α → Journal ε ρ β}
    (hFirst : Safely apply P R s p) (hSecond : ∀ a t, R a t → Safely apply P Q t (f a)) :
    Safely apply P Q s (p >>= f) := by
  change Safely apply P Q s (p.andThen f)
  unfold andThen
  cases hResult : p.result with
  | error r =>
    constructor
    · exact hFirst.cuts
    · intro b hb
      cases hb
  | ok a =>
    have hNext := hSecond a _ (hFirst.returns a hResult)
    constructor
    · intro k
      have hSplit : (p.effects ++ (f a).effects).take k = p.effects.take k ++ (f a).effects.take
          (k - p.effects.length) :=
        List.take_append
      simp only [cut, hSplit, List.foldl_append]
      by_cases hInside : k ≤ p.effects.length
      · have hNone : k - p.effects.length = 0 := by omega
        rw [hNone, List.take_zero]
        exact hFirst.cuts k
      · have hWhole : p.effects.take k = p.effects := List.take_of_length_le (by omega)
        rw [hWhole]
        exact hNext.cuts (k - p.effects.length)
    · intro b hb
      simp only [after, List.foldl_append]
      exact hNext.returns b hb

theorem imp (h : Safely apply P R s p) (hImp : ∀ a t, R a t → Q a t) : Safely apply P Q s p where
  cuts := h.cuts
  returns := by
    intro a ha
    exact hImp a _ (h.returns a ha)

end Safely

------
-- Triples For Complete Runs
------

/- The run does not return early, and `Q` holds behind it. -/
def RunsTo (apply : σ → ε → σ) (Q : α → σ → Prop) (s : σ) (p : Journal ε ρ α) : Prop :=
  ∃ a, p.result = .ok a ∧ Q a (p.after apply s)

namespace RunsTo

variable {s : σ} {Q : Unit → σ → Prop}

theorem pure {Q : α → σ → Prop} {a : α} (hReturn : Q a s) :
    RunsTo apply Q s (Pure.pure a : Journal ε ρ α) :=
  ⟨a, rfl, hReturn⟩

theorem emitAll {es : List ε} (hReturn : Q () (es.foldl apply s)) :
    RunsTo apply Q s (Journal.emitAll es : Journal ε ρ Unit) :=
  ⟨(), rfl, hReturn⟩

theorem emit {e : ε} (hReturn : Q () (apply s e)) :
    RunsTo apply Q s (Journal.emit e : Journal ε ρ Unit) :=
  ⟨(), rfl, hReturn⟩

theorem bind {R : α → σ → Prop} {Q : β → σ → Prop} {p : Journal ε ρ α} {f : α → Journal ε ρ β}
    (hFirst : RunsTo apply R s p) (hSecond : ∀ a t, R a t → RunsTo apply Q t (f a)) :
    RunsTo apply Q s (p >>= f) := by
  rcases hFirst with ⟨a, hResult, hState⟩
  rcases hSecond a _ hState with ⟨b, hNext, hLast⟩
  refine ⟨b, ?_, ?_⟩
  · change (p.andThen f).result = .ok b
    unfold andThen
    rw [hResult]
    exact hNext
  · change Q b ((p.andThen f).after apply s)
    unfold andThen
    rw [hResult]
    simp only [after, List.foldl_append]
    exact hLast

theorem returned_eq {Q : σ → Prop} {r : ρ} {p : Journal ε ρ ρ}
    (h : RunsTo apply (fun a t => a = r ∧ Q t) s p) : p.returned = r ∧ Q (p.after apply s) := by
  rcases h with ⟨a, hResult, rfl, hLast⟩
  refine ⟨?_, hLast⟩
  unfold returned
  rw [hResult]

end RunsTo

end OpenIvi.Lib
