import Mathlib.Data.UInt

/-
  Loops of imperative code that may fault.

  A loop body maps a loop state to `again` (go round once more) or `done` (leave the loop with a
  result). `loop` runs a body with an explicit bound on the number of passes; `Returns` is the
  bound-free relation it computes.

  `Ensures x P` says that the value of `x`, if it has one, has the property. There is one rule for
  each way in which a computation is put together.

  A run takes one step for each action. `Along` says that every step of a run meets a condition on
  the state it is taken in; an invariant that every such step keeps holds at the end of the run.

  Main declarations:
    * `loop`
    * `feed_cons`
    * `run`
    * `always_iff_along`
-/

------
-- Faults And Loop Control
------

namespace OpenIvi.Lib

variable {fuel : Nat} {α : Type}

/- The ways a computation stops without a result. -/
inductive Fault where
| outOfBounds
| divideByZero
| nullPointer
| aborted
| outOfFuel
deriving DecidableEq, Repr

/- The outcome of one pass through a loop body. -/
inductive Ctl (σ ρ : Type) where
| again (state : σ)
| done (result : ρ)

@[simp] theorem pure_eq_ok (a : α) : (pure a : Except Fault α) = .ok a :=
  rfl

@[simp] theorem ok_bind {β : Type} (a : α) (f : α → Except Fault β) :
    ((Except.ok a : Except Fault α) >>= f) = f a :=
  rfl

/- A computation in two parts succeeded if both parts did. -/
theorem bind_eq_ok {β : Type} {x : Except Fault α} {f : α → Except Fault β} {b : β} :
    (x >>= f) = .ok b ↔ ∃ a, x = .ok a ∧ f a = .ok b := by
  cases x with
  | error fault =>
    constructor
    · intro h
      cases h
    · rintro ⟨a, h, _⟩
      cases h
  | ok a =>
    constructor
    · intro h
      exact ⟨a, rfl, h⟩
    · rintro ⟨a', h, hf⟩
      cases h
      exact hf

------
-- Bounded Loops
------

variable {σ ρ : Type}

/- Run a loop body for at most the given number of passes. -/
def loop (body : σ → Except Fault (Ctl σ ρ)) : Nat → σ → Except Fault ρ
| 0, _ => .error .outOfFuel
| fuel + 1, s =>
  match body s with
  | .error fault => .error fault
  | .ok (.done result) => .ok result
  | .ok (.again next) => loop body fuel next

/- The loop leaves state `s` with result `r` after the given number of passes. -/
inductive Returns (body : σ → Except Fault (Ctl σ ρ)) : Nat → σ → ρ → Prop where
| done {s : σ} {r : ρ} :
    body s = .ok (.done r) → Returns body 1 s r
| again {s next : σ} {r : ρ} {passes : Nat} :
    body s = .ok (.again next) → Returns body passes next r → Returns body (passes + 1) s r

variable {body : σ → Except Fault (Ctl σ ρ)}

theorem Returns.loop_eq {passes : Nat} {s : σ} {r : ρ} (hReturns : Returns body passes s r)
    (hFuel : passes ≤ fuel) : loop body fuel s = .ok r := by
  induction hReturns generalizing fuel with
  | done hBody =>
    obtain ⟨fuel, rfl⟩ : ∃ n, fuel = n + 1 := ⟨fuel - 1, by omega⟩
    simp [loop, hBody]
  | again hBody _ ih =>
    obtain ⟨fuel, rfl⟩ : ∃ n, fuel = n + 1 := ⟨fuel - 1, by omega⟩
    simp only [loop, hBody]
    exact ih (by omega)

/- An invariant of the passes gives a property of the result. -/
theorem loop_post (Inv : σ → Prop) (Post : ρ → Prop) (hAgain :
      ∀ s next, Inv s → body s = .ok (.again next) → Inv next)
    (hDone : ∀ s r, Inv s → body s = .ok (.done r) → Post r) {s : σ} {r : ρ} (hInv : Inv s)
    (hLoop : loop body fuel s = .ok r) : Post r := by
  induction fuel generalizing s with
  | zero => cases hLoop
  | succ fuel ih =>
    cases hBody : body s with
    | error fault =>
      simp only [loop, hBody] at hLoop
      cases hLoop
    | ok ctl =>
      cases ctl with
      | again next =>
        simp only [loop, hBody] at hLoop
        exact ih (hAgain s next hInv hBody) hLoop
      | done result =>
        simp only [loop, hBody] at hLoop
        cases hLoop
        exact hDone s r hInv hBody

/- If every pass leaves the loop or goes on with a smaller measure, the loop returns. -/
theorem loop_total (Inv : σ → Prop) (measure : σ → Nat) (Post : ρ → Prop) (hBody :
      ∀ s, Inv s → (∃ r, body s = .ok (.done r) ∧ Post r) ∨
        ∃ next, body s = .ok (.again next) ∧ Inv next ∧ measure next < measure s) {s : σ}
    (hInv : Inv s) (hFuel : measure s < fuel) :
    ∃ r, loop body fuel s = .ok r ∧ Post r := by
  induction fuel generalizing s with
  | zero => cases hFuel
  | succ fuel ih =>
    rcases hBody s hInv with ⟨r, hDone, hPost⟩ | ⟨next, hAgain, hNext, hLess⟩
    · exact ⟨r, by simp only [loop, hDone], hPost⟩
    · rcases ih hNext (by omega) with ⟨r, hLoop, hPost⟩
      refine ⟨r, ?_, hPost⟩
      simp only [loop, hAgain]
      exact hLoop

------
-- Feeding Inputs To A Step
------

variable {ι ω : Type}

/- Take one step for each input and collect what the steps put out. -/
def feed (step : σ → ι → Except Fault (σ × List ω)) : σ → List ι → Except Fault (σ × List ω)
| s, [] => .ok (s, [])
| s, i :: is => do
    let (s, out) ← step s i
    let (s, later) ← feed step s is
    return (s, out ++ later)

variable {step : σ → ι → Except Fault (σ × List ω)} {s next last : σ} {i : ι} {is : List ι}
variable {out later outs : List ω}

theorem feed_cons (hStep : step s i = .ok (next, out))
    (hFeed : feed step next is = .ok (last, later)) :
    feed step s (i :: is) = .ok (last, out ++ later) := by
  simp only [feed, hStep, hFeed, ok_bind]
  rfl

theorem feed_cons_inv (hFeed : feed step s (i :: is) = .ok (last, outs))
    (hStep : step s i = .ok (next, out)) :
    ∃ later, feed step next is = .ok (last, later) ∧ outs = out ++ later := by
  simp only [feed, hStep, ok_bind] at hFeed
  cases hLater : feed step next is with
  | error fault =>
    rw [hLater] at hFeed
    cases hFeed
  | ok result =>
    rw [hLater] at hFeed
    cases hFeed
    exact ⟨result.2, rfl, rfl⟩

variable {α β : Type} {f : α → Except Fault β} {y : Except Fault α}

def Ensures (x : Except Fault α) (P : α → Prop) : Prop :=
  ∀ a, x = .ok a → P a

namespace Ensures

variable {x : Except Fault α} {P Q : α → Prop}

theorem ok {a : α} (h : P a) : Ensures (.ok a) P := by
  intro b hEq
  cases hEq
  exact h

theorem error {fault : Fault} : Ensures (.error fault : Except Fault α) P := by
  intro b hEq
  cases hEq

theorem imp (h : Ensures x P) (hImp : ∀ a, P a → Q a) : Ensures x Q :=
  fun a hEq => hImp a (h a hEq)

variable {R : β → Prop}

theorem bind (hX : Ensures x P) (hF : ∀ a, P a → Ensures (f a) R) : Ensures (x >>= f) R := by
  intro b hEq
  rcases bind_eq_ok.mp hEq with ⟨a, hA, hB⟩
  exact hF a (hX a hA) b hB

theorem any_bind (hF : ∀ a, Ensures (f a) R) : Ensures (x >>= f) R :=
  bind (P := fun _ => True) (fun _ _ => trivial) fun a _ => hF a

theorem ite {c : Prop} [Decidable c]
    (hX : c → Ensures x P) (hY : ¬ c → Ensures y P) : Ensures (if c then x else y) P := by
  by_cases h : c
  · rw [if_pos h]
    exact hX h
  · rw [if_neg h]
    exact hY h

theorem either {c : Prop} [Decidable c] (hX : Ensures x P)
    (hY : Ensures y P) : Ensures (if c then x else y) P :=
  ite (fun _ => hX) (fun _ => hY)

end Ensures

variable {σ ι : Type}

/- Take the steps for the actions one after the other. -/
def run (step : σ → ι → Except Fault σ) : σ → List ι → Except Fault σ
| s, [] => .ok s
| s, i :: is => do
    let s ← step s i
    run step s is

/- Every step of the run meets the condition. -/
def Along (step : σ → ι → Except Fault σ) (cond : σ → ι → Prop) : σ → List ι → Prop
| _, [] => True
| s, i :: is =>
  cond s i ∧ ∀ next, step s i = .ok next → Along step cond next is

/- No step of the run fails, and every state of it has the property. -/
def Always (step : σ → ι → Except Fault σ) (P : σ → Prop) : σ → List ι → Prop
| s, [] => P s
| s, i :: is =>
  P s ∧ ∃ next, step s i = .ok next ∧ Always step P next is

variable {step : σ → ι → Except Fault σ} {cond : σ → ι → Prop} {is : List ι}

theorem Along.cons {s next : σ} {i : ι} (hStep : step s i = .ok next) (hCond : cond s i)
    (hRest : Along step cond next is) : Along step cond s (i :: is) := by
  refine ⟨hCond, ?_⟩
  intro other hOther
  rw [hStep] at hOther
  cases hOther
  exact hRest

theorem Along.of_actions {allowed : ι → Prop} (hAllowed : ∀ i ∈ is, allowed i) (s : σ) :
    Along step (fun _ i => allowed i) s is := by
  induction is generalizing s with
  | nil => exact trivial
  | cons i is ih =>
    refine ⟨hAllowed i (by simp), ?_⟩
    intro next _
    apply ih
    intro j hj
    exact hAllowed j (by simp [hj])

variable {s : σ}

/-
  If every step that meets the condition succeeds and keeps an invariant of the actions so far, so
  does every run of such steps.
-/
theorem run_history {P : List ι → σ → Prop} (hStep :
      ∀ past s i, P past s → cond s i → ∃ next, step s i = .ok next ∧ P (past ++ [i]) next)
    (past : List ι) (hStart : P past s) (hAlong : Along step cond s is) :
    ∃ last, run step s is = .ok last ∧ P (past ++ is) last := by
  induction is generalizing past s with
  | nil =>
    rw [List.append_nil]
    exact ⟨s, rfl, hStart⟩
  | cons i is ih =>
    rcases hAlong with ⟨hCond, hRest⟩
    rcases hStep past s i hStart hCond with ⟨next, hNext, hKept⟩
    rcases ih (past ++ [i]) hKept (hRest next hNext) with ⟨last, hRun, hLast⟩
    rw [List.append_assoc] at hLast
    refine ⟨last, ?_, hLast⟩
    rw [run, hNext]
    exact hRun

variable {P : σ → Prop}

theorem run_preserves (hStep : ∀ s i, P s → cond s i → ∃ next, step s i = .ok next ∧ P next)
    (hStart : P s) (hAlong : Along step cond s is) :
    ∃ last, run step s is = .ok last ∧ P last := by
  have hAll : ∀ (_ : List ι) s i, P s → cond s i → ∃ next, step s i = .ok next ∧ P next :=
    fun _ => hStep
  exact run_history hAll [] hStart hAlong

theorem run_invariant (hStep : ∀ s i next, P s → step s i = .ok next → P next)
    {s last : σ} (hStart : P s) (hRun : run step s is = .ok last) : P last := by
  induction is generalizing s with
  | nil =>
    cases hRun
    exact hStart
  | cons i is ih =>
    rcases bind_eq_ok.mp hRun with ⟨next, hNext, hRest⟩
    exact ih (hStep s i next hStart hNext) hRest

theorem Always.start (h : Always step P s is) : P s := by
  cases is with
  | nil => exact h
  | cons i is => exact h.1

theorem always_cons {next : σ} {i : ι} (hNext : step s i = .ok next) :
    Always step P s (i :: is) ↔ P s ∧ Always step P next is := by
  simp [Always, hNext]

/-
  If steps that meet the condition keep the invariant and the others break the property, then the
  runs in which the property always holds are those along which the condition does.
-/
theorem always_iff_along {P Inv : σ → Prop} (hHolds : ∀ s, Inv s → P s) (hKeeps :
      ∀ s i, Inv s → cond s i → ∃ next, step s i = .ok next ∧ Inv next)
    (hBreaks : ∀ s i next, Inv s → ¬ cond s i → step s i = .ok next → ¬ P next) (hStart : Inv s)
    (is : List ι) : Always step P s is ↔ Along step cond s is := by
  induction is generalizing s with
  | nil => exact iff_of_true (hHolds s hStart) trivial
  | cons i is ih =>
    by_cases hCond : cond s i
    · rcases hKeeps s i hStart hCond with ⟨next, hNext, hInv⟩
      rw [always_cons hNext, ih hInv]
      constructor
      · intro hAlways
        exact .cons hNext hCond hAlways.2
      · intro hAlong
        exact ⟨hHolds s hStart, hAlong.2 next hNext⟩
    · apply iff_of_false
      · rintro ⟨_, next, hNext, hAlways⟩
        exact hBreaks s i next hStart hCond hNext hAlways.start
      · intro hAlong
        exact hCond hAlong.1

/-
  If steps that are legal keep the invariant, or break both properties at once, then a legal run
  always has one of them if and only if it always has the other.
-/
theorem always_iff_always {P Q Inv : σ → Prop}
    {legal : σ → ι → Prop} (hP : ∀ s, Inv s → P s) (hQ : ∀ s, Inv s → Q s)
    (hStep : ∀ s i, Inv s → legal s i → ∃ next, step s i = .ok next ∧
      (Inv next ∨ (¬ P next ∧ ¬ Q next))) (hStart : Inv s) (hLegal : Along step legal s is) :
    Always step P s is ↔ Always step Q s is := by
  induction is generalizing s with
  | nil => exact iff_of_true (hP s hStart) (hQ s hStart)
  | cons i is ih =>
    rcases hLegal with ⟨hFirst, hRest⟩
    rcases hStep s i hStart hFirst with ⟨next, hNext, hInv | ⟨hNotP, hNotQ⟩⟩
    · rw [always_cons hNext, always_cons hNext, ih hInv (hRest next hNext)]
      exact and_congr_left' (iff_of_true (hP s hStart) (hQ s hStart))
    · rw [always_cons hNext, always_cons hNext]
      apply iff_of_false
      · intro hAlways
        exact hNotP hAlways.2.start
      · intro hAlways
        exact hNotQ hAlways.2.start

end OpenIvi.Lib
