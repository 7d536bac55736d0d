import OpenIvi.Bionic.Semaphore

/-
  The notification queues of the serial HALs.

  `libcanbox`, `libipod` and `libmpeg` have the same queue, each with its own type of notifications:
  a list under a mutex and a semaphore that counts its elements. A thread that pushes appends to the
  list before it posts, a thread that pops waits before it removes the head. Here any number of
  threads take these steps in any order.

  Main declarations:
    * `Pc`
    * `Queue`
    * `Counted.advance`
    * `notification_queue_loss_free`
-/

------
-- Threads And Their Steps
------

namespace OpenIvi.Serial.NotificationQueue

open Lib List
open Bionic

variable {α : Type}

/-
  Where a thread is. The steps of `push_*_notificaiton` lead from `pushing` to `posting`, the ones
  of `pop_*_notificaiton` from `waiting` to `passed`.
-/
inductive Pc (α : Type) where
/- Outside of both functions. -/
| idle
/- The node is filled and about to be appended. -/
| pushing (node : α)
/- The node is in the list, `sem_post` is to come. -/
| posting
/- In the loop of `sem_wait`. -/
| waiting
/- Behind `sem_wait`, the removal is to come. -/
| passed
deriving DecidableEq, Repr

/- The list, its semaphore, the threads, and the history. -/
structure Queue (α : Type) where
  head : List α
  semCount : Sem
  threads : List (Pc α)
  /- The notifications in the order they were appended. -/
  appended : List α
  /- The notifications in the order they were removed. -/
  removed : List α
deriving DecidableEq

/- After `TAILQ_INIT` and `sem_init`, with `n` threads. -/
def Queue.init (n : Nat) : Queue α where
  head := []
  semCount := Sem.zero
  threads := replicate n .idle
  appended := []
  removed := []

/- `sem_wait` returns once `__sem_dec` has got a permit. -/
def afterDec (old : Int) : Pc α :=
  if 0 < old then .passed else .waiting

/-
  The next atomic step of thread `i`. The list is changed under the mutex; the head of an empty list
  is a null pointer, which the code logs and then follows.
-/
def advance (q : Queue α) (i : Nat) : Pc α → Except Fault (Queue α)
| .idle => .ok q
| .pushing node =>
  .ok
    { q with
      head := q.head ++ [node]
      threads := q.threads.set i .posting
      appended := q.appended ++ [node] }
| .posting =>
  .ok
    { q with semCount := (semInc q.semCount).2, threads := q.threads.set i .idle }
| .waiting =>
  .ok
    { q with
      semCount := (semDec q.semCount).2
      threads := q.threads.set i (afterDec (semDec q.semCount).1) }
| .passed =>
  match q.head with
  | [] => .error .nullPointer
  | node :: rest =>
    .ok
      { q with head := rest, threads := q.threads.set i .idle, removed := q.removed ++ [node] }

inductive Action (α : Type) where
/- Thread `i` calls `push_*_notificaiton`. -/
| push (i : Nat) (notification : α)
/- Thread `i` calls `pop_*_notificaiton`. -/
| pop (i : Nat)
/- Thread `i` takes its next step. -/
| advance (i : Nat)
deriving DecidableEq, Repr

/- An idle thread enters a function. -/
def enter (q : Queue α) (i : Nat) (next : Pc α) : Pc α → Queue α
| .idle => { q with threads := q.threads.set i next }
| _ => q

def step (q : Queue α) : Action α → Except Fault (Queue α)
| .push i notification =>
  match q.threads[i]? with
  | none => .ok q
  | some pc => .ok (enter q i (.pushing notification) pc)
| .pop i =>
  match q.threads[i]? with
  | none => .ok q
  | some pc => .ok (enter q i .waiting pc)
| .advance i =>
  match q.threads[i]? with
  | none => .ok q
  | some pc => advance q i pc

------
-- Counting Permits And Threads
------

/-
  The nodes of the list that a thread speaks for: the one it has appended and not yet posted, or the
  one whose permit it has taken.
-/
def Pc.claims : Pc α → Nat
| .posting => 1
| .passed => 1
| _ => 0

/- The nodes that all threads speak for. -/
def claims (threads : List (Pc α)) : Nat :=
  (threads.map Pc.claims).sum

section

variable {threads : List (Pc α)} {i : Nat} {pc : Pc α} (hThread : threads[i]? = some pc)

include hThread

/- A step of one thread changes its part of the sum. -/
theorem claims_set (next : Pc α) :
    claims (threads.set i next) + pc.claims = claims threads + next.claims := by
  unfold claims
  induction threads generalizing i with
  | nil => cases hThread
  | cons first threads ih =>
    cases i with
    | zero =>
      cases hThread
      simp only [set_cons_zero, map_cons, sum_cons]
      omega
    | succ i =>
      have hRest := ih hThread
      simp only [set_cons_succ, map_cons, sum_cons]
      omega

theorem claims_le : pc.claims ≤ claims threads := by
  have hIdle := claims_set hThread .idle
  change _ = claims threads + 0 at hIdle
  omega

end

/-
  The invariant: every permit and every claim stands for a node of its own, and the list is what was
  appended and not yet removed.
-/
structure Counted (q : Queue α) : Prop where
  counted : q.semCount.permits + claims q.threads ≤ q.head.length
  history : q.appended = q.removed ++ q.head

namespace Counted

variable {q : Queue α} {i : Nat}

/- A thread behind `sem_wait` finds a node. -/
theorem ne_nil (h : Counted q) (hThread : q.threads[i]? = some .passed) : q.head ≠ [] := by
  intro hEmpty
  have hClaims := claims_le hThread
  have hCounted := h.counted
  rw [hEmpty] at hCounted
  simp only [Pc.claims, length_nil] at hClaims hCounted
  omega

/- Every step of a thread keeps the invariant. -/
theorem advance (h : Counted q) {pc : Pc α} (hThread : q.threads[i]? = some pc) :
    ∃ next, NotificationQueue.advance q i pc = .ok next ∧ Counted next := by
  have hCounted := h.counted
  cases pc with
  | idle => exact ⟨q, rfl, h⟩
  | pushing node =>
    have hClaims := claims_set hThread .posting
    refine ⟨_, rfl, ?_, ?_⟩
    · simp only [Pc.claims, length_append, length_singleton] at hClaims ⊢
      omega
    · simp only [h.history, append_assoc]
  | posting =>
    have hClaims := claims_set hThread .idle
    have hPost := permits_semInc_le q.semCount
    refine ⟨_, rfl, ?_, h.history⟩
    simp only [Pc.claims] at hClaims ⊢
    omega
  | waiting =>
    have hClaims := claims_set hThread (afterDec (semDec q.semCount).1)
    refine ⟨_, rfl, ?_, h.history⟩
    simp only [Pc.claims, afterDec] at hClaims ⊢
    by_cases hAcquired : 0 < (semDec q.semCount).1
    · have hPermits := semDec_acquired hAcquired
      simp only [if_pos hAcquired] at hClaims ⊢
      omega
    · have hPermits := permits_semDec_blocked hAcquired
      simp only [if_neg hAcquired] at hClaims ⊢
      omega
  | passed =>
    have hClaims := claims_set hThread .idle
    have hNode := h.ne_nil hThread
    have hHistory := h.history
    unfold NotificationQueue.advance
    cases hHead : q.head with
    | nil => exact absurd hHead hNode
    | cons node rest =>
      rw [hHead] at hCounted hHistory
      refine ⟨_, rfl, ?_, ?_⟩
      · simp only [Pc.claims, length_cons] at hClaims hCounted ⊢
        omega
      · simp only [hHistory, append_assoc, singleton_append]

theorem enter (h : Counted q) {pc : Pc α} (hThread : q.threads[i]? = some pc) {next : Pc α}
    (hNext : next.claims = 0) : Counted (NotificationQueue.enter q i next pc) := by
  cases pc with
  | idle =>
    have hClaims := claims_set hThread next
    have hCounted := h.counted
    refine ⟨?_, h.history⟩
    simp only [NotificationQueue.enter]
    omega
  | pushing node | posting | waiting | passed => exact h

theorem step (h : Counted q) (action : Action α) :
    ∃ next, NotificationQueue.step q action = .ok next ∧ Counted next := by
  unfold NotificationQueue.step
  cases action with
  | push i notification =>
    cases hThread : q.threads[i]? with
    | none => exact ⟨q, by simp [hThread], h⟩
    | some pc =>
      have hKept := h.enter hThread (show (Pc.pushing notification).claims = 0 from rfl)
      exact ⟨_, by simp [hThread], hKept⟩
  | pop i =>
    cases hThread : q.threads[i]? with
    | none => exact ⟨q, by simp [hThread], h⟩
    | some pc =>
      have hKept := h.enter hThread (show (Pc.waiting : Pc α).claims = 0 from rfl)
      exact ⟨_, by simp [hThread], hKept⟩
  | advance i =>
    cases hThread : q.threads[i]? with
    | none => exact ⟨q, by simp [hThread], h⟩
    | some pc =>
      simp only [hThread]
      exact h.advance hThread

end Counted

theorem Counted.init (n : Nat) : Counted (Queue.init n : Queue α) := by
  have hIdle : claims (replicate n (Pc.idle : Pc α)) = 0 := by simp [claims, Pc.claims]
  refine ⟨?_, rfl⟩
  simp only [Queue.init, hIdle]
  exact le_refl 0

/-
  A queue that loses nothing: a thread behind `sem_wait` finds a node, there are no more permits
  than nodes, and nodes are removed in the order they were appended.
-/
structure LossFree (q : Queue α) : Prop where
  found : ∀ i : Nat, q.threads[i]? = some Pc.passed → q.head ≠ []
  permits : q.semCount.permits ≤ q.head.length
  fifo : q.removed <+: q.appended

theorem Counted.lossFree {q : Queue α} (h : Counted q) : LossFree q where
  found := fun _ hThread => h.ne_nil hThread
  permits := by
    have hCounted := h.counted
    omega
  fifo := ⟨q.head, h.history.symm⟩

/-
  For any number of threads and in every interleaving of their steps, no step follows a null pointer
  and the queue loses nothing.
-/
theorem notification_queue_loss_free (n : Nat) (actions : List (Action α)) :
    ∃ q, run step (Queue.init n : Queue α) actions = .ok q ∧ LossFree q := by
  have hAny : Along step (fun _ _ => True) (Queue.init n : Queue α) actions :=
    .of_actions (fun _ _ => trivial) _
  rcases run_preserves (fun q action h _ => h.step action) (Counted.init n) hAny with
    ⟨q, hRun, hCounted⟩
  exact ⟨q, hRun, hCounted.lossFree⟩

end OpenIvi.Serial.NotificationQueue
