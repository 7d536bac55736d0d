import Mathlib.Data.Fintype.Card
import Mathlib.Data.Int.Interval
import OpenIvi.Lib.Holders
import OpenIvi.Lib.Loop

/-
  The read-write locks of bionic.

  A lock has a count of its acquisitions, the id of the thread that writes, and the numbers of the
  threads that wait to read and to write. All four are read and written with the mutex of the lock
  held only, which a thread gives up while it waits for the condition. So a step of the system is
  what a thread does from the point where it gets the mutex to the point where it gives it up.

  The threads that may wait are woken at any time: a thread that wakes up tests its condition again.

  The count of a lock is the number of its acquisitions, and its writer is the thread that writes,
  as long as there are less than 2 ^ 31 acquisitions. No step tests for that.

  Main declarations:
    * `timedwait`
    * `StateOk`
    * `step_ok`
    * `rwlock_excludes_iff_countable`
-/

------
-- The Lock
------

namespace OpenIvi.Bionic.RwLock

open Lib List Function Holders

/- The fields of `pthread_rwlock_t`; all are of type int. -/
structure PthreadRwlock where
  numLocks : Int
  writerThreadId : Int
  pendingReaders : Int
  pendingWriters : Int

/- The value that a variable of type int gets. -/
def toInt (n : Int) : Int :=
  n.bmod (2 ^ 32)

def EPERM : Int := 1

def EBUSY : Int := 16

def pthreadRwlockInit : PthreadRwlock := ⟨0, 0, 0, 0⟩

def readPrecondition (rwlock : PthreadRwlock) (threadId : Int) : Bool :=
  if rwlock.pendingWriters > 0 then false
  else
    rwlock.writerThreadId == 0 || rwlock.writerThreadId == threadId

def writePrecondition (rwlock : PthreadRwlock) (threadId : Int) : Bool :=
  if rwlock.numLocks == 0 then true
  else rwlock.writerThreadId == threadId

def precondition : Mode → PthreadRwlock → Int → Bool
| .read => readPrecondition
| .write => writePrecondition

variable (mode : Mode)

section

variable (rwlock : PthreadRwlock)

/- The lock is acquired. -/
def acquire (threadId : Int) : PthreadRwlock :=
  let rwlock := { rwlock with numLocks := toInt (rwlock.numLocks + 1) }
  match mode with
  | .read => rwlock
  | .write => { rwlock with writerThreadId := threadId }

/- `pendingReaders` or `pendingWriters` is changed. -/
def addPending (n : Int) : PthreadRwlock :=
  match mode with
  | .read =>
    { rwlock with pendingReaders := toInt (rwlock.pendingReaders + n) }
  | .write =>
    { rwlock with pendingWriters := toInt (rwlock.pendingWriters + n) }

/- Where a call gets to when it gives up the mutex. -/
inductive Progress
| returned (ret : Int)
| waits

/- The calls that do not wait. -/
def trylock (threadId : Int) : PthreadRwlock × Progress :=
  if !precondition mode rwlock threadId then
    (rwlock, .returned EBUSY)
  else (acquire mode rwlock threadId, .returned 0)

/- The calls that wait, up to the wait. -/
def timedlock (threadId : Int) : PthreadRwlock × Progress :=
  if !precondition mode rwlock threadId then
    (addPending mode rwlock 1, .waits)
  else (acquire mode rwlock threadId, .returned 0)

/- The calls that wait, from the point where the wait returns `ret` with the mutex held. -/
def timedwait (threadId ret : Int) : PthreadRwlock × Progress :=
  if ret == 0 && !precondition mode rwlock threadId then
    (rwlock, .waits)
  else
    let rwlock := addPending mode rwlock (-1)
    if ret ≠ 0 then (rwlock, .returned ret)
    else (acquire mode rwlock threadId, .returned 0)

def pthreadRwlockTryrdlock := trylock .read

def pthreadRwlockTimedrdlock := timedlock .read

/- `pthread_rwlock_rdlock`, which has no timeout. -/
def pthreadRwlockRdlock := pthreadRwlockTimedrdlock

def pthreadRwlockTrywrlock := trylock .write

def pthreadRwlockTimedwrlock := timedlock .write

/- `pthread_rwlock_wrlock`, which has no timeout. -/
def pthreadRwlockWrlock := pthreadRwlockTimedwrlock

/- `_pthread_rwlock_pulse`: are the waiting threads woken? -/
def pthreadRwlockPulse : Bool :=
  rwlock.pendingReaders > 0 || rwlock.pendingWriters > 0

/- `pthread_rwlock_unlock`: the lock, the result, and whether the waiting threads are woken. -/
def pthreadRwlockUnlock (threadId : Int) : PthreadRwlock × Int × Bool :=
  if rwlock.numLocks == 0 then (rwlock, EPERM, false)
  else
    let left := toInt (rwlock.numLocks - 1)
    if rwlock.writerThreadId == 0 then
      let rwlock := { rwlock with numLocks := left }
      (rwlock, 0, left == 0 && pthreadRwlockPulse rwlock)
    else if rwlock.writerThreadId != threadId then
      (rwlock, EPERM, false)
    else if left == 0 then
      let rwlock := { rwlock with numLocks := left, writerThreadId := 0 }
      (rwlock, 0, pthreadRwlockPulse rwlock)
    else ({ rwlock with numLocks := left }, 0, false)

end

------
-- The Threads
------

section

/-
  The lock, the acquisitions that were not given back, and the threads that are inside a wait loop.
-/
structure State (τ : Type) where
  rwlock : PthreadRwlock
  holders : List (τ × Mode)
  waiting : τ → Option Mode

/- A thread gets the mutex, in a call or after a wait. -/
inductive Event (τ : Type)
| rdlock (t : τ)
| tryrdlock (t : τ)
| timedrdlock (t : τ)
| wrlock (t : τ)
| trywrlock (t : τ)
| timedwrlock (t : τ)
| wakes (t : τ) (ret : Int)
| unlock (t : τ)

variable {τ : Type} [DecidableEq τ]

/- The thread has the lock, waits or has failed. -/
def State.proceed (s : State τ) (t : τ) (mode : Mode)
    (result : PthreadRwlock × Progress) : State τ :=
  match result.2 with
  | .waits =>
    { s with rwlock := result.1, waiting := Function.update s.waiting t (some mode) }
  | .returned ret =>
    { rwlock := result.1
      holders := if ret = 0 then (t, mode) :: s.holders
        else s.holders
      waiting := Function.update s.waiting t none }

def State.unlock (s : State τ) (t : τ) (result : PthreadRwlock × Int × Bool) : State τ :=
  { s with
    rwlock := result.1
    holders := if result.2.1 = 0 then Holders.release s.holders t
      else s.holders }

def step (ids : KernelIds τ) (s : State τ) : Event τ → Except Fault (State τ)
| .rdlock t =>
  .ok (s.proceed t .read (pthreadRwlockRdlock s.rwlock (ids.id t)))
| .tryrdlock t =>
  .ok (s.proceed t .read (pthreadRwlockTryrdlock s.rwlock (ids.id t)))
| .timedrdlock t =>
  .ok (s.proceed t .read (pthreadRwlockTimedrdlock s.rwlock (ids.id t)))
| .wrlock t =>
  .ok (s.proceed t .write (pthreadRwlockWrlock s.rwlock (ids.id t)))
| .trywrlock t =>
  .ok (s.proceed t .write (pthreadRwlockTrywrlock s.rwlock (ids.id t)))
| .timedwrlock t =>
  .ok (s.proceed t .write (pthreadRwlockTimedwrlock s.rwlock (ids.id t)))
| .wakes t ret =>
  match s.waiting t with
  | none => .error .aborted
  | some mode => .ok (s.proceed t mode (timedwait mode s.rwlock (ids.id t) ret))
| .unlock t =>
  .ok (s.unlock t (pthreadRwlockUnlock s.rwlock (ids.id t)))

def State.init : State τ := ⟨pthreadRwlockInit, [], fun _ => none⟩

/-
  A thread that is not in a wait loop asks for the lock, in the mode that it may have it in already.
-/
def MayAsk (s : State τ) (t : τ) (mode : Mode) : Prop :=
  s.waiting t = none ∧ ∀ held, (t, held) ∈ s.holders → held = mode

/- The steps that the threads may take. -/
def Legal (s : State τ) : Event τ → Prop
| .rdlock t => MayAsk s t .read
| .tryrdlock t => MayAsk s t .read
| .timedrdlock t => MayAsk s t .read
| .wrlock t => MayAsk s t .write
| .trywrlock t => MayAsk s t .write
| .timedwrlock t => MayAsk s t .write
| .wakes t _ => s.waiting t ≠ none
| .unlock t =>
  s.waiting t = none ∧ ∃ held, (t, held) ∈ s.holders

/- The threads inside the wait loops for a mode. -/
def waiters [Fintype τ] (waiting : τ → Option Mode) (mode : Mode) : Finset τ :=
  Finset.univ.filter fun t => waiting t = some mode

/- A writer excludes the others, and the counts are right. -/
structure Excludes [Fintype τ] (s : State τ) : Prop where
  exclusive : ∀ t u mode, (t, Mode.write) ∈ s.holders → (u, mode) ∈ s.holders → u = t
  numLocks : s.rwlock.numLocks = s.holders.length
  pendingReaders : s.rwlock.pendingReaders = (waiters s.waiting .read).card
  pendingWriters : s.rwlock.pendingWriters = (waiters s.waiting .write).card

end

------
-- The Lock And Its Holders
------

section

variable {τ : Type} {ids : KernelIds τ} {rwlock : PthreadRwlock} {holders : List (τ × Mode)}
variable {mode : Mode} {t : τ}

theorem toInt_eq {n : Int} (hLow : -2 ^ 31 ≤ n) (hHigh : n < 2 ^ 31) : toInt n = n := by
  exact Int.bmod_eq_of_le (by omega) (by omega)

theorem toInt_lt (n : Int) : toInt n < 2 ^ 31 := by
  unfold toInt
  have hLess := Int.bmod_lt (x := n) (m := 2 ^ 32) (by decide)
  omega

/- The lock says who holds it. -/
structure LockOk (ids : KernelIds τ) (rwlock : PthreadRwlock)
    (holders : List (τ × Mode)) : Prop where
  count : rwlock.numLocks = holders.length
  exclusive : Exclusive holders
  writer : (rwlock.writerThreadId = 0 ∧ ∀ t, (t, Mode.write) ∉ holders) ∨
      ∃ t, rwlock.writerThreadId = ids.id t ∧ (t, Mode.write) ∈ holders

/- A thread that may read finds no writer. -/
theorem LockOk.no_writer (hLock : LockOk ids rwlock holders)
    (hMode : ∀ held, (t, held) ∈ holders → held = Mode.read)
    (hFree : readPrecondition rwlock (ids.id t) = true) :
    rwlock.writerThreadId = 0 ∧ ∀ u, (u, Mode.write) ∉ holders := by
  rcases hLock.writer with hNone | ⟨u, hU, hMem⟩
  · exact hNone
  · have hPositive := ids.positive u
    unfold readPrecondition at hFree
    split at hFree
    · cases hFree
    · rw [Bool.or_eq_true, beq_iff_eq, beq_iff_eq] at hFree
      rcases hFree with hZero | hSelf
      · omega
      · have hSame : u = t := ids.injective (hU.symm.trans hSelf)
        rw [hSame] at hMem
        cases hMode _ hMem

/- A thread that may write finds no other holder. -/
theorem LockOk.own (hLock : LockOk ids rwlock holders)
    (hFree : writePrecondition rwlock (ids.id t) = true) : ∀ h ∈ holders, h = (t, Mode.write) := by
  have hCount := hLock.count
  unfold writePrecondition at hFree
  split at hFree
  · rename_i hZero
    rw [beq_iff_eq] at hZero
    have hNil : holders = [] := by
      apply eq_nil_of_length_eq_zero
      omega
    rw [hNil]
    intro h hMem
    cases hMem
  · rw [beq_iff_eq] at hFree
    have hPositive := ids.positive t
    rcases hLock.writer with ⟨hNone, _⟩ | ⟨u, hU, hMem⟩
    · omega
    · have hSame : u = t := ids.injective (hU.symm.trans hFree)
      rw [hSame] at hMem
      exact hLock.exclusive t hMem

theorem acquire_numLocks (rwlock : PthreadRwlock) (threadId : Int) :
    (acquire mode rwlock threadId).numLocks = toInt (rwlock.numLocks + 1) := by
  cases mode with
  | read | write => rfl

theorem LockOk.acquire (hLock : LockOk ids rwlock holders)
    (hFree : precondition mode rwlock (ids.id t) = true)
    (hMode : ∀ held, (t, held) ∈ holders → held = mode) (hSmall : holders.length + 1 < 2 ^ 31) :
    LockOk ids (acquire mode rwlock (ids.id t)) ((t, mode) :: holders) := by
  have hNum : (RwLock.acquire mode rwlock (ids.id t)).numLocks = ((t, mode) :: holders).length := by
    rw [acquire_numLocks, hLock.count, length_cons, toInt_eq (by omega) (by omega)]
    rfl
  cases mode with
  | read =>
    have hNone := hLock.no_writer hMode hFree
    have hReaders : ∀ u, (u, Mode.write) ∉ (t, Mode.read) :: holders := by
      intro u hU
      rcases mem_cons.mp hU with hEq | hOld
      · cases hEq
      · exact hNone.2 u hOld
    exact ⟨hNum, fun u hU => absurd hU (hReaders u), .inl ⟨hNone.1, hReaders⟩⟩
  | write =>
    have hOwn := hLock.own hFree
    exact ⟨hNum, exclusive_write hOwn, .inr ⟨t, rfl, mem_cons_self⟩⟩

theorem LockOk.addPending (hLock : LockOk ids rwlock holders) (mode : Mode) (n : Int) :
    LockOk ids (addPending mode rwlock n) holders := by
  cases mode with
  | read | write => exact ⟨hLock.count, hLock.exclusive, hLock.writer⟩

/- One of `n` acquisitions was given back. -/
def PthreadRwlock.unlocked (rwlock : PthreadRwlock) (n : Nat) : PthreadRwlock :=
  { rwlock with
    numLocks := (n - 1 : Nat)
    writerThreadId := if n = 1 then 0 else rwlock.writerThreadId }

/- What `pthread_rwlock_unlock` does for a holder. -/
theorem unlock_eq (hLock : LockOk ids rwlock holders)
    (hSmall : holders.length < 2 ^ 31) (hHeld : (t, mode) ∈ holders) :
    ∃ woken, pthreadRwlockUnlock rwlock (ids.id t) =
      (rwlock.unlocked holders.length, 0, woken) := by
  have hCount := hLock.count
  have hLength := length_pos_of_mem hHeld
  have hLeft : toInt (rwlock.numLocks - 1) = (holders.length - 1 : Nat) := by
    rw [toInt_eq (by omega) (by omega)]
    omega
  have hSome : (rwlock.numLocks == 0) = false := by
    rw [beq_eq_false_iff_ne]
    omega
  unfold pthreadRwlockUnlock PthreadRwlock.unlocked
  simp only [hSome, Bool.false_eq_true, if_false, hLeft]
  rcases hLock.writer with ⟨hNone, _⟩ | ⟨u, hU, hMem⟩
  · -- Only readers: the writer is 0 and stays so.
    rw [hNone]
    simp only [beq_self_eq_true, if_true, ite_self]
    exact ⟨_, rfl⟩
  · have hOwner : (t, mode) = (u, Mode.write) := hLock.exclusive u hMem _ hHeld
    injection hOwner with hSame _
    have hPositive := ids.positive u
    have hWriter : (rwlock.writerThreadId == 0) = false := by
      rw [beq_eq_false_iff_ne]
      omega
    have hSelf : (rwlock.writerThreadId != ids.id t) = false := by rw [hU, hSame, bne_self_eq_false]
    simp only [hWriter, hSelf, Bool.false_eq_true, if_false]
    by_cases hLast : holders.length = 1
    · rw [hLast]
      exact ⟨_, rfl⟩
    · have hMore : (((holders.length - 1 : Nat) : Int) == 0) = false := by
        rw [beq_eq_false_iff_ne]
        omega
      simp only [hMore, hLast, Bool.false_eq_true, if_false]
      exact ⟨_, rfl⟩

theorem LockOk.unlock [DecidableEq τ] (hLock : LockOk ids rwlock holders)
    (hHeld : (t, mode) ∈ holders) :
    LockOk ids (rwlock.unlocked holders.length) (release holders t) := by
  have hLength := length_release hHeld
  have hPositive := length_pos_of_mem hHeld
  refine ⟨?_, hLock.exclusive.release t, ?_⟩
  · rw [hLength]
    rfl
  · unfold PthreadRwlock.unlocked
    by_cases hLast : holders.length = 1
    · have hNil : release holders t = [] := by
        apply eq_nil_of_length_eq_zero
        omega
      rw [hNil, if_pos hLast]
      left
      exact ⟨rfl, fun _ => not_mem_nil⟩
    · simp only [if_neg hLast]
      rcases hLock.writer with ⟨hNone, hReaders⟩ | ⟨u, hU, hMem⟩
      · left
        refine ⟨hNone, ?_⟩
        intro u hU
        exact hReaders u (mem_of_mem_release hU)
      · -- What is left is of the writer, too.
        right
        refine ⟨u, hU, ?_⟩
        have hNe : release holders t ≠ [] := by
          intro hNil
          rw [hNil, length_nil] at hLength
          omega
        rcases exists_mem_of_ne_nil _ hNe with ⟨h, hH⟩
        have hEq := hLock.exclusive u hMem h (mem_of_mem_release hH)
        rw [← hEq]
        exact hH

------
-- The Threads That Wait
------

theorem card_lt (ids : KernelIds τ) (threads : Finset τ) : threads.card < 2 ^ 31 := by
  have hMaps : ∀ t ∈ threads, ids.id t ∈ Finset.Ico (1 : Int) (2 ^ 31) := by
    intro t _
    have hPositive := ids.positive t
    rw [Finset.mem_Ico]
    exact ⟨by omega, ids.bounded t⟩
  have hLe := Finset.card_le_card_of_injOn ids.id hMaps ids.injective.injOn
  rw [Int.card_Ico] at hLe
  omega

variable [DecidableEq τ] [Fintype τ] {waiting : τ → Option Mode}

def PthreadRwlock.pending (rwlock : PthreadRwlock) : Mode → Int
| .read => rwlock.pendingReaders
| .write => rwlock.pendingWriters

/- The numbers of the waiting threads are right. -/
def WaitOk (rwlock : PthreadRwlock) (waiting : τ → Option Mode) : Prop :=
  ∀ mode, rwlock.pending mode = (waiters waiting mode).card

theorem waiters_update_self (waiting : τ → Option Mode) (t : τ) (mode : Mode) :
    waiters (update waiting t (some mode)) mode = insert t (waiters waiting mode) := by
  ext u
  by_cases hSame : u = t
  · rw [hSame]
    simp [waiters]
  · simp [waiters, hSame]

theorem waiters_update_other {other : Option Mode}
    (hBefore : waiting t ≠ some mode) (hAfter : other ≠ some mode) :
    waiters (update waiting t other) mode = waiters waiting mode := by
  ext u
  by_cases hSame : u = t
  · rw [hSame]
    simp [waiters, hBefore, hAfter]
  · simp [waiters, hSame]

theorem addPending_self (rwlock : PthreadRwlock) (n : Int) :
    (addPending mode rwlock n).pending mode = toInt (rwlock.pending mode + n) := by
  cases mode with
  | read | write => rfl

theorem addPending_other {other : Mode} (hOther : other ≠ mode) (n : Int) :
    (addPending mode rwlock n).pending other = rwlock.pending other := by
  cases mode with
  | read =>
    cases other with
    | read => exact absurd rfl hOther
    | write => rfl
  | write =>
    cases other with
    | read => rfl
    | write => exact absurd rfl hOther

/- A thread enters its wait loop. -/
theorem WaitOk.enter (ids : KernelIds τ) (hWait : WaitOk rwlock waiting) (hOut : waiting t = none) :
    WaitOk (addPending mode rwlock 1) (update waiting t (some mode)) := by
  intro other
  by_cases hSame : other = mode
  · have hNew : t ∉ waiters waiting mode := by simp [waiters, hOut]
    have hCard := Finset.card_insert_of_notMem hNew
    have hBound := card_lt ids (insert t (waiters waiting mode))
    rw [hSame, addPending_self, hWait mode, waiters_update_self, toInt_eq (by omega) (by omega)]
    omega
  · have hElse : some mode ≠ some other := by
      intro hEq
      exact hSame (Option.some.inj hEq).symm
    rw [addPending_other hSame, hWait other, waiters_update_other (by simp [hOut]) hElse]

/- A thread leaves its wait loop. -/
theorem WaitOk.leave (ids : KernelIds τ)
    (hWait : WaitOk rwlock waiting) (hIn : waiting t = some mode) :
    WaitOk (addPending mode rwlock (-1)) (update waiting t none) := by
  have hBack : update (update waiting t none) t (some mode) = waiting := by
    rw [update_idem, ← hIn, update_eq_self]
  intro other
  by_cases hSame : other = mode
  · have hOut : t ∉ waiters (update waiting t none) mode := by simp [waiters]
    have hCard := Finset.card_insert_of_notMem hOut
    rw [← waiters_update_self, hBack] at hCard
    have hBound := card_lt ids (waiters waiting mode)
    rw [hSame, addPending_self, hWait mode, hCard, toInt_eq (by omega) (by omega)]
    omega
  · have hElse : waiting t ≠ some other := by
      rw [hIn]
      intro hEq
      exact hSame (Option.some.inj hEq).symm
    rw [addPending_other hSame, hWait other, waiters_update_other hElse (by simp)]

end

------
-- Every Step
------

section

variable {τ : Type} [Fintype τ] {ids : KernelIds τ} {s next : State τ} {rwlock : PthreadRwlock}
variable {waiting : τ → Option Mode} {mode : Mode} {t : τ}

structure StateOk (ids : KernelIds τ) (s : State τ) : Prop where
  lock : LockOk ids s.rwlock s.holders
  countable : s.holders.length < 2 ^ 31
  wait : WaitOk s.rwlock s.waiting
  modes : ∀ t mode, s.waiting t = some mode → ∀ held, (t, held) ∈ s.holders → held = mode

theorem StateOk.excludes (hState : StateOk ids s) : Excludes s where
  exclusive := by
    intro t u mode hWrite hHeld
    exact congrArg Prod.fst (hState.lock.exclusive t hWrite _ hHeld)
  numLocks := hState.lock.count
  pendingReaders := hState.wait .read
  pendingWriters := hState.wait .write

/- There are not more acquisitions than an int can count. -/
def Countable (s : State τ) : Prop :=
  s.holders.length < 2 ^ 31

/- The step keeps the state in order, or the count is wrong. -/
def Kept (ids : KernelIds τ) (next : State τ) : Prop :=
  StateOk ids next ∨ (¬ Excludes next ∧ ¬ Countable next)

theorem WaitOk.acquire (hWait : WaitOk rwlock waiting) (mode : Mode)
    (threadId : Int) : WaitOk (acquire mode rwlock threadId) waiting := by
  cases mode with
  | read | write =>
    intro other
    cases other with
    | read => exact hWait .read
    | write => exact hWait .write

/- The thread gets the lock. -/
theorem kept_acquired (hState : StateOk ids s) (hOut : s.waiting t = none)
    (hFree : precondition mode s.rwlock (ids.id t) = true)
    (hMode : ∀ held, (t, held) ∈ s.holders → held = mode) :
    Kept ids ⟨acquire mode s.rwlock (ids.id t), (t, mode) :: s.holders, s.waiting⟩ := by
  by_cases hMore : s.holders.length + 1 < 2 ^ 31
  · left
    refine ⟨hState.lock.acquire hFree hMode hMore, hMore, hState.wait.acquire mode _, ?_⟩
    intro u other hIn held hHeld
    rcases mem_cons.mp hHeld with hEq | hOld
    · injection hEq with hSame _
      rw [hSame, hOut] at hIn
      cases hIn
    · exact hState.modes u other hIn held hOld
  · -- The count does not get to 2 ^ 31.
    right
    refine ⟨?_, hMore⟩
    intro hExcludes
    have hCount := hExcludes.numLocks
    have hLess := toInt_lt (s.rwlock.numLocks + 1)
    rw [acquire_numLocks] at hCount
    change _ = ((s.holders.length + 1 : Nat) : Int) at hCount
    omega

variable [DecidableEq τ]

omit [Fintype τ] in
theorem update_none (hOut : waiting t = none) : update waiting t none = waiting := by
  rw [← hOut, update_eq_self]

section

variable (hState : StateOk ids s)

include hState

theorem kept_trylock (hAsk : MayAsk s t mode) :
    Kept ids (s.proceed t mode (trylock mode s.rwlock (ids.id t))) := by
  unfold trylock State.proceed
  cases hFree : precondition mode s.rwlock (ids.id t) with
  | false =>
    left
    simp only [Bool.not_false, if_true, update_none hAsk.1]
    exact hState
  | true =>
    simp only [Bool.not_true, Bool.false_eq_true, if_false, if_true, update_none hAsk.1]
    exact kept_acquired hState hAsk.1 hFree hAsk.2

theorem kept_timedlock (hAsk : MayAsk s t mode) :
    Kept ids (s.proceed t mode (timedlock mode s.rwlock (ids.id t))) := by
  unfold timedlock State.proceed
  cases hFree : precondition mode s.rwlock (ids.id t) with
  | false =>
    left
    refine ⟨hState.lock.addPending mode 1, hState.countable, hState.wait.enter ids hAsk.1, ?_⟩
    intro u other hIn held hHeld
    by_cases hSame : u = t
    · rw [hSame] at hIn hHeld
      change update s.waiting t _ t = _ at hIn
      rw [update_self] at hIn
      cases hIn
      exact hAsk.2 held hHeld
    · change update s.waiting t _ u = _ at hIn
      rw [update_of_ne hSame] at hIn
      exact hState.modes u other hIn held hHeld
  | true =>
    simp only [Bool.not_true, Bool.false_eq_true, if_false, if_true, update_none hAsk.1]
    exact kept_acquired hState hAsk.1 hFree hAsk.2

theorem kept_timedwait (hIn : s.waiting t = some mode) (ret : Int) :
    Kept ids (s.proceed t mode (timedwait mode s.rwlock (ids.id t) ret)) := by
  have hLeft : StateOk ids ⟨addPending mode s.rwlock (-1), s.holders, update s.waiting t none⟩ := by
    refine ⟨hState.lock.addPending mode (-1), hState.countable, hState.wait.leave ids hIn, ?_⟩
    intro u other hOther
    change update s.waiting t none u = _ at hOther
    by_cases hSame : u = t
    · rw [hSame, update_self] at hOther
      cases hOther
    · rw [update_of_ne hSame] at hOther
      exact hState.modes u other hOther
  unfold timedwait State.proceed
  by_cases hRet : ret = 0
  · cases hFree : precondition mode s.rwlock (ids.id t) with
    | false =>
      -- The condition does not hold yet.
      left
      simp only [hRet, beq_self_eq_true, Bool.not_false, Bool.and_self, if_true, ← hIn,
        update_eq_self]
      exact hState
    | true =>
      simp only [hRet, beq_self_eq_true, Bool.not_true, Bool.and_false, Bool.false_eq_true,
        if_false, ne_eq, not_true_eq_false, if_true]
      apply kept_acquired hLeft (update_self ..)
      · cases mode with
        | read | write => exact hFree
      · exact hState.modes t mode hIn
  · left
    have hFailed : (ret == 0) = false := beq_eq_false_iff_ne.mpr hRet
    simp only [hFailed, Bool.false_and, Bool.false_eq_true, if_false, ne_eq, hRet,
      not_false_eq_true, if_true]
    exact hLeft

theorem kept_unlock (hHeld : (t, mode) ∈ s.holders) :
    Kept ids (s.unlock t (pthreadRwlockUnlock s.rwlock (ids.id t))) := by
  rcases unlock_eq hState.lock hState.countable hHeld with ⟨woken, hEq⟩
  have hLength := length_release hHeld
  have hSmall := hState.countable
  rw [hEq]
  left
  refine ⟨hState.lock.unlock hHeld, ?_, ?_, ?_⟩
  · change (release s.holders t).length < _
    omega
  · intro other
    cases other with
    | read => exact hState.wait .read
    | write => exact hState.wait .write
  · intro u other hIn held hMem
    exact hState.modes u other hIn held (mem_of_mem_release hMem)

theorem step_ok {event : Event τ} (hLegal : Legal s event) :
    ∃ next, step ids s event = .ok next ∧ Kept ids next := by
  cases event with
  | rdlock t => exact ⟨_, rfl, kept_timedlock hState hLegal⟩
  | tryrdlock t => exact ⟨_, rfl, kept_trylock hState hLegal⟩
  | timedrdlock t | wrlock t => exact ⟨_, rfl, kept_timedlock hState hLegal⟩
  | trywrlock t => exact ⟨_, rfl, kept_trylock hState hLegal⟩
  | timedwrlock t => exact ⟨_, rfl, kept_timedlock hState hLegal⟩
  | wakes t ret =>
    rcases Option.ne_none_iff_exists'.mp hLegal with ⟨mode, hIn⟩
    refine ⟨_, ?_, kept_timedwait hState hIn ret⟩
    simp only [step, hIn]
  | unlock t =>
    rcases hLegal.2 with ⟨held, hHeld⟩
    exact ⟨_, rfl, kept_unlock hState hHeld⟩

end

omit [DecidableEq τ] in
theorem init_ok (ids : KernelIds τ) : StateOk ids (State.init : State τ) where
  lock := by
    refine ⟨rfl, ?_, .inl ⟨rfl, fun _ => not_mem_nil⟩⟩
    intro t hT
    cases hT
  countable := Nat.two_pow_pos 31
  wait := by
    intro mode
    have hNone : waiters (State.init : State τ).waiting mode = ∅ := by simp [waiters, State.init]
    rw [hNone]
    cases mode with
    | read | write => rfl
  modes := by
    intro t mode hIn
    cases hIn

/-
  For any number of threads and any interleaving, the lock excludes and its counts are right if and
  only if there are always less than 2 ^ 31 acquisitions.
-/
theorem rwlock_excludes_iff_countable (ids : KernelIds τ) (events : List (Event τ))
    (hLegal : Along (step ids) Legal State.init events) :
    Always (step ids) Excludes State.init events ↔ Always (step ids) Countable State.init events :=
  always_iff_always (fun _ hState => hState.excludes) (fun _ hState => hState.countable)
    (fun _ _ hState hEvent => step_ok hState hEvent)
    (init_ok ids) hLegal

def twoThreads : KernelIds Bool where
  id := fun t => if t then 2 else 1
  injective := by decide
  positive := by decide
  bounded := by decide

/- A reader waits until the writer has given the lock back. -/
theorem rwlock_excludes_reader_waits :
    Always (step twoThreads) Excludes State.init
      [.wrlock true, .rdlock false, .unlock true, .wakes false 0] ↔
      Always (step twoThreads) Countable State.init
        [.wrlock true, .rdlock false, .unlock true, .wakes false 0] := by
  apply rwlock_excludes_iff_countable
  refine ⟨⟨rfl, by simp [State.init]⟩, ?_⟩
  intro s₁ hFirst
  cases hFirst
  refine ⟨⟨rfl, ?_⟩, ?_⟩
  · intro held hHeld
    cases hHeld with
    | tail _ hTail => cases hTail
  intro s₂ hSecond
  cases hSecond
  refine ⟨⟨rfl, .write, mem_cons_self⟩, ?_⟩
  intro s₃ hThird
  cases hThird
  refine ⟨?_, fun _ _ => trivial⟩
  intro hOut
  cases hOut

end

------
-- Too Many Acquisitions
------

/- One thread has acquired the lock `n` times for reading. -/
def readers (count : Int) (n : Nat) : State Unit :=
  ⟨⟨count, 0, 0, 0⟩, replicate n ((), .read), fun _ => none⟩

theorem legal_readers (count : Int) (k n : Nat) :
    Along (step oneThread) Legal (readers count k) (replicate n (.rdlock ())) := by
  induction n generalizing count k with
  | zero => exact trivial
  | succ n ih =>
    refine ⟨⟨rfl, ?_⟩, ?_⟩
    · intro held hHeld
      exact congrArg Prod.snd (eq_of_mem_replicate hHeld)
    · intro next hNext
      rw [← Except.ok.inj hNext]
      exact ih _ (k + 1)

/- The count is an int whatever the number is. -/
theorem always_readers {count : Int} (hCount : count < 2 ^ 31) (k n : Nat) (hAlways :
      Always (step oneThread) Excludes (readers count k)
        (replicate n (.rdlock ()))) : k + n < 2 ^ 31 := by
  induction n generalizing count k with
  | zero =>
    have hLength : count = (replicate k _).length := hAlways.numLocks
    rw [length_replicate] at hLength
    omega
  | succ n ih =>
    rcases hAlways with ⟨_, next, hNext, hRest⟩
    rw [← Except.ok.inj hNext] at hRest
    have hLess := ih (toInt_lt _) (k + 1) hRest
    omega

/- The count of a lock that is acquired 2 ^ 31 times is negative. -/
theorem count_of_readers_overflows :
    ∃ events, Along (step oneThread) Legal State.init events ∧
      ¬ Always (step oneThread) Excludes State.init
        events := by
  refine ⟨replicate (2 ^ 31) (.rdlock ()), legal_readers 0 0 (2 ^ 31), ?_⟩
  intro hAlways
  have hLess := always_readers (by decide) 0 (2 ^ 31) hAlways
  omega

end OpenIvi.Bionic.RwLock
