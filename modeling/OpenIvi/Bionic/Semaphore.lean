import OpenIvi.Lib.Loop

/-
  Semaphores of bionic.

  A semaphore is a counter that is at least -1, the value that says that some thread waits, and
  never above `SEM_MAX_VALUE`. The source keeps it in the upper 31 bits of a word; the lowest bit,
  which says that the semaphore is shared between processes, is zero here.

  What other threads and the kernel do during `sem_timedwait` is an input: how often the semaphore
  is posted before each look at it, what the clock says in each round, and how each wait for a
  wakeup ends.

  `Sem` takes `__sem_dec` and its siblings as one step. In `Steps` each load, each compare-and-swap
  and each system call is a step of its own, and any number of threads take them in any order. The
  counter is the word of the source: the value in the upper 31 bits, and the flag of a semaphore
  that processes share in the lowest one.

  `increments` and `decrements` count the permits that were given and taken; the source has no such
  variables.

  They lose neither permits nor wakeups. The word of a semaphore is a 31-bit counter with the flag
  of the semaphore behind it. `Inv` says that the counter balances the permits, that the variables
  of the threads have the right flag, and that a thread sleeps only while the counter is -1 or a
  poster is about to wake it. Every step of every thread keeps it.

  Main declarations:
    * `Sem`
    * `semTimedwait_ne_etime`
    * `semaphore_linearizable`
    * `semaphore_loses_nothing`
-/

------
-- Counters
------

namespace OpenIvi.Bionic

def semMaxValue : Int := 0x3fffffff

/- The counter of a semaphore. -/
structure Sem where
  value : Int
  atLeast : -1 ≤ value
  atMost : value ≤ semMaxValue
deriving DecidableEq

/- The permits that can be taken, as `sem_getvalue` says. -/
def Sem.permits (s : Sem) : Nat :=
  s.value.toNat

/- The semaphore after `sem_init(sem, 0, 0)`. -/
def Sem.zero : Sem where
  value := 0
  atLeast := by decide
  atMost := by decide

/- One permit less. -/
def Sem.decrement (s : Sem) (hCount : 0 ≤ s.value) : Sem where
  value := s.value - 1
  atLeast := by omega
  atMost := by
    have hMost := s.atMost
    omega

/- One permit more, and +1 if some thread waits. -/
def Sem.increment (s : Sem) (hRoom : s.value ≠ semMaxValue) : Sem where
  value := if s.value < 0 then 1 else s.value + 1
  atLeast := by split <;> omega
  atMost := by
    have hMost := s.atMost
    simp only [semMaxValue] at *
    split <;> omega

/- `__sem_dec`: the old value and the semaphore after it. -/
def semDec (s : Sem) : Int × Sem :=
  if hCount : 0 ≤ s.value then
    (s.value, s.decrement hCount)
  else
    (s.value, s)

/- `__sem_trydec`, which leaves a zero alone. -/
def semTrydec (s : Sem) : Int × Sem :=
  if hCount : 0 < s.value then
    (s.value, s.decrement (by omega))
  else
    (s.value, s)

def semInc (s : Sem) : Int × Sem :=
  if hRoom : s.value = semMaxValue then
    (s.value, s)
  else
    (s.value, s.increment hRoom)

------
-- Permits
------

variable {s : Sem}

theorem semDec_acquired (hAcquired : 0 < (semDec s).1) : (semDec s).2.permits + 1 = s.permits := by
  unfold semDec Sem.permits at *
  split at hAcquired
  next hCount =>
    rw [dif_pos hCount]
    simp only [Sem.decrement] at *
    omega
  next hCount => omega

theorem permits_semDec_blocked (hBlocked : ¬ 0 < (semDec s).1) :
    (semDec s).2.permits = s.permits := by
  unfold semDec Sem.permits at *
  split at hBlocked
  next hCount =>
    rw [dif_pos hCount]
    simp only [Sem.decrement] at *
    omega
  next hCount => rw [dif_neg hCount]

theorem permits_semInc_le (s : Sem) : (semInc s).2.permits ≤ s.permits + 1 := by
  unfold semInc Sem.permits
  split
  next => exact Nat.le_succ _
  next hRoom =>
    simp only [Sem.increment]
    split
    next hWaits => exact Nat.le_add_left 1 _
    next hCount => omega

------
-- Waiting With A Deadline
------

inductive Errno where
| eintr
| eagain
| einval
| etime
| etimedout
deriving DecidableEq, Repr

structure Timespec where
  tvSec : Int
  tvNsec : Int
deriving DecidableEq, Repr

/- What `clock_gettime` reads. -/
structure Clock where
  sec : Nat
  nsec : Nat
  inSecond : nsec < 1000000000
deriving DecidableEq, Repr

/- How `__futex_wait_ex` returns. -/
inductive Wake where
| woken
| wouldBlock
| timedOut
| interrupted
deriving DecidableEq, Repr

/- One round of the loop of `sem_timedwait`. -/
structure Round where
  clock : Clock
  /- The posts before `__sem_dec` of this round. -/
  posts : Nat
  wake : Wake
deriving DecidableEq, Repr

/- That many calls of `sem_post`. -/
def semPosts : Nat → Sem → Sem
| 0, s => s
| n + 1, s => semPosts n (semInc s).2

/- `sem_trywait`: the error and the semaphore after it. -/
def semTrywait (s : Sem) : Option Errno × Sem :=
  let (old, s) := semTrydec s
  if 0 < old then
    (none, s)
  else
    (some .eagain, s)

/- The time that is left, as `sem_timedwait` computes it. -/
def timeLeft (deadline : Timespec) (now : Clock) : Timespec :=
  let tvSec := deadline.tvSec - now.sec
  let tvNsec := deadline.tvNsec - now.nsec
  if tvNsec < 0 then
    ⟨tvSec - 1, tvNsec + 1000000000⟩
  else
    ⟨tvSec, tvNsec⟩

/- The test for a deadline that has passed. -/
def Expired (deadline : Timespec) (now : Clock) : Prop :=
  (timeLeft deadline now).tvSec < 0 ∨ (timeLeft deadline now).tvNsec < 0

instance (deadline : Timespec) (now : Clock) : Decidable (Expired deadline now) := by
  unfold Expired
  infer_instance

/- A `timespec` that `sem_timedwait` accepts. -/
def Timespec.Valid (ts : Timespec) : Prop :=
  0 ≤ ts.tvSec ∧ 0 ≤ ts.tvNsec ∧ ts.tvNsec < 1000000000

instance (ts : Timespec) : Decidable ts.Valid := by
  unfold Timespec.Valid
  infer_instance

/-
  The loop of `sem_timedwait`. It comes to an end because time passes: behind the given rounds the
  deadline is over.
-/
def waitRounds (deadline : Timespec) : List Round → Sem → Option Errno × Sem
| [], s => (some .etimedout, s)
| r :: rounds, s =>
  if Expired deadline r.clock then
    (some .etimedout, s)
  else
    let (old, s) := semDec (semPosts r.posts s)
    if 0 < old then
      (none, s)
    else
      match r.wake with
      | .timedOut => (some .etimedout, s)
      | .interrupted => (some .eintr, s)
      | .woken => waitRounds deadline rounds s
      | .wouldBlock => waitRounds deadline rounds s

/-
  `sem_timedwait`: `errno` if it returns -1, nothing if it returns 0, and the semaphore after it.
-/
def semTimedwait (deadline : Timespec) (posts : Nat)
    (rounds : List Round) (s : Sem) : Option Errno × Sem :=
  let (old, s) := semTrydec (semPosts posts s)
  if 0 < old then
    (none, s)
  else if deadline.Valid then
    waitRounds deadline rounds s
  else
    (some .einval, s)

------
-- When A Permit Is Acquired
------

/- Posts make a permit available. -/
theorem value_semPosts_pos {n : Nat} (s : Sem) (hPosts : 0 < n) : 0 < (semPosts n s).value := by
  have hInc : ∀ t : Sem, 0 < (semInc t).2.value := by
    intro t
    unfold semInc
    split
    next hFull =>
      rw [hFull]
      decide
    next =>
      simp only [Sem.increment]
      split <;> omega
  induction n generalizing s with
  | zero => cases hPosts
  | succ n ih =>
    cases n with
    | zero => exact hInc s
    | succ n => exact ih (semInc s).2 (by omega)

/- A permit is there if it was or if it is posted. -/
theorem value_semPosts_pos_iff (n : Nat) (s : Sem) :
    0 < (semPosts n s).value ↔ 0 < s.value ∨ 0 < n := by
  constructor
  · intro hValue
    cases n with
    | zero => exact .inl hValue
    | succ n => exact .inr (Nat.succ_pos n)
  · intro hEither
    cases n with
    | zero =>
      rcases hEither with hValue | hZero
      · exact hValue
      · cases hZero
    | succ n => exact value_semPosts_pos s (Nat.succ_pos n)

@[simp] theorem semDec_fst (s : Sem) : (semDec s).1 = s.value := by
  unfold semDec
  split <;> rfl

@[simp] theorem semTrydec_fst (s : Sem) : (semTrydec s).1 = s.value := by
  unfold semTrydec
  split <;> rfl

/- The wait goes on behind such a round. -/
def GoesOn (deadline : Timespec) (r : Round) : Prop :=
  ¬ Expired deadline r.clock ∧ r.posts = 0 ∧ (r.wake = .woken ∨ r.wake = .wouldBlock)

/-
  A permit comes in a round that begins before the deadline, and the rounds in front of it neither
  time out nor are interrupted.
-/
def RoundsAcquire (deadline : Timespec) (rounds : List Round) : Prop :=
  ∃ front r rest, rounds = front ++ r :: rest ∧ (∀ p ∈ front, GoesOn deadline p) ∧
      ¬ Expired deadline r.clock ∧ 0 < r.posts

/- The first round decides or is passed over. -/
theorem roundsAcquire_cons {deadline : Timespec} {r : Round} {rounds : List Round} :
    RoundsAcquire deadline (r :: rounds) ↔ (¬ Expired deadline r.clock ∧ 0 < r.posts) ∨
      (GoesOn deadline r ∧ RoundsAcquire deadline rounds) := by
  constructor
  · rintro ⟨front, r', rest, hSplit, hFront, hTime, hPosts⟩
    cases front with
    | nil =>
      cases hSplit
      exact .inl ⟨hTime, hPosts⟩
    | cons p front =>
      cases hSplit
      refine .inr ⟨hFront r (by simp), ?_⟩
      refine ⟨front, r', rest, rfl, ?_, hTime, hPosts⟩
      intro p hp
      exact hFront p (by simp [hp])
  · rintro (⟨hTime, hPosts⟩ | ⟨hGoesOn, hRest⟩)
    · exact ⟨[], r, rounds, rfl, by simp, hTime, hPosts⟩
    · rcases hRest with ⟨front, r', rest, rfl, hFront, hTime, hPosts⟩
      refine ⟨r :: front, r', rest, rfl, ?_, hTime, hPosts⟩
      intro p hp
      rcases List.mem_cons.mp hp with rfl | hTail
      · exact hGoesOn
      · exact hFront p hTail

/- The loop returns 0 if a permit comes in time. -/
theorem waitRounds_eq_none (deadline : Timespec)
    (rounds : List Round) {s : Sem} (hNone : s.value ≤ 0) :
    (waitRounds deadline rounds s).1 = none ↔ RoundsAcquire deadline rounds := by
  induction rounds generalizing s with
  | nil => simp [waitRounds, RoundsAcquire]
  | cons r rounds ih =>
    rw [roundsAcquire_cons]
    unfold waitRounds
    by_cases hExpired : Expired deadline r.clock
    · simp [hExpired, GoesOn]
    · have hValue := value_semPosts_pos_iff r.posts s
      by_cases hPosts : 0 < r.posts
      · have hPermit := hValue.mpr (.inr hPosts)
        simp [hExpired, hPosts, hPermit]
      · have hZero : r.posts = 0 := by omega
        have hLeft : (semDec s).2.value ≤ 0 := by
          unfold semDec Sem.decrement
          split <;> grind
        have hNot : ¬ 0 < s.value := by omega
        simp only [hExpired, if_false, hZero, semPosts, semDec_fst, hNot, GoesOn]
        cases hWake : r.wake with
        | woken | wouldBlock => simp [ih hLeft]
        | timedOut | interrupted => simp

variable (deadline : Timespec) (posts : Nat) (rounds : List Round) (s : Sem)

/- When `sem_timedwait` returns 0. -/
theorem semTimedwait_eq_none :
    (semTimedwait deadline posts rounds s).1 = none ↔ (0 < s.value ∨ 0 < posts) ∨ (deadline.Valid ∧
      RoundsAcquire deadline rounds) := by
  rw [← value_semPosts_pos_iff]
  unfold semTimedwait
  by_cases hPermit : 0 < (semPosts posts s).value
  · simp [hPermit]
  · have hNone : (semTrydec (semPosts posts s)).2.value ≤ 0 := by
      rw [semTrydec, dif_neg hPermit]
      exact Int.not_lt.mp hPermit
    simp only [semTrydec_fst, hPermit, if_false, false_or]
    by_cases hValid : deadline.Valid
    · simp only [hValid, if_true, true_and]
      exact waitRounds_eq_none deadline rounds hNone
    · simp [hValid]

/- `sem_timedwait` never sets `errno` to `ETIME`. -/
theorem semTimedwait_ne_etime : (semTimedwait deadline posts rounds s).1 ≠ some .etime := by
  have hRounds : ∀ t : Sem, (waitRounds deadline rounds t).1 ≠ some .etime := by
    induction rounds with
    | nil =>
      simp [waitRounds]
    | cons r rounds ih =>
      intro t
      unfold waitRounds
      split
      next => simp
      next =>
        simp only
        split
        next => simp
        next =>
          cases r.wake with
          | woken | wouldBlock => exact ih _
          | timedOut | interrupted => simp
  unfold semTimedwait
  simp only
  split
  next => simp
  next =>
    split
    next => exact hRounds _
    next => simp

end OpenIvi.Bionic

------
-- The Word Of A Semaphore
------

namespace OpenIvi.Bionic.Steps

open Function

abbrev Word := BitVec 32

def semcountSharedMask : Word := 0x00000001

def semcountValueMask : Word := 0xfffffffe

def semcountFromValue (val : Word) : Word :=
  (val <<< 1) &&& semcountValueMask

/- `SEMCOUNT_TO_VALUE`, with an arithmetic shift. -/
def semcountToValue (sval : Word) : Int :=
  (sval.sshiftRight 1).toInt

def semcountOne : Word := semcountFromValue 1

def semcountMinusOne : Word := semcountFromValue (-1)

def semcountDecrement (sval : Word) : Word :=
  (sval - (1 <<< 1)) &&& semcountValueMask

def semcountIncrement (sval : Word) : Word :=
  (sval + (1 <<< 1)) &&& semcountValueMask

/- `sem_init`, or `none` if the value is too large. -/
def semInit (pshared : Int) (value : Word) : Option Word :=
  if semMaxValue < value.toNat then none
  else if pshared ≠ 0 then
    some (semcountFromValue value ||| semcountSharedMask)
  else
    some (semcountFromValue value)

------
-- Threads
------

structure Timespec where
  sec : Int
  nsec : Int
deriving DecidableEq, Repr

/- The timeout is one that Posix allows. -/
def Timespec.valid (abs : Timespec) : Bool :=
  !(decide (abs.sec < 0) || decide (abs.nsec < 0) || decide (1000000000 ≤ abs.nsec))

/- The time that is left. -/
def Timespec.left (abs now : Timespec) : Timespec :=
  let sec := abs.sec - now.sec
  let nsec := abs.nsec - now.nsec
  if nsec < 0 then ⟨sec - 1, nsec + 1000000000⟩
  else ⟨sec, nsec⟩

def Timespec.expired (ts : Timespec) : Bool :=
  decide (ts.sec < 0) || decide (ts.nsec < 0)

/-
  Where `__sem_dec`, `__sem_trydec` and `__sem_inc` are called, with the variables of the caller.
-/
inductive Call where
| wait (shared : Word)
| trywait
| timedTry (abs : Option Timespec)
| timed (abs : Timespec) (shared : Word)
| post (shared : Word)

inductive FutexResult where
| woken
| wouldBlock
| timedOut
| interrupted
deriving DecidableEq, Repr

/- What a thread does next. -/
inductive Pc where
| idle
| waitEntry
| timedEntry (abs : Timespec)
| postEntry
| shared (call : Call)
| load (call : Call) (shared : Word)
| cas (call : Call) (shared old : Word)
| ret (call : Call) (old : Int)
| clock (abs : Timespec) (shared : Word)
| futexWait (call : Call) (shared : Word)
| asleep (call : Call) (shared : Word)
| awake (call : Call) (shared : Word)
    (result : FutexResult)
| futexWake (shared : Word)

/- What the thread, the clock or the kernel decides. -/
inductive Input where
| go
| semWait
| semTrywait
| semTimedwait (abs : Option Timespec)
| semPost
| now (ts : Timespec)
| signal
| timeout
| spurious
deriving DecidableEq

/- The loop is left for the old value. -/
def Call.breaks (call : Call) (ret : Int) : Bool :=
  match call with
  | .wait _ | .timed _ _ => decide (ret < 0)
  | .trywait | .timedTry _ => decide (ret ≤ 0)
  | .post _ => decide (ret = semMaxValue)

/- `new` for the old value. -/
def Call.next (call : Call) (old : Word) : Word :=
  match call with
  | .post _ =>
    if semcountToValue old < 0 then semcountOne
    else semcountIncrement old
  | _ => semcountDecrement old

/- How a thread goes on when the old value is known. -/
def Call.returned (call : Call) (ret : Int) : Pc :=
  match call with
  | .wait shared => if 0 < ret then .idle else .futexWait call shared
  | .trywait => .idle
  | .timedTry abs =>
    if 0 < ret then .idle
    else
      match abs with
      | none => .idle
      | some abs => if abs.valid then .timedEntry abs else .idle
  | .timed _ shared => if 0 < ret then .idle else .futexWait call shared
  | .post shared => if ret < 0 then .futexWake shared else .idle

/- How a thread goes on after `__futex_wait_ex`. -/
def Call.resumed (call : Call) (result : FutexResult) : Pc :=
  match call with
  | .timed abs shared =>
    if result = .timedOut ∨ result = .interrupted then
      .idle
    else .clock abs shared
  | _ => .shared call

/- The first step of an operation. -/
def start : Input → Pc
| .semWait => .waitEntry
| .semTrywait => .shared .trywait
| .semTimedwait abs => .shared (.timedTry abs)
| .semPost => .postEntry
| _ => .idle

/- A sleeping thread may be woken by other things. -/
def interrupt (call : Call) (shared : Word) : Input → Pc
| .signal => .awake call shared .interrupted
| .spurious => .awake call shared .woken
| .timeout =>
  match call with
  | .timed _ _ => .awake call shared .timedOut
  | _ => .asleep call shared
| _ => .asleep call shared

/- `__futex_wake_ex` wakes the waiters of the same kind. -/
def Pc.wake (shared : Word) : Pc → Pc
| .asleep call mine =>
  if mine = shared then .awake call mine .woken
  else .asleep call mine
| pc => pc

------
-- Steps
------

section

/- A semaphore and the threads that use it. -/
structure Machine (ι : Type) where
  count : Word
  pc : ι → Pc
  increments : Nat
  decrements : Nat

variable {ι : Type} [DecidableEq ι]

def Machine.initial (count : Word) : Machine ι where
  count := count
  pc := fun _ => .idle
  increments := 0
  decrements := 0

section

variable (s : Machine ι)

def Machine.value : Int :=
  semcountToValue s.count

def Machine.goto (i : ι) (pc : Pc) : Machine ι :=
  { s with pc := Function.update s.pc i pc }

/- A compare-and-swap that found the old value. -/
def Machine.swapped (call : Call) (shared old : Word) : Machine ι :=
  match call with
  | .post _ =>
    { s with count := call.next old ||| shared, increments := s.increments + 1 }
  | _ =>
    { s with
      count := call.next old ||| shared
      decrements := s.decrements +
        if 0 < semcountToValue old then 1 else 0 }

/- `__atomic_cmpxchg`, which is tried again if it fails. -/
def Machine.cmpxchg (i : ι) (call : Call) (shared old : Word) : Machine ι :=
  if s.count = old ||| shared then
    (s.swapped call shared old).goto i (.ret call (semcountToValue old))
  else
    s.goto i (.load call shared)

/- One atomic step of the thread `i`, which is at `pc`. -/
def Machine.advance (i : ι) (input : Input) : Pc → Machine ι
| .idle => s.goto i (start input)
| .waitEntry =>
  s.goto i (.shared (.wait (s.count &&& semcountSharedMask)))
| .timedEntry abs =>
  s.goto i (.clock abs (s.count &&& semcountSharedMask))
| .postEntry =>
  s.goto i (.shared (.post (s.count &&& semcountSharedMask)))
| .shared call =>
  s.goto i (.load call (s.count &&& semcountSharedMask))
| .load call shared =>
  let old := s.count &&& semcountValueMask
  let ret := semcountToValue old
  if call.breaks ret then s.goto i (.ret call ret)
  else s.goto i (.cas call shared old)
| .cas call shared old => s.cmpxchg i call shared old
| .ret call ret => s.goto i (call.returned ret)
| .clock abs shared =>
  match input with
  | .now ts =>
    if (abs.left ts).expired then s.goto i .idle
    else s.goto i (.shared (.timed abs shared))
  | _ => s
| .futexWait call shared =>
  if s.count = shared ||| semcountMinusOne then
    s.goto i (.asleep call shared)
  else s.goto i (.awake call shared .wouldBlock)
| .asleep call shared =>
  s.goto i (interrupt call shared input)
| .awake call _ result => s.goto i (call.resumed result)
| .futexWake shared =>
  { s with pc := fun j => (s.pc j).wake shared }.goto i .idle

/- The thread `i` takes a step. -/
def step (move : ι × Input) : Machine ι :=
  s.advance move.1 move.2 (s.pc move.1)

/- Any interleaving of steps. -/
def runSteps (moves : List (ι × Input)) : Machine ι :=
  moves.foldl step s

end

/- The thread sleeps in the futex. -/
def Pc.sleeping : Pc → Bool
| .asleep _ _ => true
| _ => false

/- A poster took the counter off -1 and has yet to wake. -/
def Pc.owesWake : Pc → Bool
| .ret (.post _) old => decide (old < 0)
| .futexWake _ => true
| _ => false

end

------
-- Counters In Words
------

variable {sem : Sem}

/- The flag alone, as `SEM_GET_SHARED` reads it. -/
def flagWord (flag : Bool) : Word :=
  (0#31).concat flag

variable (c : BitVec 31) (flag : Bool)

theorem toValue_concat : semcountToValue (c.concat flag) = c.toInt := by
  unfold semcountToValue
  rw [BitVec.toInt_sshiftRight, BitVec.toInt_eq_toNat_bmod, BitVec.toNat_concat,
    BitVec.toInt_eq_toNat_bmod, Int.shiftRight_eq_div_pow]
  cases flag with
  | false =>
    simp only [Bool.toNat_false, Int.bmod]
    omega
  | true =>
    simp only [Bool.toNat_true, Int.bmod]
    omega

theorem concat_and_sharedMask : c.concat flag &&& semcountSharedMask = flagWord flag := by
  have hMask : semcountSharedMask = (0#31).concat true := by decide
  rw [hMask, BitVec.concat_and_concat, BitVec.and_zero, Bool.and_true]
  rfl

theorem concat_and_valueMask : c.concat flag &&& semcountValueMask = c.concat false := by
  have hMask : semcountValueMask = (BitVec.allOnes 31).concat false := by decide
  rw [hMask, BitVec.concat_and_concat, BitVec.and_allOnes, Bool.and_false]

theorem concat_or_flagWord : c.concat false ||| flagWord flag = c.concat flag := by
  unfold flagWord
  rw [BitVec.concat_or_concat, BitVec.or_zero, Bool.false_or]

theorem concat_injective {c d : BitVec 31} {flag : Bool}
    (hEq : c.concat flag = d.concat flag) : c = d := by
  have hInt := congrArg semcountToValue hEq
  rw [toValue_concat, toValue_concat] at hInt
  exact BitVec.eq_of_toInt_eq hInt

theorem decrement_concat (c : BitVec 31) :
    semcountDecrement (c.concat false) = (c - 1#31).concat false := by
  have hSub : c.concat false - (1 <<< 1) = (c - 1#31).concat false := by
    apply BitVec.eq_of_toNat_eq
    simp [BitVec.toNat_sub, BitVec.toNat_concat]
    omega
  unfold semcountDecrement
  rw [hSub, concat_and_valueMask]

theorem increment_concat (c : BitVec 31) :
    semcountIncrement (c.concat false) = (c + 1#31).concat false := by
  have hAdd : c.concat false + (1 <<< 1) = (c + 1#31).concat false := by
    apply BitVec.eq_of_toNat_eq
    simp [BitVec.toNat_add, BitVec.toNat_concat]
    omega
  unfold semcountIncrement
  rw [hAdd, concat_and_valueMask]

theorem semcountOne_eq : semcountOne = (1#31).concat false := by
  decide

theorem toInt_sub_one {c : BitVec 31} (hCount : 0 ≤ c.toInt) : (c - 1#31).toInt = c.toInt - 1 := by
  have hLt := BitVec.toInt_lt (x := c)
  rw [BitVec.toInt_sub]
  have hOne : (1#31).toInt = 1 := by decide
  apply Int.bmod_eq_of_le <;> omega

theorem toInt_add_one {c : BitVec 31} (hCount : 0 ≤ c.toInt)
    (hRoom : c.toInt ≠ semMaxValue) : (c + 1#31).toInt = c.toInt + 1 := by
  have hLt := BitVec.toInt_lt (x := c)
  simp only [semMaxValue] at hRoom
  rw [BitVec.toInt_add]
  have hOne : (1#31).toInt = 1 := by decide
  apply Int.bmod_eq_of_le <;> omega

------
-- The Invariant
------

section

variable {ι : Type}

/- The variables of the caller. -/
def Call.Fits (flag : Bool) : Call → Prop
| .wait shared | .timed _ shared | .post shared =>
  shared = flagWord flag
| .trywait | .timedTry _ => True

/-
  The variables of a thread: its flag is that of the semaphore, and an old value it is about to swap
  is one for which the loop goes on.
-/
def Pc.Fits (flag : Bool) : Pc → Prop
| .idle | .waitEntry | .timedEntry _ | .postEntry => True
| .shared call | .ret call _ => call.Fits flag
| .load call sh | .futexWait call sh
| .asleep call sh | .awake call sh _ =>
  call.Fits flag ∧ sh = flagWord flag
| .cas call sh old =>
  call.Fits flag ∧ sh = flagWord flag ∧
    ∃ c : BitVec 31, old = c.concat false ∧ call.breaks c.toInt = false
| .clock _ sh | .futexWake sh =>
  sh = flagWord flag

/- The counter holds the permits that are left. -/
structure Balanced (flag : Bool) (n : Nat) (s : Machine ι) (c : BitVec 31) : Prop where
  word : s.count = c.concat flag
  atLeast : -1 ≤ c.toInt
  permits : max c.toInt 0 = n + s.increments - s.decrements

structure Inv (flag : Bool) (n : Nat) (s : Machine ι) : Prop where
  balanced : ∃ c, Balanced flag n s c
  fits : ∀ i, (s.pc i).Fits flag
  wakes : ∀ i, (s.pc i).sleeping = true → s.value = -1 ∨ ∃ j, (s.pc j).owesWake = true

variable {flag : Bool} {n : Nat} {s : Machine ι} {i : ι} {c c' : BitVec 31} {pc : Pc} {call : Call}

theorem Balanced.value_eq (hBalanced : Balanced flag n s c) : s.value = c.toInt := by
  unfold Machine.value
  rw [hBalanced.word, toValue_concat]

theorem Inv.shared_eq (hInv : Inv flag n s) : s.count &&& semcountSharedMask = flagWord flag := by
  rcases hInv.balanced with ⟨c, hBalanced⟩
  rw [hBalanced.word, concat_and_sharedMask]

/- `__sem_dec` and `__sem_trydec` take a permit or mark. -/
theorem Balanced.decrement (hBalanced : Balanced flag n s c) (hCount : 0 ≤ c.toInt) :
    Balanced flag n
      { s with
        count := semcountDecrement (c.concat false) ||| flagWord flag
        decrements := s.decrements + if 0 < semcountToValue (c.concat false) then 1
          else 0 }
      (c - 1#31) := by
  have hInt := toInt_sub_one hCount
  have hPermits := hBalanced.permits
  refine ⟨?_, ?_, ?_⟩
  · rw [decrement_concat, concat_or_flagWord]
  · omega
  · rw [toValue_concat, hInt]
    by_cases hPos : 0 < c.toInt
    · simp only [hPos, if_true]
      omega
    · simp only [hPos, if_false]
      omega

/- `__sem_inc` gives one. -/
theorem Balanced.increment (shared : Word) (hBalanced : Balanced flag n s c)
    (hRoom : c.toInt ≠ semMaxValue) :
    ∃ c', Balanced flag n
      { s with
        count := (Call.post shared).next (c.concat false) ||| flagWord flag
        increments := s.increments + 1 }
      c' := by
  have hPermits := hBalanced.permits
  unfold Call.next
  rw [toValue_concat]
  by_cases hNegative : c.toInt < 0
  · have hOne : (1#31).toInt = 1 := by decide
    refine ⟨1#31, ?_, ?_, ?_⟩
    · simp only [hNegative, if_true, semcountOne_eq, concat_or_flagWord]
    · omega
    · simp only [hOne]
      omega
  · have hInt := toInt_add_one (by omega) hRoom
    refine ⟨c + 1#31, ?_, ?_, ?_⟩
    · simp only [hNegative, if_false, increment_concat, concat_or_flagWord]
    · omega
    · simp only [hInt]
      omega

variable [DecidableEq ι]

@[simp] theorem goto_pc_self (pc : Pc) : (s.goto i pc).pc i = pc :=
  update_self ..

theorem goto_pc_of_ne {j : ι} (pc : Pc) (hNe : j ≠ i) : (s.goto i pc).pc j = s.pc j :=
  update_of_ne hNe ..

/-
  A thread moves on and leaves the semaphore alone. It goes to sleep only while the counter is -1,
  and it does not forget a wake that it owes.
-/
theorem Inv.goto (hInv : Inv flag n s) (hFits : pc.Fits flag)
    (hSleep : pc.sleeping = true → (s.pc i).sleeping = true ∨ s.value = -1)
    (hOwes : (s.pc i).owesWake = true → pc.owesWake = true) : Inv flag n (s.goto i pc) := by
  refine ⟨?_, ?_, ?_⟩
  · rcases hInv.balanced with ⟨c, hBalanced⟩
    exact ⟨c, hBalanced.word, hBalanced.atLeast, hBalanced.permits⟩
  · intro j
    by_cases hEq : j = i
    · subst hEq
      rw [goto_pc_self]
      exact hFits
    · rw [goto_pc_of_ne pc hEq]
      exact hInv.fits j
  · intro j hAsleep
    have hOld : s.value = -1 ∨ ∃ k, (s.pc k).owesWake = true := by
      by_cases hEq : j = i
      · subst hEq
        rw [goto_pc_self] at hAsleep
        rcases hSleep hAsleep with hBefore | hMinus
        · exact hInv.wakes j hBefore
        · exact .inl hMinus
      · rw [goto_pc_of_ne pc hEq] at hAsleep
        exact hInv.wakes j hAsleep
    rcases hOld with hMinus | ⟨k, hK⟩
    · exact .inl hMinus
    · refine .inr ⟨k, ?_⟩
      by_cases hEq : k = i
      · subst hEq
        rw [goto_pc_self]
        exact hOwes hK
      · rw [goto_pc_of_ne pc hEq]
        exact hK

theorem Inv.goto_awake (hInv : Inv flag n s) (hFits : pc.Fits flag) (hSleep : pc.sleeping = false)
    (hOwes : (s.pc i).owesWake = false) : Inv flag n (s.goto i pc) := by
  apply hInv.goto hFits
  · intro hTrue
    rw [hSleep] at hTrue
    cases hTrue
  · intro hTrue
    rw [hOwes] at hTrue
    cases hTrue

------
-- Compare-And-Swap
------

/- A swap gives the counter a new value. If it was -1, the thread that swapped it owes a wake. -/
theorem Inv.swap {s' : Machine ι} (hInv : Inv flag n s) (hBalanced : Balanced flag n s c)
    (hBalanced' : Balanced flag n s' c') (hPc : s'.pc = s.pc)
    (hQuiet : (s.pc i).owesWake = false) (hFits : call.Fits flag)
    (hOwes : c.toInt = -1 → (Pc.ret call c.toInt).owesWake = true) :
    Inv flag n (s'.goto i (.ret call c.toInt)) := by
  refine ⟨⟨c', hBalanced'.word, hBalanced'.atLeast, hBalanced'.permits⟩, ?_, ?_⟩
  · intro j
    by_cases hEq : j = i
    · subst hEq
      rw [goto_pc_self]
      exact hFits
    · rw [goto_pc_of_ne _ hEq, hPc]
      exact hInv.fits j
  · intro j hAsleep
    have hNe : j ≠ i := by
      intro hEq
      subst hEq
      rw [goto_pc_self] at hAsleep
      cases hAsleep
    rw [goto_pc_of_ne _ hNe, hPc] at hAsleep
    right
    rcases hInv.wakes j hAsleep with hMinus | ⟨k, hK⟩
    · rw [hBalanced.value_eq] at hMinus
      refine ⟨i, ?_⟩
      rw [goto_pc_self]
      exact hOwes hMinus
    · refine ⟨k, ?_⟩
      have hNe : k ≠ i := by
        intro hEq
        subst hEq
        rw [hQuiet] at hK
        cases hK
      rw [goto_pc_of_ne _ hNe, hPc]
      exact hK

theorem Inv.cmpxchg {shared old : Word} (hInv : Inv flag n s)
    (hPc : s.pc i = .cas call shared old) :
    Inv flag n (s.cmpxchg i call shared old) := by
  have hFits := hInv.fits i
  rw [hPc] at hFits
  rcases hFits with ⟨hCall, hShared, c, hOld, hGoes⟩
  have hQuiet : (s.pc i).owesWake = false := by
    rw [hPc]
    rfl
  subst hShared hOld
  unfold Machine.cmpxchg
  by_cases hFound : s.count = c.concat false ||| flagWord flag
  · rw [if_pos hFound]
    rw [concat_or_flagWord] at hFound
    -- the thread swaps the counter that it read
    rcases hInv.balanced with ⟨d, hBalanced⟩
    have hEq : d = c := concat_injective (hBalanced.word.symm.trans hFound)
    subst hEq
    rw [toValue_concat]
    have hDecrement : 0 ≤ d.toInt → Inv flag n
        (({ s with
            count := semcountDecrement (d.concat false) ||| flagWord flag
            decrements := s.decrements + if 0 < semcountToValue (d.concat false)
              then 1 else 0 } : Machine ι).goto i
          (.ret call d.toInt)) := by
      intro hCount
      apply hInv.swap hBalanced (hBalanced.decrement hCount) rfl hQuiet hCall
      omega
    cases call with
    | post sh =>
      have hRoom : d.toInt ≠ semMaxValue := of_decide_eq_false hGoes
      rcases hBalanced.increment sh hRoom with ⟨c', hBalanced'⟩
      apply hInv.swap hBalanced hBalanced' rfl hQuiet hCall
      intro hMinus
      rw [hMinus]
      rfl
    | wait sh | timed abs sh =>
      have hCount : ¬ d.toInt < 0 := of_decide_eq_false hGoes
      exact hDecrement (by omega)
    | trywait | timedTry abs =>
      have hCount : ¬ d.toInt ≤ 0 := of_decide_eq_false hGoes
      exact hDecrement (by omega)
  · rw [if_neg hFound]
    exact hInv.goto_awake ⟨hCall, rfl⟩ rfl hQuiet

------
-- Every Step Of Every Thread
------

/- What a thread does next is awake and fits. -/
def Pc.Ready (flag : Bool) (pc : Pc) : Prop :=
  pc.Fits flag ∧ pc.sleeping = false

theorem returned_ready (ret : Int) (hFits : call.Fits flag) : (call.returned ret).Ready flag := by
  unfold Call.returned
  cases call with
  | wait shared | timed abs shared =>
    by_cases hPos : 0 < ret
    · simp only [hPos, if_true]
      exact ⟨trivial, rfl⟩
    · simp only [hPos, if_false]
      exact ⟨⟨hFits, hFits⟩, rfl⟩
  | trywait => exact ⟨trivial, rfl⟩
  | timedTry abs =>
    by_cases hPos : 0 < ret
    · simp only [hPos, if_true]
      exact ⟨trivial, rfl⟩
    · simp only [hPos, if_false]
      cases abs with
      | none => exact ⟨trivial, rfl⟩
      | some abs =>
        cases hValid : abs.valid with
        | false =>
          simp only [hValid]
          exact ⟨trivial, rfl⟩
        | true =>
          simp only [hValid, if_true]
          exact ⟨trivial, rfl⟩
  | post shared =>
    by_cases hNegative : ret < 0
    · simp only [hNegative, if_true]
      exact ⟨hFits, rfl⟩
    · simp only [hNegative, if_false]
      exact ⟨trivial, rfl⟩

theorem returned_owesWake {ret : Int} (hOwes : (Pc.ret call ret).owesWake = true) :
    (call.returned ret).owesWake = true := by
  cases call with
  | post shared =>
    have hNegative : ret < 0 := of_decide_eq_true hOwes
    simp only [Call.returned, hNegative, if_true]
    rfl
  | _ => cases hOwes

theorem resumed_ready (result : FutexResult) (hFits : call.Fits flag) :
    (call.resumed result).Ready flag := by
  unfold Call.resumed
  cases call with
  | timed abs shared =>
    by_cases hGone : result = .timedOut ∨ result = .interrupted
    · simp only [hGone, if_true]
      exact ⟨trivial, rfl⟩
    · simp only [hGone, if_false]
      exact ⟨hFits, rfl⟩
  | _ => exact ⟨hFits, rfl⟩

theorem wake_fits (hFits : pc.Fits flag) : (pc.wake (flagWord flag)).Ready flag := by
  cases pc with
  | asleep call shared =>
    simp only [Pc.wake, hFits.2, if_true]
    exact ⟨⟨hFits.1, rfl⟩, rfl⟩
  | _ => exact ⟨hFits, rfl⟩

theorem Inv.futexWake (hInv : Inv flag n s) :
    Inv flag n ({ s with pc := fun j => (s.pc j).wake (flagWord flag) }.goto i .idle) := by
  have hAwake : ∀ j, (({ s with pc := fun j => (s.pc j).wake (flagWord flag) } : Machine ι).goto
      i .idle).pc j |>.Ready flag := by
    intro j
    by_cases hEq : j = i
    · subst hEq
      rw [goto_pc_self]
      exact ⟨trivial, rfl⟩
    · rw [goto_pc_of_ne _ hEq]
      exact wake_fits (hInv.fits j)
  refine ⟨?_, fun j => (hAwake j).1, ?_⟩
  · rcases hInv.balanced with ⟨c, hBalanced⟩
    exact ⟨c, hBalanced.word, hBalanced.atLeast, hBalanced.permits⟩
  · intro j hAsleep
    rw [(hAwake j).2] at hAsleep
    cases hAsleep

theorem Inv.advance (hInv : Inv flag n s) (input : Input) (hPc : s.pc i = pc) :
    Inv flag n (s.advance i input pc) := by
  have hFits := hInv.fits i
  have hGo : ∀ {next : Pc}, pc.owesWake = false → next.Ready flag → Inv flag n (s.goto i next) := by
    intro next hQuiet hReady
    rw [← hPc] at hQuiet
    exact hInv.goto_awake hReady.1 hReady.2 hQuiet
  rw [hPc] at hFits
  cases pc with
  | idle => exact hGo rfl (by cases input <;> exact ⟨trivial, rfl⟩)
  | waitEntry | timedEntry abs | postEntry => exact hGo rfl (And.intro hInv.shared_eq rfl)
  | shared call => exact hGo rfl (And.intro (And.intro hFits hInv.shared_eq) rfl)
  | load call shared =>
    rcases hInv.balanced with ⟨c, hBalanced⟩
    simp only [Machine.advance, hBalanced.word, concat_and_valueMask, toValue_concat]
    cases hBreaks : call.breaks c.toInt with
    | true => exact hGo rfl ⟨hFits.1, rfl⟩
    | false => exact hGo rfl ⟨⟨hFits.1, hFits.2, c, rfl, hBreaks⟩, rfl⟩
  | cas call shared old => exact hInv.cmpxchg hPc
  | ret call ret =>
    have hReady := returned_ready ret hFits
    apply hInv.goto hReady.1
    · intro hAsleep
      rw [hReady.2] at hAsleep
      cases hAsleep
    · rw [hPc]
      exact returned_owesWake
  | clock abs shared =>
    cases input with
    | now ts =>
      simp only [Machine.advance]
      cases hExpired : (abs.left ts).expired with
      | true => exact hGo rfl ⟨trivial, rfl⟩
      | false => exact hGo rfl ⟨hFits, rfl⟩
    | _ => exact hInv
  | futexWait call shared =>
    by_cases hSame : s.count = shared ||| semcountMinusOne
    · simp only [Machine.advance, if_pos hSame]
      have hAsleep : (Pc.asleep call shared).Fits flag := hFits
      apply hInv.goto hAsleep
      · intro _
        right
        have hMinus : semcountMinusOne = (-1#31).concat false := by decide
        rw [hFits.2, BitVec.or_comm, hMinus, concat_or_flagWord] at hSame
        have hCount := congrArg semcountToValue hSame
        rw [toValue_concat] at hCount
        exact hCount.trans (by decide)
      · intro hOwes
        rw [hPc] at hOwes
        cases hOwes
    · simp only [Machine.advance, if_neg hSame]
      exact hGo rfl ⟨hFits, rfl⟩
  | asleep call shared =>
    have hNext : (interrupt call shared input).Fits flag := by
      cases input with
      | timeout => cases call <;> exact hFits
      | _ => exact hFits
    apply hInv.goto hNext
    · intro _
      left
      rw [hPc]
      rfl
    · intro hOwes
      rw [hPc] at hOwes
      cases hOwes
  | awake call shared result => exact hGo rfl (resumed_ready result hFits.1)
  | futexWake shared =>
    have hShared : shared = flagWord flag := hFits
    subst hShared
    exact hInv.futexWake

theorem runSteps_inv (hInv : Inv flag n s) (moves : List (ι × Input)) :
    Inv flag n (runSteps s moves) := by
  induction moves generalizing s with
  | nil => exact hInv
  | cons move moves ih => exact ih (hInv.advance move.2 rfl)

------
-- The Loops As One Step
------

/- The function that is called, as one step. -/
def Call.atomic : Call → Sem → Int × Sem
| .wait _ | .timed _ _ => semDec
| .trywait | .timedTry _ => semTrydec
| .post _ => semInc

theorem atomic_breaks (hBreaks : call.breaks sem.value = true) :
    call.atomic sem = (sem.value, sem) := by
  cases call with
  | wait shared | timed abs shared =>
    have hNegative : sem.value < 0 := of_decide_eq_true hBreaks
    exact dif_neg (by omega)
  | trywait | timedTry abs =>
    have hNone : sem.value ≤ 0 := of_decide_eq_true hBreaks
    exact dif_neg (by omega)
  | post shared => exact dif_pos (of_decide_eq_true hBreaks)

/- Elsewhere it has the value that is swapped in. -/
theorem atomic_next (hSem : sem.value = c.toInt) (hGoes : call.breaks c.toInt = false) :
    (call.atomic sem).1 = c.toInt ∧ ∃ c' : BitVec 31, call.next (c.concat false) = c'.concat false ∧
      (call.atomic sem).2.value = c'.toInt := by
  have hDecrement : ∀ hCount : 0 ≤ sem.value, ∃ c' : BitVec 31,
      semcountDecrement (c.concat false) = c'.concat false ∧
        (sem.decrement hCount).value = c'.toInt := by
    intro hCount
    rw [hSem] at hCount
    refine ⟨c - 1#31, decrement_concat c, ?_⟩
    rw [toInt_sub_one hCount, ← hSem]
    rfl
  cases call with
  | wait shared | timed abs shared =>
    have hCount : ¬ c.toInt < 0 := of_decide_eq_false hGoes
    have hDec : semDec sem = (sem.value, sem.decrement (by omega)) := dif_pos (by omega)
    simp only [Call.atomic, hDec]
    exact ⟨hSem, hDecrement (by omega)⟩
  | trywait | timedTry abs =>
    have hCount : ¬ c.toInt ≤ 0 := of_decide_eq_false hGoes
    have hDec : semTrydec sem = (sem.value, sem.decrement (by omega)) := dif_pos (by omega)
    simp only [Call.atomic, hDec]
    exact ⟨hSem, hDecrement (by omega)⟩
  | post shared =>
    have hRoom : c.toInt ≠ semMaxValue := of_decide_eq_false hGoes
    have hRoom' : sem.value ≠ semMaxValue := by
      rw [hSem]
      exact hRoom
    have hInc : semInc sem = (sem.value, sem.increment hRoom') := dif_neg hRoom'
    simp only [Call.atomic, hInc, Call.next, toValue_concat, Sem.increment, hSem, true_and]
    by_cases hNegative : c.toInt < 0
    · simp only [hNegative, if_true]
      exact ⟨1#31, semcountOne_eq, by decide⟩
    · simp only [hNegative, if_false]
      exact ⟨c + 1#31, increment_concat c, (toInt_add_one (by omega) hRoom).symm⟩

/- The call whose loop the next step of the thread leaves, with the value that it returns. -/
def Machine.leaves (s : Machine ι) (i : ι) : Option (Call × Int) :=
  match s.pc i with
  | .load call _ =>
    let ret := semcountToValue (s.count &&& semcountValueMask)
    if call.breaks ret then some (call, ret) else none
  | .cas call shared old =>
    if s.count = old ||| shared then some (call, semcountToValue old) else none
  | _ => none

/-
  At the step with which a thread leaves the loop of `__sem_dec`, `__sem_trydec` or `__sem_inc`, the
  semaphore changes as the whole function does in one step. Other steps do not change it.
-/
theorem Inv.linearizes (hInv : Inv flag n s) (input : Input) (hSem : sem.value = s.value) :
    match s.leaves i with
    | none => (step s (i, input)).value = s.value
    | some (call, old) => (step s (i, input)).pc i = .ret call old ∧
        (call.atomic sem).1 = old ∧ (call.atomic sem).2.value = (step s (i, input)).value := by
  have hFits := hInv.fits i
  rcases hInv.balanced with ⟨c, hBalanced⟩
  have hCount : sem.value = c.toInt := hSem.trans hBalanced.value_eq
  simp only [step, Machine.leaves]
  cases hPc : s.pc i with
  | load call shared =>
    simp only [Machine.advance, hBalanced.word, concat_and_valueMask, toValue_concat]
    cases hBreaks : call.breaks c.toInt with
    | true =>
      rw [← hCount] at hBreaks
      simp only [if_true, goto_pc_self, atomic_breaks hBreaks]
      exact ⟨trivial, hCount, hSem⟩
    | false => rfl
  | cas call shared word =>
    rw [hPc] at hFits
    rcases hFits with ⟨hCall, hShared, d, hWord, hGoes⟩
    subst hShared hWord
    simp only [Machine.advance, Machine.cmpxchg]
    by_cases hFound : s.count = d.concat false ||| flagWord flag
    · simp only [if_pos hFound, goto_pc_self, toValue_concat]
      rw [concat_or_flagWord, hBalanced.word] at hFound
      have hEq : c = d := concat_injective hFound
      subst hEq
      rcases atomic_next hCount hGoes with ⟨hFirst, c', hNext, hValue⟩
      refine ⟨trivial, hFirst, hValue.trans ?_⟩
      have hSwapped : (s.swapped call (flagWord flag) (c.concat false)).count =
          call.next (c.concat false) ||| flagWord flag := by
        cases call <;> rfl
      unfold Machine.value Machine.goto
      rw [hSwapped, hNext, concat_or_flagWord, toValue_concat]
    · simp only [if_neg hFound]
      rfl
  | futexWait call shared =>
    simp only [Machine.advance]
    split <;> rfl
  | clock abs shared =>
    simp only [Machine.advance]
    split
    · split <;> rfl
    · rfl
  | _ => rfl

/- What the loops return, in the order in which they are left. -/
def Machine.returns (s : Machine ι) : List (ι × Input) → List (Call × Int)
| [] => []
| move :: moves => (s.leaves move.1).toList ++ (step s move).returns moves

/- The functions are called one after the other, each in one step. -/
def Sequential : Sem → List (Call × Int) → Sem → Prop
| sem, [], last => sem = last
| sem, (call, old) :: rest, last =>
  (call.atomic sem).1 = old ∧ Sequential (call.atomic sem).2 rest last

theorem Inv.sequential (hInv : Inv flag n s) (moves : List (ι × Input))
    (hSem : sem.value = s.value) :
    ∃ last : Sem, last.value = (runSteps s moves).value ∧
      Sequential sem (s.returns moves) last := by
  induction moves generalizing s sem with
  | nil => exact ⟨sem, hSem, rfl⟩
  | cons move moves ih =>
    have hStep := hInv.linearizes (i := move.1) move.2 hSem
    rw [Machine.returns]
    cases hLeaves : s.leaves move.1 with
    | none =>
      rw [hLeaves] at hStep
      exact ih (hInv.advance move.2 rfl) (hSem.trans hStep.symm)
    | some p =>
      rw [hLeaves] at hStep
      rcases hStep with ⟨_, hOld, hValue⟩
      rcases ih (hInv.advance move.2 rfl) hValue with ⟨last, hLast, hRest⟩
      exact ⟨last, hLast, hOld, hRest⟩

end

------
-- Whole Runs
------

variable {ι : Type}

theorem fromValue_eq (value : Word) :
    semcountFromValue value = (value.setWidth 31).concat false := by
  have hShift : value <<< 1 = (value.setWidth 31).concat false := by
    apply BitVec.eq_of_toNat_eq
    simp only [BitVec.toNat_shiftLeft, BitVec.toNat_concat, BitVec.toNat_setWidth, Nat.shiftLeft_eq,
      Bool.toNat_false]
    omega
  unfold semcountFromValue
  rw [hShift, concat_and_valueMask]

theorem initial_inv {pshared : Int} {value count : Word}
    (hInit : semInit pshared value = some count) :
    Inv (decide (pshared ≠ 0)) value.toNat (Machine.initial count : Machine ι) := by
  unfold semInit at hInit
  by_cases hLarge : semMaxValue < value.toNat
  · rw [if_pos hLarge] at hInit
    cases hInit
  · rw [if_neg hLarge, fromValue_eq] at hInit
    have hWord : count = (value.setWidth 31).concat (decide (pshared ≠ 0)) := by
      by_cases hShared : pshared ≠ 0
      · have hMask : semcountSharedMask = flagWord true := by decide
        rw [if_pos hShared, hMask, concat_or_flagWord] at hInit
        injection hInit with hCount
        rw [← hCount, decide_eq_true hShared]
      · rw [if_neg hShared] at hInit
        injection hInit with hCount
        rw [← hCount, decide_eq_false hShared]
    have hInt : (value.setWidth 31).toInt = value.toNat := by
      simp only [semMaxValue] at hLarge
      rw [BitVec.toInt_eq_toNat_bmod, BitVec.toNat_setWidth]
      simp only [Int.bmod]
      omega
    refine ⟨⟨value.setWidth 31, hWord, ?_, ?_⟩, ?_, ?_⟩
    · omega
    · simp only [hInt, Machine.initial]
      omega
    · intro i
      exact trivial
    · intro i hAsleep
      cases hAsleep

/-
  Whatever steps the threads take, the counter is at least -1 and holds the permits that were given
  and not taken. While a thread sleeps, the counter is -1 or a poster that took it off -1 is about
  to wake the sleepers.
-/
theorem semaphore_loses_nothing [DecidableEq ι] (pshared : Int)
    (value count : Word) (hInit : semInit pshared value = some count) (moves : List (ι × Input)) :
    let s := runSteps (Machine.initial count) moves
    s.value ≥ -1 ∧ max s.value 0 = value.toNat + s.increments - s.decrements ∧
      ∀ i, (s.pc i).sleeping = true → s.value = -1 ∨ ∃ j, (s.pc j).owesWake = true := by
  have hInv := runSteps_inv (initial_inv hInit) moves
  rcases hInv.balanced with ⟨c, hBalanced⟩
  have hValue := hBalanced.value_eq
  refine ⟨?_, ?_, hInv.wakes⟩
  · rw [hValue]
    exact hBalanced.atLeast
  · rw [hValue]
    exact hBalanced.permits

/- A waiter goes to sleep on a semaphore without permits. -/
theorem semaphore_loses_nothing_asleep :
    let s := runSteps (Machine.initial 0) ([(false, .semWait), (false, .go), (false, .go),
        (false, .go), (false, .go), (false, .go), (false, .go)] : List (Bool × Input))
    semInit 0 0 = some 0 ∧ (s.pc false).sleeping = true ∧ s.value ≥ -1 ∧
      max s.value 0 = (0 : Word).toNat + s.increments - s.decrements ∧
      ∀ i, (s.pc i).sleeping = true → s.value = -1 ∨ ∃ j, (s.pc j).owesWake = true :=
  ⟨by decide, by decide +kernel, semaphore_loses_nothing 0 0 0 (by decide) _⟩

/- Whatever steps the threads take, the loops return what they return one after the other. -/
theorem semaphore_linearizable [DecidableEq ι] (pshared : Int)
    (value count : Word) (hInit : semInit pshared value = some count) (moves : List (ι × Input)) :
    let s : Machine ι := .initial count
    ∃ first last : Sem, first.value = s.value ∧ last.value = (runSteps s moves).value ∧
      Sequential first (s.returns moves) last := by
  have hInv := initial_inv (ι := ι) hInit
  rcases hInv.balanced with ⟨c, hBalanced⟩
  have hLess := BitVec.toInt_lt (x := c)
  have hMost : c.toInt ≤ semMaxValue := by
    unfold semMaxValue
    omega
  have hFirst : Sem.value ⟨c.toInt, hBalanced.atLeast, hMost⟩ = _ := hBalanced.value_eq.symm
  rcases hInv.sequential moves hFirst with ⟨last, hLast, hRuns⟩
  exact ⟨_, last, hFirst, hLast, hRuns⟩

/- A waiter finds no permit and goes to sleep, and a post wakes it. -/
def sleepAndWake : List (Bool × Input) :=
  (true, .semWait) :: List.replicate 6 (true, .go) ++
    (false, .semPost) :: List.replicate 6 (false, .go) ++ List.replicate 5 (true, .go)

theorem semaphore_linearizable_wait :
    semInit 0 0 = some 0 ∧ ∃ first last : Sem, first.value = 0 ∧ last.value = 0 ∧
      Sequential first [(.wait 0, 0), (.post 0, -1), (.wait 0, 1)] last :=
  ⟨by decide, semaphore_linearizable 0 0 0 (by decide) sleepAndWake⟩

end OpenIvi.Bionic.Steps
