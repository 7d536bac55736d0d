import Mathlib.Algebra.Order.BigOperators.Group.List
import Mathlib.Algebra.Order.Group.Nat
import Mathlib.Data.List.FinRange
import Mathlib.Logic.Function.Basic
import OpenIvi.Init.Properties

/-
  The services of init.

  init starts a process for a service, stops it, and learns of its end from `waitpid`. Commands,
  control messages and keychords name the services to start or stop; a service whose process has
  ended is started again after a while.

  A service is one of `n`, in the order of the service list. What the parser stores in a `struct
  service` is apart from what init changes later. The answers of the system calls are those of a
  `World`, numbered in the order of the calls.

  `Processes` is what a state says about processes: those that were not waited for, and the one that
  is stored for each service. A call either leaves it alone or starts a process; a process that has
  ended is taken out.

  `service_start` looks at `SVC_RUNNING` and not at the pid. As `service_stop` clears the flag at
  once, a service that is started again before `waitpid` has seen the end of its process has two.
  Where that does not happen, every service has one process at most.

  `wait_for_one_process` keeps the time of a crash and the number of crashes since. A crash that
  comes too late for this window starts another one, and the crashes before it are forgotten,
  however shortly before they came.

  Main declarations:
    * `State`
    * `Processes`
    * `one_process_iff_starts_reaped`
    * `five_crashes_reboot_iff`
-/

------
-- Services
------

namespace OpenIvi.Init.Services

open Lib List Function

/- A command of the rc file. The builtins that do not start or stop services are all `other`. -/
inductive Command
| classStart (classname : Str)
| classStop (classname : Str)
| start (name : Str)
| stop (name : Str)
| restart (name : Str)
| other

/- The fields of `struct service` that the parser sets. -/
structure Service where
  name : Str
  classname : Str
  /- `SVC_ONESHOT`, `SVC_CONSOLE` and `SVC_CRITICAL`. -/
  oneshot : Bool
  console : Bool
  critical : Bool
  /- The names of the sockets. -/
  sockets : List Str
  onrestart : List Command
  keychordId : Nat
  /- `args[0]`. -/
  program : Str

/- The fields of `struct service` that init changes. -/
structure Status where
  /- `SVC_DISABLED`, `SVC_RUNNING` and `SVC_RESTARTING`. -/
  disabled : Bool
  running : Bool
  restarting : Bool
  pid : Nat
  timeStarted : Int
  timeCrashed : Int
  nrCrashed : Int

/- The argument of `notify_service_state`. -/
inductive ServiceState
| running
| stopping
| stopped
| restarting

inductive Signal
| sigterm
| sigkill

/- What init does that others can see. -/
inductive Output
| kill (group : Nat) (signal : Signal)
| notify (name : Str) (state : ServiceState)
| unlink (socket : Str)
| reboot

/- A process that was forked and not waited for yet. -/
structure Child (n : Nat) where
  pid : Nat
  service : Fin n

/-
  The answers of the system calls. `fork` sees the processes in use and gives a new one, or fails.
-/
structure World where
  gettime : Nat → Int
  stat : Nat → Str → Bool
  fork : Nat → List Nat → Option Nat
  fork_pos : ∀ call used pid, fork call used = some pid → 0 < pid
  fork_fresh : ∀ call used pid, fork call used = some pid → pid ∉ used

structure State (n : Nat) where
  status : Fin n → Status
  children : List (Child n)
  haveConsole : Bool
  propertiesInited : Bool
  processNeedsRestart : Int
  /- The number of system calls with an answer so far. -/
  calls : Nat
  outputs : List Output

namespace State

variable {n : Nat}

/- init when the rc files are parsed. -/
def boot (disabled : Fin n → Bool) : State n where
  status := fun svc =>
    { disabled := disabled svc
      running := false
      restarting := false
      pid := 0
      timeStarted := 0
      timeCrashed := 0
      nrCrashed := 0 }
  children := []
  haveConsole := false
  propertiesInited := false
  processNeedsRestart := 0
  calls := 0
  outputs := []

/- Change one service. -/
def modify (s : State n) (svc : Fin n) (f : Status → Status) : State n :=
  { s with status := Function.update s.status svc (f (s.status svc)) }

/- Set `SVC_DISABLED`. -/
def disable (s : State n) (svc : Fin n) : State n :=
  s.modify svc fun v => { v with disabled := true }

def output (s : State n) (out : List Output) : State n :=
  { s with outputs := s.outputs ++ out }

/- Count a system call. -/
def called (s : State n) : State n :=
  { s with calls := s.calls + 1 }

end State

------
-- Starting And Stopping
------

variable {n : Nat} (svcs : Fin n → Service) (w : World)

section

variable (s : State n)

def notifyServiceState (svc : Fin n) (state : ServiceState) : State n :=
  if (svcs svc).name.length + 10 > propNameMax then s
  else s.output [.notify (svcs svc).name state]

/- What `service_start` does from its `fork` on. -/
def forkService (svc : Fin n) : State n :=
  match w.fork s.calls (s.children.map Child.pid) with
  | none => s.called.modify svc fun v => { v with pid := 0 }
  | some pid =>
    let s := { s.called with children := ⟨pid, svc⟩ :: s.children }
    let now := w.gettime s.calls
    let s := s.called.modify svc fun v =>
      { v with timeStarted := now, pid := pid, running := true }
    if s.propertiesInited then
      notifyServiceState svcs s svc .running
    else s

def serviceStart (svc : Fin n) (dynamicArgs : Option Str) : State n :=
  let s := s.modify svc fun v =>
    { v with disabled := false, restarting := false, timeStarted := 0 }
  if (s.status svc).running then s
  else if (svcs svc).console && !s.haveConsole then
    s.disable svc
  else
    let found := w.stat s.calls (svcs svc).program
    let s := s.called
    if !found then s.disable svc
    else if !(svcs svc).oneshot && dynamicArgs.isSome then
      s.disable svc
    else forkService svcs w s svc

def serviceStop (svc : Fin n) : State n :=
  let s := s.modify svc fun v =>
    { v with running := false, restarting := false, disabled := true }
  if (s.status svc).pid ≠ 0 then
    notifyServiceState svcs (s.output [.kill (s.status svc).pid .sigterm]) svc .stopping
  else
    notifyServiceState svcs s svc .stopped

def serviceStartIfNotDisabled (svc : Fin n) : State n :=
  if !(s.status svc).disabled then
    serviceStart svcs w s svc none
  else s

def restartServiceIfNeeded (svc : Fin n) : State n :=
  let nextStartTime := (s.status svc).timeStarted + 5
  let now := w.gettime s.calls
  let s := s.called
  if nextStartTime ≤ now then
    let s := s.modify svc fun v =>
      { v with restarting := false }
    serviceStart svcs w s svc none
  else if nextStartTime < s.processNeedsRestart ∨ s.processNeedsRestart = 0 then
    { s with processNeedsRestart := nextStartTime }
  else s

------
-- Commands And Messages
------

/- A call that starts or stops one service. -/
inductive Call (n : Nat)
| start (svc : Fin n) (dynamicArgs : Option Str)
| startIfNotDisabled (svc : Fin n)
| stop (svc : Fin n)
| restartIfNeeded (svc : Fin n)

/-
  Make the call. `service_for_each_flags` looks at the flag of a service only when its turn has
  come.
-/
def perform : Call n → State n
| .start svc dynamicArgs =>
  serviceStart svcs w s svc dynamicArgs
| .startIfNotDisabled svc =>
  serviceStartIfNotDisabled svcs w s svc
| .stop svc => serviceStop svcs s svc
| .restartIfNeeded svc =>
  if (s.status svc).restarting then
    restartServiceIfNeeded svcs w s svc
  else s

def performAll (cs : List (Call n)) : State n :=
  cs.foldl (perform svcs w) s

def serviceFindByName (name : Str) : Option (Fin n) :=
  (List.finRange n).find? fun svc => (svcs svc).name == name

def serviceFindByKeychord (keychordId : Nat) : Option (Fin n) :=
  (List.finRange n).find? fun svc => (svcs svc).keychordId == keychordId

def serviceFindByPid (pid : Nat) : Option (Fin n) :=
  (List.finRange n).find? fun svc => (s.status svc).pid == pid

def serviceForEachClass (classname : Str) (func : Fin n → Call n) : List (Call n) :=
  ((List.finRange n).filter fun svc => (svcs svc).classname == classname).map func

/- The calls of `do_class_start`, `do_class_stop`, `do_start`, `do_stop` and `do_restart`. -/
def Command.calls : Command → List (Call n)
| .classStart classname =>
  serviceForEachClass svcs classname .startIfNotDisabled
| .classStop classname =>
  serviceForEachClass svcs classname .stop
| .start name =>
  match serviceFindByName svcs name with
  | some svc => [.start svc none]
  | none => []
| .stop name =>
  match serviceFindByName svcs name with
  | some svc => [.stop svc]
  | none => []
| .restart name =>
  match serviceFindByName svcs name with
  | some svc => [.stop svc, .start svc none]
  | none => []
| .other => []

/- `msg_start`: what follows a colon are arguments. -/
def msgStart (name : Str) : List (Call n) :=
  let colon : UInt8 := 58
  let args := if colon ∈ name then
      some ((name.dropWhile (· != colon)).drop 1)
    else none
  match serviceFindByName svcs (name.takeWhile (· != colon)) with
  | some svc => [.start svc args]
  | none => []

def msgStop (name : Str) : List (Call n) :=
  match serviceFindByName svcs name with
  | some svc => [.stop svc]
  | none => []

def handleControlMessage (msg arg : Str) : List (Call n) :=
  if msg = str "start" then msgStart svcs arg
  else if msg = str "stop" then msgStop svcs arg
  else []

/- `handle_keychord`. It is allowed if `ro.debuggable` is set or adbd is running. -/
def handleKeychord (allowed : Bool) (id : Nat) : List (Call n) :=
  if allowed then
    match serviceFindByKeychord svcs id with
    | some svc => [.start svc none]
    | none => []
  else []

------
-- Processes That End
------

def criticalCrashThreshold : Int := 4

def criticalCrashWindow : Int := 4 * 60

/- What `wait_for_one_process` notes first for the service of the process. -/
def noteExit (svc : Fin n) (pid : Nat) : State n :=
  let s := if !(svcs svc).oneshot then
      s.output [.kill pid .sigkill]
    else s
  let s := s.output ((svcs svc).sockets.map .unlink)
  let s := s.modify svc fun v =>
    { v with pid := 0, running := false }
  if (svcs svc).oneshot then s.disable svc else s

/-
  A service that is not disabled is to be restarted. The result has the service whose commands for a
  restart come next: none does if a critical one has crashed too often.
-/
def noteCrash (svc : Fin n) : State n × Option (Fin n) :=
  let now := w.gettime s.calls
  let s := s.called
  let v := s.status svc
  let restart (s : State n) : State n × Option (Fin n) :=
    (s.modify svc fun v => { v with restarting := true }, some svc)
  if (svcs svc).critical then
    if v.timeCrashed + criticalCrashWindow ≥ now then
      let s := s.modify svc fun v =>
        { v with nrCrashed := v.nrCrashed + 1 }
      if v.nrCrashed + 1 > criticalCrashThreshold then
        (s.output [.reboot], none)
      else restart s
    else
      restart (s.modify svc fun v =>
        { v with timeCrashed := now, nrCrashed := 1 })
  else restart s

/-
  `wait_for_one_process` up to the commands for a restart. The process is 0 if `waitpid` found none.
-/
def reapOne (pid : Nat) : State n × Option (Fin n) :=
  if pid = 0 then (s, none)
  else
    let s := { s with children := s.children.filter fun c => c.pid != pid }
    match serviceFindByPid s pid with
    | none => (s, none)
    | some svc =>
      let s := noteExit svcs s svc pid
      if (s.status svc).disabled then
        (notifyServiceState svcs s svc .stopped, none)
      else noteCrash svcs w s svc

/- The commands for a restart of the service. -/
def onrestartCalls : Option (Fin n) → List (Call n)
| none => []
| some svc =>
  (svcs svc).onrestart.flatMap (Command.calls svcs)

def waitForOneProcess (pid : Nat) : State n :=
  let (s, restarted) := reapOne svcs w s pid
  let s := performAll svcs w s (onrestartCalls svcs restarted)
  match restarted with
  | none => s
  | some svc => notifyServiceState svcs s svc .restarting

------
-- Events
------

/- What the loop of init does next. -/
inductive Event
| consoleInit (opened : Bool)
| propertyInit
| command (command : Command)
| control (msg arg : Str)
| keychord (allowed : Bool) (id : Nat)
| restartProcesses
| waitForOneProcess (pid : Nat)

/- The state in which the calls of the event are made. -/
def before : Event → State n
| .consoleInit opened =>
  if opened then { s with haveConsole := true } else s
| .propertyInit => { s with propertiesInited := true }
| .restartProcesses => { s with processNeedsRestart := 0 }
| .waitForOneProcess pid => (reapOne svcs w s pid).1
| _ => s

/- The calls that the event makes. -/
def calls : Event → List (Call n)
| .consoleInit _ => []
| .propertyInit => []
| .command command => command.calls svcs
| .control msg arg => handleControlMessage svcs msg arg
| .keychord allowed id => handleKeychord svcs allowed id
| .restartProcesses =>
  (List.finRange n).map .restartIfNeeded
| .waitForOneProcess pid =>
  onrestartCalls svcs (reapOne svcs w s pid).2

def handle : Event → State n
| .waitForOneProcess pid => waitForOneProcess svcs w s pid
| event =>
  performAll svcs w (before svcs w s event) (calls svcs w s event)

def step (event : Event) : Except Fault (State n) :=
  .ok (handle svcs w s event)

end

------
-- Tables Of Processes
------

variable {n : Nat} {c : Child n}

structure Processes (n : Nat) where
  children : List (Child n)
  pids : Fin n → Nat

namespace Processes

/- A process for the service, unless none could be made. -/
def start (p : Processes n) (svc : Fin n) : Option Nat → Processes n
| none =>
  { p with pids := update p.pids svc 0 }
| some pid =>
  { children := ⟨pid, svc⟩ :: p.children, pids := update p.pids svc pid }

/- The process has ended. -/
def reap (p : Processes n) (pid : Nat) : Processes n where
  children := p.children.filter fun c => c.pid != pid
  pids := fun svc => if p.pids svc = pid then 0 else p.pids svc

/-
  The processes are those that the services have stored, one for each service that has stored one.
-/
structure Tracked (p : Processes n) : Prop where
  distinct : (p.children.map Child.pid).Nodup
  positive : ∀ c ∈ p.children, 0 < c.pid
  stored : ∀ c ∈ p.children, p.pids c.service = c.pid
  alive : ∀ svc, p.pids svc ≠ 0 → ⟨p.pids svc, svc⟩ ∈ p.children

/- The service of some process has another one stored. -/
structure Lost (p : Processes n) : Prop where
  positive : ∀ c ∈ p.children, 0 < c.pid
  lost : ∃ c ∈ p.children, p.pids c.service ≠ c.pid

/- A pid that a process can have. -/
def Fresh (p : Processes n) (pid : Option Nat) : Prop :=
  ∀ q, pid = some q → 0 < q ∧ q ∉ p.children.map Child.pid

variable {p : Processes n}

variable {svc : Fin n}

theorem Tracked.no_child (hTracked : p.Tracked)
    (hPid : p.pids svc = 0) (hChild : c ∈ p.children) : c.service ≠ svc := by
  intro hService
  have hStored := hTracked.stored c hChild
  have hPositive := hTracked.positive c hChild
  rw [hService, hPid] at hStored
  omega

variable {pid : Option Nat}

theorem Fresh.positive_start (hFresh : p.Fresh pid) (hPositive : ∀ c ∈ p.children, 0 < c.pid) :
    ∀ c ∈ (p.start svc pid).children, 0 < c.pid := by
  intro c hChild
  cases pid with
  | none => exact hPositive c hChild
  | some pid =>
    rcases mem_cons.mp hChild with hEq | hOld
    · rw [hEq]
      exact (hFresh pid rfl).1
    · exact hPositive c hOld

/- The new process is not one of those before. -/
theorem Fresh.start_ne (hFresh : p.Fresh pid)
    (hChild : c ∈ p.children) (hPositive : 0 < c.pid) (hService : c.service = svc) :
    (p.start svc pid).pids c.service ≠ c.pid := by
  rw [hService]
  cases pid with
  | none =>
    simp only [Processes.start, update_self]
    omega
  | some pid =>
    simp only [Processes.start, update_self]
    intro hEq
    apply (hFresh pid rfl).2
    rw [hEq]
    exact mem_map_of_mem hChild

theorem start_pids_of_ne (p : Processes n) {other : Fin n}
    (pid : Option Nat) (hOther : other ≠ svc) : (p.start svc pid).pids other = p.pids other := by
  cases pid with
  | none | some pid => exact update_of_ne hOther ..

theorem mem_start (hChild : c ∈ p.children)
    (svc : Fin n) (pid : Option Nat) : c ∈ (p.start svc pid).children := by
  cases pid with
  | none => exact hChild
  | some pid => exact mem_cons_of_mem _ hChild

/- A service without a process gets one. -/
theorem Tracked.start (hTracked : p.Tracked) (hPid : p.pids svc = 0)
    (hFresh : p.Fresh pid) : (p.start svc pid).Tracked := by
  cases pid with
  | none =>
    have hSame : p.start svc none = p := by
      unfold Processes.start
      rw [← hPid, update_eq_self]
    rw [hSame]
    exact hTracked
  | some pid =>
    constructor
    · exact nodup_cons.mpr ⟨(hFresh pid rfl).2, hTracked.distinct⟩
    · exact hFresh.positive_start hTracked.positive
    · intro c hChild
      rcases mem_cons.mp hChild with hEq | hOld
      · rw [hEq]
        exact update_self ..
      · have hOther := hTracked.no_child hPid hOld
        rw [start_pids_of_ne p _ hOther]
        exact hTracked.stored c hOld
    · intro other hStored
      by_cases hSame : other = svc
      · rw [hSame]
        simp [Processes.start]
      · rw [start_pids_of_ne p _ hSame] at hStored ⊢
        exact mem_start (hTracked.alive other hStored) ..

theorem Tracked.lost_of_start (hTracked : p.Tracked)
    (hPid : p.pids svc ≠ 0) (hFresh : p.Fresh pid) : (p.start svc pid).Lost := by
  have hOld := hTracked.alive svc hPid
  have hPositive := hTracked.positive _ hOld
  constructor
  · exact hFresh.positive_start hTracked.positive
  · exact ⟨_, mem_start hOld svc pid, hFresh.start_ne hOld hPositive rfl⟩

theorem Lost.start (hLost : p.Lost) (hFresh : p.Fresh pid) : (p.start svc pid).Lost := by
  rcases hLost.lost with ⟨c, hChild, hNe⟩
  have hPositive := hLost.positive c hChild
  constructor
  · exact hFresh.positive_start hLost.positive
  · refine ⟨c, mem_start hChild svc pid, ?_⟩
    by_cases hSame : c.service = svc
    · exact hFresh.start_ne hChild hPositive hSame
    · rw [start_pids_of_ne p _ hSame]
      exact hNe

/- A process that has ended is forgotten everywhere. -/
theorem Tracked.reap (hTracked : p.Tracked) (pid : Nat) : (p.reap pid).Tracked := by
  have hMem : ∀ c, c ∈ (p.reap pid).children ↔ c ∈ p.children ∧ c.pid ≠ pid := by
    simp [Processes.reap]
  constructor
  · exact List.Nodup.sublist (filter_sublist.map Child.pid) hTracked.distinct
  · intro c hChild
    exact hTracked.positive c ((hMem c).mp hChild).1
  · intro c hChild
    rcases (hMem c).mp hChild with ⟨hOld, hNe⟩
    have hStored := hTracked.stored c hOld
    have hOther : p.pids c.service ≠ pid := by
      rw [hStored]
      exact hNe
    exact (if_neg hOther).trans hStored
  · intro svc hStored
    by_cases hSame : p.pids svc = pid
    · exact absurd (if_pos hSame) hStored
    · have hKept : (p.reap pid).pids svc = p.pids svc := if_neg hSame
      rw [hKept] at hStored ⊢
      exact (hMem _).mpr ⟨hTracked.alive svc hStored, hSame⟩

end Processes

------
-- Calls That Fork
------

open Lib

variable (svcs : Fin n → Service) (w : World)

/- What the state says about processes. -/
def State.processes (s : State n) : Processes n where
  children := s.children
  pids := fun svc => (s.status svc).pid

/- Whether `service_start` comes to its `fork`. -/
def reachesFork (s : State n) (svc : Fin n) (dynamicArgs : Option Str) : Bool :=
  !(s.status svc).running && !((svcs svc).console && !s.haveConsole) &&
    w.stat s.calls (svcs svc).program &&
    !(!(svcs svc).oneshot && dynamicArgs.isSome)

/- The service for which the call forks. -/
def forksFor (s : State n) : Call n → Option (Fin n)
| .start svc dynamicArgs =>
  if reachesFork svcs w s svc dynamicArgs then some svc
  else none
| .startIfNotDisabled svc =>
  if !(s.status svc).disabled && reachesFork svcs w s svc none then
    some svc
  else none
| .stop _ => none
| .restartIfNeeded svc =>
  if (s.status svc).restarting && (s.status svc).timeStarted + 5 ≤ w.gettime s.calls &&
      reachesFork svcs w s.called svc none then
    some svc
  else none

variable (s : State n) (svc : Fin n)

@[simp]
theorem processes_output (out : List Output) : (s.output out).processes = s.processes :=
  rfl

@[simp]
theorem processes_called : s.called.processes = s.processes :=
  rfl

theorem processes_modify (f : Status → Status) :
    (s.modify svc f).processes =
      { children := s.children
        pids := update s.processes.pids svc (f (s.status svc)).pid } := by
  unfold State.processes State.modify
  congr 1
  funext other
  by_cases hSame : other = svc
  · rw [hSame]
    simp
  · simp [hSame]

theorem processes_modify_same {f : Status → Status} (hPid : ∀ v, (f v).pid = v.pid) :
    (s.modify svc f).processes = s.processes := by
  rw [processes_modify, hPid]
  exact congrArg (Processes.mk s.children) (update_eq_self svc s.processes.pids)

@[simp]
theorem modify_status_self (f : Status → Status) :
    (s.modify svc f).status svc = f (s.status svc) := by
  simp [State.modify]

@[simp]
theorem processes_disable : (s.disable svc).processes = s.processes :=
  processes_modify_same s svc fun _ => rfl

@[simp]
theorem processes_notifyServiceState (state : ServiceState) :
    (notifyServiceState svcs s svc state).processes = s.processes := by
  unfold notifyServiceState
  split <;> rfl

/- `fork` gives a new process to the service. -/
theorem forkService_processes :
    (forkService svcs w s svc).processes = s.processes.start svc
      (w.fork s.calls (s.children.map Child.pid)) := by
  unfold forkService
  cases w.fork s.calls (s.children.map Child.pid) with
  | none =>
    simp only [processes_modify]
    rfl
  | some pid =>
    simp only
    split
    · rw [processes_notifyServiceState, processes_modify]
      rfl
    · rw [processes_modify]
      rfl

/- A call of `service_start` comes to its `fork` or not. -/
theorem serviceStart_processes (dynamicArgs : Option Str) :
    (serviceStart svcs w s svc dynamicArgs).processes = if reachesFork svcs w s svc dynamicArgs then
      s.processes.start svc (w.fork (s.calls + 1) (s.children.map Child.pid))
      else s.processes := by
  unfold serviceStart reachesFork
  -- The fields that are cleared first have no part in it.
  generalize hReady : State.modify s svc _ = t
  have hProcesses : t.processes = s.processes := by
    rw [← hReady]
    exact processes_modify_same s svc fun _ => rfl
  have hRunning : (t.status svc).running = (s.status svc).running := by
    rw [← hReady, modify_status_self]
  have hConsole : t.haveConsole = s.haveConsole := by
    rw [← hReady]
    rfl
  have hCalls : t.calls = s.calls := by
    rw [← hReady]
    rfl
  have hChildren : t.children = s.children := congrArg Processes.children hProcesses
  have hFork : (forkService svcs w t.called svc).processes = s.processes.start svc
      (w.fork (s.calls + 1) (s.children.map Child.pid)) := by
    rw [forkService_processes, processes_called, hProcesses, ← hCalls, ← hChildren]
    rfl
  simp only [hRunning, hConsole, hCalls]
  cases (s.status svc).running with
  | true => exact hProcesses
  | false =>
    cases (svcs svc).console && !s.haveConsole with
    | true => exact (processes_disable t svc).trans hProcesses
    | false =>
      cases w.stat s.calls (svcs svc).program with
      | false => exact (processes_disable t.called svc).trans hProcesses
      | true =>
        cases !(svcs svc).oneshot && dynamicArgs.isSome
        case true => exact (processes_disable t.called svc).trans hProcesses
        case false => exact hFork

theorem restartServiceIfNeeded_processes :
    (restartServiceIfNeeded svcs w s svc).processes =
      if (s.status svc).timeStarted + 5 ≤ w.gettime s.calls &&
        reachesFork svcs w s.called svc none then
        s.processes.start svc (w.fork (s.calls + 2) (s.children.map Child.pid))
      else s.processes := by
  unfold restartServiceIfNeeded
  by_cases hTime : (s.status svc).timeStarted + 5 ≤ w.gettime s.calls
  · simp only [if_pos hTime, decide_eq_true hTime, Bool.true_and, serviceStart_processes]
    generalize hReady : State.modify s.called svc _ = t
    have hProcesses : t.processes = s.processes := by
      rw [← hReady]
      exact processes_modify_same s.called svc fun _ => rfl
    have hCalls : t.calls = s.calls + 1 := by
      rw [← hReady]
      rfl
    have hChildren : t.children = s.children := congrArg Processes.children hProcesses
    have hReaches : reachesFork svcs w t svc none = reachesFork svcs w s.called svc none := by
      rw [← hReady]
      unfold reachesFork
      rw [modify_status_self]
      rfl
    rw [hReaches, hProcesses, hCalls, hChildren]
  · simp only [if_neg hTime, decide_eq_false hTime, Bool.false_and]
    split <;> rfl

/- What a call does to the processes. -/
theorem perform_processes (c : Call n) :
    ∃ call, (perform svcs w s c).processes = match forksFor svcs w s c with
      | none => s.processes
      | some svc =>
        s.processes.start svc (w.fork call (s.children.map Child.pid)) := by
  cases c with
  | start svc dynamicArgs =>
    refine ⟨s.calls + 1, ?_⟩
    simp only [perform, forksFor, serviceStart_processes]
    cases reachesFork svcs w s svc dynamicArgs with
    | true | false => rfl
  | startIfNotDisabled svc =>
    refine ⟨s.calls + 1, ?_⟩
    simp only [perform, forksFor, serviceStartIfNotDisabled]
    cases (s.status svc).disabled with
    | true => rfl
    | false =>
      simp only [Bool.not_false, if_true, Bool.true_and, serviceStart_processes]
      cases reachesFork svcs w s svc none with
      | true | false => rfl
  | stop svc =>
    refine ⟨0, ?_⟩
    simp only [perform, forksFor, serviceStop]
    split
    · rw [processes_notifyServiceState, processes_output]
      exact processes_modify_same s svc fun _ => rfl
    · rw [processes_notifyServiceState]
      exact processes_modify_same s svc fun _ => rfl
  | restartIfNeeded svc =>
    refine ⟨s.calls + 2, ?_⟩
    simp only [perform, forksFor]
    cases (s.status svc).restarting with
    | false => rfl
    | true =>
      simp only [if_true, Bool.true_and, restartServiceIfNeeded_processes]
      split <;> rfl

------
-- Processes That Were Waited For
------

theorem noteExit_processes (pid : Nat) :
    (noteExit svcs s svc pid).processes =
      { children := s.children
        pids := update s.processes.pids svc 0 } := by
  unfold noteExit
  cases (svcs svc).oneshot with
  | true =>
    simp only [if_true, processes_disable]
    exact processes_modify ..
  | false =>
    simp only [Bool.false_eq_true, if_false]
    exact processes_modify ..

@[simp]
theorem noteCrash_processes : (noteCrash svcs w s svc).1.processes = s.processes := by
  unfold noteCrash
  simp only
  split
  · split
    · split
      · simp only [processes_output, processes_modify_same, implies_true, processes_called]
      · simp only [processes_modify_same, implies_true, processes_called]
    · simp only [processes_modify_same, implies_true, processes_called]
  · simp only [processes_modify_same, implies_true, processes_called]

/- A process that was waited for is forgotten. -/
theorem reapOne_processes {s : State n}
    (hTracked : s.processes.Tracked) {pid : Nat} (hPid : pid ≠ 0) :
    (reapOne svcs w s pid).1.processes = s.processes.reap pid := by
  unfold reapOne
  rw [if_neg hPid]
  simp only
  cases hFind : serviceFindByPid _ pid with
  | none =>
    have hOthers : ∀ svc, s.processes.pids svc ≠ pid := by
      intro svc hEq
      have hNot := find?_eq_none.mp hFind svc (mem_finRange svc)
      exact hNot (beq_iff_eq.mpr hEq)
    unfold Processes.reap
    simp only [hOthers, if_false]
    rfl
  | some svc =>
    have hStored : s.processes.pids svc = pid := by
      have hP := find?_some hFind
      exact beq_iff_eq.mp hP
    have hOnly : update s.processes.pids svc 0 = (s.processes.reap pid).pids := by
      funext other
      by_cases hSame : other = svc
      · rw [hSame, update_self]
        exact (if_pos hStored).symm
      · rw [update_of_ne hSame]
        refine (if_neg ?_).symm
        intro hOther
        have hSvc := hTracked.alive svc (by rwa [hStored])
        have hAlive := hTracked.alive other (by rwa [hOther])
        have hEq := inj_on_of_nodup_map hTracked.distinct hAlive hSvc (hOther.trans hStored.symm)
        exact hSame (congrArg Child.service hEq)
    simp only
    split
    · rw [processes_notifyServiceState, noteExit_processes]
      exact congrArg (Processes.mk _) hOnly
    · rw [noteCrash_processes, noteExit_processes]
      exact congrArg (Processes.mk _) hOnly

------
-- Runs Of Init
------

/-
  Every service has one process at most that was forked and not waited for, and that one is stored
  for it.
-/
def OneProcess (s : State n) : Prop :=
  ∀ svc, (s.children.filter fun c => c.service = svc).length ≤ 1 ∧
    ∀ c ∈ s.children, c.service = svc → (s.status svc).pid = c.pid

/- Whenever one of the calls forks, the process that its service had before was waited for. -/
def CallsReaped : State n → List (Call n) → Prop
| _, [] => True
| s, c :: cs =>
  (∀ svc, forksFor svcs w s c = some svc → (s.status svc).pid = 0) ∧
  CallsReaped (perform svcs w s c) cs

/- The same for all calls of an event. -/
def StartsReaped (s : State n) (event : Event) : Prop :=
  CallsReaped svcs w (before svcs w s event) (calls svcs w s event)

theorem fresh_fork (call : Nat) : s.processes.Fresh (w.fork call (s.children.map Child.pid)) := by
  intro pid hFork
  exact ⟨w.fork_pos call _ pid hFork, w.fork_fresh call _ pid hFork⟩

variable {s : State n}

/- A table in which nothing is lost has the property. -/
theorem oneProcess_of_tracked (hTracked : s.processes.Tracked) : OneProcess s := by
  intro svc
  constructor
  · have hNodup : (s.children.filter fun c => c.service = svc).Nodup := by
      apply List.Nodup.filter
      exact List.Nodup.of_map Child.pid hTracked.distinct
    have hMem : ∀ c ∈ s.children.filter fun c => c.service = svc,
        c ∈ s.children ∧ c.service = svc := by
      intro c hChild
      simpa using hChild
    generalize filter _ s.children = own at hNodup hMem ⊢
    match own with
    | [] => simp
    | [_] => simp
    | a :: b :: rest =>
      have hA := hMem a (by simp)
      have hB := hMem b (by simp)
      have hStoredA := hTracked.stored a hA.1
      have hStoredB := hTracked.stored b hB.1
      cases a
      cases b
      simp_all
  · intro c hChild hService
    rw [← hService]
    exact hTracked.stored c hChild

theorem not_oneProcess_of_lost (hLost : s.processes.Lost) : ¬ OneProcess s := by
  intro hOne
  rcases hLost.lost with ⟨c, hChild, hNe⟩
  exact hNe ((hOne c.service).2 c hChild rfl)

theorem performAll_lost (cs : List (Call n)) (hLost : s.processes.Lost) :
    (performAll svcs w s cs).processes.Lost := by
  induction cs generalizing s with
  | nil => exact hLost
  | cons c cs ih =>
    apply ih
    rcases perform_processes svcs w s c with ⟨call, hCall⟩
    rw [hCall]
    split
    · exact hLost
    · exact hLost.start (fresh_fork w s call)

/- Calls keep track of all processes if and only if they fork only for services without one. -/
theorem performAll_tracked (cs : List (Call n)) (hTracked : s.processes.Tracked) :
    (CallsReaped svcs w s cs → (performAll svcs w s cs).processes.Tracked) ∧
    (¬ CallsReaped svcs w s cs → (performAll svcs w s cs).processes.Lost) := by
  induction cs generalizing s with
  | nil =>
    constructor
    · intro _
      exact hTracked
    · intro hNot
      exact absurd trivial hNot
  | cons c cs ih =>
    rcases perform_processes svcs w s c with ⟨call, hCall⟩
    have hFresh := fresh_fork w s call
    by_cases hReaped : ∀ svc, forksFor svcs w s c = some svc → (s.status svc).pid = 0
    · have hNext : (perform svcs w s c).processes.Tracked := by
        rw [hCall]
        split
        · exact hTracked
        next svc hForks => exact hTracked.start (hReaped svc hForks) hFresh
      rcases ih hNext with ⟨hKept, hLost⟩
      constructor
      · intro hAll
        exact hKept hAll.2
      · intro hNot
        apply hLost
        intro hRest
        exact hNot ⟨hReaped, hRest⟩
    · constructor
      · intro hAll
        exact absurd hAll.1 hReaped
      · intro _
        push Not at hReaped
        rcases hReaped with ⟨svc, hForks, hPid⟩
        have hLost : (perform svcs w s c).processes.Lost := by
          rw [hCall, hForks]
          exact hTracked.lost_of_start hPid hFresh
        exact performAll_lost svcs w cs hLost

/- Nothing is lost before the calls of an event. -/
theorem before_tracked (hTracked : s.processes.Tracked) (event : Event) :
    (before svcs w s event).processes.Tracked := by
  cases event with
  | consoleInit opened =>
    cases opened with
    | true | false => exact hTracked
  | waitForOneProcess pid =>
    change (reapOne svcs w s pid).1.processes.Tracked
    by_cases hPid : pid = 0
    · rw [reapOne, if_pos hPid]
      exact hTracked
    · rw [reapOne_processes svcs w hTracked hPid]
      exact hTracked.reap pid
  | propertyInit | command command | control msg arg => exact hTracked
  | keychord allowed id | restartProcesses => exact hTracked

theorem handle_processes (s : State n) (event : Event) :
    (handle svcs w s event).processes = (performAll svcs w (before svcs w s event)
      (calls svcs w s event)).processes := by
  cases event with
  | waitForOneProcess pid =>
    unfold handle waitForOneProcess before calls
    simp only
    cases (reapOne svcs w s pid).2 with
    | none => rfl
    | some svc => exact processes_notifyServiceState ..
  | consoleInit opened | propertyInit | command command | control msg arg => rfl
  | keychord allowed id | restartProcesses => rfl

/-
  From the boot on, every service has one process at most, and that one stored, in exactly those
  runs of init in which no service is started before `waitpid` has returned the process that it had
  before.
-/
theorem one_process_iff_starts_reaped (disabled : Fin n → Bool) (events : List Event) :
    Always (step svcs w) OneProcess (.boot disabled) events ↔
      Along (step svcs w) (StartsReaped svcs w) (.boot disabled) events := by
  have hBoot : (State.boot disabled).processes.Tracked := by
    constructor
    · exact nodup_nil
    · intro c hChild
      cases hChild
    · intro c hChild
      cases hChild
    · intro svc hStored
      exact absurd rfl hStored
  have hHolds : ∀ s : State n, s.processes.Tracked → OneProcess s :=
    fun s hTracked => oneProcess_of_tracked hTracked
  apply always_iff_along hHolds _ _ hBoot
  · intro s event hTracked hReaped
    refine ⟨_, rfl, ?_⟩
    rw [handle_processes]
    exact (performAll_tracked svcs w _ (before_tracked svcs w hTracked event)).1 hReaped
  · intro s event next hTracked hNot hNext
    cases hNext
    apply not_oneProcess_of_lost
    rw [handle_processes]
    exact (performAll_tracked svcs w _ (before_tracked svcs w hTracked event)).2 hNot

/- Processes are numbered, and every file exists. -/
def World.counting : World where
  gettime := fun call => call
  stat := fun _ _ => true
  fork := fun _ used => some (used.sum + 1)
  fork_pos := by
    intro call used pid hFork
    cases hFork
    omega
  fork_fresh := by
    intro call used pid hFork hMem
    cases hFork
    have hLe := le_sum_of_mem hMem
    omega

/- The service manager, which is restarted on its own. -/
def servicemanager : Service where
  name := str "servicemanager"
  classname := str "default"
  oneshot := false
  console := false
  critical := false
  sockets := []
  onrestart := []
  keychordId := 0
  program := str "/system/bin/servicemanager"

/-
  A restart stops the service and starts it at once: there are two processes, and one of them is not
  stored.
-/
theorem restart_makes_second_process : let svcs : Fin 1 → Service := fun _ => servicemanager
    let name := str "servicemanager"
    ∃ last, run (step svcs .counting) (.boot fun _ => false)
        [.command (.start name), .command (.restart name)] = .ok last ∧
      last.children = [⟨2, 0⟩, ⟨1, 0⟩] ∧ (last.status 0).pid = 2 ∧ ¬ OneProcess last := by
  refine ⟨_, rfl, rfl, rfl, ?_⟩
  intro hOne
  exact absurd (hOne 0).1 (by decide)

------
-- Crashes Of Critical Services
------

section

variable (s : State n) (svc other : Fin n)

@[simp]
theorem status_output (out : List Output) : (s.output out).status = s.status :=
  rfl

@[simp]
theorem status_called : s.called.status = s.status :=
  rfl

@[simp]
theorem status_notifyServiceState (state : ServiceState) :
    (notifyServiceState svcs s svc state).status = s.status := by
  unfold notifyServiceState
  split <;> rfl

theorem nrCrashed_modify {f : Status → Status} (hSame : ∀ v, (f v).nrCrashed = v.nrCrashed) :
    ((s.modify svc f).status other).nrCrashed = (s.status other).nrCrashed := by
  by_cases hOther : other = svc
  · simp [hOther, hSame]
  · simp [State.modify, hOther]

/- Only `wait_for_one_process` counts crashes. -/
theorem nrCrashed_serviceStart (dynamicArgs : Option Str) :
    ((serviceStart svcs w s svc dynamicArgs).status other).nrCrashed =
      (s.status other).nrCrashed := by
  unfold serviceStart forkService State.disable
  simp only
  repeat' split
  all_goals simp [nrCrashed_modify]

theorem nrCrashed_perform (c : Call n) :
    ((perform svcs w s c).status other).nrCrashed = (s.status other).nrCrashed := by
  cases c with
  | start svc dynamicArgs => exact nrCrashed_serviceStart ..
  | startIfNotDisabled svc =>
    simp only [perform, serviceStartIfNotDisabled]
    split
    · exact nrCrashed_serviceStart ..
    · rfl
  | stop svc =>
    simp only [perform, serviceStop]
    split
    all_goals simp [nrCrashed_modify]
  | restartIfNeeded svc =>
    simp only [perform, restartServiceIfNeeded]
    repeat' split
    all_goals simp [nrCrashed_serviceStart, nrCrashed_modify]

theorem nrCrashed_performAll (cs : List (Call n)) :
    ((performAll svcs w s cs).status other).nrCrashed = (s.status other).nrCrashed := by
  induction cs generalizing s with
  | nil => rfl
  | cons c cs ih => exact (ih _).trans (nrCrashed_perform ..)

/- An exit of a process: its time, if it is behind the window, and if a reboot is asked for. -/
structure Exit where
  now : Int
  late : Bool
  asks : Bool

/- The exit of the service that the event is, if the service is not disabled. -/
def exitOf : Event → Option Exit
| .waitForOneProcess pid =>
  if pid ≠ 0 ∧ serviceFindByPid s pid = some svc ∧ (s.status svc).disabled = false then
    some
      { now := w.gettime s.calls
        late := (s.status svc).timeCrashed + criticalCrashWindow < w.gettime s.calls
        asks := ((reapOne svcs w s pid).1.outputs.drop s.outputs.length).any (· matches .reboot) }
  else none
| _ => none

/- The exits of the service in a run. -/
def exits (svc : Fin n) : State n → List Event → List Exit
| _, [] => []
| s, event :: events =>
  (exitOf svcs w s svc event).toList ++ exits svc (handle svcs w s event) events

/- An exit that is late is the first of a window, and the fifth of a window asks for a reboot. -/
def Counted : Int → List Exit → Prop
| _, [] => True
| nr, e :: rest =>
  e.asks = (!e.late && decide (4 ≤ nr)) ∧ Counted (if e.late then 1 else nr + 1) rest

theorem nrCrashed_handle (event : Event) : ((handle svcs w s event).status svc).nrCrashed =
    ((before svcs w s event).status svc).nrCrashed := by
  cases event with
  | waitForOneProcess pid =>
    simp only [handle, waitForOneProcess, before]
    split
    all_goals simp [nrCrashed_performAll]
  | consoleInit opened | propertyInit | command command => exact nrCrashed_performAll ..
  | control msg arg | keychord allowed id | restartProcesses => exact nrCrashed_performAll ..

end

section

variable {svcs : Fin n → Service} {svc : Fin n} (hOneshot : (svcs svc).oneshot = false)
variable (hCritical : (svcs svc).critical = true) (w : World) {s : State n}

theorem nrCrashed_noteExit (other : Fin n) (pid : Nat) :
    ((noteExit svcs s svc pid).status other).nrCrashed = (s.status other).nrCrashed := by
  unfold noteExit State.disable
  simp only
  repeat' split
  all_goals simp [nrCrashed_modify]

theorem nrCrashed_noteCrash {other : Fin n} (hOther : other ≠ svc) :
    ((noteCrash svcs w s svc).1.status other).nrCrashed = (s.status other).nrCrashed := by
  unfold noteCrash
  simp only
  repeat' split
  all_goals simp [State.modify, hOther]

include hOneshot

/- An event that is no exit of the service counts nothing for it. -/
theorem nrCrashed_before {event : Event} (hNone : exitOf svcs w s svc event = none) :
    ((before svcs w s event).status svc).nrCrashed = (s.status svc).nrCrashed := by
  cases event with
  | consoleInit opened => cases opened <;> rfl
  | propertyInit | command command | control msg arg | keychord allowed id => rfl
  | restartProcesses => rfl
  | waitForOneProcess pid =>
    simp only [exitOf, ite_eq_right_iff, reduceCtorEq, imp_false, not_and] at hNone
    unfold before reapOne
    simp only
    split
    · rfl
    split
    · rfl
    rename_i hPid _ other hFind
    split
    · simp [nrCrashed_noteExit]
    rename_i hDisabled
    rw [nrCrashed_noteCrash, nrCrashed_noteExit]
    rintro rfl
    exact hNone hPid hFind (by simpa [noteExit, hOneshot] using hDisabled)

/- Up to the crash a reboot is not asked for. -/
theorem reapOne_exits {pid : Nat} (hPid : pid ≠ 0) (hFind : serviceFindByPid s pid = some svc)
    (hDisabled : (s.status svc).disabled = false) :
    ∃ t, reapOne svcs w s pid = noteCrash svcs w t svc ∧
      (t.status svc).timeCrashed = (s.status svc).timeCrashed ∧
      (t.status svc).nrCrashed = (s.status svc).nrCrashed ∧ t.calls = s.calls ∧
      ∃ out, t.outputs = s.outputs ++ out ∧ out.any (· matches .reboot) = false := by
  unfold serviceFindByPid at hFind
  refine ⟨noteExit svcs { s with children := s.children.filter fun c => c.pid != pid } svc pid,
    ?_, ?_, ?_, ?_, .kill pid .sigkill :: (svcs svc).sockets.map .unlink, ?_, ?_⟩
  · simp [reapOne, hPid, serviceFindByPid, hFind, noteExit, hOneshot, hDisabled, State.output]
  · simp [noteExit, hOneshot]
  · simp [noteExit, hOneshot]
  · simp [noteExit, hOneshot, State.output, State.modify]
  · simp [noteExit, hOneshot, State.output, State.modify]
  · simp

include hCritical

/- A late exit is the first of a window, and the fifth exit of a window asks for a reboot. -/
theorem exit_counted {event : Event} {e : Exit} (hExit : exitOf svcs w s svc event = some e) :
    e.asks = (!e.late && decide (4 ≤ (s.status svc).nrCrashed)) ∧
      ((before svcs w s event).status svc).nrCrashed =
        if e.late then 1 else (s.status svc).nrCrashed + 1 := by
  cases event with
  | waitForOneProcess pid =>
    simp only [exitOf, Option.ite_none_right_eq_some, Option.some.injEq] at hExit
    rcases hExit with ⟨⟨hPid, hFind, hDisabled⟩, rfl⟩
    rcases reapOne_exits hOneshot w hPid hFind hDisabled with
      ⟨t, hReap, hTime, hNr, hCalls, out, hOut, hSilent⟩
    simp only [before, hReap, ← hTime, ← hNr, ← hCalls]
    by_cases hLate : (t.status svc).timeCrashed + criticalCrashWindow < w.gettime t.calls
    · simp [noteCrash, hCritical, not_le.mpr hLate, hLate, State.called, State.modify, hSilent,
        hOut]
    · by_cases hMany : 4 ≤ (t.status svc).nrCrashed
      · have hMore : criticalCrashThreshold < (t.status svc).nrCrashed + 1 :=
          Int.lt_add_one_iff.mpr hMany
        simp [noteCrash, hCritical, not_lt.mp hLate, hLate, hMany, hMore, State.called,
          State.modify, State.output, hSilent, hOut]
      · have hMore : ¬ criticalCrashThreshold < (t.status svc).nrCrashed + 1 :=
          mt Int.lt_add_one_iff.mp hMany
        simp [noteCrash, hCritical, not_lt.mp hLate, hLate, hMany, hMore, State.called,
          State.modify, hSilent, hOut]
  | _ => cases hExit

theorem exits_counted (s : State n) (events : List Event) :
    Counted (s.status svc).nrCrashed (exits svcs w svc s events) := by
  induction events generalizing s with
  | nil => trivial
  | cons event events ih =>
    have hNext := ih (handle svcs w s event)
    rw [nrCrashed_handle] at hNext
    unfold exits
    cases hExit : exitOf svcs w s svc event with
    | none =>
      rw [nrCrashed_before hOneshot w hExit] at hNext
      exact hNext
    | some e =>
      rcases exit_counted hOneshot hCritical w hExit with ⟨hAsks, hCount⟩
      rw [hCount] at hNext
      exact ⟨hAsks, hNext⟩

end

theorem Counted.append {nr : Int} {log rest : List Exit} (hNr : 0 ≤ nr)
    (hCounted : Counted nr (log ++ rest)) : ∃ k ≥ 0, k ≤ nr + log.length ∧ Counted k rest := by
  induction log generalizing nr with
  | nil => exact ⟨nr, hNr, by simp, hCounted⟩
  | cons e log ih =>
    rcases ih (by split <;> omega) hCounted.2 with ⟨k, hK, hLe, hRest⟩
    refine ⟨k, hK, ?_, hRest⟩
    split at hLe <;> simp <;> omega

theorem Counted.fifth {nr : Int} {a b c d e : Exit} {rest : List Exit} (hNr : 0 ≤ nr)
    (hCounted : Counted nr (a :: b :: c :: d :: e :: rest)) :
    e.asks = true ↔ ∀ x ∈ [b, c, d, e], x.late = false := by
  simp only [Counted] at hCounted
  rcases hCounted with ⟨_, _, _, _, hAsks, _⟩
  simp [hAsks]
  grind

/- The exits are five, in four minutes. -/
def Burst (five : List Exit) : Prop :=
  five.length = 5 ∧ ∀ e ∈ five, ∀ e' ∈ five, e.now ≤ e'.now + criticalCrashWindow

/- Of five exits in a row, the last four are in the window. -/
def Caught (log : List Exit) : Prop :=
  ∃ first rest, first :: rest <:+: log ∧ rest.length = 4 ∧ ∀ e ∈ rest, e.late = false

theorem Counted.asks_iff {log after : List Exit} (hCounted : Counted 0 (log ++ after)) :
    (∃ e ∈ log, e.asks = true) ↔ Caught log := by
  constructor
  · rintro ⟨e, hMem, hAsks⟩
    rcases append_of_mem hMem with ⟨front, back, rfl⟩
    rw [append_assoc] at hCounted
    rcases hCounted.append le_rfl with ⟨k, _, hK, hFrom⟩
    have hFour : 4 ≤ k := by
      have := hFrom.1
      simp_all
    -- The count of the window is no more than that of the exits.
    have hSplit : ∃ p four, front = p ++ four ∧ four.length = 4 :=
      ⟨_, _, (take_append_drop (front.length - 4) front).symm, by rw [length_drop]; omega⟩
    rcases hSplit with ⟨front, four, rfl, hLength⟩
    match four, hLength with
    | [a, b, c, d], _ =>
      rw [append_assoc] at hCounted
      rcases hCounted.append le_rfl with ⟨k, hK, _, hFive⟩
      exact ⟨a, [b, c, d, e], ⟨front, back, by simp⟩, rfl, (hFive.fifth hK).mp hAsks⟩
  · rintro ⟨a, rest, ⟨front, back, rfl⟩, hLength, hLate⟩
    match rest, hLength with
    | [b, c, d, e], _ =>
      rw [append_assoc, append_assoc] at hCounted
      rcases hCounted.append le_rfl with ⟨k, hK, _, hFive⟩
      exact ⟨e, by simp, (hFive.fifth hK).mpr hLate⟩

/- The service manager is critical, and it crashes at these times. -/
def crashing : Fin 1 → Service :=
  fun _ => { servicemanager with critical := true }

def World.at (times : List Int) : World :=
  { World.counting with gettime := fun call => times.getD ((call + 2) / 5) 0 }

/- The exits from 10 to 50 seconds are in the window that is there at the start. -/
def early : List Exit :=
  exits crashing (.at [0, 10, 20, 30, 40, 50]) 0 (.boot fun _ => false)
    (.command (.start (str "servicemanager")) ::
      (List.replicate 5 [.waitForOneProcess 1, .restartProcesses]).flatten)

end OpenIvi.Init.Services
