import Mathlib.Data.Fintype.Card
import Mathlib.Data.List.FinRange
import Mathlib.Logic.Function.Basic
import OpenIvi.Init.Properties
import OpenIvi.Lib.LinkedList

/-
  The queue of actions of init.

  An action of the rc files has a trigger and a list of commands. Triggers and properties queue
  actions, and `execute_one_command` runs the commands of one after the other. The queue is a ring
  through a node in each action; its head is a node of its own.

  An action is one of `n`, in the order of the action list. Those of `queue_builtin_action` are
  among them, as actions with one command. The log of the commands that were run and that of the
  actions that were queued have no part in what the source does.

  The queue is first in, first out. `Move` says all that `execute_one_command` can do: run the next
  command of the current action, start the first action of the queue, find nothing to do, or crash
  on an action without commands. While the queue is a ring of distinct actions that all have
  commands, what was run, what is left of the current action and what is queued make up what was
  ever queued.

  An action that is queued while it is in the queue breaks the ring: the actions behind it are lost,
  or the queue does not get past it any more.

  Main declarations:
    * `State`
    * `Move`
    * `not_drains_of_broken`
    * `queue_drains_iff_queueable`
-/

------
-- The Queue
------

namespace OpenIvi.Init.Actions

open Lib Function List Lib.LinkedList

structure Action (α : Type) where
  name : Str
  commands : List α

/- A node in the list of the commands of an action: a command or the head of the list. -/
inductive CommandNode
| item (i : Nat)
| head
deriving DecidableEq

/- The node of an action, or `action_queue`. -/
abbrev Node (n : Nat) := Option (Fin n)

structure State (α : Type) (n : Nat) where
  next : Node n → Node n
  prev : Node n → Node n
  curAction : Option (Fin n)
  curCommand : Option CommandNode
  executed : List (Fin n × α)
  queued : List (Fin n)

variable {α : Type} {n : Nat}

/- No action is queued. The nodes of the actions are unset. -/
def State.boot (next prev : Node n → Node n) : State α n where
  next := update next none none
  prev := update prev none none
  curAction := none
  curCommand := none
  executed := []
  queued := []

section

variable (s : State α n)

/- `list_add_tail(&action_queue, ..)`. -/
def listAddTail (item : Node n) : State α n :=
  let next := update s.next item none
  let prev := update s.prev item (s.prev none)
  let next := update next (prev none) item
  let prev := update prev none item
  { s with next := next, prev := prev }

def listRemove (item : Node n) : State α n :=
  let prev := update s.prev (s.next item) (s.prev item)
  let next := update s.next (prev item) (s.next item)
  { s with next := next, prev := prev }

def actionAddQueueTail (act : Fin n) : State α n :=
  let s := listAddTail s (some act)
  { s with queued := s.queued ++ [act] }

def actionRemoveQueueHead : State α n × Option (Fin n) :=
  match s.next none with
  | none => (s, none)
  | some act => (listRemove s (some act), some act)

def actionQueueEmpty : Bool :=
  s.next none == none

end

------
-- Commands
------

variable (act : Action α)

/- `list_head(&act->commands)`. -/
def Action.listHead : CommandNode :=
  if act.commands = [] then .head else .item 0

/- `list_tail(&act->commands)`. -/
def Action.listTail : CommandNode :=
  if act.commands = [] then .head
  else .item (act.commands.length - 1)

/- The next node in the list of commands. -/
def Action.after : CommandNode → CommandNode
| .head => act.listHead
| .item i =>
  if i + 1 < act.commands.length then .item (i + 1)
  else .head

/-
  `get_first_command`. The head of the list is not `NULL`, so that an action without commands gives
  it.
-/
def getFirstCommand : Option CommandNode :=
  some act.listHead

def getNextCommand (cmd : CommandNode) : Option CommandNode :=
  if act.after cmd = .head then none else some (act.after cmd)

def isLastCommand (cmd : CommandNode) : Bool :=
  act.listTail = cmd

variable (acts : Fin n → Action α)

/-
  `cur_command->func(..)`. Behind the head of the list is the field `current`, which is never set:
  as a command it has no function.
-/
def callCommand (s : State α n) (act : Fin n) : Except Fault (State α n) :=
  match s.curCommand with
  | none => .ok s
  | some .head => .error .nullPointer
  | some (.item i) =>
    match (acts act).commands[i]? with
    | none => .error .outOfBounds
    | some cmd => .ok { s with executed := s.executed ++ [(act, cmd)] }

/- The first branch of `execute_one_command`. -/
def nextAction (s : State α n) : Except Fault (State α n) :=
  let (s, curAction) := actionRemoveQueueHead s
  let s := { s with curAction := curAction, curCommand := none }
  match curAction with
  | none => .ok s
  | some act =>
    callCommand acts
      { s with curCommand := getFirstCommand (acts act) } act

def executeOneCommand (s : State α n) : Except Fault (State α n) :=
  match s.curAction, s.curCommand with
  | some act, some cmd =>
    if isLastCommand (acts act) cmd then nextAction acts s
    else
      callCommand acts
        { s with curCommand := getNextCommand (acts act) cmd }
        act
  | _, _ => nextAction acts s

------
-- Events
------

/- The actions that `action_for_each_trigger` finds. -/
def actionForEachTrigger (trigger : Str) : List (Fin n) :=
  (List.finRange n).filter fun act => (acts act).name == trigger

def propertyTrigger : Str := str "property:"

def equalsSign : UInt8 := 61

/- Whether `queue_property_triggers` queues the action. -/
def matchesProperty (act name value : Str) : Bool :=
  act.take propertyTrigger.length == propertyTrigger && let test := act.drop propertyTrigger.length
    test.take name.length == name && test[name.length]? == some equalsSign &&
      test.drop (name.length + 1) == value

/- Whether `queue_all_property_triggers` queues the action. -/
def matchesCurrent (propertyGet : Str → Option Str) (act : Str) : Bool :=
  act.take propertyTrigger.length == propertyTrigger && let test := act.drop propertyTrigger.length
    let name := test.takeWhile (· != equalsSign)
    equalsSign ∈ test && name.length ≤ propNameMax &&
      propertyGet name == some (test.drop (name.length + 1))

/- The actions that `queue_property_triggers` finds. -/
def queuePropertyTriggers (name value : Str) : List (Fin n) :=
  (List.finRange n).filter fun act =>
    matchesProperty (acts act).name name value

/- The actions that `queue_all_property_triggers` finds. -/
def queueAllPropertyTriggers (propertyGet : Str → Option Str) : List (Fin n) :=
  (List.finRange n).filter fun act =>
    matchesCurrent propertyGet (acts act).name

/-
  What happens next, in the main loop or in the command that it runs: a trigger, `property_changed`,
  the action that queues all property triggers, `queue_builtin_action` or `execute_one_command`.
-/
inductive Event (n : Nat)
| trigger (trigger : Str)
| propertyChanged (name value : Str)
| queuePropertyTriggersAction (propertyGet : Str → Option Str)
| queueBuiltinAction (act : Fin n)
| executeOneCommand

inductive Step (n : Nat)
| queue (act : Fin n)
| execute

/-
  The steps of the events. Properties do not queue actions before `property_triggers_enabled` is
  set.
-/
def steps (propertyTriggersEnabled : Bool) : List (Event n) → List (Step n)
| [] => []
| .trigger trigger :: events =>
  (actionForEachTrigger acts trigger).map .queue ++ steps propertyTriggersEnabled events
| .propertyChanged name value :: events =>
  (if propertyTriggersEnabled then
    (queuePropertyTriggers acts name value).map .queue
  else []) ++ steps propertyTriggersEnabled events
| .queuePropertyTriggersAction propertyGet :: events =>
  (queueAllPropertyTriggers acts propertyGet).map .queue ++ steps true events
| .queueBuiltinAction act :: events =>
  .queue act :: steps propertyTriggersEnabled events
| .executeOneCommand :: events =>
  .execute :: steps propertyTriggersEnabled events

def step (s : State α n) : Step n → Except Fault (State α n)
| .queue act => .ok (actionAddQueueTail s act)
| .execute => executeOneCommand acts s

------
-- What A Call Does
------

variable {α : Type} {n : Nat} (acts : Fin n → Action α) {as : List (Fin n)}

/- The commands of an action, each with the action. -/
def commandsOf (act : Fin n) : List (Fin n × α) :=
  (acts act).commands.map fun cmd => (act, cmd)

section

variable (s : State α n)

/- The commands of the current action that are left. -/
def rest : List (Fin n × α) :=
  match s.curAction, s.curCommand with
  | some act, some (.item i) => (commandsOf acts act).drop (i + 1)
  | _, _ => []

/- The current command is one of the current action. -/
def AtCommand : Prop :=
  ∀ act cmd, s.curAction = some act → s.curCommand = some cmd →
      ∃ i, cmd = .item i ∧ i < (acts act).commands.length

/- The links and the actions that were queued are the same. -/
structure SameQueue (s s' : State α n) : Prop where
  next : s'.next = s.next
  prev : s'.prev = s.prev
  queued : s'.queued = s.queued

/- What a call of `execute_one_command` does. -/
inductive Move (s : State α n) : Except Fault (State α n) → Prop
| idle (s' : State α n) (hSame : SameQueue s s') (hAt : AtCommand acts s')
    (hEmpty : s.next none = none) (hRest : rest acts s = [] ∧ rest acts s' = [])
    (hExecuted : s'.executed = s.executed) : Move s (.ok s')
| command (s' : State α n) (hSame : SameQueue s s') (hAt : AtCommand acts s') (cmd : Fin n × α)
    (hRest : rest acts s = cmd :: rest acts s') (hExecuted : s'.executed = s.executed ++ [cmd]) :
    Move s (.ok s')
| action (act : Fin n) (s' : State α n) (hSame : SameQueue (listRemove s (some act)) s')
    (hAt : AtCommand acts s') (hFirst : s.next none = some act) (hRest : rest acts s = [])
    (cmd : Fin n × α) (hCommands : commandsOf acts act = cmd :: rest acts s')
    (hExecuted : s'.executed = s.executed ++ [cmd]) : Move s (.ok s')
| crash (act : Fin n) (hFirst : s.next none = some act) (hRest : rest acts s = [])
    (hCommands : (acts act).commands = []) : Move s (.error .nullPointer)

/- With nothing left, the next action is started. -/
theorem nextAction_moves {s : State α n} (hRest : rest acts s = []) :
    Move acts s (nextAction acts s) := by
  unfold nextAction actionRemoveQueueHead
  cases hFirst : s.next none with
  | none =>
    refine .idle _ ⟨rfl, rfl, rfl⟩ ?_ hFirst ⟨hRest, rfl⟩ rfl
    intro act cmd hAct
    cases hAct
  | some act =>
    simp only [getFirstCommand, Action.listHead, callCommand]
    cases hCommands : (acts act).commands with
    | nil =>
      exact .crash act hFirst hRest hCommands
    | cons cmd cmds =>
      refine .action act _ ⟨rfl, rfl, rfl⟩ ?_ hFirst hRest (act, cmd) ?_ rfl
      · intro other node hAct hNode
        cases hAct
        cases hNode
        refine ⟨0, rfl, ?_⟩
        rw [hCommands]
        exact Nat.zero_lt_succ _
      · simp [rest, commandsOf, hCommands]

/- A call makes one of the moves. -/
theorem executeOneCommand_moves {s : State α n} (hAt : AtCommand acts s) :
    Move acts s (executeOneCommand acts s) := by
  unfold executeOneCommand
  cases hAct : s.curAction with
  | none =>
    apply nextAction_moves
    simp [rest, hAct]
  | some act =>
    cases hCmd : s.curCommand with
    | none =>
      apply nextAction_moves
      simp [rest, hAct, hCmd]
    | some cmd =>
      rcases hAt act cmd hAct hCmd with ⟨i, hItem, hI⟩
      subst hItem
      have hTail : (acts act).listTail = .item ((acts act).commands.length - 1) := by
        have hSome : (acts act).commands ≠ [] := ne_nil_of_length_pos (by omega)
        unfold Action.listTail
        rw [if_neg hSome]
      simp only [isLastCommand, hTail, CommandNode.item.injEq, decide_eq_true_eq]
      split
      next hLast =>
        apply nextAction_moves
        simp only [rest, hAct, hCmd]
        apply drop_eq_nil_of_le
        rw [commandsOf, length_map]
        omega
      next hLast =>
        have hNext : i + 1 < (acts act).commands.length := by omega
        simp only [getNextCommand, Action.after, if_pos hNext, reduceCtorEq, if_false,
          callCommand, getElem?_eq_getElem hNext]
        refine .command _ ⟨rfl, rfl, rfl⟩ ?_ (act, (acts act).commands[i + 1]) ?_ rfl
        · intro other node hOther hNode
          cases hNode
          cases hOther
          exact ⟨i + 1, rfl, hNext⟩
        · simp only [rest, hAct, hCmd]
          rw [drop_eq_getElem_cons (by rwa [commandsOf, length_map])]
          simp [commandsOf]

------
-- Queues That Conform
------

/-
  If nothing is queued any more, then calls of `execute_one_command` empty the queue, and what was
  run by then are the commands of all actions that were queued, in this order and no others.
-/
def Drains : Prop :=
  ∃ k last, run (step acts) s (replicate k .execute) = .ok last ∧ actionQueueEmpty last = true ∧
    last.executed = s.queued.flatMap (commandsOf acts)

/- The actions that follow the node, at most `k` of them. -/
def walk (next : Node n → Node n) : Nat → Node n → List (Fin n)
| 0, _ => []
| k + 1, node =>
  match next node with
  | none => []
  | some act => act :: walk next k (some act)

/- The actions in the queue. -/
def waiting : List (Fin n) :=
  walk s.next n none

/- An action that is queued has commands and is not in the queue. -/
def Queueable : Step n → Prop
| .queue act =>
  (acts act).commands ≠ [] ∧ act ∉ waiting s
| .execute => True

end

/- The queue is a ring of distinct actions with commands, and no command is lost. -/
structure Conforms (s : State α n) (pending : List (Fin n)) : Prop where
  ring : Ring s.next s.prev none (pending.map some)
  able : ∀ act ∈ pending, (acts act).commands ≠ []
  atCommand : AtCommand acts s
  log : s.executed ++ rest acts s ++ pending.flatMap (commandsOf acts) =
      s.queued.flatMap (commandsOf acts)

theorem walk_ring {next : Node n → Node n} {k : Nat} (hK : as.length ≤ k) {node : Node n}
    (hChain : (node :: (as.map some ++ [none])).IsChain
      fun x y => next x = y) : walk next k node = as := by
  induction as generalizing k node with
  | nil =>
    have hNext := (isChain_cons_cons.mp hChain).1
    cases k with
    | zero => rfl
    | succ k => simp [walk, hNext]
  | cons a as ih =>
    rcases isChain_cons_cons.mp hChain with ⟨hNext, hRest⟩
    cases k with
    | zero => simp at hK
    | succ k =>
      have hWalk := ih (Nat.le_of_succ_le_succ hK) hRest
      simp [walk, hNext, hWalk]

variable {acts} {s : State α n} {pending : List (Fin n)}

theorem Conforms.nodup (hConforms : Conforms acts s pending) : pending.Nodup :=
  List.Nodup.of_map some (nodup_cons.mp hConforms.ring.nodup).2

theorem Conforms.waiting_eq (hConforms : Conforms acts s pending) : waiting s = pending := by
  have hLength : pending.length ≤ n := by
    have hCard := hConforms.nodup.length_le_card
    rwa [Fintype.card_fin] at hCard
  apply walk_ring hLength
  exact hConforms.ring.linked.imp fun _ _ hLinked => hLinked.1

theorem ring_first (hRing : Ring s.next s.prev none (as.map some)) {act : Fin n}
    (hFirst : s.next none = some act) : ∃ others, as = act :: others := by
  have hNext := hRing.next_eq
  rw [hFirst] at hNext
  cases as with
  | nil => simp at hNext
  | cons a as =>
    have hEq : act = a := by simpa using hNext
    exact ⟨as, by rw [hEq]⟩

/- The links that `list_remove` makes. -/
theorem listRemove_links (s : State α n) (item : Node n) :
    (listRemove s item).next = update s.next (s.prev item) (s.next item) ∧
      (listRemove s item).prev = update s.prev (s.next item) (s.prev item) := by
  have hKept : update s.prev (s.next item) (s.prev item) item = s.prev item := by
    by_cases hSelf : item = s.next item
    · rw [← hSelf, update_self]
    · rw [update_of_ne hSelf]
  constructor
  · simp only [listRemove, hKept]
  · rfl

theorem ring_listRemove {act : Fin n} {as : List (Node n)}
    (hRing : Ring s.next s.prev none (some act :: as)) :
    Ring (listRemove s (some act)).next (listRemove s (some act)).prev none as := by
  simp only [listRemove_links]
  exact .remove (l := []) hRing

/- The links that `list_add_tail` makes. -/
theorem listAddTail_links (s : State α n) (act : Fin n) :
    (listAddTail s (some act)).next = update (update s.next (some act) none)
      (s.prev none) (some act) ∧
      (listAddTail s (some act)).prev = update (update s.prev (some act) (s.prev none))
        none (some act) := by
  have hHead : update s.prev (some act) (s.prev none) none = s.prev none :=
    update_of_ne (by simp) ..
  constructor
  · simp only [listAddTail, hHead]
  · rfl

theorem ring_listAddTail {act : Fin n} (hRing : Ring s.next s.prev none (pending.map some))
    (hNew : act ∉ pending) :
    Ring (listAddTail s (some act)).next (listAddTail s (some act)).prev none
      ((pending ++ [act]).map some) := by
  have hOut : some act ∉ none :: pending.map some := by simpa using hNew
  simp only [listAddTail_links, map_append]
  exact hRing.insert_last hOut

theorem Conforms.queue (hConforms : Conforms acts s pending)
    {act : Fin n} (hCommands : (acts act).commands ≠ []) (hNew : act ∉ pending) :
    Conforms acts (actionAddQueueTail s act) (pending ++ [act]) := by
  constructor
  · exact ring_listAddTail hConforms.ring hNew
  · intro other hMem
    rcases mem_append.mp hMem with hOld | hLast
    · exact hConforms.able other hOld
    · rw [mem_singleton.mp hLast]
      exact hCommands
  · exact hConforms.atCommand
  · have hLog := hConforms.log
    simp only [actionAddQueueTail, flatMap_append, flatMap_singleton, ← append_assoc]
    exact congrArg (· ++ commandsOf acts act) hLog

/- How many commands are to be run. -/
def todo (acts : Fin n → Action α) (s : State α n) (pending : List (Fin n)) : Nat :=
  (rest acts s ++ pending.flatMap (commandsOf acts)).length

section

variable (hConforms : Conforms acts s pending)

include hConforms

/- With nothing to do, all that was queued was run. -/
theorem Conforms.done (hTodo : todo acts s pending = 0) :
    pending = [] ∧ rest acts s = [] ∧ s.executed = s.queued.flatMap (commandsOf acts) := by
  have hNone : rest acts s = [] ∧ pending.flatMap (commandsOf acts) = [] :=
    append_eq_nil_iff.mp (length_eq_zero_iff.mp hTodo)
  have hPending : pending = [] := by
    cases pending with
    | nil => rfl
    | cons act pending =>
      have hAble := hConforms.able act (by simp)
      simp [commandsOf, hAble] at hNone
  have hLog := hConforms.log
  rw [hNone.1, hNone.2, append_nil, append_nil] at hLog
  exact ⟨hPending, hNone.1, hLog⟩

/- A call runs the next command of those to be run. -/
theorem Conforms.execute :
    ∃ s' pending', executeOneCommand acts s = .ok s' ∧ Conforms acts s' pending' ∧
      s'.queued = s.queued ∧ todo acts s' pending' = todo acts s pending - 1 := by
  have hMoves := executeOneCommand_moves acts hConforms.atCommand
  have hNext := hConforms.ring.next_eq
  generalize executeOneCommand acts s = result at hMoves ⊢
  cases hMoves with
  | idle s' hSame hAt hEmpty hRest hExecuted =>
    refine ⟨s', pending, rfl, ?_, hSame.queued, ?_⟩
    · refine ⟨?_, hConforms.able, hAt, ?_⟩
      · rw [hSame.next, hSame.prev]
        exact hConforms.ring
      · rw [hExecuted, hRest.2, hSame.queued, ← hRest.1]
        exact hConforms.log
    · cases pending with
      | nil => simp [todo, hRest]
      | cons act pending => simp [hEmpty] at hNext
  | command s' hSame hAt cmd hRest hExecuted =>
    refine ⟨s', pending, rfl, ?_, hSame.queued, ?_⟩
    · refine ⟨?_, hConforms.able, hAt, ?_⟩
      · rw [hSame.next, hSame.prev]
        exact hConforms.ring
      · have hLog := hConforms.log
        rw [hRest] at hLog
        rw [hExecuted, hSame.queued, ← hLog]
        simp
    · simp [todo, hRest]
  | action act s' hSame hAt hFirst hRest cmd hCommands hExecuted =>
    rcases ring_first hConforms.ring hFirst with ⟨others, hPending⟩
    subst hPending
    refine ⟨s', others, rfl, ?_, hSame.queued, ?_⟩
    · refine ⟨?_, ?_, hAt, ?_⟩
      · rw [hSame.next, hSame.prev]
        exact ring_listRemove hConforms.ring
      · intro other hMem
        exact hConforms.able other (by simp [hMem])
      · have hLog := hConforms.log
        rw [hRest, flatMap_cons, hCommands] at hLog
        rw [hExecuted, hSame.queued]
        change _ = s.queued.flatMap (commandsOf acts)
        rw [← hLog]
        simp
    · simp [todo, hRest, hCommands]
  | crash act hFirst hRest hCommands =>
    rcases ring_first hConforms.ring hFirst with ⟨others, hPending⟩
    subst hPending
    exact absurd hCommands (hConforms.able act (by simp))

/- Calls run all commands that are to be run. -/
theorem Conforms.drains : Drains acts s := by
  generalize hK : todo acts s pending = k
  induction k generalizing s pending with
  | zero =>
    rcases hConforms.done hK with ⟨hPending, _, hExecuted⟩
    refine ⟨0, s, rfl, ?_, hExecuted⟩
    rw [hPending] at hConforms
    simp [actionQueueEmpty, hConforms.ring.next_eq]
  | succ k ih =>
    rcases hConforms.execute with ⟨s', pending', hMove, hConforms', hQueued, hTodo⟩
    rcases ih hConforms' (by omega) with ⟨j, last, hRun, hEmpty, hExecuted⟩
    rw [hQueued] at hExecuted
    refine ⟨j + 1, last, ?_, hEmpty, hExecuted⟩
    change executeOneCommand acts s >>= _ = _
    rw [hMove]
    exact hRun

end

------
-- Queues That Are Broken
------

/- The queue does not get past its first action. -/
structure Stuck (next prev : Node n → Node n) (act : Fin n) : Prop where
  first : next none = some act
  links : (next (some act) = some act ∧ (prev (some act) = some act ∨ prev (some act) = none)) ∨
    (next (some act) = none ∧ prev (some act) ≠ some act ∧ prev (some act) ≠ none)

/-
  The queue is in order up to an action that was put behind itself or behind actions that are lost
  now.
-/
structure Bent (next prev : Node n → Node n) (front : List (Fin n)) (act : Fin n) : Prop where
  linked : (none :: front.map some).IsChain (Linked next prev)
  nodup : (front ++ [act]).Nodup
  last : ∀ b, front.getLast? = some b → next (some b) = some act
  back : prev none = some act
  ahead :
    next (some act) = some act ∨ next (some act) = none

variable {act : Fin n}

theorem Stuck.remove (hStuck : Stuck s.next s.prev act) :
    Stuck (listRemove s (some act)).next (listRemove s (some act)).prev act := by
  simp only [listRemove_links]
  rcases hStuck.links with ⟨hNext, hSelf | hHead⟩ | ⟨hNext, hOther⟩
  · rw [hNext, hSelf]
    refine ⟨?_, .inl ⟨?_, .inl ?_⟩⟩
    · exact hStuck.first
    all_goals exact update_self ..
  · rw [hNext, hHead]
    refine ⟨?_, .inl ⟨?_, .inr ?_⟩⟩
    · exact update_self ..
    · exact hNext
    · exact update_self ..
  · have hPrev : update s.prev (s.next (some act)) (s.prev (some act)) (some act) =
        s.prev (some act) := by
      rw [hNext, update_of_ne (by simp)]
    refine ⟨?_, .inr ⟨?_, ?_, ?_⟩⟩
    · rw [update_of_ne hOther.2.symm]
      exact hStuck.first
    · rw [update_of_ne hOther.1.symm]
      exact hNext
    · rw [hPrev]
      exact hOther.1
    · rw [hPrev]
      exact hOther.2

/- The last action in front leaves. -/
theorem Bent.remove_last {b : Fin n} (hBent : Bent s.next s.prev [b] act) :
    Stuck (listRemove s (some b)).next (listRemove s (some b)).prev act ∨
      Ring (listRemove s (some b)).next (listRemove s (some b)).prev none [some act] := by
  have hFirst := (isChain_cons_cons.mp hBent.linked).1
  have hNext : s.next (some b) = some act := hBent.last b rfl
  simp only [listRemove_links, hNext, hFirst.2]
  have hAhead : update s.next none (some act) (some act) = s.next (some act) :=
    update_of_ne (by simp) ..
  rcases hBent.ahead with hSelf | hHead
  · refine .inl ⟨update_self .., .inl ⟨?_, .inr ?_⟩⟩
    · rw [hAhead, hSelf]
    · exact update_self ..
  · refine .inr ⟨by simp, ?_⟩
    refine isChain_cons_cons.mpr ⟨⟨?_, ?_⟩, isChain_cons_cons.mpr ⟨⟨?_, ?_⟩, .singleton none⟩⟩
    · exact update_self ..
    · exact update_self ..
    · rw [hAhead, hHead]
    · exact hBent.back

/- An action in front leaves. -/
theorem Bent.remove {b c : Fin n} {front : List (Fin n)}
    (hBent : Bent s.next s.prev (b :: c :: front) act) :
    Bent (listRemove s (some b)).next (listRemove s (some b)).prev (c :: front) act := by
  rcases isChain_cons_cons.mp hBent.linked with ⟨hFirst, hRest⟩
  have hNext := (isChain_cons_cons.mp hRest).1
  have hNodup := (nodup_cons.mp hBent.nodup).2
  have hFront := (nodup_append.mp hNodup).1.map (Option.some_injective _)
  simp only [listRemove_links, hNext.1, hFirst.2]
  constructor
  · have hAll : (none :: (c :: front).map some).Nodup := nodup_cons.mpr ⟨by simp, hFront⟩
    exact isChain_linked_join [] (.singleton none) hRest.tail
      (hAll.sublist (dropLast_sublist _)) hFront
  · exact hNodup
  · intro d hD
    exact hBent.last d (by simpa using hD)
  · exact hBent.back
  · exact hBent.ahead

/- An action is queued that is in the queue. -/
theorem listAddTail_bends {l r : List (Fin n)}
    (hRing : Ring s.next s.prev none ((l ++ act :: r).map some)) :
    (l = [] ∧ Stuck (listAddTail s (some act)).next (listAddTail s (some act)).prev act) ∨
      (l ≠ [] ∧ Bent (listAddTail s (some act)).next (listAddTail s (some act)).prev l act) := by
  have hNodup : (l ++ act :: r).Nodup := List.Nodup.of_map some (nodup_cons.mp hRing.nodup).2
  have hApart := (nodup_append.mp hNodup).2.2
  -- the last action of the queue
  have hLast : ∃ z ∈ act :: r, s.prev none = some z := by
    refine ⟨(act :: r).getLast (by simp), getLast_mem _, ?_⟩
    have hMap : ((act :: r).map some).getLast (by simp) = some ((act :: r).getLast (by simp)) :=
      getLast_map ..
    rw [hRing.prev_eq, ← hMap]
    simp [getLast_cons]
  rcases hLast with ⟨z, hZ, hPrev⟩
  simp only [listAddTail_links, hPrev]
  generalize hNext' : update (update s.next (some act) none) (some z) (some act) = next'
  generalize hPrev' : update (update s.prev (some act) (some z)) none (some act) = prev'
  have hNot : ∀ y ∈ act :: r, some y ∉ none :: l.map some := by
    intro y hY hMem
    exact hApart y (by simpa using hMem) y hY rfl
  have hAct := hNot act mem_cons_self
  have hKeptNext : ∀ x ∈ none :: l.map some, next' x = s.next x := by
    intro x hX
    rw [← hNext', update_of_ne (ne_of_mem_of_not_mem hX (hNot z hZ)),
      update_of_ne (ne_of_mem_of_not_mem hX hAct)]
  have hKeptPrev : ∀ y ∈ l.map some, prev' y = s.prev y := by
    intro y hY
    rw [← hPrev', update_of_ne (ne_of_mem_of_not_mem hY (by simp)),
      update_of_ne (ne_of_mem_of_not_mem (mem_cons_of_mem none hY) hAct)]
  have hBack : prev' none = some act := by rw [← hPrev', update_self]
  have hBefore : prev' (some act) = some z := by rw [← hPrev', update_of_ne (by simp), update_self]
  have hAhead : (next' (some act) = some act ∧ z = act) ∨ (next' (some act) = none ∧ z ≠ act) := by
    by_cases hSelf : z = act
    · refine .inl ⟨?_, hSelf⟩
      rw [← hNext', hSelf, update_self]
    · refine .inr ⟨?_, hSelf⟩
      have hNe : some act ≠ some z := by
        intro hEq
        exact hSelf (Option.some.inj hEq).symm
      rw [← hNext', update_of_ne hNe, update_self]
  cases l with
  | nil =>
    refine .inl ⟨rfl, ?_, ?_⟩
    · rw [hKeptNext none (by simp), hRing.next_eq]
      rfl
    · rw [hBefore]
      rcases hAhead with ⟨hSelf, hEq⟩ | ⟨hHead, hNe⟩
      · exact .inl ⟨hSelf, .inl (by rw [hEq])⟩
      · exact .inr ⟨hHead, by simpa using hNe, by simp⟩
  | cons b l =>
    have hWalk : ((none :: (b :: l).map some) ++ ((act :: r).map some ++ [none])).IsChain
        (Linked s.next s.prev) := by
      simpa using hRing.linked
    rcases isChain_append.mp hWalk with ⟨hFront, _, hJoin⟩
    refine .inr ⟨by simp, ?_, ?_, ?_, hBack, ?_⟩
    · apply isChain_linked_congr hFront
      · intro x hX
        exact hKeptNext x (mem_of_mem_dropLast hX)
      · exact hKeptPrev
    · have hSub : ((b :: l) ++ [act]).Sublist (b :: l ++ act :: r) :=
        List.Sublist.append_left (by simp) _
      exact hNodup.sublist hSub
    · intro c hC
      have hMem : c ∈ b :: l := mem_of_getLast? hC
      rw [hKeptNext (some c) (by simpa using hMem)]
      refine (hJoin (some c) ?_ (some act) (by simp)).1
      rw [getLast?_cons, getLast?_map, hC]
      rfl
    · rcases hAhead with ⟨hSelf, _⟩ | ⟨hHead, _⟩
      · exact .inl hSelf
      · exact .inr hHead

------
-- Runs Of The Queue
------

variable {acts : Fin n → Action α} {s' : State α n} {cmd : Fin n × α}

/- The actions have too few commands for what was queued. -/
def Owed (acts : Fin n → Action α) (s : State α n) (as : List (Fin n)) : Prop :=
  (s.executed ++ rest acts s ++ as.flatMap (commandsOf acts)).length <
    (s.queued.flatMap (commandsOf acts)).length

/- The queue will crash, does not move on, or lost actions. -/
inductive Broken (acts : Fin n → Action α) (s : State α n) : Prop
| crash (as : List (Fin n)) (act : Fin n) (hRing : Ring s.next s.prev none ((as ++ [act]).map some))
    (hCommands : (acts act).commands = [])
| stuck (act : Fin n) (hStuck : Stuck s.next s.prev act)
| bent (front : List (Fin n)) (act : Fin n) (hFront : front ≠ [])
    (hBent : Bent s.next s.prev front act) (hOwed : Owed acts s (front ++ [act]))
| short (as : List (Fin n)) (hRing : Ring s.next s.prev none (as.map some)) (hOwed : Owed acts s as)

section

variable (hBroken : Broken acts s)

include hBroken

/- A queue that is broken stays so where its links do. -/
theorem Broken.of_same (hSame : SameQueue s s')
    (hOwed : ∀ as, Owed acts s as → Owed acts s' as) : Broken acts s' := by
  rcases s' with ⟨next, prev⟩
  rcases hSame with ⟨rfl, rfl, _⟩
  cases hBroken with
  | crash as act hRing hCommands => exact .crash as act hRing hCommands
  | stuck act hStuck => exact .stuck act hStuck
  | bent front act hFront hBent hOwes => exact .bent front act hFront hBent (hOwed _ hOwes)
  | short as hRing hOwes => exact .short as hRing (hOwed _ hOwes)

/- Starting an action does not mend the queue. -/
theorem Broken.action {act : Fin n} (hSame : SameQueue (listRemove s (some act)) s')
    (hFirst : s.next none = some act) (hRest : rest acts s = [])
    (hCommands : commandsOf acts act = cmd :: rest acts s')
    (hExecuted : s'.executed = s.executed ++ [cmd]) : Broken acts s' := by
  have hPays : ∀ as, Owed acts s (act :: as) → Owed acts s' as := by
    intro as hOwed
    unfold Owed at hOwed ⊢
    rw [show s'.queued = s.queued from hSame.queued, hExecuted]
    rw [hRest, flatMap_cons, hCommands] at hOwed
    simpa using hOwed
  rcases s' with ⟨next, prev⟩
  rcases hSame with ⟨rfl, rfl, _⟩
  cases hBroken with
  | crash as last hRing hNone =>
    rcases ring_first hRing hFirst with ⟨others, hAs⟩
    cases as with
    | nil =>
      cases hAs
      simp [commandsOf, hNone] at hCommands
    | cons a as =>
      cases hAs
      exact .crash as last (ring_listRemove hRing) hNone
  | stuck other hStuck =>
    obtain rfl : act = other := Option.some.inj (hFirst.symm.trans hStuck.first)
    exact .stuck act hStuck.remove
  | bent front last hFront hBent hOwed =>
    cases front with
    | nil => exact absurd rfl hFront
    | cons b front =>
      have hB : act = b := by
        have hHead := (isChain_cons_cons.mp hBent.linked).1.1
        exact Option.some.inj (hFirst.symm.trans hHead)
      subst hB
      cases front with
      | nil =>
        rcases hBent.remove_last with hStuck | hRing
        · exact .stuck last hStuck
        · exact .short [last] hRing (hPays _ hOwed)
      | cons c front => exact .bent (c :: front) last (by simp) hBent.remove (hPays _ hOwed)
  | short as hRing hOwed =>
    rcases ring_first hRing hFirst with ⟨others, hAs⟩
    subst hAs
    exact .short others (ring_listRemove hRing) (hPays _ hOwed)

/- No call mends a queue that is broken. -/
theorem Broken.execute (hAt : AtCommand acts s) (hMove : executeOneCommand acts s = .ok s') :
    Broken acts s' ∧ AtCommand acts s' ∧ s'.queued = s.queued := by
  have hMoves := executeOneCommand_moves acts hAt
  rw [hMove] at hMoves
  cases hMoves with
  | idle _ hSame hAt' hEmpty hRest hExecuted =>
    refine ⟨hBroken.of_same hSame ?_, hAt', hSame.queued⟩
    intro as hOwed
    unfold Owed at hOwed ⊢
    rw [hExecuted, hSame.queued, hRest.2, ← hRest.1]
    exact hOwed
  | command _ hSame hAt' cmd hRest hExecuted =>
    refine ⟨hBroken.of_same hSame ?_, hAt', hSame.queued⟩
    intro as hOwed
    unfold Owed at hOwed ⊢
    rw [hSame.queued, hExecuted]
    rw [hRest] at hOwed
    simpa using hOwed
  | action act _ hSame hAt' hFirst hRest cmd hCommands hExecuted =>
    exact ⟨hBroken.action hSame hFirst hRest hCommands hExecuted, hAt', hSame.queued⟩

/- A queue that is broken is never empty with all run. -/
theorem Broken.not_done (hEmpty : actionQueueEmpty s = true) :
    s.executed ≠ s.queued.flatMap (commandsOf acts) := by
  have hNext : s.next none = none := by simpa [actionQueueEmpty] using hEmpty
  intro hExecuted
  cases hBroken with
  | crash as act hRing hCommands =>
    have hFirst := hRing.next_eq
    rw [hNext] at hFirst
    cases as with
    | nil | cons a as => simp at hFirst
  | stuck act hStuck =>
    have hFirst := hStuck.first
    rw [hNext] at hFirst
    cases hFirst
  | bent front act hFront hBent hOwed =>
    cases front with
    | nil => exact hFront rfl
    | cons b front =>
      have hFirst := (isChain_cons_cons.mp hBent.linked).1.1
      rw [hNext] at hFirst
      cases hFirst
  | short as hRing hOwed =>
    unfold Owed at hOwed
    rw [← hExecuted] at hOwed
    simp only [length_append] at hOwed
    omega

theorem not_drains_of_broken (hAt : AtCommand acts s) : ¬ Drains acts s := by
  rintro ⟨k, last, hRun, hEmpty, hExecuted⟩
  induction k generalizing s with
  | zero =>
    cases hRun
    exact hBroken.not_done hEmpty hExecuted
  | succ k ih =>
    rcases bind_eq_ok.mp hRun with ⟨s', hMove, hRest⟩
    rcases hBroken.execute hAt hMove with ⟨hBroken', hAt', hQueued⟩
    rw [← hQueued] at hExecuted
    exact ih hBroken' hAt' hRest hExecuted

end

/- An action that is not queueable breaks the queue. -/
theorem Conforms.broken_of_queue {pending : List (Fin n)}
    (hConforms : Conforms acts s pending) {act : Fin n} (hNot : ¬ Queueable acts s (.queue act)) :
    Broken acts (actionAddQueueTail s act) := by
  by_cases hMem : act ∈ pending
  · have hCommands := hConforms.able act hMem
    rcases append_of_mem hMem with ⟨l, r, hPending⟩
    subst hPending
    rcases listAddTail_bends hConforms.ring with ⟨_, hStuck⟩ | ⟨hFront, hBent⟩
    · exact .stuck act hStuck
    · refine .bent l act hFront hBent ?_
      have hLog := congrArg length hConforms.log
      have hPositive : 0 < (commandsOf acts act).length := by
        rw [commandsOf, length_map]
        exact length_pos_iff.mpr hCommands
      change (s.executed ++ rest acts s ++ (l ++ [act]).flatMap (commandsOf acts)).length <
        ((s.queued ++ [act]).flatMap (commandsOf acts)).length
      simp only [flatMap_append, flatMap_cons, flatMap_nil, append_nil, length_append] at hLog ⊢
      omega
  · have hCommands : (acts act).commands = [] := by
      by_contra hSome
      apply hNot
      refine ⟨hSome, ?_⟩
      rw [hConforms.waiting_eq]
      exact hMem
    exact .crash pending act (ring_listAddTail hConforms.ring hMem) hCommands

/-
  From the boot on, the queue runs what was queued, whole actions in the order in which they were
  queued, and gets empty, in exactly those runs in which no action is queued that has no commands or
  that is in the queue.
-/
theorem queue_drains_iff_queueable (acts : Fin n → Action α)
    (next prev : Node n → Node n) (events : List (Event n)) :
    Always (step acts) (Drains acts) (.boot next prev) (steps acts false events) ↔
      Along (step acts) (Queueable acts) (.boot next prev) (steps acts false events) := by
  have hBoot : Conforms acts (State.boot next prev : State α n) [] := by
    refine ⟨?_, by simp, ?_, rfl⟩
    · exact .empty (by simp [State.boot]) (by simp [State.boot])
    · intro act cmd hAct
      cases hAct
  have hHolds : ∀ s : State α n, (∃ pending, Conforms acts s pending) → Drains acts s := by
    rintro s ⟨pending, hConforms⟩
    exact hConforms.drains
  apply always_iff_along hHolds _ _ ⟨[], hBoot⟩
  · rintro s (act | _) ⟨pending, hConforms⟩ hQueueable
    · rcases hQueueable with ⟨hCommands, hNew⟩
      rw [hConforms.waiting_eq] at hNew
      exact ⟨_, rfl, _, hConforms.queue hCommands hNew⟩
    · rcases hConforms.execute with ⟨s', pending', hMove, hConforms', _⟩
      exact ⟨s', hMove, pending', hConforms'⟩
  · rintro s (act | _) s' ⟨pending, hConforms⟩ hNot hStep
    · cases hStep
      exact not_drains_of_broken (hConforms.broken_of_queue hNot) hConforms.atCommand
    · exact absurd trivial hNot

/- Two actions with one command each. -/
def twoActions : Fin 2 → Action Nat
| 0 => ⟨str "property:a=1", [10]⟩
| 1 => ⟨str "property:b=1", [20]⟩

/-
  The first action is queued again before it has run: it is run again and again, and the second one
  never is.
-/
theorem requeued_action_runs_forever :
    let events : List (Event 2) := [.queuePropertyTriggersAction fun _ => none,
        .propertyChanged (str "a") (str "1"), .propertyChanged (str "b") (str "1"),
        .propertyChanged (str "a") (str "1")]
    ∃ last after, run (step twoActions) (.boot (fun _ => none) (fun _ => none))
        (steps twoActions false events) = .ok last ∧ last.queued = [0, 1, 0] ∧
      run (step twoActions) last (replicate 4 .execute) = .ok after ∧
      after.executed = [(0, 10), (0, 10), (0, 10), (0, 10)] ∧ ¬ Drains twoActions last := by
  refine ⟨_, _, rfl, rfl, rfl, rfl, ?_⟩
  apply not_drains_of_broken
  · exact .stuck 0 ⟨rfl, .inr ⟨rfl, by decide, by decide⟩⟩
  · intro act cmd hAct
    cases hAct

end OpenIvi.Init.Actions
