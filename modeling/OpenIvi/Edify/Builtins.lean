import Mathlib.Data.List.Nodup
import OpenIvi.Lib.Buffer

/-
  Expressions of the edify language and their evaluation.

  A builtin gets its arguments unevaluated and evaluates them itself. `Eval` is the monad the
  builtins are written in: it carries the interpreter state and records which argument was visited,
  with the events of that visit. `eval` puts the records together to the events of the whole
  evaluation, each with the path of the expression it is about.

  `Spec` says of a computation that it returns and what its visits and its value are; there is one
  rule for each way to compose computations. `Obeys` is what the builtins have in common when they
  are applied to the number of arguments they need, and `call_obeys` shows it for each of them.

  `Conforms` says which events an evaluation should have. It is shown over the events of whole
  evaluations, which `Traced` builds up from the visits of each builtin. Every evaluation selects
  the right branches and stops at the first NULL. The order from left to right is kept exactly when
  no `greater_than_int` is visited.

  The parser takes any number of arguments for a registered function. Most builtins look at the
  number; `sleep` and `is_substring` use their arguments without looking.

  Main declarations:
    * `Expr`
    * `call_obeys`
    * `edify_conforms_iff`
    * `edify_arguments_present_iff`
-/

------
-- Expressions, Values And States
------

namespace OpenIvi.Edify

open Lib List

/- The functions of the operators and the builtins. -/
inductive Fn where
| literal
| concat
| logicalAnd
| logicalOr
| logicalNot
| substring
| equality
| inequality
| sequence
| ifElse
| abort
| assert
| sleep
| stdout
| lessThanInt
| greaterThanInt
deriving DecidableEq, Repr

/- An expression with its place in the script. -/
inductive Expr where
| mk (fn : Fn) (name : Str) (argv : List Expr)
    (start stop : Nat)

inductive ValueType where
| string
| blob
deriving DecidableEq, Repr

structure Value where
  type : ValueType
  data : Str
deriving DecidableEq, Repr

/- `State`, with the effects of `stdout` and `sleep`. -/
structure State where
  script : Str
  errmsg : Option Str := none
  output : Str := []
  slept : List Int := []

/- A path names an argument of an argument and so on. -/
abbrev Path := List Nat

/- An expression is visited, or its visit yields a value. -/
inductive Event where
| enter (path : Path)
| leave (path : Path) (value : Option Value)
deriving DecidableEq, Repr

/- The event as seen from the expression above. -/
def Event.below (i : Nat) : Event → Event
| .enter path => .enter (i :: path)
| .leave path value => .leave (i :: path) value

------
-- The Monad Of The Builtins
------

/- An argument was visited. -/
structure Visit where
  index : Nat
  events : List Event
  value : Option Value

def Visit.below (v : Visit) : List Event :=
  v.events.map (Event.below v.index)

/- The result of an evaluation. -/
structure Result where
  events : List Event
  state : State
  value : Option Value

/- An argument: its evaluation and its place. -/
structure Arg where
  run : State → Except Fault Result
  start : Nat
  stop : Nat

structure Outcome (α : Type) where
  visits : List Visit
  state : State
  value : α

/- What a builtin does with its arguments. -/
def Eval (α : Type) := List Arg → State → Except Fault (Outcome α)

instance : Monad Eval where
  pure a := fun _ st => .ok ⟨[], st, a⟩
  bind m f := fun argv st =>
    match m argv st with
    | .error fault => .error fault
    | .ok first =>
      match f first.value argv first.state with
      | .error fault => .error fault
      | .ok second => .ok { second with visits := first.visits ++ second.visits }

def getState : Eval State := fun _ st => .ok ⟨[], st, st⟩

def modifyState (f : State → State) : Eval Unit :=
  fun _ st => .ok ⟨[], f st, ()⟩

def setErrmsg (msg : Str) : Eval Unit :=
  modifyState fun st => { st with errmsg := some msg }

def argc : Eval Nat := fun argv st => .ok ⟨[], st, argv.length⟩

/- `argv[i]`. -/
def argument (i : Nat) : Eval Arg :=
  fun argv st =>
    match argv[i]? with
    | none => .error .outOfBounds
    | some arg => .ok ⟨[], st, arg⟩

/- `EvaluateValue(state, argv[i])`. -/
def evaluateValue (i : Nat) : Eval (Option Value) :=
  fun argv st =>
    match argv[i]? with
    | none => .error .outOfBounds
    | some arg =>
      match arg.run st with
      | .error fault => .error fault
      | .ok r => .ok ⟨[⟨i, r.events, r.value⟩], r.state, r.value⟩

/- `Evaluate(state, argv[i])`. -/
def evaluate (i : Nat) : Eval (Option Str) := do
  match ← evaluateValue i with
  | none => return none
  | some v =>
    match v.type with
    | .string => return some v.data
    | .blob =>
      setErrmsg
        (str "expecting string, got value type 2")
      return none

------
-- The Builtins
------

def stringValue (s : Str) : Option Value :=
  some ⟨.string, s⟩

def booleanString (s : Str) : Bool :=
  s != []

/- The strings of a truth value. -/
def truthString (b : Bool) : Str :=
  if b then str "t" else []

/- Evaluate `n` arguments from `i` on. -/
def evaluateFrom : Nat → Nat → Eval (Option (List Str))
| _, 0 => return some []
| i, n + 1 => do
    match ← evaluate i with
    | none => return none
    | some s =>
      match ← evaluateFrom (i + 1) n with
      | none => return none
      | some ss => return some (s :: ss)

def concatFn : Eval (Option Value) := do
  match ← evaluateFrom 0 (← argc) with
  | none => return none
  | some strings => return stringValue strings.flatten

/- The three branches of `IfElseFn` behind the condition. -/
def ifElseBranch (n : Nat) (cond : Str) : Eval (Option Value) :=
  if booleanString cond then evaluateValue 1
  else if n = 3 then evaluateValue 2
  else return stringValue cond

def ifElseFn : Eval (Option Value) := do
  let n ← argc
  if n ≠ 2 ∧ n ≠ 3 then
    setErrmsg (str "ifelse expects 2 or 3 arguments")
    return none
  else
    match ← evaluate 0 with
    | none => return none
    | some cond => ifElseBranch n cond

def abortFn : Eval (Option Value) := do
  let n ← argc
  if 0 < n then
    match ← evaluate 0 with
    | some msg =>
      setErrmsg msg
      return none
    | none =>
      setErrmsg (str "called abort()")
      return none
  else
    setErrmsg (str "called abort()")
    return none

/- The message names the argument as it is in the script. -/
def assertFailed (i : Nat) : Eval (Option Value) := do
  let arg ← argument i
  let st ← getState
  setErrmsg (str "assert failed: " ++ (st.script.drop arg.start).take (arg.stop - arg.start))
  return none

/- Check `n` arguments from `i` on. -/
def assertFrom : Nat → Nat → Eval (Option Value)
| _, 0 => return stringValue []
| i, n + 1 => do
    match ← evaluate i with
    | none => return none
    | some v =>
      if booleanString v then assertFrom (i + 1) n
      else assertFailed i

def assertFn : Eval (Option Value) := do
  assertFrom 0 (← argc)

def isSpace (c : UInt8) : Bool :=
  c == 32 || (9 ≤ c && c ≤ 13)

def isDigit (c : UInt8) : Bool :=
  48 ≤ c && c ≤ 57

/- A `long` has 32 bits; larger numbers are cut off. -/
def clampLong (n : Int) : Int :=
  max (-2 ^ 31) (min (2 ^ 31 - 1) n)

/- `strtol` with base 10: the number and what is behind it. -/
def strtol (s : Str) : Int × Str :=
  let t := s.dropWhile isSpace
  let (negative, u) := match t with
    | 45 :: rest => (true, rest)
    | 43 :: rest => (false, rest)
    | _ => (false, t)
  let digits := u.takeWhile isDigit
  let n : Int := digits.foldl (fun n c => 10 * n + (c.toNat - 48)) 0
  if digits = [] then (0, s)
  else
    (clampLong (if negative then -n else n), u.dropWhile isDigit)

def sleepFn : Eval (Option Value) := do
  match ← evaluate 0 with
  | none => return none
  | some val =>
    modifyState fun st =>
      { st with slept := st.slept ++ [(strtol val).1] }
    return stringValue val

/- Print `n` arguments from `i` on. -/
def stdoutFrom : Nat → Nat → Eval (Option Value)
| _, 0 => return stringValue []
| i, n + 1 => do
    match ← evaluate i with
    | none => return none
    | some v =>
      modifyState fun st =>
        { st with output := st.output ++ v }
      stdoutFrom (i + 1) n

def stdoutFn : Eval (Option Value) := do
  stdoutFrom 0 (← argc)

def logicalAndFn : Eval (Option Value) := do
  match ← evaluate 0 with
  | none => return none
  | some left =>
    if booleanString left then evaluateValue 1
    else return stringValue left

def logicalOrFn : Eval (Option Value) := do
  match ← evaluate 0 with
  | none => return none
  | some left =>
    if booleanString left then return stringValue left
    else evaluateValue 1

def logicalNotFn : Eval (Option Value) := do
  match ← evaluate 0 with
  | none => return none
  | some val => return stringValue (truthString (!booleanString val))

/- Evaluate two arguments and combine them. -/
def binaryFn (first second : Nat) (f : Str → Str → Bool) : Eval (Option Value) := do
  match ← evaluate first with
  | none => return none
  | some left =>
    match ← evaluate second with
    | none => return none
    | some right => return stringValue (truthString (f left right))

/- `strstr` finds the needle. -/
def strstr (haystack needle : Str) : Bool :=
  haystack.tails.any fun s => needle.isPrefixOf s

def substringFn : Eval (Option Value) :=
  binaryFn 0 1 fun needle haystack => strstr haystack needle

def equalityFn : Eval (Option Value) :=
  binaryFn 0 1 fun left right => left == right

def inequalityFn : Eval (Option Value) :=
  binaryFn 0 1 fun left right => left != right

def sequenceFn : Eval (Option Value) := do
  match ← evaluateValue 0 with
  | none => return none
  | some _ => evaluateValue 1

/- Both strings are numbers and the first one is less. -/
def lessThan (left right : Str) : Bool :=
  let l := strtol left
  let r := strtol right
  left != [] && l.2 == [] && (right != [] && r.2 == []) && decide (l.1 < r.1)

/- `LessThanIntFn` for the given two arguments. -/
def lessThanIntFn (n first second : Nat) : Eval (Option Value) :=
  if n ≠ 2 then do
    setErrmsg (str "less_than_int expects 2 arguments")
    return none
  else
    binaryFn first second lessThan

/- `GreaterThanIntFn` exchanges the arguments. -/
def greaterThanIntFn (n : Nat) : Eval (Option Value) :=
  if n ≠ 2 then do
    setErrmsg (str "greater_than_int expects 2 arguments")
    return none
  else
    lessThanIntFn 2 1 0

/- `expr->fn(expr->name, state, expr->argc, expr->argv)`. -/
def call (fn : Fn) (name : Str) : Eval (Option Value) :=
  match fn with
  | .literal => return stringValue name
  | .concat => concatFn
  | .logicalAnd => logicalAndFn
  | .logicalOr => logicalOrFn
  | .logicalNot => logicalNotFn
  | .substring => substringFn
  | .equality => equalityFn
  | .inequality => inequalityFn
  | .sequence => sequenceFn
  | .ifElse => ifElseFn
  | .abort => abortFn
  | .assert => assertFn
  | .sleep => sleepFn
  | .stdout => stdoutFn
  | .lessThanInt => do lessThanIntFn (← argc) 0 1
  | .greaterThanInt => do greaterThanIntFn (← argc)

------
-- Evaluation
------

/- The events of an expression from those of its builtin. -/
def Outcome.result (o : Outcome (Option Value)) : Result where
  events := .enter [] :: (o.visits.flatMap Visit.below ++ [.leave [] o.value])
  state := o.state
  value := o.value

mutual

def eval : Expr → State → Except Fault Result
| .mk fn name argv _ _, st =>
  (call fn name (arguments argv) st).map Outcome.result

/- The arguments as a builtin gets them. -/
def arguments : List Expr → List Arg
| [] => []
| .mk fn name argv start stop :: rest =>
  ⟨eval (.mk fn name argv start stop), start, stop⟩ :: arguments rest

end

------
-- Specifications Of Computations
------

variable {c : Value}

/- No value but a string. -/
def IsString (value : Option Value) : Prop :=
  ∀ c, value = some c → c.type = .string

/- Every argument can be evaluated, to a string or NULL. -/
def Yields (argv : List Arg) : Prop :=
  ∀ arg ∈ argv, ∀ st, ∃ r, arg.run st = .ok r ∧ IsString r.value

/- The visit is the evaluation of the argument it names. -/
def Visited (argv : List Arg) (v : Visit) : Prop :=
  ∃ arg st r, argv[v.index]? = some arg ∧ arg.run st = .ok r ∧
      r.events = v.events ∧ r.value = v.value

/- The computation returns with such visits and a value. -/
def Spec {α : Type} (argv : List Arg) (m : Eval α) (post : List Visit → α → Prop) : Prop :=
  ∀ st, ∃ o, m argv st = .ok o ∧ (∀ v ∈ o.visits, Visited argv v) ∧ post o.visits o.value

variable {α β : Type} {argv : List Arg} {m : Eval α}

theorem Spec.mono {post post' : List Visit → α → Prop}
    (hSpec : Spec argv m post) (hPost : ∀ vs a, post vs a → post' vs a) : Spec argv m post' := by
  intro st
  rcases hSpec st with ⟨o, hRun, hVisited, hHolds⟩
  exact ⟨o, hRun, hVisited, hPost _ _ hHolds⟩

theorem Spec.pure {post : List Visit → α → Prop} {a : α}
    (hPost : post [] a) : Spec argv (Pure.pure a) post := by
  intro st
  refine ⟨⟨[], st, a⟩, rfl, ?_, hPost⟩
  intro v hMem
  cases hMem

variable {post : List Visit → β → Prop}

/- The visits of the parts follow each other. -/
theorem Spec.bind {f : α → Eval β} {mid : List Visit → α → Prop} (hFirst : Spec argv m mid)
    (hThen : ∀ vs a, mid vs a → Spec argv (f a) fun ws b => post (vs ++ ws) b) :
    Spec argv (m >>= f) post := by
  intro st
  rcases hFirst st with ⟨o, hRun, hVisited, hMid⟩
  rcases hThen _ _ hMid o.state with ⟨o', hRun', hVisited', hPost⟩
  refine ⟨{ o' with visits := o.visits ++ o'.visits }, ?_, ?_, hPost⟩
  · simp only [Bind.bind, hRun, hRun']
  · intro v hMem
    rcases mem_append.mp hMem with hMem | hMem
    · exact hVisited v hMem
    · exact hVisited' v hMem

theorem Spec.quiet_bind {f : α → Eval β} (hQuiet : ∀ st, ∃ st' a, m argv st = .ok ⟨[], st', a⟩)
    (hThen : ∀ a, Spec argv (f a) post) : Spec argv (m >>= f) post := by
  have hFirst : Spec argv m fun vs _ => vs = [] := by
    intro st
    rcases hQuiet st with ⟨st', a, hRun⟩
    exact ⟨_, hRun, by simp, rfl⟩
  apply hFirst.bind
  intro vs a hNil
  subst hNil
  exact hThen a

theorem Spec.modifyState_bind {g : State → State}
    {f : Unit → Eval β} (hThen : Spec argv (f ()) post) : Spec argv (modifyState g >>= f) post := by
  apply Spec.quiet_bind
  · intro st
    exact ⟨g st, (), rfl⟩
  · intro a
    exact hThen

theorem Spec.setErrmsg_pure {msg : Str} {a : α} {post : List Visit → α → Prop} (hPost : post [] a) :
    Spec argv (do setErrmsg msg; return a) post :=
  .modifyState_bind (.pure hPost)

theorem Spec.argc_bind {f : Nat → Eval β} (hThen : Spec argv (f argv.length) post) :
    Spec argv (argc >>= f) post := by
  have hFirst : Spec argv argc fun vs n => vs = [] ∧ n = argv.length := by
    intro st
    exact ⟨⟨[], st, argv.length⟩, rfl, by simp, rfl, rfl⟩
  apply hFirst.bind
  intro vs n hPost
  rcases hPost with ⟨hNil, hLength⟩
  subst hNil hLength
  exact hThen

section

variable {i : Nat} (hYields : Yields argv) (hIndex : i < argv.length)

include hYields hIndex

/- An argument is evaluated: one visit, and its value. -/
theorem Spec.evaluateValue {post : List Visit → Option Value → Prop}
    (hPost : ∀ v : Visit, v.index = i → IsString v.value →
      post [v] v.value) : Spec argv (evaluateValue i) post := by
  intro st
  have hArg : argv[i]? = some argv[i] := getElem?_eq_getElem hIndex
  rcases hYields argv[i] (getElem_mem hIndex) st with ⟨r, hRun, hString⟩
  refine ⟨⟨[⟨i, r.events, r.value⟩], r.state, r.value⟩, ?_, ?_,
    hPost ⟨i, r.events, r.value⟩ rfl hString⟩
  · simp only [Edify.evaluateValue, hArg, hRun]
  · intro v hMem
    rw [mem_singleton.mp hMem]
    exact ⟨argv[i], st, r, hArg, hRun, rfl, rfl⟩

theorem Spec.evaluateValue_bind {f : Option Value → Eval β}
    (hThen : ∀ v : Visit, v.index = i → IsString v.value →
      Spec argv (f v.value) fun ws b => post (v :: ws) b) :
    Spec argv (Edify.evaluateValue i >>= f) post := by
  have hFirst : Spec argv (Edify.evaluateValue i) fun vs a => ∃ v : Visit, vs = [v] ∧ a = v.value ∧
      v.index = i ∧ IsString v.value := by
    apply Spec.evaluateValue hYields hIndex
    intro v hAt hString
    exact ⟨v, rfl, rfl, hAt, hString⟩
  apply hFirst.bind
  intro vs a hMid
  rcases hMid with ⟨v, hVs, hA, hAt, hString⟩
  subst hVs hA
  exact hThen v hAt hString

/-
  The continuation of `Evaluate` sees NULL or the bytes of the string. The type check never fails
  here.
-/
theorem Spec.evaluate_bind {f : Option Str → Eval β}
    (hNull : ∀ v : Visit, v.index = i → v.value = none →
      Spec argv (f none) fun ws b => post (v :: ws) b)
    (hSome : ∀ (v : Visit) c, v.index = i → v.value = some c →
      Spec argv (f (some c.data)) fun ws b =>
        post (v :: ws) b) : Spec argv (evaluate i >>= f) post := by
  have hFirst : Spec argv (evaluate i) fun vs s => ∃ v : Visit, vs = [v] ∧ v.index = i ∧
      s = v.value.map Value.data := by
    apply Spec.evaluateValue_bind hYields hIndex
    intro v hAt hString
    cases hValue : v.value with
    | none => exact .pure ⟨v, rfl, hAt, by rw [hValue]; rfl⟩
    | some c =>
      have hType : c.type = .string := hString c hValue
      simp only [hType]
      exact .pure ⟨v, rfl, hAt, by rw [hValue]; rfl⟩
  apply hFirst.bind
  intro vs s hMid
  rcases hMid with ⟨v, hVs, hAt, hS⟩
  subst hVs hS
  cases hValue : v.value with
  | none => exact hNull v hAt hValue
  | some c => exact hSome v c hAt hValue

end

------
-- Visits In A Planned Order
------

/-
  Arguments are visited in the planned order, and none after one that yields NULL; `null` says
  whether the result is NULL. The plan may be left early.
-/
inductive Scan : List Nat → List Visit → Bool → Prop where
| stop (plan : List Nat) (null : Bool) :
    Scan plan [] null
| null (v : Visit) (plan : List Nat)
    (hValue : v.value = none) :
    Scan (v.index :: plan) [v] true
| next (v : Visit) (c : Value) {plan : List Nat}
    {vs : List Visit} {null : Bool}
    (hValue : v.value = some c)
    (hRest : Scan plan vs null) :
    Scan (v.index :: plan) (v :: vs) null

variable {vs : List Visit}

section

variable {plan : List Nat} {null : Bool} (hScan : Scan plan vs null)

include hScan

theorem Scan.indices : ∃ rest, plan = vs.map Visit.index ++ rest := by
  induction hScan with
  | stop plan null | null v plan hValue => exact ⟨plan, rfl⟩
  | next v c hValue hRest ih =>
    rcases ih with ⟨rest, hPlan⟩
    exact ⟨rest, by rw [hPlan]; rfl⟩

theorem Scan.halts : vs.Pairwise fun v _ => v.value ≠ none := by
  induction hScan with
  | stop plan null => exact List.Pairwise.nil
  | null v plan hValue => exact pairwise_singleton _ v
  | next v c hValue hRest ih =>
    refine pairwise_cons.mpr ⟨?_, ih⟩
    intro w hMem
    rw [hValue]
    exact Option.some_ne_none c

theorem Scan.null_eq : ∀ v ∈ vs, v.value = none → null = true := by
  induction hScan with
  | stop plan null =>
    intro v hMem
    cases hMem
  | null v plan hValue =>
    intro w hMem hNone
    rfl
  | next v c hValue hRest ih =>
    intro w hMem hNone
    rcases mem_cons.mp hMem with hEq | hMem
    · rw [hEq, hValue] at hNone
      cases hNone
    · exact ih w hMem hNone

end

------
-- What The Builtins Have In Common
------

/- The number of arguments a function needs. -/
def Fn.Takes : Fn → Nat → Prop
| .literal, n => n = 0
| .concat, _ | .assert, _ | .stdout, _ | .abort, _ => True
| .logicalNot, n | .sleep, n => n = 1
| .ifElse, n => n = 2 ∨ n = 3
| _, n => n = 2

/- The functions that select one of their branches. -/
def Fn.branching (fn : Fn) : Bool :=
  fn = .logicalAnd || fn = .logicalOr || fn = .ifElse

/- The branch for the truth value of the first argument. -/
def Fn.selected : Fn → Bool → Option Nat
| .logicalAnd, true => some 1
| .logicalOr, false => some 1
| .ifElse, true => some 1
| .ifElse, false => some 2
| _, _ => none

/-
  The visits of a function with `n` arguments and its value. `greater_than_int` is the only function
  that does not take its arguments from left to right.
-/
structure Obeys (fn : Fn) (n : Nat) (vs : List Visit) (value : Option Value) : Prop where
  string : IsString value
  nodup : (vs.map Visit.index).Nodup
  halts : vs.Pairwise fun v _ => v.value ≠ none
  null : ∀ v ∈ vs, v.value = none → value = none
  ordered : fn ≠ .greaterThanInt → (vs.map Visit.index).Pairwise (· < ·)
  leftFirst : fn ≠ .greaterThanInt → ∀ v ∈ vs, ∀ i < v.index,
      (fn = .ifElse ∧ i = 1) ∨ ∃ w ∈ vs, w.index = i
  chosen : fn.branching = true → ∀ v ∈ vs, v.index = 0 → ∀ c, v.value = some c →
      ∀ i, 0 < i → i < n → ((∃ w ∈ vs, w.index = i) ↔ fn.selected (booleanString c.data) = some i)
  exchanged : fn = .greaterThanInt → ∃ v rest, vs = v :: rest ∧ v.index = 1

variable {fn : Fn} {value : Option Value}

/- A scan from left to right. -/
theorem Obeys.of_scan {n : Nat} (hString : IsString value)
    (hFn : fn ≠ .greaterThanInt) (hPlain : fn.branching = false)
    (hScan : Scan (range' 0 n) vs value.isNone) : Obeys fn n vs value := by
  rcases hScan.indices with ⟨rest, hPlan⟩
  have hSorted : (vs.map Visit.index).Pairwise (· < ·) := by
    have hAll := pairwise_lt_range' (s := 0) (n := n)
    rw [hPlan] at hAll
    exact (pairwise_append.mp hAll).1
  refine ⟨hString, ?_, hScan.halts, ?_, fun _ => hSorted, ?_, ?_, ?_⟩
  · exact hSorted.imp ne_of_lt
  · intro v hMem hNone
    exact Option.isNone_iff_eq_none.mp (hScan.null_eq v hMem hNone)
  · intro _ v hMem i hLess
    right
    -- the indices are the first numbers, so none is missing
    rcases getElem_of_mem hMem with ⟨k, hK, hAt⟩
    have hIndex : ∀ j (hJ : j < vs.length), vs[j].index = j := by
      intro j hJ
      have hGet : (List.range' 0 n)[j]? = some vs[j].index := by
        rw [hPlan, getElem?_append_left (by simpa), getElem?_map, getElem?_eq_getElem hJ,
          Option.map_some]
      rcases List.getElem?_eq_some_iff.mp hGet with ⟨hLt, hEq⟩
      simpa using hEq.symm
    rw [← hAt, hIndex k hK] at hLess
    have hI : i < vs.length := lt_trans hLess hK
    exact ⟨vs[i], getElem_mem hI, hIndex i hI⟩
  · intro hBranching
    rw [hPlain] at hBranching
    cases hBranching
  · intro hGreater
    exact absurd hGreater hFn

/- Two arguments from right to left. -/
theorem Obeys.of_exchanged (hString : IsString value)
    (hScan : Scan [1, 0] vs value.isNone) (hSome : vs ≠ []) : Obeys .greaterThanInt 2 vs value := by
  rcases hScan.indices with ⟨rest, hPlan⟩
  refine ⟨hString, ?_, hScan.halts, ?_, ?_, ?_, ?_, ?_⟩
  · have hAll : [1, 0].Nodup := by decide
    rw [hPlan] at hAll
    exact (pairwise_append.mp hAll).1
  · intro v hMem hNone
    exact Option.isNone_iff_eq_none.mp (hScan.null_eq v hMem hNone)
  · intro hFn
    exact absurd rfl hFn
  · intro hFn
    exact absurd rfl hFn
  · intro hBranching
    cases hBranching
  · intro _
    cases vs with
    | nil => exact absurd rfl hSome
    | cons v tail =>
      injection hPlan with hHead hTail
      exact ⟨v, tail, rfl, hHead.symm⟩

/- The condition yields NULL or selects no branch. -/
theorem Obeys.of_single {n : Nat} {v : Visit}
    (hString : IsString value) (hBranching : fn.branching = true) (hIndex : v.index = 0)
    (hNull : v.value = none → value = none)
    (hNone : ∀ c, v.value = some c → ∀ i < n, fn.selected (booleanString c.data) ≠ some i) :
    Obeys fn n [v] value := by
  refine ⟨hString, pairwise_singleton _ _, pairwise_singleton _ v, ?_,
    fun _ => pairwise_singleton _ _, ?_, ?_, ?_⟩
  · intro w hMem
    rw [mem_singleton.mp hMem]
    exact hNull
  · intro _ w hMem i hLess
    rw [mem_singleton.mp hMem, hIndex] at hLess
    exact absurd hLess (Nat.not_lt_zero i)
  · intro _ w hMem _ c hSome i hPos hLt
    rw [mem_singleton.mp hMem] at hSome
    constructor
    · intro hVisit
      rcases hVisit with ⟨u, hU, hAt⟩
      rw [mem_singleton.mp hU, hIndex] at hAt
      exact absurd hAt (ne_of_lt hPos)
    · intro hSelected
      exact absurd hSelected (hNone c hSome i hLt)
  · intro hGreater
    rw [hGreater] at hBranching
    cases hBranching

theorem Fn.selected_cases {b : Bool} {i : Nat} (hSelected : fn.selected b = some i) :
    i = 1 ∨ (fn = .ifElse ∧ i = 2) := by
  cases fn <;> cases b <;> simp_all [Fn.selected]

/- The condition and the selected branch. -/
theorem Obeys.of_pair {n : Nat} {v w : Visit}
    (hString : IsString w.value) (hBranching : fn.branching = true)
    (hIndex : v.index = 0) (hValue : v.value = some c)
    (hSelected : fn.selected (booleanString c.data) = some w.index) :
    Obeys fn n [v, w] w.value := by
  have hPos : 0 < w.index := by
    rcases Fn.selected_cases hSelected with hOne | hTwo
    · rw [hOne]
      exact one_pos
    · rw [hTwo.2]
      exact Nat.two_pos
  have hSorted : ([v, w].map Visit.index).Pairwise (· < ·) := by simp [hIndex, hPos]
  refine ⟨hString, hSorted.imp Nat.ne_of_lt, ?_, ?_, fun _ => hSorted, ?_, ?_, ?_⟩
  · simp [hValue]
  · intro u hMem hNull
    rcases mem_pair.mp hMem with hEq | hEq
    · rw [hEq, hValue] at hNull
      cases hNull
    · rw [← hEq, hNull]
  · intro _ u hMem i hLess
    rcases Nat.eq_zero_or_pos i with hZero | hI
    · exact .inr ⟨v, mem_cons_self, by rw [hIndex, hZero]⟩
    · rcases mem_pair.mp hMem with hEq | hEq
      · rw [hEq, hIndex] at hLess
        exact absurd hLess (Nat.not_lt_zero i)
      · rw [hEq] at hLess
        rcases Fn.selected_cases hSelected with hOne | hTwo
        · omega
        · exact .inl ⟨hTwo.1, by omega⟩
  · intro _ u hMem hZero c' hSome i hI hLt
    rcases mem_pair.mp hMem with hEq | hEq
    · rw [hEq, hValue] at hSome
      injection hSome with hC
      rw [← hC, hSelected]
      constructor
      · intro hVisit
        rcases hVisit with ⟨x, hX, hAt⟩
        rcases mem_pair.mp hX with hEq | hEq
        · rw [hEq, hIndex] at hAt
          exact absurd hAt (ne_of_lt hI)
        · rw [← hEq, hAt]
      · intro hAt
        injection hAt with hAt
        exact ⟨w, mem_pair.mpr (.inr rfl), hAt⟩
    · rw [hEq] at hZero
      exact absurd hZero (ne_of_gt hPos)
  · intro hGreater
    rw [hGreater] at hBranching
    cases hBranching

------
-- The Builtins One By One
------

theorem isString_none : IsString none := by
  intro c hSome
  cases hSome

theorem isString_stringValue (s : Str) : IsString (stringValue s) := by
  intro c hSome
  injection hSome with hC
  rw [← hC]

/- What the loops over the arguments do. -/
def Scans (i n : Nat) (vs : List Visit) (value : Option Value) : Prop :=
  IsString value ∧ Scan (range' i n) vs value.isNone

variable {i n : Nat}

theorem scans_stop {value : Option Value} (hString : IsString value) : Scans i n [] value :=
  ⟨hString, .stop _ _⟩

section

variable {v : Visit} (hIndex : v.index = i)

include hIndex

theorem scans_null (hValue : v.value = none) : Scans i (n + 1) [v] none := by
  subst hIndex
  exact ⟨isString_none, .null v _ hValue⟩

theorem scans_next {vs : List Visit} {value : Option Value}
    (hValue : v.value = some c) (hRest : Scans (i + 1) n vs value) :
    Scans i (n + 1) (v :: vs) value := by
  subst hIndex
  exact ⟨hRest.1, .next v c hValue hRest.2⟩

theorem scans_last (hString : IsString v.value) : Scans i (n + 1) [v] v.value := by
  cases hValue : v.value with
  | none => exact scans_null hIndex hValue
  | some c =>
    rw [hValue] at hString
    exact scans_next hIndex hValue (scans_stop hString)

end

theorem assertFailed_spec {post : List Visit → Option Value → Prop}
    (hIndex : i < argv.length) (hPost : post [] none) : Spec argv (assertFailed i) post := by
  have hArg : argv[i]? = some argv[i] := getElem?_eq_getElem hIndex
  apply Spec.quiet_bind
  · intro st
    exact ⟨st, argv[i], by simp only [argument, hArg]⟩
  · intro arg
    apply Spec.quiet_bind
    · intro st
      exact ⟨st, st, rfl⟩
    · intro st
      exact .setErrmsg_pure hPost

variable {f : Option Str → Eval (Option Value)}

section

variable (hYields : Yields argv)

include hYields

theorem evaluateFrom_spec :
    ∀ n i, i + n = argv.length → Spec argv (evaluateFrom i n)
      fun vs ss => Scan (range' i n) vs ss.isNone := by
  intro n
  induction n with
  | zero =>
    intro i hSum
    exact .pure (.stop _ _)
  | succ n ih =>
    intro i hSum
    apply Spec.evaluate_bind hYields (by omega)
    · intro v hIndex hValue
      subst hIndex
      exact .pure (.null v _ hValue)
    · intro v c hIndex hValue
      subst hIndex
      apply (ih (v.index + 1) (by omega)).bind
      intro vs ss hScan
      cases ss with
      | none | some ss =>
        apply Spec.pure
        rw [append_nil]
        exact .next v c hValue hScan

theorem concatFn_spec : Spec argv concatFn (Scans 0 argv.length) := by
  apply Spec.argc_bind
  apply (evaluateFrom_spec hYields _ 0 (zero_add _)).bind
  intro vs ss hScan
  cases ss with
  | none =>
    apply Spec.pure
    rw [append_nil]
    exact ⟨isString_none, hScan⟩
  | some ss =>
    apply Spec.pure
    rw [append_nil]
    exact ⟨isString_stringValue _, hScan⟩

/- The next argument ends the loop with NULL or leaves the rest to it. -/
theorem scan_spec (hIndex : i < argv.length) (hNull : f none = pure none)
    (hSome : ∀ s, Spec argv (f (some s)) (Scans (i + 1) n)) :
    Spec argv (evaluate i >>= f) (Scans i (n + 1)) := by
  apply Spec.evaluate_bind hYields hIndex
  · intro v hAt hValue
    rw [hNull]
    exact .pure (scans_null hAt hValue)
  · intro v c hAt hValue
    apply (hSome c.data).mono
    intro vs value hRest
    exact scans_next hAt hValue hRest

theorem assertFrom_spec : ∀ n i, i + n = argv.length → Spec argv (assertFrom i n) (Scans i n) := by
  intro n
  induction n with
  | zero =>
    intro i hSum
    exact .pure (scans_stop (isString_stringValue _))
  | succ n ih =>
    intro i hSum
    apply scan_spec hYields (by omega) rfl
    intro s
    by_cases hTrue : booleanString s = true
    · simp only [hTrue, if_true]
      exact ih (i + 1) (by omega)
    · simp only [hTrue]
      exact assertFailed_spec (by omega) (scans_stop isString_none)

theorem stdoutFrom_spec : ∀ n i, i + n = argv.length → Spec argv (stdoutFrom i n) (Scans i n) := by
  intro n
  induction n with
  | zero =>
    intro i hSum
    exact .pure (scans_stop (isString_stringValue _))
  | succ n ih =>
    intro i hSum
    apply scan_spec hYields (by omega) rfl
    intro s
    apply Spec.modifyState_bind
    exact ih (i + 1) (by omega)

theorem binaryFn_spec {first second : Nat} {f : Str → Str → Bool} (hFirst : first < argv.length)
    (hSecond : second < argv.length) :
    Spec argv (binaryFn first second f) fun vs value => IsString value ∧ vs ≠ [] ∧
      Scan [first, second] vs value.isNone := by
  apply Spec.evaluate_bind hYields hFirst
  · intro v hIndex hValue
    subst hIndex
    exact .pure ⟨isString_none, cons_ne_nil _ _, .null v _ hValue⟩
  · intro v c hIndex hValue
    subst hIndex
    apply Spec.evaluate_bind hYields hSecond
    · intro w hIndex hNull
      subst hIndex
      exact .pure ⟨isString_none, cons_ne_nil _ _, .next v c hValue (.null w _ hNull)⟩
    · intro w d hIndex hSome
      subst hIndex
      exact .pure ⟨isString_stringValue _, cons_ne_nil _ _,
        .next v c hValue (.next w d hSome (.stop _ _))⟩

theorem binaryFn_scans {f : Str → Str → Bool} (hLength : argv.length = 2) :
    Spec argv (binaryFn 0 1 f) (Scans 0 argv.length) := by
  rw [hLength]
  apply (binaryFn_spec hYields (by omega) (by omega)).mono
  intro vs value hPost
  exact ⟨hPost.1, hPost.2.2⟩

theorem logicalNotFn_spec (hLength : argv.length = 1) :
    Spec argv logicalNotFn (Scans 0 argv.length) := by
  rw [hLength]
  apply scan_spec hYields (by omega) rfl
  intro s
  exact .pure (scans_stop (isString_stringValue _))

theorem sleepFn_spec (hLength : argv.length = 1) : Spec argv sleepFn (Scans 0 argv.length) := by
  rw [hLength]
  apply scan_spec hYields (by omega) rfl
  intro s
  apply Spec.modifyState_bind
  exact .pure (scans_stop (isString_stringValue _))

theorem sequenceFn_spec (hLength : argv.length = 2) :
    Spec argv sequenceFn (Scans 0 argv.length) := by
  rw [hLength]
  apply Spec.evaluateValue_bind hYields (by omega)
  intro v hIndex hString
  cases hValue : v.value with
  | none => exact .pure (scans_null hIndex hValue)
  | some c =>
    apply Spec.evaluateValue hYields (by omega)
    intro w hNext hString
    exact scans_next hIndex hValue (scans_last hNext hString)

theorem abortFn_spec : Spec argv abortFn (Scans 0 argv.length) := by
  apply Spec.argc_bind
  cases hLength : argv.length with
  | zero => exact .setErrmsg_pure (scans_stop isString_none)
  | succ n =>
    apply Spec.evaluate_bind hYields (by omega)
    · intro v hIndex hValue
      exact .setErrmsg_pure (scans_null hIndex hValue)
    · intro v c hIndex hValue
      exact .setErrmsg_pure (scans_next hIndex hValue (scans_stop isString_none))

/- A condition is evaluated and then the branch that it selects, if there is one. -/
theorem branch_spec {fn : Fn} (hLength : 2 ≤ argv.length)
    (hFn : fn.branching = true) (hNull : f none = pure none)
    (hSome : ∀ s, (∃ j, j < argv.length ∧ fn.selected (booleanString s) = some j ∧
      f (some s) = evaluateValue j) ∨
      (∀ j, j < argv.length → fn.selected (booleanString s) ≠ some j) ∧
        f (some s) = pure (stringValue s)) :
    Spec argv (evaluate 0 >>= f) (Obeys fn argv.length) := by
  apply Spec.evaluate_bind hYields (by omega)
  · intro v hIndex hValue
    rw [hNull]
    exact .pure (.of_single isString_none hFn hIndex (fun _ => rfl) (by simp [hValue]))
  · intro v c hIndex hValue
    rcases hSome c.data with ⟨j, hLt, hSelected, hRun⟩ | ⟨hNone, hRun⟩
    · rw [hRun]
      apply Spec.evaluateValue hYields hLt
      intro w hNext hString
      apply Obeys.of_pair hString hFn hIndex hValue
      rw [hSelected, hNext]
    · rw [hRun]
      apply Spec.pure
      apply Obeys.of_single (isString_stringValue _) hFn hIndex (by simp [hValue])
      intro d hSome
      rw [hValue] at hSome
      injection hSome with hC
      rw [← hC]
      exact hNone

theorem logicalAndFn_spec (hLength : argv.length = 2) :
    Spec argv logicalAndFn (Obeys .logicalAnd argv.length) := by
  apply branch_spec hYields (by omega) rfl rfl
  intro s
  cases hTrue : booleanString s with
  | true => exact .inl ⟨1, by omega, rfl, by simp only [hTrue, if_true]⟩
  | false => exact .inr ⟨nofun, by simp [hTrue]⟩

theorem logicalOrFn_spec (hLength : argv.length = 2) :
    Spec argv logicalOrFn (Obeys .logicalOr argv.length) := by
  apply branch_spec hYields (by omega) rfl rfl
  intro s
  cases hTrue : booleanString s with
  | true => exact .inr ⟨nofun, by simp only [hTrue, if_true]⟩
  | false => exact .inl ⟨1, by omega, rfl, by simp [hTrue]⟩

theorem ifElseFn_spec (hLength : argv.length = 2 ∨ argv.length = 3) :
    Spec argv ifElseFn (Obeys .ifElse argv.length) := by
  apply Spec.argc_bind
  have hArity : ¬ (argv.length ≠ 2 ∧ argv.length ≠ 3) := by omega
  simp only [hArity, if_false]
  apply branch_spec hYields (by omega) rfl rfl
  intro s
  cases hTrue : booleanString s with
  | true => exact .inl ⟨1, by omega, rfl, by simp only [ifElseBranch, hTrue, if_true]⟩
  | false =>
    by_cases hThree : argv.length = 3
    · exact .inl ⟨2, by omega, rfl, by simp [ifElseBranch, hTrue, hThree]⟩
    · refine .inr ⟨?_, by simp [ifElseBranch, hTrue, hThree]⟩
      intro j hLt hSelected
      injection hSelected with hTwo
      omega

end

/- Every function with the arguments it needs. -/
theorem call_obeys {fn : Fn} (name : Str) (hYields : Yields argv) (hTakes : fn.Takes argv.length) :
    Spec argv (call fn name) (Obeys fn argv.length) := by
  have hScans : ∀ {m : Eval (Option Value)}, fn ≠ .greaterThanInt → fn.branching = false →
      Spec argv m (Scans 0 argv.length) → Spec argv m (Obeys fn argv.length) := by
    intro m hFn hPlain hSpec
    apply hSpec.mono
    intro vs value hPost
    exact Obeys.of_scan hPost.1 hFn hPlain hPost.2
  cases fn with
  | literal => exact hScans nofun rfl (.pure (scans_stop (isString_stringValue _)))
  | concat => exact hScans nofun rfl (concatFn_spec hYields)
  | logicalAnd => exact logicalAndFn_spec hYields hTakes
  | logicalOr => exact logicalOrFn_spec hYields hTakes
  | logicalNot => exact hScans nofun rfl (logicalNotFn_spec hYields hTakes)
  | substring | equality | inequality => exact hScans nofun rfl (binaryFn_scans hYields hTakes)
  | sequence => exact hScans nofun rfl (sequenceFn_spec hYields hTakes)
  | ifElse => exact ifElseFn_spec hYields hTakes
  | abort => exact hScans nofun rfl (abortFn_spec hYields)
  | assert => exact hScans nofun rfl (.argc_bind (assertFrom_spec hYields _ 0 (zero_add _)))
  | sleep => exact hScans nofun rfl (sleepFn_spec hYields hTakes)
  | stdout => exact hScans nofun rfl (.argc_bind (stdoutFrom_spec hYields _ 0 (zero_add _)))
  | lessThanInt =>
    apply hScans nofun rfl
    apply Spec.argc_bind
    have hTwo : argv.length = 2 := hTakes
    simp only [lessThanIntFn, hTwo, ne_eq, not_true, if_false]
    rw [← hTwo]
    exact binaryFn_scans hYields hTwo
  | greaterThanInt =>
    have hTwo : argv.length = 2 := hTakes
    apply Spec.argc_bind
    simp only [greaterThanIntFn, lessThanIntFn, hTwo, ne_eq, not_true, if_false]
    apply (binaryFn_spec hYields (by omega) (by omega)).mono
    intro vs value hPost
    exact Obeys.of_exchanged hPost.1 hPost.2.2 hPost.2.1

end OpenIvi.Edify

------
-- The Order Of An Evaluation
------

namespace OpenIvi.Edify

open Lib List

variable {v : Visit} {p : Path} {x : Expr} {i : Nat}

def Expr.fn : Expr → Fn
| .mk fn _ _ _ _ => fn

def Expr.argv : Expr → List Expr
| .mk _ _ argv _ _ => argv

/- Every function has the arguments it needs. -/
inductive WellFormed : Expr → Prop where
| mk {fn : Fn} {name : Str} {argv : List Expr}
    {start stop : Nat}
    (hTakes : fn.Takes argv.length)
    (hArgv : ∀ x ∈ argv, WellFormed x) :
    WellFormed (.mk fn name argv start stop)

/- The subexpression a path names. -/
def Expr.sub : Expr → Path → Option Expr
| e, [] => some e
| e, i :: p => e.argv[i]?.bind fun x => x.sub p

def Event.entered : Event → Option Path
| .enter path => some path
| .leave _ _ => none

/-
  Subexpressions are visited from left to right, at most once each. Paths are ordered as words: an
  expression comes before its arguments, and these from left to right. No path occurs twice in a
  strictly increasing list.
-/
def Ordered (t : List Event) : Prop :=
  (t.filterMap Event.entered).Pairwise (· < ·)

/-
  An argument is visited after all arguments to the left of it, apart from the first branch of
  `ifelse`.
-/
def LeftFirst (e : Expr) (t : List Event) : Prop :=
  ∀ p x i j, e.sub p = some x → i < j → .enter (p ++ [j]) ∈ t →
      (x.fn = .ifElse ∧ i = 1) ∨ .enter (p ++ [i]) ∈ t

/- Behind the condition only its branch is visited. -/
def Selected (e : Expr) (t : List Event) : Prop :=
  ∀ p x, e.sub p = some x → x.fn.branching = true → ∀ c, .leave (p ++ [0]) (some c) ∈ t →
      ∀ i, 0 < i → i < x.argv.length → (.enter (p ++ [i]) ∈ t ↔
          x.fn.selected (booleanString c.data) = some i)

/- Nothing is visited after a NULL. -/
def Stops (t : List Event) : Prop :=
  t.Pairwise fun a b => ∀ p q, a = .leave p none → b ≠ .enter q

/- One NULL makes the whole evaluation yield NULL. -/
def Propagates (t : List Event) (value : Option Value) : Prop :=
  ∀ p, .leave p none ∈ t → value = none

/- What the events of an evaluation should be. -/
structure Conforms (e : Expr) (t : List Event) (value : Option Value) : Prop where
  ordered : Ordered t
  leftFirst : LeftFirst e t
  selected : Selected e t
  stops : Stops t
  propagates : Propagates t value

/- A call of `greater_than_int` is visited. -/
def VisitsGreater (e : Expr) (t : List Event) : Prop :=
  ∃ p x, e.sub p = some x ∧ x.fn = .greaterThanInt ∧ .enter p ∈ t

------
-- The Events Of An Expression
------

def traceOf (vs : List Visit) (value : Option Value) : List Event :=
  .enter [] :: (vs.flatMap Visit.below ++ [.leave [] value])

variable {vs : List Visit} {value : Option Value}

theorem enter_mem_traceOf :
    .enter p ∈ traceOf vs value ↔ p = [] ∨ ∃ v ∈ vs, ∃ q, p = v.index :: q ∧
      .enter q ∈ v.events := by
  simp only [traceOf, mem_cons, mem_append, mem_flatMap, Visit.below, mem_map, not_mem_nil,
    or_false, reduceCtorEq, Event.enter.injEq]
  constructor
  · intro hMem
    rcases hMem with hNil | ⟨v, hV, a, hA, hEq⟩
    · exact .inl hNil
    · cases a with
      | enter q =>
        injection hEq with hEq
        exact .inr ⟨v, hV, q, hEq.symm, hA⟩
      | leave q x => cases hEq
  · intro hMem
    rcases hMem with hNil | ⟨v, hV, q, hEq, hA⟩
    · exact .inl hNil
    · exact .inr ⟨v, hV, .enter q, hA, by
        rw [hEq]
        rfl⟩

theorem leave_mem_traceOf {x : Option Value} :
    .leave p x ∈ traceOf vs value ↔ (p = [] ∧ x = value) ∨ ∃ v ∈ vs, ∃ q,
      p = v.index :: q ∧ .leave q x ∈ v.events := by
  simp only [traceOf, mem_cons, mem_append, mem_flatMap, Visit.below, mem_map, not_mem_nil,
    or_false, reduceCtorEq, false_or, Event.leave.injEq]
  constructor
  · intro hMem
    rcases hMem with ⟨v, hV, a, hA, hEq⟩ | hNil
    · cases a with
      | enter q => cases hEq
      | leave q y =>
        injection hEq with hEq hX
        subst hX
        exact .inr ⟨v, hV, q, hEq.symm, hA⟩
    · exact .inl hNil
  · intro hMem
    rcases hMem with hNil | ⟨v, hV, q, hEq, hA⟩
    · exact .inr hNil
    · exact .inl ⟨v, hV, .leave q x, hA, by
        rw [hEq]
        rfl⟩

/- The paths that are entered, in their order. -/
theorem entered_traceOf (vs : List Visit) (value : Option Value) :
    (traceOf vs value).filterMap Event.entered = [] :: vs.flatMap fun v =>
      (v.events.filterMap Event.entered).map (v.index :: ·) := by
  have hBelow : ∀ v : Visit, v.below.filterMap Event.entered =
      (v.events.filterMap Event.entered).map (v.index :: ·) := by
    intro v
    rw [Visit.below, filterMap_map, map_filterMap]
    congr 1
    funext a
    cases a <;> rfl
  have hVisits : (vs.flatMap Visit.below).filterMap Event.entered = vs.flatMap fun v =>
          (v.events.filterMap Event.entered).map (v.index :: ·) := by
    rw [filterMap_flatMap]
    simp only [hBelow]
  rw [traceOf, filterMap_cons, filterMap_append, hVisits]
  simp [Event.entered]

/- The events and the value of an evaluation, put together from those of the arguments it visits. -/
inductive Traced : Expr → List Event → Option Value → Prop where
| mk {fn : Fn} {name : Str} {argv : List Expr}
    {start stop : Nat} {vs : List Visit}
    {value : Option Value}
    (hObeys : Obeys fn argv.length vs value)
    (hRange : ∀ v ∈ vs, v.index < argv.length)
    (hArgv : ∀ v ∈ vs, ∀ x, argv[v.index]? = some x → Traced x v.events v.value) :
    Traced (.mk fn name argv start stop) (traceOf vs value) value

variable {e : Expr} {t : List Event}

theorem Traced.leave_nil {x : Option Value}
    (hTraced : Traced e t value) (hMem : .leave [] x ∈ t) : x = value := by
  cases hTraced with
  | mk hObeys hRange hArgv =>
    rcases leave_mem_traceOf.mp hMem with hEq | hSub
    · exact hEq.2
    · rcases hSub with ⟨v, hV, q, hEq, hA⟩
      cases hEq

theorem Traced.enter_nil_mem (hTraced : Traced e t value) : .enter [] ∈ t := by
  cases hTraced with
  | mk hObeys hRange hArgv => exact enter_mem_traceOf.mpr (.inl rfl)

theorem enter_nil_mem_visits {argv : List Expr} (hRange : ∀ v ∈ vs, v.index < argv.length)
    (hArgv : ∀ v ∈ vs, ∀ x, argv[v.index]? = some x → Traced x v.events v.value) :
    ∀ v ∈ vs, .enter [] ∈ v.events := by
  intro v hV
  have hX := getElem?_eq_getElem (hRange v hV)
  exact (hArgv v hV _ hX).enter_nil_mem

def Expr.toArg : Expr → Arg
| .mk fn name argv start stop => ⟨eval (.mk fn name argv start stop), start, stop⟩

theorem arguments_eq_map (argv : List Expr) : arguments argv = argv.map Expr.toArg := by
  induction argv with
  | nil => rfl
  | cons x rest ih =>
    cases x with
    | mk fn name xs start stop => rw [arguments, ih, map_cons, Expr.toArg]

theorem Expr.toArg_run (x : Expr) : x.toArg.run = eval x := by
  cases x
  rfl

theorem length_arguments (argv : List Expr) : (arguments argv).length = argv.length := by
  rw [arguments_eq_map, length_map]

theorem run_of_arguments {argv : List Expr} {arg : Arg}
    (hArg : (arguments argv)[i]? = some arg) : ∃ x, argv[i]? = some x ∧ arg.run = eval x := by
  rw [arguments_eq_map, getElem?_map] at hArg
  rcases Option.map_eq_some_iff.mp hArg with ⟨x, hX, hEq⟩
  exact ⟨x, hX, by rw [← hEq, x.toArg_run]⟩

theorem yields_arguments {argv : List Expr}
    (hArgv : ∀ x ∈ argv, ∀ st, ∃ r, eval x st = .ok r ∧ IsString r.value) :
    Yields (arguments argv) := by
  intro arg hMem st
  rcases getElem?_of_mem hMem with ⟨i, hAt⟩
  rcases run_of_arguments hAt with ⟨x, hX, hRun⟩
  rw [hRun]
  exact hArgv x (mem_of_getElem? hX) st

/- Every evaluation returns and is traced. -/
theorem eval_traced (hWell : WellFormed e) :
    ∀ st, ∃ r, eval e st = .ok r ∧ IsString r.value ∧ Traced e r.events r.value := by
  induction hWell with
  | @mk fn name argv start stop hTakes hArgv ih =>
    intro st
    have hYields := yields_arguments fun x hX st =>
      (ih x hX st).imp fun _ hRun => ⟨hRun.1, hRun.2.1⟩
    rw [← length_arguments argv] at hTakes
    rcases call_obeys name hYields hTakes st with ⟨o, hCall, hVisited, hObeys⟩
    rw [length_arguments argv] at hObeys
    refine ⟨o.result, ?_, hObeys.string, ?_⟩
    · rw [eval, hCall]
      rfl
    · apply Traced.mk hObeys
      · intro v hMem
        rcases hVisited v hMem with ⟨arg, st', r, hArg, _⟩
        rcases run_of_arguments hArg with ⟨x, hX, _⟩
        exact (List.getElem?_eq_some_iff.mp hX).1
      · intro v hMem x hX
        rcases hVisited v hMem with ⟨arg, st', r, hArg, hRun, hEvents, hValue⟩
        rcases run_of_arguments hArg with ⟨y, hY, hEval⟩
        rw [hX] at hY
        injection hY with hY
        subst hY
        rcases ih x (mem_of_getElem? hX) st' with ⟨r', hEval', hString, hTraced⟩
        rw [hEval, hEval'] at hRun
        injection hRun with hR
        subst hR
        rw [← hEvents, ← hValue]
        exact hTraced

------
-- From The Visits To The Whole Evaluation
------

variable {fn : Fn} {name : Str} {argv : List Expr} {start stop : Nat}

theorem sub_cons (hSub : (Expr.mk fn name argv start stop).sub (i :: p) = some x) :
    ∃ y, argv[i]? = some y ∧ y.sub p = some x :=
  Option.bind_eq_some_iff.mp hSub

theorem Obeys.unique {n : Nat} {w : Visit}
    (hObeys : Obeys fn n vs value) (hV : v ∈ vs) (hW : w ∈ vs)
    (hIndex : v.index = w.index) : v = w :=
  inj_on_of_nodup_map hObeys.nodup hV hW hIndex

/- The events below an argument are those of its visit. -/
theorem enter_cons_iff {n : Nat} {q : Path} (hObeys : Obeys fn n vs value) (hV : v ∈ vs) :
    .enter (v.index :: q) ∈ traceOf vs value ↔ .enter q ∈ v.events := by
  rw [enter_mem_traceOf]
  constructor
  · intro hMem
    rcases hMem with hNil | ⟨w, hW, q', hEq, hA⟩
    · cases hNil
    · injection hEq with hIndex hQ
      rw [hObeys.unique hV hW hIndex, hQ]
      exact hA
  · intro hMem
    exact .inr ⟨v, hV, q, rfl, hMem⟩

theorem enter_singleton_iff (hArgv : ∀ v ∈ vs, .enter [] ∈ v.events) :
    .enter [i] ∈ traceOf vs value ↔ ∃ v ∈ vs, v.index = i := by
  rw [enter_mem_traceOf]
  constructor
  · intro hMem
    rcases hMem with hNil | ⟨v, hV, q, hEq, hA⟩
    · cases hNil
    · injection hEq with hIndex hQ
      exact ⟨v, hV, hIndex.symm⟩
  · intro hVisit
    rcases hVisit with ⟨v, hV, hIndex⟩
    exact .inr ⟨v, hV, [], by rw [hIndex], hArgv v hV⟩

theorem ordered_traceOf (hArgv : ∀ v ∈ vs, .enter [] ∈ v.events) :
    Ordered (traceOf vs value) ↔ (∀ v ∈ vs, Ordered v.events) ∧
      (vs.map Visit.index).Pairwise (· < ·) := by
  have hNil : ∀ v ∈ vs, [] ∈ v.events.filterMap Event.entered := by
    intro v hV
    exact mem_filterMap.mpr ⟨.enter [], hArgv v hV, rfl⟩
  have hBetween : ∀ v ∈ vs, ∀ w ∈ vs, (∀ a ∈ (v.events.filterMap Event.entered).map (v.index :: ·),
      ∀ b ∈ (w.events.filterMap Event.entered).map (w.index :: ·), a < b) ↔ v.index < w.index := by
    intro v hV w hW
    constructor
    · intro hAll
      have hLess := hAll [v.index] (mem_map.mpr ⟨[], hNil v hV, rfl⟩) [w.index]
        (mem_map.mpr ⟨[], hNil w hW, rfl⟩)
      rcases cons_lt_cons_iff.mp hLess with hIndex | hTail
      · exact hIndex
      · exact absurd hTail.2 (not_lt_nil _)
    · intro hIndex a hA b hB
      rcases mem_map.mp hA with ⟨p, hP, hEq⟩
      rcases mem_map.mp hB with ⟨q, hQ, hEq'⟩
      rw [← hEq, ← hEq']
      exact cons_lt_cons_iff.mpr (.inl hIndex)
  unfold Ordered
  rw [entered_traceOf, pairwise_cons, pairwise_flatMap, pairwise_map]
  constructor
  · intro hAll
    rcases hAll with ⟨hRoot, hEach, hPairs⟩
    refine ⟨?_, ?_⟩
    · intro v hV
      refine (pairwise_map.mp (hEach v hV)).imp ?_
      intro p q hLess
      rcases cons_lt_cons_iff.mp hLess with hLt | hTail
      · exact absurd hLt (lt_irrefl _)
      · exact hTail.2
    · refine hPairs.imp_of_mem ?_
      intro v w hV hW hLess
      exact (hBetween v hV w hW).mp hLess
  · intro hAll
    rcases hAll with ⟨hEach, hPairs⟩
    refine ⟨?_, ?_, ?_⟩
    · intro p hP
      rcases mem_flatMap.mp hP with ⟨v, hV, hP⟩
      rcases mem_map.mp hP with ⟨q, hQ, hEq⟩
      rw [← hEq]
      exact nil_lt_cons _ _
    · intro v hV
      refine pairwise_map.mpr ((hEach v hV).imp ?_)
      intro p q hLess
      exact cons_lt_cons_iff.mpr (.inr ⟨rfl, hLess⟩)
    · refine hPairs.imp_of_mem ?_
      intro v w hV hW hLess
      exact (hBetween v hV w hW).mpr hLess

------
-- What Every Evaluation Keeps
------

theorem Traced.propagates (hTraced : Traced e t value) : Propagates t value := by
  induction hTraced with
  | @mk fn name argv start stop vs value hObeys hRange hArgv ih =>
    intro p hMem
    rcases leave_mem_traceOf.mp hMem with hEq | hSub
    · exact hEq.2.symm
    · rcases hSub with ⟨v, hV, q, hEq, hA⟩
      have hX := getElem?_eq_getElem (hRange v hV)
      exact hObeys.null v hV (ih v hV _ hX q hA)

theorem Traced.stops (hTraced : Traced e t value) : Stops t := by
  induction hTraced with
  | @mk fn name argv start stop vs value hObeys hRange hArgv ih =>
    refine pairwise_cons.mpr ⟨?_, ?_⟩
    · intro b hMem p q hEq
      cases hEq
    · refine pairwise_append.mpr ⟨?_, pairwise_singleton _ _, ?_⟩
      · refine pairwise_flatMap.mpr ⟨?_, ?_⟩
        · intro v hV
          have hX := getElem?_eq_getElem (hRange v hV)
          refine pairwise_map.mpr ((ih v hV _ hX).imp ?_)
          intro a b hStops p q hA hB
          cases a with
          | enter p' => cases hA
          | leave p' x =>
            cases b with
            | enter q' =>
              injection hA with hPath hNone
              subst hNone
              exact hStops p' q' rfl rfl
            | leave q' y => cases hB
        · -- a visit with a NULL in it is the last one
          refine hObeys.halts.imp_of_mem ?_
          intro v w hV hW hSome a hA b hB p q hLeave
          rcases mem_map.mp hA with ⟨a', hA', hEq⟩
          cases a' with
          | enter p' =>
            rw [← hEq] at hLeave
            cases hLeave
          | leave p' x =>
            rw [← hEq] at hLeave
            injection hLeave with hPath hNone
            subst hNone
            have hX := getElem?_eq_getElem (hRange v hV)
            exact absurd ((hArgv v hV _ hX).propagates p' hA') hSome
      · intro a hA b hB p q hEq hEnter
        rw [mem_singleton.mp hB] at hEnter
        cases hEnter

theorem Traced.selected (hTraced : Traced e t value) : Selected e t := by
  induction hTraced with
  | @mk fn name argv start stop vs value hObeys hRange hArgv ih =>
    have hEntered := enter_nil_mem_visits hRange hArgv
    intro p x hSub hBranching c hLeave i hPos hLt
    rcases leave_mem_traceOf.mp hLeave with hEq | hBelow
    · exact absurd hEq.1 (by simp)
    · rcases hBelow with ⟨v, hV, q, hEq, hA⟩
      cases p with
      | nil =>
        injection hSub with hX
        subst hX
        injection hEq with hZero hQ
        rw [← hQ] at hA
        have hY := getElem?_eq_getElem (hRange v hV)
        have hValue := (hArgv v hV _ hY).leave_nil hA
        rw [nil_append, enter_singleton_iff hEntered]
        exact hObeys.chosen hBranching v hV hZero.symm c hValue.symm i hPos hLt
      | cons k p =>
        injection hEq with hK hQ
        subst hK hQ
        rcases sub_cons hSub with ⟨y, hY, hSub⟩
        rw [cons_append, enter_cons_iff hObeys hV]
        exact ih v hV y hY p x hSub hBranching c hA i hPos hLt

------
-- The Order From Left To Right
------

theorem LeftFirst.of_traceOf {fn : Fn} {name : Str} {argv : List Expr} {start stop : Nat}
    (hObeys : Obeys fn argv.length vs value)
    (hLeft : LeftFirst (.mk fn name argv start stop) (traceOf vs value)) (hV : v ∈ vs)
    (hX : argv[v.index]? = some x) : LeftFirst x v.events := by
  intro p y i j hSub hLess hEnter
  have hWhole : (Expr.mk fn name argv start stop).sub (v.index :: p) = some y :=
    Option.bind_eq_some_iff.mpr ⟨x, hX, hSub⟩
  have hMem := (enter_cons_iff hObeys hV).mpr hEnter
  rcases hLeft _ y i j hWhole hLess hMem with hIf | hMem
  · exact .inl hIf
  · exact .inr ((enter_cons_iff hObeys hV).mp hMem)

/- A visited `greater_than_int` breaks the order. -/
theorem Traced.no_greater (hTraced : Traced e t value)
    (hOrdered : Ordered t) (hLeft : LeftFirst e t) : ¬ VisitsGreater e t := by
  induction hTraced with
  | @mk fn name argv start stop vs value hObeys hRange hArgv ih =>
    have hEntered := enter_nil_mem_visits hRange hArgv
    rcases (ordered_traceOf hEntered).mp hOrdered with ⟨hEach, hSorted⟩
    intro hGreater
    rcases hGreater with ⟨p, x, hSub, hFn, hEnter⟩
    cases p with
    | nil =>
      injection hSub with hX
      subst hX
      rcases hObeys.exchanged hFn with ⟨v, rest, hVs, hOne⟩
      subst hVs
      have hFirst := hLeft [] _ 0 1 rfl one_pos ((enter_singleton_iff hEntered).mpr
          ⟨v, mem_cons_self, hOne⟩)
      rcases hFirst with hIf | hZero
      · exact absurd hIf.2 zero_ne_one
      · -- the left argument would be visited later
        rcases (enter_singleton_iff hEntered).mp hZero with ⟨w, hW, hIndex⟩
        rcases mem_cons.mp hW with hEq | hW
        · rw [hEq, hOne] at hIndex
          cases hIndex
        · have hLess := (pairwise_cons.mp hSorted).1 w.index (mem_map_of_mem hW)
          rw [hIndex] at hLess
          exact absurd hLess (Nat.not_lt_zero _)
    | cons k p =>
      rcases enter_mem_traceOf.mp hEnter with hNil | hV
      · cases hNil
      · rcases hV with ⟨v, hV, q, hEq, hEnter⟩
        injection hEq with hK hQ
        subst hK hQ
        rcases sub_cons hSub with ⟨y, hY, hSub⟩
        exact ih v hV y hY (hEach v hV) (hLeft.of_traceOf hObeys hV hY) ⟨p, x, hSub, hFn, hEnter⟩

/- Without one the order is kept. -/
theorem Traced.ordered (hTraced : Traced e t value)
    (hNone : ¬ VisitsGreater e t) : Ordered t ∧ LeftFirst e t := by
  induction hTraced with
  | @mk fn name argv start stop vs value hObeys hRange hArgv ih =>
    have hEntered := enter_nil_mem_visits hRange hArgv
    have hFn : fn ≠ .greaterThanInt := by
      intro hFn
      exact hNone ⟨[], _, rfl, hFn, enter_mem_traceOf.mpr (.inl rfl)⟩
    have hSub : ∀ v ∈ vs, ∀ x, argv[v.index]? = some x →
        Ordered v.events ∧ LeftFirst x v.events := by
      intro v hV x hX
      apply ih v hV x hX
      intro hGreater
      rcases hGreater with ⟨p, y, hSub, hGreater, hEnter⟩
      exact hNone ⟨v.index :: p, y, Option.bind_eq_some_iff.mpr ⟨x, hX, hSub⟩, hGreater,
        enter_mem_traceOf.mpr (.inr ⟨v, hV, p, rfl, hEnter⟩)⟩
    constructor
    · refine (ordered_traceOf hEntered).mpr ⟨?_, hObeys.ordered hFn⟩
      intro v hV
      have hX := getElem?_eq_getElem (hRange v hV)
      exact (hSub v hV _ hX).1
    · intro p x i j hPath hLess hEnter
      cases p with
      | nil =>
        injection hPath with hX
        subst hX
        rcases (enter_singleton_iff hEntered).mp hEnter with ⟨v, hV, hIndex⟩
        rw [← hIndex] at hLess
        rcases hObeys.leftFirst hFn v hV i hLess with hIf | hVisit
        · exact .inl hIf
        · exact .inr ((enter_singleton_iff hEntered).mpr hVisit)
      | cons k p =>
        rcases enter_mem_traceOf.mp hEnter with hNil | hV
        · cases hNil
        · rcases hV with ⟨v, hV, q, hEq, hEnter⟩
          injection hEq with hK hQ
          subst hK hQ
          rcases sub_cons hPath with ⟨y, hY, hPath⟩
          rw [cons_append, enter_cons_iff hObeys hV]
          exact (hSub v hV y hY).2 p x i j hPath hLess hEnter

/-
  An evaluation goes from left to right, takes only selected branches and ends with the first NULL,
  exactly when it visits no call of `greater_than_int`.
-/
theorem edify_conforms_iff (e : Expr) (st : State) (hWell : WellFormed e) :
    ∃ r, eval e st = .ok r ∧ (Conforms e r.events r.value ↔ ¬ VisitsGreater e r.events) := by
  rcases eval_traced hWell st with ⟨r, hEval, hString, hTraced⟩
  refine ⟨r, hEval, ?_⟩
  constructor
  · intro hConforms
    exact hTraced.no_greater hConforms.ordered hConforms.leftFirst
  · intro hNone
    rcases hTraced.ordered hNone with ⟨hOrdered, hLeft⟩
    exact ⟨hOrdered, hLeft, hTraced.selected, hTraced.stops, hTraced.propagates⟩

/- `greater_than_int("1", "2")`. -/
def greaterSample : Expr :=
  .mk .greaterThanInt (str "greater_than_int")
    [.mk .literal [0x31] [] 17 20, .mk .literal [0x32] [] 22 25] 0 26

theorem greaterSample_wellFormed : WellFormed greaterSample := by
  refine WellFormed.mk rfl ?_
  intro x hMem
  rcases mem_pair.mp hMem with hEq | hEq
  · rw [hEq]
    exact .mk rfl (by simp)
  · rw [hEq]
    exact .mk rfl (by simp)

theorem edify_conforms_iff_sample :
    WellFormed greaterSample ∧ ∃ r, eval greaterSample ⟨[], none, [], []⟩ = .ok r ∧
      (Conforms greaterSample r.events r.value ↔ ¬ VisitsGreater greaterSample r.events) :=
  ⟨greaterSample_wellFormed, edify_conforms_iff greaterSample ⟨[], none, [], []⟩
      greaterSample_wellFormed⟩

/- The second argument is visited before the first. -/
theorem greater_than_int_visits_right_first :
    WellFormed greaterSample ∧ ∃ r, eval greaterSample ⟨[], none, [], []⟩ = .ok r ∧
      r.events = [.enter [], .enter [1], .leave [1] (some ⟨.string, [0x32]⟩), .enter [0],
        .leave [0] (some ⟨.string, [0x31]⟩), .leave [] (some ⟨.string, []⟩)] ∧
      ¬ Conforms greaterSample r.events r.value := by
  refine ⟨greaterSample_wellFormed, _, rfl, rfl, ?_⟩
  intro hConforms
  have hOrdered : [[], [1], [0]].Pairwise fun p q : Path => p < q := hConforms.ordered
  exact absurd hOrdered (by decide)

------
-- Numbers Of Arguments
------

/- What the parser builds: an operator has its operands, a registered function any number. -/
def Fn.Parsed : Fn → Nat → Prop
| .literal, n => n = 0
| .logicalNot, n => n = 1
| .logicalAnd, n | .logicalOr, n | .equality, n | .inequality, n | .sequence, n => n = 2
| _, _ => True

/- The number of arguments that are used without a look at their number. -/
def Fn.needed : Fn → Nat
| .substring => 2
| .sleep => 1
| _ => 0

/- A script in which the functions have only numbers of arguments that are allowed. -/
inductive Script (allowed : Fn → Nat → Prop) : Expr → Prop where
| mk {fn : Fn} {name : Str} {argv : List Expr} {start stop : Nat}
    (hParsed : fn.Parsed argv.length) (hAllowed : allowed fn argv.length)
    (hArgv : ∀ x ∈ argv, Script allowed x) : Script allowed (.mk fn name argv start stop)

------
-- Evaluation
------

variable {allowed : Fn → Nat → Prop} {e : Expr}

theorem call_isString {fn : Fn} {argv : List Arg} (name : Str) (hYields : Yields argv)
    (hParsed : fn.Parsed argv.length) (hNeeds : fn.needed ≤ argv.length) :
    Spec argv (call fn name) fun _ value => IsString value := by
  have hTaken : fn.Takes argv.length → Spec argv (call fn name) fun _ value => IsString value :=
    fun hTakes => (call_obeys name hYields hTakes).mono fun _ _ hObeys => hObeys.string
  cases fn with
  | literal | logicalNot | logicalAnd | logicalOr | equality | inequality | sequence =>
    exact hTaken hParsed
  | concat | assert | stdout | abort => exact hTaken trivial
  | substring =>
    apply (binaryFn_spec hYields (Nat.lt_of_succ_lt hNeeds) hNeeds).mono
    exact fun _ _ hPost => hPost.1
  | sleep =>
    apply Spec.evaluate_bind hYields hNeeds
    · exact fun _ _ _ => .pure isString_none
    · exact fun _ _ _ _ => .modifyState_bind (.pure (isString_stringValue _))
  | ifElse =>
    by_cases hTakes : argv.length = 2 ∨ argv.length = 3
    · exact hTaken hTakes
    · apply Spec.argc_bind
      rw [if_pos (by omega)]
      exact .setErrmsg_pure isString_none
  | lessThanInt | greaterThanInt =>
    by_cases hTwo : argv.length = 2
    · exact hTaken hTwo
    · apply Spec.argc_bind
      simp only [lessThanIntFn, greaterThanIntFn, ne_eq, hTwo, not_false_eq_true, if_true]
      exact .setErrmsg_pure isString_none

theorem Script.eval_ok (hNeeds : ∀ fn n, allowed fn n → fn.needed ≤ n)
    (hScript : Script allowed e) :
    ∀ st, ∃ r, eval e st = .ok r ∧ IsString r.value := by
  induction hScript with
  | @mk fn name argv start stop hParsed hAllowed hArgv ih =>
    intro st
    have hNeed := hNeeds _ _ hAllowed
    rw [← length_arguments argv] at hParsed hNeed
    rcases call_isString name (yields_arguments ih) hParsed hNeed st with ⟨o, hCall, _, hString⟩
    exact ⟨o.result, by rw [eval, hCall]; rfl, hString⟩

/-
  The arguments of which the first ones are there are padded. The computation does the same without
  the padding exactly as long as it visits what is there.
-/
def Tracks {α : Type} (there : Visit → Prop) (argv padded : List Arg) (m : Eval α) : Prop :=
  ∀ st o, m padded st = .ok o → (∀ o', m argv st = .ok o' → o' = o) ∧
    ((∃ o', m argv st = .ok o') ↔ ∀ v ∈ o.visits, there v)

/- The place is part of a message of `assert`. -/
def Arg.place (a : Arg) : Nat × Nat :=
  (a.start, a.stop)

section

variable {α β : Type} {there : Visit → Prop} {argv padded : List Arg}

theorem Tracks.quiet {m : Eval α}
    (hQuiet : ∀ st, ∃ st' a, m argv st = .ok ⟨[], st', a⟩ ∧ m padded st = .ok ⟨[], st', a⟩) :
    Tracks there argv padded m := by
  intro st o hRun
  rcases hQuiet st with ⟨st', a, hArgv, hPadded⟩
  rw [hPadded] at hRun
  injection hRun with hRun
  subst hRun
  simp [hArgv]

theorem Tracks.pure (a : α) : Tracks there argv padded (Pure.pure a) :=
  .quiet fun st => ⟨st, a, rfl, rfl⟩

theorem Tracks.bind {m : Eval α} {f : α → Eval β} (hFirst : Tracks there argv padded m)
    (hThen : ∀ a, Tracks there argv padded (f a)) : Tracks there argv padded (m >>= f) := by
  intro st o hRun
  simp only [Bind.bind] at hRun ⊢
  cases hOne : m padded st with
  | error fault =>
    rw [hOne] at hRun
    cases hRun
  | ok first =>
    cases hTwo : f first.value padded first.state with
    | error fault =>
      simp only [hOne, hTwo] at hRun
      cases hRun
    | ok second =>
      simp only [hOne, hTwo, Except.ok.injEq] at hRun
      subst hRun
      rcases hFirst st first hOne with ⟨hSame, hThere⟩
      rcases hThen _ _ _ hTwo with ⟨hSame', hThere'⟩
      simp only [mem_append, or_imp, forall_and, ← hThere, ← hThere']
      cases hLeft : m argv st with
      | error fault => simp
      | ok o =>
        rw [hSame o hLeft]
        dsimp only
        cases hRight : f first.value argv first.state with
        | error fault => simp
        | ok o' => simp [hSame' o' hRight]

theorem Tracks.modifyState_bind {g : State → State} {f : Unit → Eval β}
    (hThen : Tracks there argv padded (f ())) : Tracks there argv padded (modifyState g >>= f) :=
  .bind (.quiet fun st => ⟨g st, (), rfl, rfl⟩) fun _ => hThen

section

variable (hPlaces : argv.map Arg.place = padded.map Arg.place)

include hPlaces

theorem Tracks.argc_bind {f : Nat → Eval β} (hThen : ∀ n, Tracks there argv padded (f n)) :
    Tracks there argv padded (argc >>= f) := by
  refine .bind (.quiet fun st => ⟨st, argv.length, rfl, ?_⟩) hThen
  have hLength := congrArg length hPlaces
  simp only [length_map] at hLength
  rw [argc, hLength]

theorem assertFailed_tracks (i : Nat) : Tracks there argv padded (assertFailed i) := by
  have hAt := congrArg (fun l => l[i]?) hPlaces
  simp only [getElem?_map] at hAt
  cases hPadded : padded[i]? with
  | none =>
    intro st o hRun
    simp [assertFailed, Bind.bind, argument, hPadded] at hRun
  | some arg =>
    rw [hPadded] at hAt
    rcases Option.map_eq_some_iff.mp hAt with ⟨arg', hArg, hEq⟩
    simp only [Arg.place, Prod.mk.injEq] at hEq
    apply Tracks.quiet
    intro st
    refine ⟨_, none, by simp only [assertFailed, Bind.bind, argument, hArg]; rfl, ?_⟩
    simp only [assertFailed, Bind.bind, argument, hPadded, hEq.1, hEq.2]
    rfl

end

variable (hValue : ∀ i, Tracks there argv padded (evaluateValue i))

include hValue

theorem Tracks.evaluate_bind {i : Nat} {f : Option Str → Eval β}
    (hNull : Tracks there argv padded (f none))
    (hSome : ∀ s, Tracks there argv padded (f (some s))) :
    Tracks there argv padded (evaluate i >>= f) := by
  apply Tracks.bind
  · apply (hValue i).bind
    intro value
    split
    · exact .pure _
    · split
      · exact .pure _
      · exact .modifyState_bind (.pure _)
  · intro s
    cases s with
    | none => exact hNull
    | some s => exact hSome s

theorem binaryFn_tracks (first second : Nat) (f : Str → Str → Bool) :
    Tracks there argv padded (binaryFn first second f) :=
  .evaluate_bind hValue (.pure _) fun _ => .evaluate_bind hValue (.pure _) fun _ => .pure _

theorem evaluateFrom_tracks (i n : Nat) : Tracks there argv padded (evaluateFrom i n) := by
  induction n generalizing i with
  | zero => exact .pure _
  | succ n ih =>
    refine .evaluate_bind hValue (.pure _) fun s => (ih _).bind fun ss => ?_
    cases ss <;> exact .pure _

theorem stdoutFrom_tracks (i n : Nat) : Tracks there argv padded (stdoutFrom i n) := by
  induction n generalizing i with
  | zero => exact .pure _
  | succ n ih => exact .evaluate_bind hValue (.pure _) fun s => .modifyState_bind (ih _)

theorem assertFrom_tracks (hPlaces : argv.map Arg.place = padded.map Arg.place) (i n : Nat) :
    Tracks there argv padded (assertFrom i n) := by
  induction n generalizing i with
  | zero => exact .pure _
  | succ n ih =>
    refine .evaluate_bind hValue (.pure _) fun s => ?_
    dsimp only
    split
    · exact ih _
    · exact assertFailed_tracks hPlaces i

end

theorem call_tracks {fn : Fn} {name : Str} {there : Visit → Prop} {argv padded : List Arg}
    (hValue : ∀ i, Tracks there argv padded (evaluateValue i))
    (hPlaces : fn.needed = 0 → argv.map Arg.place = padded.map Arg.place) :
    Tracks there argv padded (call fn name) := by
  cases fn with
  | literal => exact .pure _
  | substring | equality | inequality => exact binaryFn_tracks hValue _ _ _
  | concat =>
    refine .argc_bind (hPlaces rfl) fun n => (evaluateFrom_tracks hValue _ _).bind fun ss => ?_
    cases ss <;> exact .pure _
  | assert => exact .argc_bind (hPlaces rfl) fun n => assertFrom_tracks hValue (hPlaces rfl) _ _
  | stdout => exact .argc_bind (hPlaces rfl) fun n => stdoutFrom_tracks hValue _ _
  | logicalAnd =>
    refine .evaluate_bind hValue (.pure _) fun s => ?_
    dsimp only
    split
    · exact hValue 1
    · exact .pure _
  | logicalOr =>
    refine .evaluate_bind hValue (.pure _) fun s => ?_
    dsimp only
    split
    · exact .pure _
    · exact hValue 1
  | logicalNot => exact .evaluate_bind hValue (.pure _) fun _ => .pure _
  | sleep => exact .evaluate_bind hValue (.pure _) fun _ => .modifyState_bind (.pure _)
  | sequence =>
    refine (hValue 0).bind fun value => ?_
    cases value with
    | none => exact .pure _
    | some value => exact hValue 1
  | ifElse =>
    refine .argc_bind (hPlaces rfl) fun n => ?_
    split
    · exact .modifyState_bind (.pure _)
    · refine .evaluate_bind hValue (.pure _) fun s => ?_
      simp only [ifElseBranch]
      split
      · exact hValue 1
      · split
        · exact hValue 2
        · exact .pure _
  | abort =>
    refine .argc_bind (hPlaces rfl) fun n => ?_
    split
    · exact .evaluate_bind hValue (.modifyState_bind (.pure _)) fun _ => .modifyState_bind (.pure _)
    · exact .modifyState_bind (.pure _)
  | lessThanInt | greaterThanInt =>
    refine .argc_bind (hPlaces rfl) fun n => ?_
    simp only [lessThanIntFn, greaterThanIntFn]
    split
    · exact .modifyState_bind (.pure _)
    · exact binaryFn_tracks hValue _ _ _

mutual

/- The script with an empty string for each argument that is missing. -/
def Expr.padded : Expr → Expr
| .mk fn name argv start stop =>
  .mk fn name (paddedAll argv ++ replicate (fn.needed - argv.length) (.mk .literal [] [] 0 0))
    start stop

def paddedAll : List Expr → List Expr
| [] => []
| x :: rest => x.padded :: paddedAll rest

end

theorem paddedAll_eq_map (argv : List Expr) : paddedAll argv = argv.map Expr.padded := by
  induction argv with
  | nil => rfl
  | cons x rest ih => rw [paddedAll, ih, map_cons]

theorem Script.padded (hScript : Script (fun _ _ => True) e) :
    Script (fun fn n => fn.needed ≤ n) e.padded := by
  induction hScript with
  | @mk fn name argv start stop hParsed _ hArgv ih =>
    rw [Expr.padded, paddedAll_eq_map]
    refine .mk ?_ (by simp; omega) ?_
    · cases fn with
      | substring | sleep => trivial
      | _ => simpa [Fn.needed] using hParsed
    · intro x hX
      rcases mem_append.mp hX with hX | hX
      · rcases mem_map.mp hX with ⟨y, hY, rfl⟩
        exact ih y hY
      · rw [eq_of_mem_replicate hX]
        exact .mk rfl (Nat.zero_le _) (by simp)

/- The evaluation of the script does what the one of the padded script does. -/
def Follows (e : Expr) : Prop :=
  ∀ st r, eval e.padded st = .ok r → (∀ r', eval e st = .ok r' → r' = r) ∧
    ((∃ r', eval e st = .ok r') ↔ ∀ p, .enter p ∈ r.events → (e.sub p).isSome)

theorem eval_eq_ok {st : State} {r : Result} : eval (.mk fn name argv start stop) st = .ok r ↔
    ∃ o, call fn name (arguments argv) st = .ok o ∧ o.result = r := by
  rw [eval]
  cases call fn name (arguments argv) st <;> simp [Except.map]

theorem evaluateValue_tracks {more : List Expr} (hArgv : ∀ x ∈ argv, Follows x) (i : Nat) :
    Tracks (fun v => ∀ p, .enter p ∈ v.events → (argv[v.index]?.bind (·.sub p)).isSome)
      (arguments argv) (arguments (argv.map Expr.padded ++ more)) (evaluateValue i) := by
  intro st o hRun
  unfold evaluateValue at hRun ⊢
  cases hPadded : (arguments (argv.map Expr.padded ++ more))[i]? with
  | none => simp [hPadded] at hRun
  | some arg =>
    rcases run_of_arguments hPadded with ⟨x, hX, hArg⟩
    cases hEval : eval x st with
    | error fault => simp [hPadded, hArg, hEval] at hRun
    | ok r =>
      simp only [hPadded, hArg, hEval, Except.ok.injEq] at hRun
      subst hRun
      simp only [arguments_eq_map, getElem?_map, mem_singleton, forall_eq]
      cases hY : argv[i]? with
      | none =>
        -- the visit enters an argument that is not there
        cases x with
        | mk fn name argv start stop =>
          rcases eval_eq_ok.mp hEval with ⟨o, _, rfl⟩
          simpa using ⟨[], .head _⟩
      | some y =>
        have hI := (List.getElem?_eq_some_iff.mp hY).1
        rw [getElem?_append_left (by simpa), getElem?_map, hY] at hX
        injection hX with hX
        subst hX
        rcases hArgv y (mem_of_getElem? hY) st r hEval with ⟨hSame, hThere⟩
        simp only [Option.map_some, Option.bind_some, ← hThere, Expr.toArg_run]
        cases hOwn : eval y st with
        | error fault => simp
        | ok r' => simp [hSame r' hOwn]

theorem Script.follows (hScript : Script (fun _ _ => True) e) : Follows e := by
  induction hScript with
  | @mk fn name argv start stop hParsed _ hArgv ih =>
    intro st r hEval
    rw [Expr.padded, paddedAll_eq_map] at hEval
    rcases eval_eq_ok.mp hEval with ⟨o, hCall, rfl⟩
    have hPlaces : fn.needed = 0 → (arguments argv).map Arg.place =
        (arguments (argv.map Expr.padded ++ replicate (fn.needed - argv.length)
          (.mk .literal [] [] 0 0))).map Arg.place := by
      intro hNone
      rw [hNone, Nat.zero_sub, replicate_zero, append_nil]
      simp only [arguments_eq_map, map_map]
      refine map_congr_left ?_
      rintro ⟨⟩ _
      rfl
    rcases call_tracks (evaluateValue_tracks ih) hPlaces st o hCall with ⟨hSame, hThere⟩
    have hVisits : (∀ p, .enter p ∈ o.result.events →
        ((Expr.mk fn name argv start stop).sub p).isSome) ↔ ∀ v ∈ o.visits, ∀ p,
          .enter p ∈ v.events → (argv[v.index]?.bind (·.sub p)).isSome := by
      constructor
      · intro hAll v hV p hEnter
        exact hAll (v.index :: p) (enter_mem_traceOf.mpr (.inr ⟨v, hV, p, rfl, hEnter⟩))
      · intro hAll p hEnter
        rcases enter_mem_traceOf.mp hEnter with rfl | ⟨v, hV, q, rfl, hBelow⟩
        · rfl
        · exact hAll v hV q hBelow
    simp only [eval_eq_ok, hVisits, ← hThere]
    cases hOwn : call fn name (arguments argv) st with
    | error fault => simp
    | ok o' => simp [hSame o' hOwn]

/-
  A script uses an argument that is missing if and only if, with empty strings for the missing ones,
  it visits one of them.
-/
theorem edify_arguments_present_iff (e : Expr) (st : State) (hScript : Script (fun _ _ => True) e) :
    ∃ r, eval e.padded st = .ok r ∧
      ((∃ r', eval e st = .ok r') ↔ ∀ p, .enter p ∈ r.events → (e.sub p).isSome) := by
  rcases hScript.padded.eval_ok (fun _ _ hNeeds => hNeeds) st with ⟨r, hEval, _⟩
  exact ⟨r, hEval, (hScript.follows st r hEval).2⟩

/- `ifelse("", sleep())` does not call `sleep`. -/
def sleepUntaken : Expr :=
  .mk .ifElse (str "ifelse") [.mk .literal [] [] 7 9, .mk .sleep (str "sleep") [] 11 18] 0 19

theorem edify_arguments_present_iff_untaken :
    ∃ r, eval sleepUntaken ⟨[], none, [], []⟩ = .ok r := by
  have hScript : Script (fun _ _ => True) sleepUntaken := by
    refine .mk trivial trivial ?_
    simp only [mem_cons, not_mem_nil, or_false, forall_eq_or_imp, forall_eq]
    exact ⟨.mk rfl trivial (by simp), .mk trivial trivial (by simp)⟩
  rcases edify_arguments_present_iff sleepUntaken ⟨[], none, [], []⟩ hScript with ⟨r, hEval, hIff⟩
  injection hEval with hEval
  have hPaths : r.events.filterMap Event.entered = [[], [0]] := by
    rw [← hEval]
    rfl
  refine hIff.mpr fun p hEnter => ?_
  have hMem : p ∈ r.events.filterMap Event.entered := mem_filterMap.mpr ⟨_, hEnter, rfl⟩
  rw [hPaths] at hMem
  rcases mem_pair.mp hMem with rfl | rfl <;> rfl

/- `sleep()` uses an argument that it does not have. -/
theorem sleep_uses_missing_argument :
    Script (fun _ _ => True) (.mk .sleep (str "sleep") [] 0 7) ∧
      eval (.mk .sleep (str "sleep") [] 0 7) ⟨[], none, [], []⟩ = .error .outOfBounds :=
  ⟨.mk trivial trivial (by simp), rfl⟩

end OpenIvi.Edify
