import Mathlib.Data.List.Basic

/-
  The tokens of an init script.

  A line may end with a carriage return and a newline, but after a backslash only the carriage
  return is skipped, so the line is not continued. `scan` reads a text byte by byte, for both styles
  of the line ends. They give the same tokens exactly when no line is continued: a line that is cut
  has one T_NEWLINE more.

  Main declarations:
    * `nextToken`
    * `tokens`
    * `scan`
    * `tokens_ignore_line_ends_iff`
-/

namespace OpenIvi.Init.Script

inductive Token where
| eof
| newline
| text (text : List Char)

structure ParseState where
  ptr : List Char
  nexttoken : Bool

def isSpace (c : Char) : Bool :=
  c = ' ' || c = '\t' || c = '\r'

def unescape (c : Char) : Char :=
  if c = 'n' then '\n' else if c = 'r' then '\r' else if c = 't' then '\t' else c

/- What comes before the next byte of a text: quotes, a backslash, a continued line. -/
inductive Place where
| quoted
| escaped
| continued
| plain
deriving DecidableEq

def readText : Place → List Char → List Char → Token × ParseState
| place, [], text => (if place = .quoted then .eof else .text text, ⟨[], false⟩)
| place, c :: x, text =>
  if place = .quoted then
    if c = '"' then readText .plain x text else readText .quoted x (text ++ [c])
  else if place = .escaped then
    if c = '\r' ∧ x.head? ≠ some '\n' then readText .plain x text
    else if c = '\r' ∨ c = '\n' then readText .continued x text
    else readText .plain x (text ++ [unescape c])
  else if place = .continued ∧ (c = ' ' ∨ c = '\t') then readText .continued x text
  else if isSpace c then (.text text, ⟨x, false⟩)
  else if c = '\n' then (.text text, ⟨x, true⟩)
  else if c = '"' then readText .quoted x text
  else if c = '\\' then readText .escaped x text
  else readText .plain x (text ++ [c])

/- The token at `x` when none is left over. -/
def tokenAt : List Char → Token × ParseState
| [] => (.eof, ⟨[], false⟩)
| c :: x =>
  if c = '\n' then (.newline, ⟨x, false⟩)
  else if isSpace c then tokenAt x
  else if c = '#' then (.newline, ⟨x.dropWhile (· ≠ '\n'), false⟩)
  else readText .plain (c :: x) []

def nextToken (s : ParseState) : Token × ParseState :=
  if s.nexttoken then (.newline, ⟨s.ptr, false⟩) else tokenAt s.ptr

/- The first tokens that are read. -/
def tokens : Nat → ParseState → List Token
| 0, _ => []
| n + 1, s => (nextToken s).1 :: tokens n (nextToken s).2

/- Every newline becomes a carriage return and a newline. -/
def crlf (x : List Char) : List Char :=
  x.flatMap fun c => if c = '\n' then ['\r', '\n'] else [c]

------
-- The Scan Of A Text
------

/- Where a scan is: between tokens, in a comment, or in a text of which a part is read. -/
inductive Mode where
| start
| comment
| text (place : Place) (t : List Char)

/- A newline behind a backslash continues the text, or with `cut` it ends it. -/
def readChar (cut : Bool) (place : Place) (t : List Char) (c : Char) : List Token × Mode :=
  if place = .escaped then
    if c ≠ '\n' then ([], .text .plain (t ++ [unescape c]))
    else if cut then ([.text t, .newline], .start)
    else ([], .text .continued t)
  else if place = .continued ∧ (c = ' ' ∨ c = '\t') then ([], .text .continued t)
  else if isSpace c then ([.text t], .start)
  else if c = '\n' then ([.text t, .newline], .start)
  else if c = '\\' then ([], .text .escaped t)
  else ([], .text .plain (t ++ [c]))

def Mode.step (cut : Bool) : Mode → Char → List Token × Mode
| .start, c =>
  if c = '\n' then ([.newline], .start)
  else if isSpace c then ([], .start)
  else if c = '#' then ([.newline], .comment)
  else readChar cut .plain [] c
| .comment, c => if c = '\n' then ([.newline], .start) else ([], .comment)
| .text place t, c => readChar cut place t c

/- The tokens up to the end. -/
def scan (cut : Bool) : Mode → List Char → List Token
| .text _ t, [] => [.text t]
| _, [] => []
| m, c :: x => (m.step cut c).1 ++ scan cut (m.step cut c).2 x

/- The newline is behind a backslash. -/
def Mode.breaks : Mode → Char → Bool
| .text .escaped _, c => c = '\n'
| _, _ => false

/- No line is continued. -/
def unbroken : Mode → List Char → Bool
| _, [] => true
| m, c :: x => !m.breaks c && unbroken (m.step false c).2 x

theorem step_cut {m : Mode} {c : Char} (hBreaks : m.breaks c = false) :
    m.step true c = m.step false c := by
  rcases m with _ | _ | ⟨place, t⟩
  · rfl
  · rfl
  · cases place <;> simp_all [Mode.breaks, Mode.step, readChar]

theorem scan_unbroken {m : Mode} {x : List Char} (hUnbroken : unbroken m x = true) :
    scan true m x = scan false m x := by
  induction x generalizing m with
  | nil => cases m <;> rfl
  | cons c x ih =>
    simp only [unbroken, Bool.and_eq_true, Bool.not_eq_true'] at hUnbroken
    rw [scan, scan, step_cut hUnbroken.1, ih hUnbroken.2]

def Token.isNewline : Token → Bool
| .newline => true
| _ => false

/- How the scan that cuts is ahead of the other one. -/
inductive Ahead : Mode → Mode → Prop
| start : Ahead .start .start
| text (place : Place) (t t' : List Char) : Ahead (.text place t) (.text place t')
| cut (t : List Char) : Ahead (.text .continued t) .start
| commented (m : Mode) : Ahead m .comment

/- A comment has given a newline when it starts. -/
def owed : Mode → Mode → Nat
| .start, .comment | .text _ _, .comment => 1
| _, _ => 0

theorem Ahead.step {m m' : Mode} (hAhead : Ahead m m') (c : Char) :
    Ahead (m.step false c).2 (m'.step true c).2 ∧
      (m.step false c).1.countP Token.isNewline + owed (m.step false c).2 (m'.step true c).2 ≤
        (m'.step true c).1.countP Token.isNewline + owed m m' := by
  cases hAhead with
  | start | text place t t' | cut t =>
    simp only [Mode.step, readChar]
    grind [Ahead, owed, Token.isNewline, isSpace]
  | commented m =>
    cases m with
    | start | comment | text place t =>
      simp only [Mode.step, readChar]
      grind [Ahead, owed, Token.isNewline]

theorem Ahead.scan {m m' : Mode} (hAhead : Ahead m m') (x : List Char) :
    (scan false m x).countP Token.isNewline ≤
      (Script.scan true m' x).countP Token.isNewline + owed m m' := by
  induction x generalizing m m' with
  | nil => cases m <;> cases m' <;> simp [Script.scan, Token.isNewline]
  | cons c x ih =>
    have hNext := ih (hAhead.step c).1
    have hCount := (hAhead.step c).2
    simp only [Script.scan, List.countP_append]
    omega

theorem scan_broken {m : Mode} {x : List Char} (hBroken : unbroken m x = false) :
    (scan false m x).countP Token.isNewline < (scan true m x).countP Token.isNewline := by
  induction x generalizing m with
  | nil => cases hBroken
  | cons c x ih =>
    simp only [scan, List.countP_append]
    by_cases hBreaks : m.breaks c = true
    · rcases m with _ | _ | ⟨place, t⟩
      · cases hBreaks
      · cases hBreaks
      · have hPlace : place = .escaped ∧ c = '\n' := by cases place <;> simp_all [Mode.breaks]
        rcases hPlace with ⟨rfl, rfl⟩
        have hRest := (Ahead.cut t).scan x
        change 0 + (scan false (.text .continued t) x).countP _ < 1 + (scan true .start x).countP _
        simp only [owed] at hRest
        omega
    · rw [step_cut (by simpa using hBreaks)]
      have := ih (m := (m.step false c).2) (by simpa [unbroken, hBreaks] using hBroken)
      omega

------
-- The Scan Gives The Tokens
------

/- These tokens are read, and then the end again and again. -/
inductive Reads : ParseState → List Token → Prop
| eof {s : ParseState} (hEof : nextToken s = (.eof, ⟨[], false⟩)) : Reads s []
| next {s s' : ParseState} {t : Token} {ts : List Token} (hNext : nextToken s = (t, s'))
    (hRest : Reads s' ts) : Reads s (t :: ts)

theorem Reads.tokens_eq {s s' : ParseState} {ts : List Token} (hReads : Reads s ts)
    (hReads' : Reads s' ts) (n : Nat) : tokens n s = tokens n s' := by
  induction hReads generalizing s' n with
  | eof hEof =>
    cases hReads' with
    | eof hEof' =>
      cases n with
      | zero => rfl
      | succ n => rw [tokens, tokens, hEof, hEof']
  | next hNext _ ih =>
    cases hReads' with
    | next hNext' hRest' =>
      cases n with
      | zero => rfl
      | succ n => rw [tokens, tokens, hNext, hNext', ih hRest']

theorem Reads.countP_newline {s : ParseState} {ts : List Token} (hReads : Reads s ts) {n : Nat}
    (hLength : ts.length ≤ n) :
    (tokens n s).countP Token.isNewline = ts.countP Token.isNewline := by
  induction n generalizing s ts with
  | zero =>
    rw [List.length_eq_zero_iff.mp (Nat.le_zero.mp hLength)]
    rfl
  | succ n ih =>
    cases hReads with
    | eof hEof =>
      rw [tokens, hEof]
      exact ih (.eof rfl) (Nat.zero_le n)
    | next hNext hRest =>
      rw [tokens, hNext, List.countP_cons, List.countP_cons,
        ih hRest (Nat.le_of_succ_le_succ hLength)]

theorem Reads.congr {s s' : ParseState} {ts : List Token} (hReads : Reads s ts)
    (hSame : nextToken s' = nextToken s) : Reads s' ts := by
  cases hReads with
  | eof hEof => exact .eof (hSame.trans hEof)
  | next hNext hRest => exact .next (hSame.trans hNext) hRest

/- The text with the line ends of one style. -/
def styled (cut : Bool) (x : List Char) : List Char :=
  if cut then crlf x else x

def Mode.Meets (cut : Bool) (x : List Char) : Mode → Prop
| .start => Reads ⟨styled cut x, false⟩ (scan cut .start x)
| .comment => Reads ⟨(styled cut x).dropWhile (· ≠ '\n'), false⟩ (scan cut .comment x)
| .text place t => place ≠ .quoted → ∃ ts, Reads (readText place (styled cut x) t).2 ts ∧
    scan cut (.text place t) x = (readText place (styled cut x) t).1 :: ts

section

variable {cut : Bool} {x : List Char} (ih : ∀ m : Mode, m.Meets cut x)

include ih

theorem Mode.meets_newline (m : Mode) : m.Meets cut ('\n' :: x) := by
  have hStart := ih .start
  have hNewline : Reads ⟨'\n' :: styled cut x, false⟩ (.newline :: scan cut .start x) :=
    .next rfl hStart
  have hKept : Reads ⟨styled cut x, true⟩ (.newline :: scan cut .start x) := .next rfl hStart
  match cut, m with
  | false, .start | true, .start => exact .next rfl hStart
  | false, .comment | true, .comment => exact hNewline
  | _, .text .quoted t => exact fun hQuoted => absurd rfl hQuoted
  | false, .text .escaped t => exact fun _ => ih (.text .continued t) (by simp)
  | false, .text .plain t | false, .text .continued t | true, .text .escaped t =>
    exact fun _ => ⟨_, hKept, rfl⟩
  | true, .text .plain t | true, .text .continued t => exact fun _ => ⟨_, hNewline, rfl⟩

theorem Mode.meets_char {c : Char} (hLine : c ≠ '\n') (hReturn : c ≠ '\r') (hQuote : c ≠ '"')
    (m : Mode) : m.Meets cut (c :: x) := by
  have hStart := ih .start
  have hStyled : styled cut (c :: x) = c :: styled cut x := by
    cases cut <;> simp [styled, crlf, hLine]
  have hText : ∀ place t, (Mode.text place t).Meets cut (c :: x) := by
    intro place t hPlace
    rw [hStyled]
    simp only [readText, scan, Mode.step, readChar, hPlace, hLine, hReturn, hQuote, if_false,
      false_and, false_or, not_false_eq_true, if_true, ne_eq]
    split
    · exact ih (.text _ _) (by simp)
    split
    · exact ih (.text _ _) (by simp)
    split
    · exact ⟨_, hStart, rfl⟩
    split
    · exact ih (.text _ _) (by simp)
    · exact ih (.text _ _) (by simp)
  cases m with
  | start =>
    rw [Mode.Meets, hStyled]
    rcases hText .plain [] (by simp) with ⟨ts, hReads, hScan⟩
    rw [hStyled] at hReads hScan
    simp only [scan, Mode.step, hLine, if_false] at hScan ⊢
    by_cases hSpace : isSpace c = true
    · rw [if_pos hSpace]
      exact hStart.congr (by simp [nextToken, tokenAt, hLine, hSpace])
    rw [if_neg hSpace]
    by_cases hComment : c = '#'
    · rw [if_pos hComment]
      subst hComment
      exact .next rfl (ih .comment)
    · rw [if_neg hComment, hScan]
      exact .next (by simp [nextToken, tokenAt, hLine, hSpace, hComment]) hReads
  | comment =>
    rw [Mode.Meets, hStyled]
    rw [List.dropWhile_cons_of_pos (by simpa), scan, Mode.step, if_neg hLine]
    exact ih .comment
  | text place t => exact hText place t

end

theorem Mode.meets (cut : Bool) {x : List Char} (hQuote : '"' ∉ x) (hReturn : '\r' ∉ x) (m : Mode) :
    m.Meets cut x := by
  induction x generalizing m with
  | nil =>
    have hStyled : styled cut [] = [] := by cases cut <;> rfl
    cases m with
    | start | comment =>
      rw [Mode.Meets, hStyled]
      exact .eof rfl
    | text place t =>
      intro hPlace
      rw [hStyled]
      exact ⟨[], .eof rfl, by simp [readText, hPlace, scan]⟩
  | cons c x ih =>
    rw [List.mem_cons, not_or] at hQuote hReturn
    replace ih := ih hQuote.2 hReturn.2
    by_cases hLine : c = '\n'
    · rw [hLine]
      exact meets_newline ih m
    · exact meets_char ih hLine (Ne.symm hReturn.1) (Ne.symm hQuote.1) m

/- The style of the line ends does not matter if and only if no line is continued. -/
theorem tokens_ignore_line_ends_iff (text : List Char) (hQuote : '"' ∉ text)
    (hReturn : '\r' ∉ text) :
    (∀ n, tokens n ⟨crlf text, false⟩ = tokens n ⟨text, false⟩) ↔ unbroken .start text = true := by
  have hCut : Reads ⟨crlf text, false⟩ (scan true .start text) :=
    Mode.meets true hQuote hReturn .start
  have hWhole : Reads ⟨text, false⟩ (scan false .start text) :=
    Mode.meets false hQuote hReturn .start
  constructor
  · intro hAll
    by_contra hBroken
    have hFewer := scan_broken (Bool.not_eq_true _ ▸ hBroken)
    rw [← hWhole.countP_newline (Nat.le_add_right _ (scan true .start text).length), ← hAll,
      hCut.countP_newline (Nat.le_add_left ..)] at hFewer
    exact Nat.lt_irrefl _ hFewer
  · intro hUnbroken
    rw [scan_unbroken hUnbroken] at hCut
    exact hCut.tokens_eq hWhole

/- One backslash before a newline is in a comment, and one is escaped. -/
theorem tokens_ignore_line_ends_iff_slashes :
    let text := ['#', '\\', '\n', 'a', '\\', '\\', '\n']
    ∀ n, tokens n ⟨crlf text, false⟩ = tokens n ⟨text, false⟩ :=
  (tokens_ignore_line_ends_iff _ (by decide) (by decide)).mpr (by decide)

/- A continued line is one text, and three tokens with carriage returns. -/
theorem continued_line_is_cut :
    tokens 2 ⟨['a', '\\', '\n', 'b'], false⟩ = [.text ['a', 'b'], .eof] ∧
      tokens 4 ⟨crlf ['a', '\\', '\n', 'b'], false⟩ = [.text ['a'], .newline, .text ['b'], .eof] :=
  ⟨rfl, rfl⟩

end OpenIvi.Init.Script
