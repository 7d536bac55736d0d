import Mathlib.Data.UInt

/-
  Incremental decoders.

  A decoder takes items off the front of a sequence as long as it can. What it takes does not depend
  on what follows, so decoding a sequence piece by piece, each piece behind the rest of the ones
  before, decodes the whole.

  A frame is a body behind a header of a fixed width that tells the length of the body. Whatever
  part of a sequence of frames has arrived, the first frame is either whole or what is there is
  shorter than it.

  Main declarations:
    * `Decoder.step_decode_rest`
    * `stream_part`
    * `Framing`
    * `Framing.whole_or_short`
-/

------
-- Decoders
------

namespace OpenIvi.Lib

/-
  One step takes a nonempty prefix off and yields the items it stands for; the step stays the same
  when more follows.
-/
structure Decoder (α β : Type) where
  step : List α → Option (List β × List α)
  shrinks : ∀ {w out rest}, step w = some (out, rest) → rest.length < w.length
  stable : ∀ {w out rest} (more : List α), step w = some (out, rest) →
      step (w ++ more) = some (out, rest ++ more)

namespace Decoder

variable {α β : Type} {d : Decoder α β}

/- Take steps as long as there are any. -/
def decode (d : Decoder α β) (w : List α) : List β × List α :=
  match _h : d.step w with
  | none => ([], w)
  | some (out, rest) => (out ++ (d.decode rest).1, (d.decode rest).2)
termination_by w.length
decreasing_by all_goals exact d.shrinks _h

theorem decode_of_none {w : List α} (hStep : d.step w = none) : d.decode w = ([], w) := by
  rw [decode]
  split
  next => rfl
  next heq =>
    rw [hStep] at heq
    cases heq

theorem decode_of_step {w rest : List α} {out : List β} (hStep : d.step w = some (out, rest)) :
    d.decode w = (out ++ (d.decode rest).1, (d.decode rest).2) := by
  rw [decode]
  split
  next heq =>
    rw [hStep] at heq
    cases heq
  next heq =>
    rw [hStep] at heq
    cases heq
    rfl

/-
  Decoding a sequence is decoding its front and then what that leaves, followed by the other part.
-/
theorem decode_append (d : Decoder α β) (w more : List α) :
    d.decode (w ++ more) = ((d.decode w).1 ++ (d.decode ((d.decode w).2 ++ more)).1,
      (d.decode ((d.decode w).2 ++ more)).2) := by
  induction hLen : w.length using Nat.strongRecOn generalizing w with
  | _ n ih =>
    cases hStep : d.step w with
    | none => simp [decode_of_none hStep]
    | some pair =>
      rcases pair with ⟨out, rest⟩
      have hLt : rest.length < n := hLen ▸ d.shrinks hStep
      rw [decode_of_step (d.stable more hStep), ih rest.length hLt rest rfl, decode_of_step hStep]
      simp

theorem step_decode_rest (d : Decoder α β) (w : List α) : d.step (d.decode w).2 = none := by
  induction hLen : w.length using Nat.strongRecOn generalizing w with
  | _ n ih =>
    cases hStep : d.step w with
    | none => simpa [decode_of_none hStep] using hStep
    | some pair =>
      rcases pair with ⟨out, rest⟩
      have hLt : rest.length < n := hLen ▸ d.shrinks hStep
      rw [decode_of_step hStep]
      exact ih rest.length hLt rest rfl

end Decoder

------
-- Streams Of Frames
------

variable {α φ : Type} (bytes : φ → List α)

/- Frames sent back to back. -/
def stream (frames : List φ) : List α :=
  (frames.map bytes).flatten

@[simp] theorem stream_nil : stream bytes [] = [] :=
  rfl

@[simp] theorem stream_cons (f : φ) (frames : List φ) :
    stream bytes (f :: frames) = bytes f ++ stream bytes frames := by
  simp [stream]

@[simp] theorem stream_append (frames later : List φ) :
    stream bytes (frames ++ later) = stream bytes frames ++ stream bytes later := by
  simp [stream]

/- The first part of a stream ends inside the first frame or goes on behind it. -/
theorem stream_part {bytes : φ → List α} {part future : List α} {f : φ} {frames : List φ}
    (hStream : part ++ future = stream bytes (f :: frames)) :
    (∃ missing, missing ≠ [] ∧ bytes f = part ++ missing ∧
      future = missing ++ stream bytes frames) ∨
      ∃ rest, part = bytes f ++ rest ∧ rest ++ future = stream bytes frames := by
  rw [stream_cons, List.append_eq_append_iff] at hStream
  rcases hStream with ⟨missing, hBytes, hFuture⟩ | ⟨rest, hPart, hRest⟩
  · by_cases hMissing : missing = []
    · subst hMissing
      refine .inr ⟨[], ?_, ?_⟩
      · simpa using hBytes.symm
      · simpa using hFuture
    · exact .inl ⟨missing, hMissing, hBytes, hFuture⟩
  · exact .inr ⟨rest, hPart, hRest.symm⟩

open List

/- Headers for the lengths below `limit`. -/
structure Framing (α : Type) where
  width : Nat
  limit : Nat
  header : Nat → List α
  announced : List α → Nat
  length_header : ∀ n, (header n).length = width
  announced_header : ∀ n, n < limit → announced (header n) = n

namespace Framing

variable {α : Type} {f : Framing α} {body w more : List α} {bodies : List (List α)}

def frame (f : Framing α) (body : List α) : List α :=
  f.header body.length ++ body

def frames (f : Framing α) (bodies : List (List α)) : List α :=
  bodies.flatMap f.frame

@[simp] theorem length_frame (f : Framing α) (body : List α) :
    (f.frame body).length = f.width + body.length := by
  rw [frame, length_append, f.length_header]

theorem frames_cons (f : Framing α) (body : List α) (bodies : List (List α)) :
    f.frames (body :: bodies) = f.frame body ++ f.frames bodies :=
  flatMap_cons

/- The first frame has arrived, or a part of it has not. -/
theorem whole_or_short (hParts : w ++ more = f.frames (body :: bodies)) :
    (∃ rest, w = f.frame body ++ rest ∧ rest ++ more = f.frames bodies) ∨
    w.length < f.width + body.length := by
  rw [frames_cons] at hParts
  by_cases hLen : f.width + body.length ≤ w.length
  · rw [← length_frame] at hLen
    have hFront := congrArg (take (f.frame body).length) hParts
    rw [take_left, take_append_of_le_length hLen] at hFront
    refine .inl ⟨w.drop (f.frame body).length, ?_, ?_⟩
    · rw [← hFront, length_take, min_eq_left hLen, take_append_drop]
    · have hBack := congrArg (drop (f.frame body).length) hParts
      rw [drop_left, drop_append_of_le_length hLen] at hBack
      exact hBack
  · exact .inr (Nat.lt_of_not_le hLen)

theorem announced_take (hParts : w ++ more = f.frames (body :: bodies))
    (hLen : f.width ≤ w.length) (hLimit : body.length < f.limit) :
    f.announced (w.take f.width) = body.length := by
  rw [frames_cons, frame, append_assoc] at hParts
  have hFront := congrArg (take f.width) hParts
  rw [take_append_of_le_length hLen] at hFront
  have hHeader : w.take f.width = f.header body.length := by
    rw [hFront, ← f.length_header body.length, take_left]
  rw [hHeader, f.announced_header body.length hLimit]

end Framing

end OpenIvi.Lib
