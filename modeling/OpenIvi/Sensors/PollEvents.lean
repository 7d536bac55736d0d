import OpenIvi.Lib.Loop

/-
  One call of `pollEvents` of the sensor module. It reads the three drivers into the caller's array
  and asks `poll` for more until nothing is left or the array is full. What a driver returns moves
  the pointer, the room and the total alike, an error code too.

  Main declarations:
    * `pollEvents`
    * `pollEvents_respects_iff`
-/

namespace OpenIvi.Sensors

open List

/- Pointers are indices of the caller's array. The code keeps neither `stored` nor `failed`. -/
structure Poll where
  revents : Nat → Bool
  data : Int
  count : Int
  nbEvents : Int
  stored : List Int
  failed : Bool

def Poll.start (count : Nat) (revents : Nat → Bool) : Poll :=
  ⟨revents, 0, count, 0, [], false⟩

/- No driver stores more events than there is room for. -/
def Poll.readEvents (s : Poll) (i : Nat) (pending : Bool) (result : Int) : Poll :=
  if s.count ≠ 0 ∧ (s.revents i || pending) = true then
    let nb := min result s.count
    { -- less than the room: no more data for this sensor
      revents := if nb < s.count then Function.update s.revents i false else s.revents
      data := s.data + nb
      count := s.count - nb
      nbEvents := s.nbEvents + nb
      stored := s.stored ++ (range nb.toNat).map fun k : Nat => s.data + k
      failed := s.failed || nb < 0 }
  else s

/- One turn of the loop: what the drivers have pending and return, and what `poll` returns. -/
structure Turn where
  drivers : Nat → Bool × Int
  poll : Int
  revents : Nat → Bool

def Turn.reads (turn : Turn) (s : Poll) : Poll :=
  [0, 1, 2].foldl (fun s i => s.readEvents i (turn.drivers i).1 (turn.drivers i).2) s

/- `none` while the call has not returned. A failed `poll` counts with its error code. -/
def pollEvents : List Turn → Poll → Option (Poll × Int)
| [], _ => none
| turn :: turns, s =>
  let s := turn.reads s
  if s.count = 0 then some (s, s.nbEvents)
  else if turn.poll < 0 then some ({ s with failed := true }, turn.poll)
  else if turn.poll = 0 then some ({ s with revents := turn.revents }, s.nbEvents)
  else pollEvents turns { s with revents := turn.revents }

/-
  The events stored are `data[0]`, `data[1]` and so on below `count`, a result that is not negative
  is their number, and with a negative one there are none.
-/
def Respects (count : Nat) (stored : List Int) (result : Int) : Prop :=
  stored = (range stored.length).map Nat.cast ∧ stored.length ≤ count ∧
    (0 ≤ result → result = stored.length) ∧ (result < 0 → stored = [])

/- After an error the number is too small. -/
structure Tells (count : Nat) (s : Poll) (nb : Int) : Prop where
  fine : s.failed = false →
      s.stored = (range s.stored.length).map Nat.cast ∧ nb = s.stored.length ∧ nb ≤ count
  short : s.failed = true → nb < s.stored.length

variable {count : Nat} {s : Poll}

theorem Tells.respects_iff {result : Int} (h : Tells count s result) :
    Respects count s.stored result ↔ s.failed = false ∨ s.stored = [] := by
  cases hFailed : s.failed with
  | false =>
    rcases h.fine hFailed with ⟨hPlaces, hNb, hFits⟩
    exact iff_of_true ⟨hPlaces, by omega, fun _ => hNb, by omega⟩ (.inl rfl)
  | true =>
    have hShort := h.short hFailed
    constructor
    · intro hRespects
      rcases hRespects with ⟨_, _, hNumber, hNone⟩
      exact .inr (hNone (by omega))
    · intro hCases
      have hNil := hCases.resolve_left nofun
      rw [hNil] at hShort ⊢
      exact ⟨rfl, Nat.zero_le _, fun hPos => absurd hShort hPos.not_gt, fun _ => rfl⟩

structure Kept (count : Nat) (s : Poll) : Prop where
  data : s.data = s.nbEvents
  room : s.count + s.nbEvents = count ∧ 0 ≤ s.count
  tells : Tells count s s.nbEvents

theorem Kept.readEvents (h : Kept count s) (i : Nat) (pending : Bool) (result : Int) :
    Kept count (s.readEvents i pending result) := by
  have hRoom := h.room
  unfold Poll.readEvents
  split
  · refine ⟨congrArg (· + _) h.data, ?_, ?_, ?_⟩
    · dsimp only
      omega
    · intro hFailed
      rcases Bool.or_eq_false_iff.mp hFailed with ⟨hOld, hNb⟩
      rcases h.tells.fine hOld with ⟨hPlaces, hLength, _⟩
      have hPos := of_decide_eq_false hNb
      refine ⟨?_, ?_, ?_⟩
      · rw [length_append, length_map, length_range, range_add, map_append, map_map, ← hPlaces,
          h.data, hLength]
        rfl
      · simp only [length_append, length_map, length_range]
        omega
      · change s.nbEvents + min result s.count ≤ _
        omega
    · intro hFailed
      have hFine := h.tells.fine
      have hShort := h.tells.short
      simp only [length_append, length_map, length_range]
      cases hOld : s.failed with
      | false =>
        have hLess : min result s.count < 0 := by simpa [hOld] using hFailed
        have hLength := (hFine hOld).2.1
        omega
      | true =>
        have hLess := hShort hOld
        omega
  · exact h

/- An array is respected exactly if no event is stored in a call with an error. -/
theorem pollEvents_respects_iff (count : Nat) (revents : Nat → Bool) (turns : List Turn)
    {s : Poll} {result : Int}
    (hRun : pollEvents turns (.start count revents) = some (s, result)) :
    Respects count s.stored result ↔ s.failed = false ∨ s.stored = [] := by
  have hStart : Kept count (.start count revents) :=
    ⟨rfl, ⟨add_zero _, Int.natCast_nonneg _⟩, fun _ => ⟨rfl, rfl, Int.natCast_nonneg _⟩, nofun⟩
  generalize Poll.start count revents = start at hRun hStart
  induction turns generalizing start with
  | nil => cases hRun
  | cons turn turns ih =>
    have hKept : Kept count (turn.reads start) :=
      ((hStart.readEvents _ _ _).readEvents _ _ _).readEvents _ _ _
    rw [pollEvents] at hRun
    split_ifs at hRun with hFull hError hNone
    · cases hRun
      exact hKept.tells.respects_iff
    · cases hRun
      apply Tells.respects_iff
      exact ⟨nofun, fun _ => hError.trans_le (Int.natCast_nonneg _)⟩
    · cases hRun
      exact Tells.respects_iff ⟨hKept.tells.fine, hKept.tells.short⟩
    · exact ih _ hRun ⟨hKept.data, hKept.room, hKept.tells.fine, hKept.tells.short⟩

/- The drivers are read once, and nothing follows. -/
def Turn.once (results : List Int) : Turn :=
  ⟨fun i => (true, results.getD i 0), 0, fun _ => false⟩

theorem pollEvents_respects_four :
    ∃ s, pollEvents [.once [2, 0, 2]] (.start 9 fun _ => false) = some (s, 4) ∧
      Respects 9 s.stored 4 :=
  ⟨_, rfl, (pollEvents_respects_iff 9 (fun _ => false) [.once [2, 0, 2]] rfl).mpr (.inl rfl)⟩

/- An error behind an event makes the result negative. -/
theorem pollEvents_error_drops :
    ∃ s, pollEvents [.once [1, -22]] (.start 9 fun _ => false) = some (s, -21) ∧
      s.stored = [0] :=
  ⟨_, rfl, rfl⟩

end OpenIvi.Sensors
