import OpenIvi.Recovery.Burning

/-
  When `mpeg_update` reports success truthfully, and `transfer` as a stop-and-wait sender.

  `mpeg_update` does not look at the result of `transfer`. It reports a download that was completed
  if the size of the file is known, the transfer ends with the answer to the last frame and the
  number of that frame fits in an `unsigned short`.

  The display of the progress divides by a fiftieth of the number of frames, which is zero for a
  small image, and the number of a frame is an `unsigned short`. In between the frames are sent in
  order, whatever the device answers.

  Main declarations:
    * `EndsWell`
    * `mpeg_update_truthful_iff`
    * `Sending.in_order`
    * `transfer_in_order_iff`
-/

------
-- Completed Downloads
------

namespace OpenIvi.Recovery

open Lib List LittleEndian

variable {frame : List UInt8} {sent : List Sent}

/- The frames of an image, the last one padded. -/
def frameCount (image : List UInt8) : Nat :=
  (image.length + 4095) / blockSize

/- The device took this frame, or ended with the last one. -/
def Taken (frames : Nat) (buf : Buffer) (sent : List Sent) (i : Nat) : Prop :=
  ∃ e ∈ sent, e.frameid = i ∧ getFrame buf i = .ok e.writes.flatten ∧
      (e.mpegFb = answerO ∨ (i + 1 = frames ∧ e.mpegFb = answerE))

/- Every frame of the padded image was sent and answered with `O`, the last one with `O` or `E`. -/
def Completed (l : Link) (sent : List Sent) : Prop :=
  ∀ i < frameCount l.image, Taken (frameCount l.image)
      (l.loaded (frameCount l.image * blockSize)) sent i

/-
  If the transfer returns, every frame was taken. A read behind the buffer does not stop the source:
  it may return as well, with nothing of the image sent.
-/
def Truthful (frames : Nat) (buf : Buffer) (outcome : Except Fault (Bool × List Sent)) : Prop :=
  (∀ result sent, outcome = .ok (result, sent) → ∀ i < frames, Taken frames buf sent i) ∧
    (outcome = .error .outOfBounds → ∀ i < frames, Taken frames buf [] i)

variable {frames left tryTime : Nat}

@[simp] theorem truthful_ok {buf : Buffer} {result : Bool} :
    Truthful frames buf (.ok (result, sent)) ↔ ∀ i < frames, Taken frames buf sent i := by
  simp [Truthful]

@[simp] theorem truthful_error {buf : Buffer} {fault : Fault} :
    Truthful frames buf (.error fault) ↔
      (fault = .outOfBounds → ∀ i < frames, Taken frames buf [] i) := by
  simp [Truthful]

theorem mpegSendFrame_flatten (frameSize : Nat) (counts : List Nat) (frame : List UInt8) :
    (mpegSendFrame frameSize counts frame).flatten = frame := by
  fun_induction mpegSendFrame frameSize counts frame with
  | case1 counts => rfl
  | case2 counts frame hMore n ih =>
    rw [flatten_cons, ih]
    exact take_append_drop n frame

variable {fb : UInt8}

/- `mpeg_wait_return` returns one of five values. -/
theorem mpegWaitReturn_cases {reads : List UInt8} (h : mpegWaitReturn reads = some fb) :
    fb = noAnswer ∨ fb = answerO ∨ fb = answerX ∨ fb = answerE ∨ fb = answerL := by
  unfold mpegWaitReturn at h
  generalize 10000 = n at h
  induction reads generalizing n with
  | nil =>
    cases n with
    | zero =>
      cases h
      exact .inl rfl
    | succ n => cases h
  | cons b reads ih =>
    cases n with
    | zero =>
      cases h
      exact .inl rfl
    | succ n =>
      unfold waitReturn at h
      split at h
      next hAnswer =>
        cases h
        exact .inr hAnswer
      next => exact ih n h

------
-- Sequences Of Answers
------

/- After such an answer the transfer may go on. -/
def GoesOn (answer : Option UInt8) : Prop :=
  answer = some answerO ∨ answer = some answerL ∨ answer = some answerX

/- The frames that a list of answers acknowledges. -/
def acknowledged (answers : List (Option UInt8)) : Nat :=
  answers.count (some answerO)

/-
  The answer to frame number `k` ends the transfer: it is not a request to send the frame again, and
  not an `O` for a frame in front of the last one.
-/
def Ends (frames k : Nat) (fb : UInt8) : Prop :=
  fb ≠ answerL ∧ fb ≠ answerX ∧ (fb = answerO → frames ≤ k + 1)

/-
  The answers from frame number `k` on: the first one that ends the transfer is an answer to the
  last frame, and that frame has a number that is an `unsigned short`. The transfer gets behind
  frame number 0 only if there are 50 frames, because it divides by a fiftieth of their number.
-/
def EndsWell (frames k : Nat) (answers : List (Option UInt8)) : Prop :=
  ∀ front fb rest, answers = front ++ some fb :: rest → (∀ a ∈ front, GoesOn a) →
    k + acknowledged front < frames → k + acknowledged front = 0 ∨ 50 ≤ frames →
    Ends frames (k + acknowledged front) fb → fb ≠ noAnswer ∧ k + acknowledged front + 1 = frames ∧
        frames ≤ ushortLimit

theorem not_ends {frames k : Nat} (h : ¬ Ends frames k fb) :
    (fb = answerL ∨ fb = answerX) ∨ (fb = answerO ∧ k + 1 < frames) := by
  by_contra hNot
  apply h
  refine ⟨?_, ?_, ?_⟩
  · intro hL
    exact hNot (.inl (.inl hL))
  · intro hX
    exact hNot (.inl (.inr hX))
  · intro hO
    by_contra hMore
    exact hNot (.inr ⟨hO, by omega⟩)

namespace EndsWell

variable {k : Nat} {rest : List (Option UInt8)}

/- An answer after which the transfer goes on. -/
theorem cons_iff (hGoesOn : GoesOn (some fb)) (hMore : ¬ Ends frames k fb) :
    EndsWell frames k (some fb :: rest) ↔ EndsWell frames (k + acknowledged [some fb]) rest := by
  have hShift : ∀ front, k + acknowledged (some fb :: front) =
      k + acknowledged [some fb] + acknowledged front := by
    intro front
    have hCons : some fb :: front = [some fb] ++ front := rfl
    rw [hCons, acknowledged, count_append]
    unfold acknowledged
    omega
  constructor
  · intro h front fb' rest' hSplit hFront hLess hFifty hEnds
    have hWhole := h (some fb :: front) fb' rest'
    rw [hShift front] at hWhole
    apply hWhole
    · rw [hSplit]
      rfl
    · intro a ha
      rcases mem_cons.mp ha with rfl | hTail
      · exact hGoesOn
      · exact hFront a hTail
    · exact hLess
    · exact hFifty
    · exact hEnds
  · intro h front fb' rest' hSplit hFront hLess hFifty hEnds
    cases front with
    | nil =>
      cases hSplit
      exact absurd hEnds hMore
    | cons a front =>
      cases hSplit
      rw [hShift front] at hLess hFifty hEnds ⊢
      apply h front fb' rest' rfl
      · intro a ha
        exact hFront a (by simp [ha])
      · exact hLess
      · exact hFifty
      · exact hEnds

/- The answer that ends the transfer. -/
theorem end_iff (hLess : k < frames) (hFifty : k = 0 ∨ 50 ≤ frames) (hEnds : Ends frames k fb) :
    EndsWell frames k (some fb :: rest) ↔
      fb ≠ noAnswer ∧ k + 1 = frames ∧ frames ≤ ushortLimit := by
  constructor
  · intro h
    exact h [] fb rest rfl (by simp) hLess hFifty hEnds
  · intro hGood front fb' rest' hSplit hFront hLess' _ _
    cases front with
    | nil =>
      cases hSplit
      exact hGood
    | cons a front =>
      -- Only an `O` for the last frame both goes on and
      -- ends, and then no frame is left.
      cases hSplit
      rcases hFront (some fb) (by simp) with hO | hL | hX
      · have hCount : acknowledged (some fb :: front) = acknowledged front + 1 := by
          rw [hO]
          exact count_cons_self
        omega
      · exact absurd (Option.some.inj hL) hEnds.1
      · exact absurd (Option.some.inj hX) hEnds.2.1

theorem nil : EndsWell frames k [] := by
  intro front fb rest hSplit
  cases front <;> cases hSplit

/- Nor does it while `mpeg_wait_return` waits. -/
theorem none_cons : EndsWell frames k (none :: rest) := by
  intro front fb rest' hSplit hFront
  cases front with
  | nil => cases hSplit
  | cons a front =>
    cases hSplit
    have hNone := hFront none (by simp)
    unfold GoesOn at hNone
    simp at hNone

end EndsWell

------
-- The Loop Of The Transfer
------

theorem exists_getFrame (buf : Buffer) (i : Nat) (hInside : (i + 1) * blockSize ≤ buf.length) :
    ∃ frame, getFrame buf i = .ok frame := by
  have hBlock : i * blockSize + blockSize ≤ buf.length := by rwa [← Nat.succ_mul]
  simp only [getFrame, Buffer.block, if_pos hBlock, ok_bind]
  exact ⟨_, rfl⟩

/- The state of the loop while frame number `k` is sent. -/
structure Sending (frames : Nat) (buf : Buffer) (k : Nat) (s : Sender) : Prop where
  less : k < frames
  fifty : k = 0 ∨ 50 ≤ frames
  frameid : s.frameid = k % ushortLimit
  romsize : s.romsize = (frames - 1 - k) * blockSize
  frame : getFrame buf s.frameid = .ok s.frame
  taken : ∀ i < k, ∃ e ∈ s.sent, e.frameid = i % ushortLimit ∧
      getFrame buf e.frameid = .ok e.writes.flatten ∧ e.mpegFb = answerO
  only : ∀ e ∈ s.sent, e.frameid < ushortLimit ∧ e.mpegFb ≠ answerE ∧
      (e.mpegFb = answerO → ∃ i < k, e.frameid = i % ushortLimit)

/- What is sent when the current frame is answered. -/
def Sender.answered (s : Sender) (frameSize : Nat) (counts : List Nat) (fb : UInt8) : Sender :=
  { s with sent := s.sent ++ [⟨s.frameid, mpegSendFrame frameSize counts s.frame, fb⟩] }

variable {frameSize dsp10p dsp2p : Nat} {buf : Buffer} {s : Sender} {x : Exchange}
variable {exchanges : List Exchange}

theorem transferLoop_again (hWait : mpegWaitReturn x.reads = some fb)
    (hAgain : fb = answerL ∨ fb = answerX) :
    transferLoop frameSize buf dsp10p dsp2p s (x :: exchanges) =
      transferLoop frameSize buf dsp10p dsp2p (s.answered frameSize x.counts fb) exchanges := by
  have hO : fb ≠ answerO := by rcases hAgain with rfl | rfl <;> decide
  rw [transferLoop, hWait]
  simp only [if_neg hO, if_pos hAgain, Sender.answered]

theorem transferLoop_next (hWait : mpegWaitReturn x.reads = some answerO) (hMore : s.romsize ≠ 0) :
    transferLoop frameSize buf dsp10p dsp2p s (x :: exchanges) = (do
      let s ← Sender.nextFrame buf dsp10p dsp2p (s.answered frameSize x.counts answerO)
      transferLoop frameSize buf dsp10p dsp2p s exchanges) := by
  rw [transferLoop, hWait]
  simp only [if_true, if_neg hMore, Sender.answered]

theorem transferLoop_end (hWait : mpegWaitReturn x.reads = some fb) (hEnd :
      (fb = answerO ∧ s.romsize = 0) ∨ fb = answerE ∨ fb = noAnswer) :
    ∃ result, transferLoop frameSize buf dsp10p dsp2p s (x :: exchanges) =
      .ok (result, (s.answered frameSize x.counts fb).sent) := by
  rw [transferLoop, hWait]
  rcases hEnd with ⟨rfl, hZero⟩ | rfl | rfl
  · simp only [if_true, if_pos hZero]
    exact ⟨true, rfl⟩
  · exact ⟨true, rfl⟩
  · exact ⟨false, rfl⟩

namespace Sending

variable {k : Nat} {counts : List Nat}

section

variable (h : Sending frames buf k s)

include h

theorem romsize_eq_zero : s.romsize = 0 ↔ k + 1 = frames := by
  have hLess := h.less
  rw [h.romsize]
  simp only [blockSize]
  omega

theorem exists_next (hBuf : buf.length = frames * blockSize) (hMore : k + 1 < frames) :
    ∃ frame, getFrame buf ((s.frameid + 1) % ushortLimit) = .ok frame := by
  apply exists_getFrame
  rw [hBuf, h.frameid, Nat.mod_add_mod]
  apply Nat.mul_le_mul_right
  have hMod := Nat.mod_le (k + 1) ushortLimit
  omega

/- A request to send the frame again changes nothing. -/
theorem again (hO : fb ≠ answerO) (hE : fb ≠ answerE) :
    Sending frames buf k (s.answered frameSize counts fb) where
  less := h.less
  fifty := h.fifty
  frameid := h.frameid
  romsize := h.romsize
  frame := h.frame
  taken := by
    intro i hi
    rcases h.taken i hi with ⟨e, he, hTaken⟩
    exact ⟨e, mem_append_left _ he, hTaken⟩
  only := by
    intro e he
    rcases mem_append.mp he with hOld | hNew
    · exact h.only e hOld
    · rw [mem_singleton] at hNew
      subst hNew
      refine ⟨?_, hE, fun hEq => absurd hEq hO⟩
      rw [h.frameid]
      exact Nat.mod_lt k (by decide)

/- An `O` for a frame in front of the last one. -/
theorem advance (hBuf : buf.length = frames * blockSize)
    (hSize : frames * blockSize < uintLimit) (hMore : k + 1 < frames) (hMany : 50 ≤ frames) :
    ∃ next, Sender.nextFrame buf (frames / 5) (frames / 50) (s.answered frameSize counts answerO) =
      .ok next ∧ Sending frames buf (k + 1) next := by
  have hId : (s.frameid + 1) % ushortLimit = (k + 1) % ushortLimit := by
    rw [h.frameid, Nat.mod_add_mod]
  have hFifth : ¬ (frames / 50 = 0 ∨ frames / 5 = 0) := by omega
  have hLeft : (s.romsize + uintLimit - blockSize) % uintLimit =
      (frames - 1 - (k + 1)) * blockSize := by
    have hRom := h.romsize
    simp only [uintLimit, blockSize] at *
    omega
  rcases h.exists_next hBuf hMore with ⟨frame, hFrame⟩
  rw [hId] at hFrame
  refine
    ⟨{ frameid := (k + 1) % ushortLimit
       romsize := (frames - 1 - (k + 1)) * blockSize
       frame := frame
       sent := (s.answered frameSize counts answerO).sent }, ?_, ?_⟩
  · simp only [Sender.nextFrame, Sender.answered, hId, hFrame, hLeft, if_neg hFifth, ok_bind]
    rfl
  · constructor
    · exact hMore
    · exact .inr hMany
    · rfl
    · rfl
    · exact hFrame
    · intro i hi
      rcases Nat.lt_succ_iff_lt_or_eq.mp hi with hOld | rfl
      · rcases h.taken i hOld with ⟨e, he, hTaken⟩
        exact ⟨e, mem_append_left _ he, hTaken⟩
      · refine ⟨_, mem_append_right _ (mem_singleton_self _), h.frameid, ?_, rfl⟩
        rw [mpegSendFrame_flatten]
        exact h.frame
    · intro e he
      rcases mem_append.mp he with hOld | hNew
      · rcases h.only e hOld with ⟨hId, hE, hO⟩
        refine ⟨hId, hE, fun hEq => ?_⟩
        rcases hO hEq with ⟨i, hi, hAt⟩
        exact ⟨i, by omega, hAt⟩
      · rw [mem_singleton] at hNew
        subst hNew
        refine ⟨?_, by simp [answerO, answerE], ?_⟩
        · rw [h.frameid]
          exact Nat.mod_lt k (by decide)
        · intro _
          exact ⟨k, by omega, h.frameid⟩

/- An answer to the last frame completes the download. -/
theorem completed (hLast : k + 1 = frames) (hFits : frames ≤ ushortLimit)
    (hAnswer : fb = answerO ∨ fb = answerE) :
    ∀ i < frames, Taken frames buf (s.answered frameSize counts fb).sent i := by
  intro i hi
  have hSmall : i % ushortLimit = i := Nat.mod_eq_of_lt (by omega)
  by_cases hOld : i < k
  · rcases h.taken i hOld with ⟨e, he, hId, hFrame, hO⟩
    rw [hSmall] at hId
    rw [hId] at hFrame
    exact ⟨e, mem_append_left _ he, hId, hFrame, .inl hO⟩
  · have hEq : i = k := by omega
    subst hEq
    have hId := h.frameid
    rw [hSmall] at hId
    refine ⟨_, mem_append_right _ (mem_singleton_self _), hId, ?_, ?_⟩
    · rw [mpegSendFrame_flatten, ← hId]
      exact h.frame
    · rcases hAnswer with rfl | rfl
      · exact .inl rfl
      · exact .inr ⟨hLast, rfl⟩

/-
  Any other end leaves a frame that was not taken: the current one, or one with a number that is not
  a `short`.
-/
theorem not_completed (hEnds : Ends frames k fb) (hBad :
      ¬ (fb ≠ noAnswer ∧ k + 1 = frames ∧ frames ≤ ushortLimit)) :
    ¬ ∀ i < frames, Taken frames buf (s.answered frameSize counts fb).sent i := by
  intro hAll
  by_cases hFits : frames ≤ ushortLimit
  · have hLess := h.less
    rcases hAll k hLess with ⟨e, he, hId, _, hFb⟩
    rcases mem_append.mp he with hOld | hNew
    · rcases h.only e hOld with ⟨_, hE, hO⟩
      rcases hFb with hFb | hFb
      · rcases hO hFb with ⟨i, hi, hAt⟩
        rw [Nat.mod_eq_of_lt (by omega)] at hAt
        omega
      · exact hE hFb.2
    · rw [mem_singleton] at hNew
      subst hNew
      apply hBad
      rcases hFb with rfl | ⟨hLast, rfl⟩
      · have hLast := hEnds.2.2 rfl
        exact ⟨by simp [answerO, noAnswer], by omega, hFits⟩
      · exact ⟨by simp [answerE, noAnswer], hLast, hFits⟩
  · rcases hAll ushortLimit (by omega) with ⟨e, he, hId, _⟩
    have hShort : e.frameid < ushortLimit := by
      rcases mem_append.mp he with hOld | hNew
      · exact (h.only e hOld).1
      · rw [mem_singleton] at hNew
        subst hNew
        rw [h.frameid]
        exact Nat.mod_lt k (by decide)
    omega

/- The transfer ends with this answer. -/
theorem end_iff (frameSize : Nat) (counts : List Nat)
    (hCases : fb = noAnswer ∨ fb = answerO ∨ fb = answerX ∨
      fb = answerE ∨ fb = answerL) (hEnds : Ends frames k fb) :
    (∀ i < frames, Taken frames buf (s.answered frameSize counts fb).sent i) ↔
      fb ≠ noAnswer ∧ k + 1 = frames ∧ frames ≤ ushortLimit := by
  constructor
  · intro hAll
    by_contra hBad
    exact h.not_completed hEnds hBad hAll
  · rintro ⟨hAnswer, hLast, hFits⟩
    apply h.completed hLast hFits
    rcases hCases with hNo | hO | hX | hE | hL
    · exact absurd hNo hAnswer
    · exact .inl hO
    · exact absurd hX hEnds.2.1
    · exact .inr hE
    · exact absurd hL hEnds.1

/- The answers that end the transfer in its loop. -/
theorem end_of_ends (hCases : fb = noAnswer ∨ fb = answerO ∨ fb = answerX ∨
        fb = answerE ∨ fb = answerL) (hEnds : Ends frames k fb) :
    (fb = answerO ∧ s.romsize = 0) ∨ fb = answerE ∨ fb = noAnswer := by
  have hLess := h.less
  rw [h.romsize_eq_zero]
  rcases hEnds with ⟨hL, hX, hO⟩
  rcases hCases with hNo | hO' | hX' | hE | hL'
  · exact .inr (.inr hNo)
  · have hLast := hO hO'
    exact .inl ⟨hO', by omega⟩
  · exact absurd hX' hX
  · exact .inr (.inl hE)
  · exact absurd hL' hL

/- An `O` for one of fewer than 50 frames divides by zero. -/
theorem nextFrame_few (hBuf : buf.length = frames * blockSize)
    (hMore : k + 1 < frames) (hFew : frames < 50) :
    Sender.nextFrame buf (frames / 5) (frames / 50) (s.answered frameSize counts answerO) =
      .error .divideByZero := by
  have hZero : frames / 50 = 0 := by omega
  rcases h.exists_next hBuf hMore with ⟨frame, hFrame⟩
  simp only [Sender.nextFrame, Sender.answered, hFrame, hZero, ok_bind, true_or, if_true]
  rfl

/- A transfer that returns has completed the download if and only if the answers end well. -/
theorem truthful_iff (hBuf : buf.length = frames * blockSize)
    (hSize : frames * blockSize < uintLimit) (exchanges : List Exchange) :
    Truthful frames buf (transferLoop frameSize buf (frames / 5) (frames / 50) s exchanges) ↔
      EndsWell frames k (exchanges.map fun x => mpegWaitReturn x.reads) := by
  induction exchanges generalizing k s with
  | nil => simp [transferLoop, EndsWell.nil]
  | cons x exchanges ih =>
    have hLess := h.less
    rw [map_cons]
    cases hWait : mpegWaitReturn x.reads with
    | none => simp [transferLoop, hWait, EndsWell.none_cons]
    | some fb =>
      have hCases := mpegWaitReturn_cases hWait
      by_cases hEnds : Ends frames k fb
      · rcases transferLoop_end hWait (h.end_of_ends hCases hEnds) with ⟨result, hRun⟩
        rw [hRun, truthful_ok, h.end_iff frameSize x.counts hCases hEnds,
          EndsWell.end_iff hLess h.fifty hEnds]
      · rcases not_ends hEnds with hAgain | ⟨rfl, hMore⟩
        · rw [transferLoop_again hWait hAgain, EndsWell.cons_iff (.inr (by
              rcases hAgain with rfl | rfl
              · exact .inl rfl
              · exact .inr rfl)) hEnds]
          apply ih
          rcases hAgain with rfl | rfl
          all_goals exact h.again (by decide) (by decide)
        · have hRest : s.romsize ≠ 0 := by
            rw [Ne, h.romsize_eq_zero]
            omega
          rw [transferLoop_next hWait hRest, EndsWell.cons_iff (.inl rfl) hEnds]
          change
            _ ↔ EndsWell frames (k + 1) _
          by_cases hMany : 50 ≤ frames
          · rcases h.advance hBuf hSize hMore hMany with ⟨next, hNext, hSending⟩
            rw [hNext, ok_bind]
            exact ih hSending
          · have hFew : frames < 50 := by omega
            rw [h.nextFrame_few hBuf hMore hFew]
            constructor
            · intro _ front fb rest' _ _ _ hFifty
              omega
            · intro _
              exact truthful_error.mpr (by simp)

end

end Sending

------
-- The Result Of The Update
------

/-
  With `left` tries from number `tryTime` on, one of them gets to the transfer and the ones in front
  of it fail.
-/
def Reaches (attempts : Nat → Attempt) (left tryTime : Nat) : Prop :=
  ∃ i < left, (∀ j < i, (attempts (tryTime + j)).prepare = .failed) ∧
      (attempts (tryTime + i)).prepare = .prepared ∧ (attempts (tryTime + i)).answersReady = true

variable {attempts : Nat → Attempt}

/- A first try that fails leaves the others. -/
theorem reaches_of_failed (hFailed : (attempts tryTime).prepare = .failed) :
    Reaches attempts (left + 1) tryTime ↔ Reaches attempts left (tryTime + 1) := by
  have hMove : ∀ j, tryTime + 1 + j = tryTime + (j + 1) := by
    omega
  constructor
  · rintro ⟨i, hi, hBefore, hPrepared, hReady⟩
    cases i with
    | zero =>
      rw [add_zero, hFailed] at hPrepared
      cases hPrepared
    | succ i =>
      refine ⟨i, by omega, ?_, ?_, ?_⟩
      · intro j hj
        rw [hMove]
        exact hBefore (j + 1) (by omega)
      · rw [hMove]
        exact hPrepared
      · rw [hMove]
        exact hReady
  · rintro ⟨i, hi, hBefore, hPrepared, hReady⟩
    rw [hMove] at hPrepared hReady
    refine ⟨i + 1, by omega, ?_, hPrepared, hReady⟩
    intro j hj
    cases j with
    | zero => exact hFailed
    | succ j =>
      have hRest := hBefore j (by omega)
      rwa [hMove] at hRest

theorem reaches_of_not_failed (hDecided : (attempts tryTime).prepare ≠ .failed) :
    Reaches attempts (left + 1) tryTime ↔ (attempts tryTime).prepare = .prepared ∧
      (attempts tryTime).answersReady = true := by
  constructor
  · rintro ⟨i, _, hBefore, hPrepared, hReady⟩
    cases i with
    | zero => exact ⟨hPrepared, hReady⟩
    | succ i => exact absurd (hBefore 0 (by omega)) hDecided
  · rintro ⟨hPrepared, hReady⟩
    exact ⟨0, by omega, by simp, hPrepared, hReady⟩

variable {l : Link}

/-
  The update succeeds if it gets to the transfer and the transfer returns. It reads behind the
  buffer if the transfer does.
-/
theorem burning_outcome :
    (∀ sent, burning attempts l left tryTime = .ok (.success, sent) ↔
      Reaches attempts left tryTime ∧ ∃ result, transfer 1400 l = .ok (result, sent)) ∧
    (burning attempts l left tryTime = .error .outOfBounds ↔ Reaches attempts left tryTime ∧
      transfer 1400 l = .error .outOfBounds) := by
  induction left generalizing tryTime with
  | zero => simp [burning, Reaches]
  | succ left ih =>
    unfold burning
    cases hPrepare : (attempts tryTime).prepare with
    | notExisted =>
      rw [reaches_of_not_failed (by simp [hPrepare])]
      simp [hPrepare]
    | failed =>
      rw [reaches_of_failed hPrepare]
      exact ih
    | prepared =>
      rw [reaches_of_not_failed (by simp [hPrepare])]
      simp only [hPrepare, true_and]
      cases hReady : (attempts tryTime).answersReady with
      | false => simp [throw, throwThe, MonadExceptOf.throw, bind, Except.bind]
      | true =>
        cases hRun : transfer 1400 l with
        | error fault => simp [bind, Except.bind]
        | ok outcome =>
          rcases outcome with ⟨result, sent'⟩
          simp [bind, Except.bind]

/-
  What it takes for a transfer to complete the download: the memory and the file are there, the size
  of the file is known, and the answers end well.
-/
def Completes (l : Link) : Prop :=
  l.image ≠ [] → (l.mallocs = true ∧ l.opens = true) ∧
      (l.sizeOpens = true ∧ l.image.length < 2 ^ 31) ∧
      EndsWell (frameCount l.image) 0 (l.exchanges.map fun x => mpegWaitReturn x.reads)

/- `romsize` of a file whose size is known. -/
theorem romsize_eq (hOpens : l.sizeOpens = true) (hSize : l.image.length < 2 ^ 31) :
    l.romsize = frameCount l.image * blockSize := by
  simp only [Link.romsize, mpegGetFileSize, hOpens, if_true, if_pos hSize, frameCount, uintLimit,
    blockSize]
  omega

theorem romsize_eq_zero (hUnknown : ¬ (l.sizeOpens = true ∧ l.image.length < 2 ^ 31)) :
    l.romsize = 0 := by
  unfold Link.romsize mpegGetFileSize
  split
  next hOpens =>
    rw [if_neg (fun hSize => hUnknown ⟨hOpens, hSize⟩)]
    decide
  next => decide

theorem length_loaded (l : Link) {size : Nat}
    (hSize : l.image.length ≤ size) : (l.loaded size).length = size := by
  simp only [Link.loaded, length_append, length_take, length_map, length_range]
  omega

/- The state in which the loop of `transfer` is entered. -/
theorem Sending.start {buf : Buffer} (hFrames : 0 < frames) (hSize : frames * blockSize < uintLimit)
    (hFrame : getFrame buf 0 = .ok frame) :
    Sending frames buf 0
      { frameid := 0
        romsize := (frames * blockSize + uintLimit - blockSize) % uintLimit
        frame := frame
        sent := [] } where
  less := hFrames
  fifty := .inl rfl
  frameid := rfl
  romsize := by
    simp only [uintLimit, blockSize] at *
    omega
  frame := hFrame
  taken := by
    intro i hi
    cases hi
  only := by
    intro e he
    cases he

theorem transfer_eq_nothing (frameSize : Nat) (hMissing : ¬ (l.mallocs = true ∧ l.opens = true)) :
    transfer frameSize l = .ok (false, []) := by
  unfold transfer
  cases hMallocs : l.mallocs with
  | false => rfl
  | true =>
    cases hOpens : l.opens with
    | false => rfl
    | true => exact absurd ⟨hMallocs, hOpens⟩ hMissing

section

variable (frameSize : Nat) (hMallocs : l.mallocs = true) (hOpens : l.opens = true)

include hMallocs hOpens

theorem transfer_eq_outOfBounds (hZero : l.romsize = 0) :
    transfer frameSize l = .error .outOfBounds := by
  have hNoFrame : getFrame (l.loaded 0) 0 = .error .outOfBounds := by
    simp [getFrame, Link.loaded, Buffer.block, blockSize, bind, Except.bind]
  simp only [transfer, hMallocs, hOpens, hZero, hNoFrame, Bool.true_eq_false, if_false]
  rfl

/- Otherwise the loop is entered with the first frame. -/
theorem transfer_eq_loop (hRomsize : l.romsize = frames * blockSize)
    (hFrame : getFrame (l.loaded (frames * blockSize)) 0 = .ok frame) :
    transfer frameSize l = transferLoop frameSize (l.loaded (frames * blockSize)) (frames / 5)
      (frames / 50)
      { frameid := 0
        romsize := (frames * blockSize + uintLimit - blockSize) % uintLimit
        frame := frame
        sent := [] }
      l.exchanges := by
  have hFrames : frames * blockSize / blockSize = frames := Nat.mul_div_cancel _ (by decide)
  simp only [transfer, hMallocs, hOpens, hRomsize, hFrame, hFrames, Bool.true_eq_false, if_false]
  rfl

end

theorem length_padded (l : Link) :
    (l.loaded (frameCount l.image * blockSize)).length = frameCount l.image * blockSize := by
  apply length_loaded
  simp only [frameCount, blockSize]
  omega

theorem padded_lt (hSmall : l.image.length < 2 ^ 31) :
    frameCount l.image * blockSize < uintLimit := by
  simp only [frameCount, blockSize, uintLimit]
  omega

theorem frameCount_pos (hImage : l.image ≠ []) : 0 < frameCount l.image := by
  have hLength := length_pos_of_ne_nil hImage
  simp only [frameCount, blockSize]
  omega

/- An image whose size is known gets into the loop. -/
theorem transfer_enters (frameSize : Nat) (hImage : l.image ≠ []) (hMallocs : l.mallocs = true)
    (hOpens : l.opens = true) (hKnown : l.sizeOpens = true ∧ l.image.length < 2 ^ 31) :
    ∃ s, Sending (frameCount l.image) (l.loaded (frameCount l.image * blockSize)) 0 s ∧
      s.sent = [] ∧ ∀ exchanges, transfer frameSize { l with exchanges := exchanges } =
        transferLoop frameSize (l.loaded (frameCount l.image * blockSize))
          (frameCount l.image / 5) (frameCount l.image / 50) s exchanges := by
  have hFrames := frameCount_pos hImage
  rcases exists_getFrame (l.loaded (frameCount l.image * blockSize)) 0 (by
        rw [length_padded]
        exact Nat.mul_le_mul_right _ hFrames) with ⟨frame, hFrame⟩
  refine ⟨_, Sending.start hFrames (padded_lt hKnown.2) hFrame, rfl, ?_⟩
  intro exchanges
  exact transfer_eq_loop (l := { l with exchanges := exchanges }) frameSize hMallocs hOpens
    (romsize_eq hKnown.1 hKnown.2) hFrame

/- Not all frames of an image were taken if nothing was sent. -/
theorem not_taken_nil (hImage : l.image ≠ []) {buf : Buffer} :
    ¬ ∀ i < frameCount l.image, Taken (frameCount l.image) buf [] i := by
  intro hAll
  rcases hAll 0 (frameCount_pos hImage) with ⟨e, he, _⟩
  cases he

/- When a transfer that returns has completed the download. -/
theorem transfer_truthful_iff (l : Link) :
    Truthful (frameCount l.image) (l.loaded (frameCount l.image * blockSize))
      (transfer 1400 l) ↔ Completes l := by
  by_cases hImage : l.image = []
  · -- An empty image has no frames.
    have hNone : frameCount l.image = 0 := by
      rw [hImage]
      decide
    rw [hNone]
    exact iff_of_true (by simp [Truthful]) fun hNot => absurd hImage hNot
  by_cases hThere : l.mallocs = true ∧ l.opens = true
  · by_cases hKnown : l.sizeOpens = true ∧ l.image.length < 2 ^ 31
    · rcases transfer_enters 1400 hImage hThere.1 hThere.2 hKnown with ⟨s, hStart, _, hEnters⟩
      rw [hEnters l.exchanges, hStart.truthful_iff (length_padded l) (padded_lt hKnown.2)]
      constructor
      · intro hEnds _
        exact ⟨hThere, hKnown, hEnds⟩
      · intro hCompletes
        exact (hCompletes hImage).2.2
    · rw [transfer_eq_outOfBounds 1400 hThere.1 hThere.2 (romsize_eq_zero hKnown), truthful_error]
      exact iff_of_false (fun h => not_taken_nil hImage (h rfl)) fun h => hKnown (h hImage).2.1
  · rw [transfer_eq_nothing 1400 hThere, truthful_ok]
    exact iff_of_false (not_taken_nil hImage) fun h => hThere (h hImage).1

/-
  `mpeg_update` reports success only after a download that was completed, if and only if a transfer
  that it gets to completes the download.
-/
theorem mpeg_update_truthful_iff (attempts : Nat → Attempt) (l : Link) :
    ((∀ sent, mpegUpdate attempts l = .ok (.success, sent) → Completed l sent) ∧
      (mpegUpdate attempts l = .error .outOfBounds → Completed l [])) ↔
      (Reaches attempts 3 0 → Completes l) := by
  rw [← transfer_truthful_iff l]
  constructor
  · intro h hReaches
    refine ⟨fun result sent hRun => ?_, fun hRun => ?_⟩
    · exact h.1 sent ((burning_outcome.1 sent).mpr ⟨hReaches, result, hRun⟩)
    · exact h.2 (burning_outcome.2.mpr ⟨hReaches, hRun⟩)
  · intro h
    refine ⟨fun sent hUpdate => ?_, fun hUpdate => ?_⟩
    · rcases (burning_outcome.1 sent).mp hUpdate with ⟨hReaches, result, hRun⟩
      exact (h hReaches).1 result sent hRun
    · rcases burning_outcome.2.mp hUpdate with ⟨hReaches, hRun⟩
      exact (h hReaches).2 hRun

/- An attempt in which nothing goes wrong. -/
def smoothAttempt : Attempt where
  bootOpens := true
  romOpens := true
  confirmDevice := .success
  initSdram := .success
  sendSloader := .success
  rebootIntoSloader := .success
  answersReady := true

/- An image of 60 frames; `E` is the answer to the first. -/
def earlyEnd : Link where
  image := replicate (60 * 4096) 0
  sizeOpens := true
  mallocs := true
  opens := true
  fresh := fun _ => 0
  exchanges := [⟨[], [answerE]⟩]

/- Success is reported after one of 60 frames. -/
theorem mpeg_update_reports_early_end :
    ∃ sent, mpegUpdate (fun _ => smoothAttempt) earlyEnd = .ok (.success, sent) ∧
      sent.map (fun e => (e.frameid, e.mpegFb)) = [(0, answerE)] ∧ ¬ Completed earlyEnd sent := by
  have hLength : earlyEnd.image.length = 60 * 4096 := length_replicate
  have hFrames : frameCount earlyEnd.image = 60 := by
    rw [frameCount, hLength]
    decide
  have hRomsize : earlyEnd.romsize = 60 * blockSize := by
    rw [romsize_eq rfl (by rw [hLength]; decide), hFrames]
  have hBuf : (earlyEnd.loaded (60 * blockSize)).length = 60 * blockSize := by
    apply length_loaded
    rw [hLength]
    decide
  rcases exists_getFrame (earlyEnd.loaded (60 * blockSize)) 0 (by
        rw [hBuf]
        decide) with ⟨frame, hFrame⟩
  have hTransfer := transfer_eq_loop 1400 rfl rfl hRomsize hFrame
  have hAnswer : mpegWaitReturn (⟨[], [answerE]⟩ : Exchange).reads = some answerE := by decide
  have hEnd : ∃ result, transfer 1400 earlyEnd = .ok (result,
      [⟨0, mpegSendFrame 1400 [] frame, answerE⟩]) := by
    rw [hTransfer]
    exact transferLoop_end hAnswer (.inr (.inl rfl))
  have hReaches : Reaches (fun _ => smoothAttempt) 3 0 := ⟨0, by decide, by simp, rfl, rfl⟩
  refine ⟨_, (burning_outcome.1 _).mpr ⟨hReaches, hEnd⟩, rfl, ?_⟩
  intro hCompleted
  rcases hCompleted 1 (by rw [hFrames]; decide) with ⟨e, he, hId, _⟩
  rw [mem_singleton] at he
  subst he
  cases hId

------
-- What A Frame Carries
------

/- The sum of the words of two bytes. -/
def wordSum : List UInt8 → Nat
| low :: high :: rest => low.toNat + 256 * high.toNat + wordSum rest
| _ => 0

/- The number, the block and the 32-bit sum of its words. -/
def Carries (buf : Buffer) (k : Nat) (bytes : List UInt8) : Prop :=
  ∃ block, buf.block (k * blockSize) blockSize = .ok block ∧ bytes = toBytes 2 k ++ block ++
      toBytes 4 (wordSum block % uintLimit : Nat)

theorem getChecksum_eq (bytes : List UInt8) : getChecksum bytes = wordSum bytes % uintLimit := by
  fun_induction getChecksum bytes with
  | case1 low high rest ih => rw [ih, wordSum, Nat.add_mod_mod]
  | case2 bytes hShort =>
    unfold wordSum
    split
    · exact absurd rfl (hShort _ _ _)
    · rfl

theorem getFrame_carries {buf : Buffer} {k : Nat} {frame : List UInt8}
    (hFrame : getFrame buf k = .ok frame) : Carries buf k frame := by
  have hTwo (n : Nat) : toBytes 2 n = [UInt8.ofNat n, UInt8.ofNat (n / 256)] := by
    simp only [toBytes_natCast]
    rfl
  have hFour (n : Nat) : toBytes 4 n = [UInt8.ofNat n, UInt8.ofNat (n / 256),
      UInt8.ofNat (n / 256 ^ 2), UInt8.ofNat (n / 256 ^ 3)] := by
    simp only [toBytes_natCast, Nat.div_div_eq_div_mul]
    rfl
  rcases bind_eq_ok.mp hFrame with ⟨block, hBlock, hEq⟩
  refine ⟨block, hBlock, ?_⟩
  cases hEq
  rw [hTwo, hFour, getChecksum_eq]

------
-- Frames In Order
------

/- Frame `k` is sent until the device takes it, then the next one. -/
def InOrder (buf : Buffer) : Nat → List Sent → Prop
| _, [] => True
| k, e :: sent =>
  e.frameid = k ∧ Carries buf k e.writes.flatten ∧
    InOrder buf (if e.mpegFb = answerO then k + 1 else k) sent

/- The frames that the device took. -/
def acks (sent : List Sent) : Nat :=
  sent.countP fun e => e.mpegFb = answerO

/- The transfer divides by no zero and stays in the padded image, and what it sends is in order. -/
def SendsInOrder (buf : Buffer) (outcome : Except Fault (Bool × List Sent)) : Prop :=
  (∀ fault, outcome = .error fault → fault = .outOfFuel) ∧
    ∀ result sent, outcome = .ok (result, sent) → InOrder buf 0 sent

theorem sendsInOrder_ok {buf : Buffer} {result : Bool} {sent : List Sent}
    (hOrder : InOrder buf 0 sent) : SendsInOrder buf (.ok (result, sent)) := by
  constructor
  · intro fault hEq
    cases hEq
  · intro result' sent' hEq
    cases hEq
    exact hOrder

theorem sendsInOrder_running (buf : Buffer) : SendsInOrder buf (.error .outOfFuel) := by
  constructor
  · intro fault hEq
    cases hEq
    rfl
  · intro result sent hEq
    cases hEq

theorem nextFrame_sent {buf : Buffer} {dsp10p dsp2p : Nat} {s next : Sender}
    (hNext : Sender.nextFrame buf dsp10p dsp2p s = .ok next) : next.sent = s.sent := by
  rcases bind_eq_ok.mp hNext with ⟨frame, _, hRest⟩
  split at hRest
  · cases hRest
  · cases hRest
    rfl

theorem acks_concat (sent : List Sent) (e : Sent) :
    acks (sent ++ [e]) = acks sent + if e.mpegFb = answerO then 1 else 0 := by
  unfold acks
  simp

theorem inOrder_concat {buf : Buffer} {k : Nat} {e : Sent} (sent : List Sent) :
    InOrder buf k (sent ++ [e]) ↔ InOrder buf k sent ∧ e.frameid = k + acks sent ∧
      Carries buf (k + acks sent) e.writes.flatten := by
  induction sent generalizing k with
  | nil => simp [InOrder, acks]
  | cons first sent ih =>
    have hMoved : (if first.mpegFb = answerO then k + 1 else k) + acks sent =
        k + acks (first :: sent) := by
      unfold acks
      split
      · simp_all
        omega
      · simp_all
    rw [cons_append, InOrder, ih, hMoved, InOrder]
    simp only [and_assoc]

namespace Sending

variable {frames k frameSize : Nat} {buf : Buffer} {s : Sender}

theorem answered_inOrder (h : Sending frames buf k s) (hFits : k < ushortLimit)
    (hOrder : InOrder buf 0 s.sent) (hAcks : acks s.sent = k)
    (frameSize : Nat) (counts : List Nat) (fb : UInt8) :
    InOrder buf 0 (s.answered frameSize counts fb).sent := by
  have hId : s.frameid = k := h.frameid.trans (Nat.mod_eq_of_lt hFits)
  have hFrame := getFrame_carries h.frame
  refine (inOrder_concat s.sent).mpr ⟨hOrder, ?_, ?_⟩
  · rw [hAcks, Nat.zero_add]
    exact hId
  · rw [hAcks, zero_add, mpegSendFrame_flatten, ← hId]
    exact hFrame

section

variable (h : Sending frames buf k s) (hBuf : buf.length = frames * blockSize)
variable (hSize : frames * blockSize < uintLimit)

include h hBuf hSize

/- An image of one frame, or of at least 50, is sent in order. -/
theorem in_order (hFrames : frames = 1 ∨ 50 ≤ frames ∧ frames ≤ ushortLimit)
    (hOrder : InOrder buf 0 s.sent) (hAcks : acks s.sent = k) (exchanges : List Exchange) :
    SendsInOrder buf (transferLoop frameSize buf (frames / 5) (frames / 50) s exchanges) := by
  have hLess := h.less
  have hFits : k < ushortLimit := by
    unfold ushortLimit at *
    omega
  induction exchanges generalizing k s with
  | nil => exact sendsInOrder_running buf
  | cons x exchanges ih =>
    cases hWait : mpegWaitReturn x.reads with
    | none =>
      rw [transferLoop, hWait]
      exact sendsInOrder_running buf
    | some fb =>
      have hNew := h.answered_inOrder hFits hOrder hAcks frameSize x.counts fb
      by_cases hEnds : Ends frames k fb
      · rcases transferLoop_end hWait (h.end_of_ends (mpegWaitReturn_cases hWait) hEnds) with
          ⟨result, hRun⟩
        rw [hRun]
        exact sendsInOrder_ok hNew
      · rcases not_ends hEnds with hAgain | ⟨rfl, hMore⟩
        · rw [transferLoop_again hWait hAgain]
          have hO : fb ≠ answerO := by rcases hAgain with rfl | rfl <;> decide
          have hE : fb ≠ answerE := by rcases hAgain with rfl | rfl <;> decide
          refine ih (h.again hO hE) hNew ?_ hLess hFits
          rw [Sender.answered, acks_concat, if_neg hO, hAcks, add_zero]
        · have hRest : s.romsize ≠ 0 := by
            rw [Ne, h.romsize_eq_zero]
            omega
          rcases h.advance hBuf hSize hMore (by omega) with ⟨next, hNext, hSending⟩
          have hSent := nextFrame_sent hNext
          rw [transferLoop_next hWait hRest, hNext, ok_bind]
          refine ih hSending ?_ ?_ hMore (by unfold ushortLimit at *; omega)
          · rw [hSent]
            exact hNew
          · rw [hSent, Sender.answered, acks_concat, if_pos rfl, hAcks]

/- The device takes `n` frames, one after the other. -/
theorem takes (hMany : 50 ≤ frames) {n : Nat} (hMore : k + n < frames) (rest : List Exchange) :
    ∃ next, transferLoop frameSize buf (frames / 5) (frames / 50) s
      (replicate n ⟨[], [answerO]⟩ ++ rest) =
        transferLoop frameSize buf (frames / 5) (frames / 50) next rest ∧
      Sending frames buf (k + n) next ∧ acks next.sent = acks s.sent + n := by
  induction n generalizing k s with
  | zero => exact ⟨s, rfl, h, rfl⟩
  | succ n ih =>
    have hRest : s.romsize ≠ 0 := by
      rw [Ne, h.romsize_eq_zero]
      omega
    rcases h.advance hBuf hSize (by omega) hMany with ⟨next, hNext, hSending⟩
    rcases ih hSending (by omega) with ⟨last, hRun, hLast, hAcks⟩
    rw [add_right_comm] at hLast
    refine ⟨last, ?_, hLast, ?_⟩
    · rw [replicate_succ, cons_append, transferLoop_next rfl hRest, hNext, ok_bind]
      exact hRun
    · rw [hAcks, nextFrame_sent hNext, Sender.answered, acks_concat, if_pos rfl]
      omega

end

/- The frame behind number 65535 has the number 0. -/
theorem not_in_order (h : Sending frames buf 0 s) (hBuf : buf.length = frames * blockSize)
    (hSize : frames * blockSize < uintLimit) (hMany : ushortLimit < frames) (hSent : s.sent = []) :
    ¬ SendsInOrder buf (transferLoop frameSize buf (frames / 5) (frames / 50) s
      (replicate ushortLimit ⟨[], [answerO]⟩ ++ [⟨[], [answerE]⟩])) := by
  intro hAll
  have hFifty : 50 ≤ frames := le_trans (by decide) hMany.le
  rcases h.takes (n := ushortLimit) hBuf hSize hFifty (by omega) [⟨[], [answerE]⟩] with
    ⟨next, hRun, hNext, hAcks⟩
  have hWait : mpegWaitReturn [answerE] = some answerE := rfl
  rcases transferLoop_end (x := ⟨[], [answerE]⟩) hWait (.inr (.inl rfl)) with ⟨result, hEnd⟩
  have hOrder := hAll.2 _ _ (hRun.trans hEnd)
  have hId := ((inOrder_concat next.sent).mp hOrder).2.1
  have hZero := hNext.frameid
  rw [hAcks, hSent] at hId
  change next.frameid = 0 + (0 + ushortLimit) at hId
  rw [hId] at hZero
  revert hZero
  decide

end Sending

------
-- The Images That Are Sent In Order
------

/- The first `O` leads to the division by a fiftieth of the frames. -/
theorem transfer_few (frameSize : Nat) {l : Link} (hMallocs : l.mallocs = true)
    (hOpens : l.opens = true) (hSizeOpens : l.sizeOpens = true) (hMore : 1 < frameCount l.image)
    (hFew : frameCount l.image < 50) :
    transfer frameSize { l with exchanges := [⟨[], [answerO]⟩] } = .error .divideByZero := by
  have hSmall : l.image.length < 2 ^ 31 := by
    unfold frameCount blockSize at hFew
    omega
  have hImage : l.image ≠ [] := by
    intro hNil
    rw [hNil] at hMore
    revert hMore
    decide
  rcases transfer_enters frameSize hImage hMallocs hOpens ⟨hSizeOpens, hSmall⟩ with
    ⟨s, hStart, _, hEnters⟩
  have hRest : s.romsize ≠ 0 := by
    rw [Ne, hStart.romsize_eq_zero]
    omega
  rw [hEnters, transferLoop_next rfl hRest, hStart.nextFrame_few (length_padded l) hMore hFew]
  rfl

/-
  For a non-empty image, the frames are sent in order and nothing is divided by zero, whatever the
  device answers, if and only if there is one frame or there are 50 to 65536.
-/
theorem transfer_in_order_iff (frameSize : Nat) (l : Link) (hImage : l.image ≠ []) :
    (∀ exchanges, SendsInOrder (l.loaded (frameCount l.image * blockSize))
      (transfer frameSize { l with exchanges := exchanges })) ↔
      (l.mallocs = true → l.opens = true → l.sizeOpens = true ∧ (frameCount l.image = 1 ∨
          50 ≤ frameCount l.image ∧ frameCount l.image ≤ ushortLimit)) := by
  constructor
  · intro hAll hMallocs hOpens
    by_cases hKnown : l.sizeOpens = true ∧ l.image.length < 2 ^ 31
    · rcases transfer_enters frameSize hImage hMallocs hOpens hKnown with
        ⟨s, hStart, hSent, hEnters⟩
      have hLess := hStart.less
      refine ⟨hKnown.1, ?_⟩
      by_contra hNot
      by_cases hFew : frameCount l.image < 50
      · have hFault := transfer_few frameSize hMallocs hOpens hKnown.1 (by omega) hFew
        cases (hAll [⟨[], [answerO]⟩]).1 .divideByZero hFault
      · have hOrder := hAll (replicate ushortLimit ⟨[], [answerO]⟩ ++ [⟨[], [answerE]⟩])
        rw [hEnters] at hOrder
        exact hStart.not_in_order (length_padded l) (padded_lt hKnown.2) (by omega) hSent hOrder
    · have hFault := (hAll l.exchanges).1 .outOfBounds
        (transfer_eq_outOfBounds frameSize hMallocs hOpens (romsize_eq_zero hKnown))
      cases hFault
  · intro hGood exchanges
    by_cases hThere : l.mallocs = true ∧ l.opens = true
    · rcases hGood hThere.1 hThere.2 with ⟨hSizeOpens, hFrames⟩
      have hSmall : l.image.length < 2 ^ 31 := by
        unfold frameCount blockSize ushortLimit at hFrames
        omega
      rcases transfer_enters frameSize hImage hThere.1 hThere.2 ⟨hSizeOpens, hSmall⟩ with
        ⟨s, hStart, hSent, hEnters⟩
      rw [hEnters]
      apply hStart.in_order (length_padded l) (padded_lt hSmall) hFrames
      · rw [hSent]
        exact trivial
      · rw [hSent]
        rfl
    · have hNothing : transfer frameSize { l with exchanges := exchanges } = .ok (false, []) :=
        transfer_eq_nothing frameSize hThere
      rw [hNothing]
      exact sendsInOrder_ok trivial

/- A file of so many zeros. -/
def zeroFile (n : Nat) : Link where
  image := replicate n 0
  sizeOpens := true
  mallocs := true
  opens := true
  fresh := fun _ => 0
  exchanges := []

theorem frameCount_zeroFile (n : Nat) : frameCount (zeroFile n).image = (n + 4095) / blockSize := by
  unfold frameCount zeroFile
  rw [length_replicate]

theorem transfer_in_order_fifty_frames :
    frameCount (zeroFile 204800).image = 50 ∧
      ∀ exchanges, SendsInOrder
        ((zeroFile 204800).loaded (frameCount (zeroFile 204800).image * blockSize))
        (transfer 1400 { zeroFile 204800 with exchanges := exchanges }) := by
  have hFrames := frameCount_zeroFile 204800
  have hImage : (zeroFile 204800).image ≠ [] := by
    intro hNone
    rw [hNone] at hFrames
    cases hFrames
  refine ⟨hFrames, (transfer_in_order_iff 1400 _ hImage).mpr fun _ _ => ⟨rfl, .inr ?_⟩⟩
  rw [hFrames]
  decide

/- A file of two frames. -/
def twoFrames : Link :=
  zeroFile 4097

/- The device takes the first, and the display divides by zero. -/
theorem transfer_divides_by_zero :
    transfer 1400 { twoFrames with exchanges := [⟨[], [answerO]⟩] } = .error .divideByZero := by
  have hFrames : frameCount twoFrames.image = 2 := frameCount_zeroFile 4097
  exact transfer_few 1400 rfl rfl rfl (by omega) (by omega)

end OpenIvi.Recovery
