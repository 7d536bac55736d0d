import OpenIvi.Lib.Loop

/-
  Calls of the camera HALs.

  The show thread of the tractor camera gives a buffer back one frame after it has put it on the
  overlay. The flag for the first buffer is not set again when the overlay is taken away, so the
  buffer that is on it then never goes back.

  A recorded frame is released by its index alone, whatever heap it is from.

  A picture is tagged with its position; the longitude is taken from the latitude.

  Main declarations:
    * `buffers_return_iff`
    * `recorded_frames_stable_iff`
    * `picture_tagged_iff`
-/

------
-- The Show Thread Of The Tractor Camera
------

namespace OpenIvi.Camera.Hal

open Lib

/-
  What the thread knows, the buffers that are out of the driver, and the one that the last iteration
  has put on the overlay.
-/
structure Show where
  mOverlay : Bool
  isFirstBuffer : Bool
  lastDisplayIndex : Nat
  out : List Nat
  shown : Option Nat

def preparePreviwMisc (mOverlay : Bool) : Show := ⟨mOverlay, true, 0, [], none⟩

/- `DevQueue`; a buffer that the driver has already is a fault. -/
def devQueue (s : Show) (queueBackIndex displayIndex : Nat) : Except Fault Show :=
  if queueBackIndex ∈ s.out then
    .ok { s with out := s.out.erase queueBackIndex, lastDisplayIndex := displayIndex }
  else .error .aborted

/- An iteration with a buffer that the driver has just released. -/
def previewshowFrameThread (s : Show) (displayIndex : Nat) : Except Fault Show :=
  let s := { s with
    out := displayIndex :: s.out
    shown := if s.mOverlay then some displayIndex else none }
  if s.mOverlay then
    if s.isFirstBuffer then .ok { s with isFirstBuffer := false, lastDisplayIndex := displayIndex }
    else devQueue s s.lastDisplayIndex displayIndex
  else devQueue s displayIndex displayIndex

inductive Action where
| setOverlay (overlay : Bool)
| frame (displayIndex : Nat)

/- The driver releases no buffer that it does not have. -/
def showStep (s : Show) : Action → Except Fault Show
| .setOverlay overlay => .ok { s with mOverlay := overlay }
| .frame displayIndex =>
  if displayIndex ∈ s.out then .ok s else previewshowFrameThread s displayIndex

/- Only the buffer on the overlay is still out. -/
def Returned (s : Show) : Prop :=
  ∀ b ∈ s.out, s.shown = some b

/- No frame comes without an overlay after one that was on an overlay. -/
def OverlayStays (s : Show) : Action → Prop
| .setOverlay _ => True
| .frame displayIndex => displayIndex ∉ s.out → s.mOverlay = false → s.isFirstBuffer = true

/- The first buffer is still to come, or the last one is on the overlay. -/
inductive Tracks : Show → Prop
| first (overlay : Bool) (last : Nat) (shown : Option Nat) : Tracks ⟨overlay, true, last, [], shown⟩
| showing (overlay : Bool) (last : Nat) : Tracks ⟨overlay, false, last, [last], some last⟩

theorem Tracks.returned {s : Show} (hTracks : Tracks s) : Returned s := by
  intro b hB
  cases hTracks with
  | first => cases hB
  | showing overlay last => rw [List.mem_singleton.mp hB]

theorem Tracks.step {s : Show} (hTracks : Tracks s) (a : Action) (hStays : OverlayStays s a) :
    ∃ next, showStep s a = .ok next ∧ Tracks next := by
  cases a with
  | setOverlay overlay =>
    cases hTracks with
    | first _ last shown => exact ⟨_, rfl, .first overlay last shown⟩
    | showing _ last => exact ⟨_, rfl, .showing overlay last⟩
  | frame b =>
    by_cases hOut : b ∈ s.out
    · exact ⟨s, if_pos hOut, hTracks⟩
    · simp only [showStep, if_neg hOut]
      cases hTracks with
      | first overlay last shown =>
        cases overlay with
        | false => exact ⟨_, by simp [previewshowFrameThread, devQueue], .first false b none⟩
        | true => exact ⟨_, rfl, .showing true b⟩
      | showing overlay last =>
        cases overlay with
        | false => cases hStays hOut rfl
        | true =>
          have hNe : b ≠ last := fun hEq => hOut (List.mem_singleton.mpr hEq)
          refine ⟨_, ?_, .showing true b⟩
          simp [previewshowFrameThread, devQueue, hNe]

/- The buffer that was on the overlay is lost. -/
theorem Tracks.lost {s next : Show} (hTracks : Tracks s) (a : Action) (hNot : ¬ OverlayStays s a)
    (hStep : showStep s a = .ok next) : ¬ Returned next := by
  intro hReturned
  cases a with
  | setOverlay overlay => exact hNot trivial
  | frame b =>
    simp only [OverlayStays, Classical.not_imp] at hNot
    rcases hNot with ⟨hOut, hOff, hFirst⟩
    rw [showStep, if_neg hOut] at hStep
    cases hTracks with
    | first => exact hFirst rfl
    | showing overlay last =>
      cases hOff
      simp [previewshowFrameThread, devQueue] at hStep
      subst hStep
      cases hReturned last (List.mem_singleton_self last)

/- Every buffer goes back once if and only if the overlay stays. -/
theorem buffers_return_iff (mOverlay : Bool) (actions : List Action) :
    Always showStep Returned (preparePreviwMisc mOverlay) actions ↔
      Along showStep OverlayStays (preparePreviwMisc mOverlay) actions :=
  always_iff_along (fun _ => Tracks.returned) (fun _ a hTracks => hTracks.step a)
    (fun _ a _ hTracks => hTracks.lost a) (.first mOverlay 0 none) actions

/- With the overlay taken away for a frame, the buffer of this frame is queued twice. -/
theorem buffer_queued_twice : run showStep (preparePreviwMisc true)
    [.frame 0, .setOverlay false, .frame 1, .setOverlay true, .frame 2] = .error .aborted :=
  rfl

------
-- The Buffers Of A Recording
------

/-
  The buffers of `mVideoHeap` by their index, with the number of times that each of them was
  delivered and not released. `earlier` counts this for the heaps before it.
-/
structure Recorder where
  mRecordRunning : Bool
  mVideoBufferUsing : Nat → Bool
  out : Nat → Nat := fun _ => 0
  earlier : Nat → Nat := fun _ => 0

def mVideoBufNume : Nat := 5

/- `startRecording`, which clears the flags even if there is no memory for a heap. -/
def startRecording (memory : Bool) (s : Recorder) : Recorder :=
  if s.mRecordRunning then s
  else
    { mRecordRunning := memory
      mVideoBufferUsing := fun _ => false
      earlier := fun i => s.earlier i + s.out i }

/- The index is the offset of the frame in its heap, divided by its size. -/
def releaseRecordingFrame (index : Nat) (s : Recorder) : Recorder :=
  { s with mVideoBufferUsing := Function.update s.mVideoBufferUsing index false }

/- What `encodeframeThread` does with a frame. -/
def encodeframeThread (msgEnabled : Bool) (s : Recorder) : Recorder :=
  if msgEnabled && s.mRecordRunning then
    match (List.range mVideoBufNume).find? (fun i => !s.mVideoBufferUsing i) with
    | some i =>
      { s with
        mVideoBufferUsing := Function.update s.mVideoBufferUsing i true
        out := Function.update s.out i (s.out i + 1) }
    | none => s
  else s

inductive Call where
| startRecording (memory : Bool)
| stopRecording
| encode (msgEnabled : Bool)
| release (index : Nat)
| releaseEarlier (index : Nat)

/- A frame is released only if it is out. -/
def recordStep (s : Recorder) : Call → Except Fault Recorder
| .startRecording memory => .ok (startRecording memory s)
| .stopRecording => .ok { s with mRecordRunning := false }
| .encode msgEnabled => .ok (encodeframeThread msgEnabled s)
| .release i =>
  if s.out i = 0 then .ok s
  else .ok { releaseRecordingFrame i s with out := Function.update s.out i (s.out i - 1) }
| .releaseEarlier i =>
  if s.earlier i = 0 then .ok s
  else .ok
    { releaseRecordingFrame i s with earlier := Function.update s.earlier i (s.earlier i - 1) }

/- A buffer is out once while its flag is set; if not, the thread may write into it. -/
def Stable (s : Recorder) : Prop :=
  ∀ i, s.out i = (s.mVideoBufferUsing i).toNat

/- No frame of an earlier heap comes back while the buffer with its index is out. -/
def SparesBuffer (s : Recorder) : Call → Prop
| .releaseEarlier i => s.earlier i ≠ 0 → s.out i = 0
| _ => True

theorem Stable.encode {s : Recorder} (hStable : Stable s) (msgEnabled : Bool) :
    Stable (encodeframeThread msgEnabled s) := by
  unfold encodeframeThread
  split
  · split
    · rename_i i hFound
      intro j
      by_cases hEq : j = i
      · subst hEq
        simp_all [hStable j]
      · simp [hEq, hStable j]
    · exact hStable
  · exact hStable

theorem Stable.released {s next : Recorder} {i : Nat} (hStable : Stable s)
    (hUsing : next.mVideoBufferUsing = Function.update s.mVideoBufferUsing i false)
    (hOut : next.out = Function.update s.out i 0) : Stable next := by
  intro j
  rw [hUsing, hOut]
  by_cases hEq : j = i
  · simp [hEq]
  · simp [hEq, hStable j]

theorem Stable.step {s : Recorder} (hStable : Stable s) (c : Call) (hSpares : SparesBuffer s c) :
    ∃ next, recordStep s c = .ok next ∧ Stable next := by
  cases c with
  | startRecording memory =>
    refine ⟨_, rfl, ?_⟩
    unfold startRecording
    split
    · exact hStable
    · intro i
      rfl
  | stopRecording => exact ⟨_, rfl, hStable⟩
  | encode msgEnabled => exact ⟨_, rfl, hStable.encode msgEnabled⟩
  | release i =>
    by_cases hNone : s.out i = 0
    · exact ⟨s, if_pos hNone, hStable⟩
    · have hLast : s.out i - 1 = 0 := by
        rw [hStable i]
        exact Nat.sub_eq_zero_of_le (Bool.toNat_le _)
      exact ⟨_, if_neg hNone, hStable.released rfl (by rw [hLast])⟩
  | releaseEarlier i =>
    by_cases hNone : s.earlier i = 0
    · exact ⟨s, if_pos hNone, hStable⟩
    · refine ⟨_, if_neg hNone, hStable.released rfl ?_⟩
      rw [← hSpares hNone, Function.update_eq_self]
      rfl

/- The flag of a buffer that is out is cleared. -/
theorem unstable_of_not_spares {s next : Recorder} (c : Call) (hNot : ¬ SparesBuffer s c)
    (hStep : recordStep s c = .ok next) : ¬ Stable next := by
  intro hStable
  cases c with
  | releaseEarlier i =>
    simp only [SparesBuffer, Classical.not_imp] at hNot
    rw [recordStep, if_neg hNot.1] at hStep
    cases hStep
    have hOut := hStable i
    simp only [releaseRecordingFrame, Function.update_self] at hOut
    exact hNot.2 hOut
  | _ => exact hNot trivial

/-
  From the first `startRecording` on, a frame stays as it is until its release, and its buffer is
  used again after that, if and only if no late release meets a buffer that is out.
-/
theorem recorded_frames_stable_iff (memory : Bool) (flags : Nat → Bool) (calls : List Call) :
    Always recordStep Stable (startRecording memory ⟨false, flags, 0, 0⟩) calls ↔
      Along recordStep SparesBuffer (startRecording memory ⟨false, flags, 0, 0⟩) calls :=
  always_iff_along (fun _ hStable => hStable) (fun _ c hStable => hStable.step c)
    (fun _ c _ _ => unstable_of_not_spares c) (fun _ => rfl) calls

/-
  In a stable state the thread does not write into a buffer whose frame is out, and a buffer whose
  frame was released can be used again.
-/
theorem Stable.frames_kept {s : Recorder} (hStable : Stable s) (i : Nat) :
    (s.out i ≠ 0 → ∀ msgEnabled, (encodeframeThread msgEnabled s).out i = s.out i) ∧
      (s.out i = 0 → s.mVideoBufferUsing i = false) := by
  constructor
  · intro hOut msgEnabled
    have hLater := hStable.encode msgEnabled i
    have hMost := Bool.toNat_le ((encodeframeThread msgEnabled s).mVideoBufferUsing i)
    -- a write would count the buffer twice
    have hWrites : s.out i ≤ (encodeframeThread msgEnabled s).out i := by
      unfold encodeframeThread
      split
      · split
        · by_cases hEq : i = ‹Nat›
          · simp [hEq]
          · simp [hEq]
        · exact le_rfl
      · exact le_rfl
    omega
  · intro hOut
    have hUsing := hStable i
    rw [hOut] at hUsing
    simpa using hUsing.symm

/- A late release frees buffer 0 of the new heap, and the next frame overwrites the one in it. -/
theorem delivered_frame_overwritten :
    (run recordStep (startRecording true ⟨false, fun _ => false, 0, 0⟩)
      [.encode true, .stopRecording, .startRecording true, .encode true, .releaseEarlier 0,
        .encode true]).map (fun s => s.out 0) = .ok 2 :=
  rfl

------
-- The Position Of A Picture
------

/- The fields of `gps_info` for a coordinate; each of the numbers is over 1. -/
structure Coordinate where
  degree : Nat
  minute : Nat
  second : Nat
  ref : Char

/- The strings of the parameters, and `atof` of a string times 3600 and 1000 as an integer. -/
structure GpsParams (Str : Type) where
  cLatitude : Option Str
  cLongtitude : Option Str
  cAltitude : Option Str
  cTimeStamp : Option Str
  seconds : Str → Int
  millimeters : Str → Int

structure GpsInfo where
  latitude : Coordinate
  longtitude : Coordinate
  altitudeRef : Nat
  altitude : Nat

/- `stringTodegree`, with the reference that its result stands for. -/
def stringTodegree (intAttribute : Int) (positive negative : Char) : Coordinate :=
  let n := intAttribute.natAbs
  { degree := n / 3600
    minute := (n % 3600 - n % 60) / 60
    second := n % 60
    ref := if intAttribute < 0 then negative else positive }

/- What `PrepareJpegEncoder` makes of the position; it looks at the latitude twice. -/
def prepareJpegEncoder {Str : Type} (p : GpsParams Str) : Option GpsInfo := do
  let cLatitude ← p.cLatitude
  let cAltitude ← p.cAltitude
  let _ ← p.cTimeStamp
  return {
    latitude := stringTodegree (p.seconds cLatitude) 'N' 'S'
    longtitude := stringTodegree (p.seconds cLatitude) 'E' 'W'
    altitudeRef := if p.millimeters cAltitude < 0 then 1 else 0
    altitude := (p.millimeters cAltitude).natAbs }

/- The coordinate stands for a number of seconds. -/
structure Tells (c : Coordinate) (n : Int) (negative : Char) : Prop where
  minute : c.minute < 60
  second : c.second < 60
  sum : 3600 * c.degree + 60 * c.minute + c.second = n.natAbs
  ref : c.ref = negative ↔ n < 0

theorem stringTodegree_tells (n : Int) {positive negative : Char} (hRef : positive ≠ negative) :
    Tells (stringTodegree n positive negative) n negative where
  minute := by
    change (n.natAbs % 3600 - n.natAbs % 60) / 60 < 60
    omega
  second := Nat.mod_lt _ (by decide)
  sum := by
    simp only [stringTodegree]
    omega
  ref := by
    by_cases hNegative : n < 0
    · simp [stringTodegree, hNegative]
    · simp [stringTodegree, hNegative, hRef]

theorem Tells.unique {c : Coordinate} {m n : Int} {negative : Char} (hM : Tells c m negative)
    (hN : Tells c n negative) : m = n := by
  have hSame := hM.sum.symm.trans hN.sum
  have hSign := hM.ref.symm.trans hN.ref
  omega

/- There is a position if all four strings are set, and it is that of the strings. -/
structure Tagged {Str : Type} (p : GpsParams Str) : Prop where
  attached : (prepareJpegEncoder p).isSome ↔
    p.cLatitude.isSome ∧ p.cLongtitude.isSome ∧ p.cAltitude.isSome ∧ p.cTimeStamp.isSome
  position : ∀ info ∈ prepareJpegEncoder p,
    (∀ s ∈ p.cLatitude, Tells info.latitude (p.seconds s) 'S') ∧
      ∀ s ∈ p.cLongtitude, Tells info.longtitude (p.seconds s) 'W'

theorem picture_tagged_iff {Str : Type} (p : GpsParams Str) :
    Tagged p ↔ (p.cLatitude.isSome → p.cAltitude.isSome → p.cTimeStamp.isSome →
      p.cLongtitude.map p.seconds = p.cLatitude.map p.seconds) := by
  rcases p with ⟨_ | lat, lon, _ | alt, _ | time, seconds, millimeters⟩
  case some.some.some =>
    have hEast := stringTodegree_tells (seconds lat) (show 'E' ≠ 'W' by decide)
    constructor
    · intro hTagged _ _ _
      rcases Option.isSome_iff_exists.mp (hTagged.attached.mp rfl).2.1 with ⟨s, hS⟩
      have hTells := (hTagged.position _ rfl).2 s hS
      cases hS
      exact congrArg some (hTells.unique hEast)
    · intro hSame
      rcases Option.map_eq_some_iff.mp (hSame rfl rfl rfl) with ⟨s, hS, hEq⟩
      cases hS
      refine ⟨by simp [prepareJpegEncoder], ?_⟩
      rintro info ⟨⟩
      constructor
      · rintro s ⟨⟩
        exact stringTodegree_tells (seconds lat) (by decide)
      · rintro s ⟨⟩
        rw [hEq]
        exact hEast
  all_goals exact iff_of_true ⟨by simp [prepareJpegEncoder], nofun⟩ (by simp)

/- A picture from 10 degrees north and 20 degrees east is tagged with 10 degrees east. -/
theorem longitude_is_latitude :
    let p : GpsParams Int := ⟨some 10, some 20, some 0, some 0, (· * 3600), (· * 1000)⟩
    (prepareJpegEncoder p).map (·.longtitude.degree) = some 10 ∧ ¬ Tagged p := by
  refine ⟨rfl, ?_⟩
  intro hTagged
  cases ((hTagged.position _ rfl).2 20 rfl).sum

end OpenIvi.Camera.Hal
