import OpenIvi.Lib.Ring

/-
  The preview of the camera.

  Four threads hand frames down: one takes them from the capture device, one processes them if that
  is needed, one shows them and one encodes them. They are ordered by semaphores and keep the heads
  of the rings apart. A thread calls its function again and again; each function first waits for a
  frame while `mPreviewRunning` is set.

  The threads are created before `mPreviewRunning` is set. A thread may see it cleared, leave its
  loop without a frame, and then see it set.

  A step is a read of `mPreviewRunning`, an operation on a semaphore or what is done between two of
  these. A wait for a semaphore fails after some time.

  A thread that goes on with a permit takes a frame that was handed to it and not taken yet. So the
  frames that are shown and encoded are at most those that were captured, a buffer that is given
  back has been shown and encoded, and the ring heads count the frames.

  A thread that left its loop before the preview was running takes a frame that nobody handed to it.

  Main declarations:
    * `captureframeThread`
    * `postprocessThread`
    * `Sound`
    * `step_sound`
-/

------
-- The State Of The Preview
------

namespace OpenIvi.Camera

open Lib Function

/- What does not change while the preview runs. -/
structure Config where
  mPPDeviceNeed : Bool
  overlay : Bool
  mCaptureBufNum : Nat
  mPPbufNum : Nat
  capture_pos : 0 < mCaptureBufNum
  pp_pos : 0 < mPPbufNum

/- What `CameraHALPreviewStart` has still to do. -/
inductive Start
| captureFrame
| previewShowFrame
| encodeFrame
| postProcess
| running
deriving DecidableEq

/- Where `captureframeThread` is. -/
inductive CapturePc
| test
| wait
| check
| dequeue
| postFrame
| postEnc

/- Where `postprocessThread` is, with the loops in which it got a permit. -/
inductive PostPc
| test
| wait
| testOut (gotIn : Bool)
| waitOut (gotIn : Bool)
| check (gotIn gotOut : Bool)
| process
| postShow (ppInIdx : Nat)
| postEnc (ppInIdx : Nat)
| queue (ppInIdx : Nat)
| postDequeue

/- Where `previewshowFrameThread` is. -/
inductive ShowPc
| test
| wait
| check (got : Bool)
| take
| finishWait (displayIndex queueBackIndex : Nat)
| finishTest (displayIndex queueBackIndex : Nat)
| giveBack (displayIndex queueBackIndex : Nat)
| postDequeue

/- Where `encodeframeThread` is. -/
inductive EncodePc
| wait
| test
| check (got : Bool)
| take
| postFinish

/-
  A buffer that was given back: the frame in it, and the numbers of frames that were done with by
  then.
-/
structure GivenBack where
  frame : Option Nat
  showDone : Nat
  encDone : Nat

/-
  The variables of `CameraHal`, what is still to start and the threads that are made, the buffers
  that are queued in the driver, and the frames. The frames are numbered as they are captured; a
  buffer in the driver has no frame that counts.
-/
structure Hal where
  mPreviewRunning : Bool
  starter : List Start
  threads : List Start
  avabDequeueFrame : Nat
  avabShowFrame : Nat
  avabEncFrame : Nat
  avabEncFrameFinish : Nat
  avabPpInFrame : Nat
  avabPpOutFrame : Nat
  dequeueHead : Nat
  displayHead : Nat
  encHead : Nat
  ppInHead : Nat
  ppOutHead : Nat
  isFirstBuffer : Bool
  lastDisplayIndex : Nat
  bufferIndexMaps : Nat → Nat
  captureBuffers : Nat → Option Nat
  ppbuf : Nat → Option Nat
  driver : List Nat
  capturePc : CapturePc
  postPc : PostPc
  showPc : ShowPc
  encodePc : EncodePc
  captured : Nat
  processed : Nat
  shown : List (Option Nat)
  encoded : List (Option Nat)
  encDone : Nat
  givenBack : List GivenBack

section

variable (cfg : Config)

/-
  `PreparePreviwMisc`, with all buffers in the driver and any content in the memory that is not set.
-/
def preparePreviewMisc (bufferIndexMaps : Nat → Nat) : Hal where
  mPreviewRunning := false
  starter := [.captureFrame, .previewShowFrame, .encodeFrame] ++
      (if cfg.mPPDeviceNeed then [.postProcess] else []) ++ [.running]
  threads := []
  avabDequeueFrame := cfg.mCaptureBufNum
  avabShowFrame := 0
  avabEncFrame := 0
  avabEncFrameFinish := 0
  avabPpInFrame := 0
  avabPpOutFrame := cfg.mPPbufNum
  dequeueHead := 0
  displayHead := 0
  encHead := 0
  ppInHead := 0
  ppOutHead := 0
  isFirstBuffer := true
  lastDisplayIndex := 0
  bufferIndexMaps := bufferIndexMaps
  captureBuffers := fun _ => none
  ppbuf := fun _ => none
  driver := List.range cfg.mCaptureBufNum
  capturePc := .test
  postPc := .test
  showPc := .test
  encodePc := .wait
  captured := 0
  processed := 0
  shown := []
  encoded := []
  encDone := 0
  givenBack := []

------
-- The Threads
------

/- Does `sem_timedwait` get a permit before it times out? -/
def acquires (inTime : Bool) (permits : Nat) : Bool :=
  inTime && 0 < permits

section

variable (s : Hal)

/- `captureframeThread`. Where it calls `DevDequeue`, that gives the buffer `buf` or blocks. -/
def captureframeThread (inTime : Bool) (buf : Nat) : Hal :=
  match s.capturePc with
  | .test =>
    if s.mPreviewRunning then { s with capturePc := .wait }
    else { s with capturePc := .check }
  | .wait =>
    if acquires inTime s.avabDequeueFrame then
      { s with avabDequeueFrame := s.avabDequeueFrame - 1, capturePc := .check }
    else { s with capturePc := .test }
  | .check =>
    if s.mPreviewRunning then { s with capturePc := .dequeue }
    else { s with capturePc := .test }
  | .dequeue =>
    if buf ∈ s.driver then
      { s with
        driver := s.driver.erase buf
        captureBuffers := update s.captureBuffers buf (some s.captured)
        captured := s.captured + 1
        bufferIndexMaps := update s.bufferIndexMaps s.dequeueHead buf
        dequeueHead := (s.dequeueHead + 1) % cfg.mCaptureBufNum
        capturePc := .postFrame }
    else s
  | .postFrame =>
    if !cfg.mPPDeviceNeed then
      { s with avabShowFrame := s.avabShowFrame + 1, capturePc := .postEnc }
    else
      { s with avabPpInFrame := s.avabPpInFrame + 1, capturePc := .test }
  | .postEnc =>
    { s with avabEncFrame := s.avabEncFrame + 1, capturePc := .test }

def postprocessThread (inTime : Bool) : Hal :=
  match s.postPc with
  | .test =>
    if s.mPreviewRunning then { s with postPc := .wait }
    else { s with postPc := .testOut false }
  | .wait =>
    if acquires inTime s.avabPpInFrame then
      { s with avabPpInFrame := s.avabPpInFrame - 1, postPc := .testOut true }
    else { s with postPc := .test }
  | .testOut gotIn =>
    if s.mPreviewRunning then
      { s with postPc := .waitOut gotIn }
    else { s with postPc := .check gotIn false }
  | .waitOut gotIn =>
    if acquires inTime s.avabPpOutFrame then
      { s with avabPpOutFrame := s.avabPpOutFrame - 1, postPc := .check gotIn true }
    else { s with postPc := .testOut gotIn }
  | .check _ _ =>
    if s.mPreviewRunning then { s with postPc := .process }
    else { s with postPc := .test }
  | .process =>
    let ppInIdx := s.bufferIndexMaps s.ppInHead
    { s with
      ppInHead := (s.ppInHead + 1) % cfg.mCaptureBufNum
      ppOutHead := (s.ppOutHead + 1) % cfg.mPPbufNum
      ppbuf := update s.ppbuf s.ppOutHead (s.captureBuffers ppInIdx)
      processed := s.processed + 1
      postPc := .postShow ppInIdx }
  | .postShow ppInIdx =>
    { s with avabShowFrame := s.avabShowFrame + 1, postPc := .postEnc ppInIdx }
  | .postEnc ppInIdx =>
    { s with avabEncFrame := s.avabEncFrame + 1, postPc := .queue ppInIdx }
  | .queue ppInIdx =>
    { s with
      driver := ppInIdx :: s.driver
      captureBuffers := update s.captureBuffers ppInIdx none
      postPc := .postDequeue }
  | .postDequeue =>
    { s with avabDequeueFrame := s.avabDequeueFrame + 1, postPc := .test }

/- The frames that are no longer shown. -/
def showDone : Nat :=
  if cfg.overlay then s.shown.length - 1 else s.shown.length

/- The buffer to show, its frame and the size of its ring. The encoder reads the same rings. -/
def frameAt (head : Nat) : Nat × Option Nat × Nat :=
  if !cfg.mPPDeviceNeed then
    let index := s.bufferIndexMaps head
    (index, s.captureBuffers index, cfg.mCaptureBufNum)
  else (head, s.ppbuf head, cfg.mPPbufNum)

def previewshowFrameThread (inTime : Bool) : Hal :=
  match s.showPc with
  | .test =>
    if s.mPreviewRunning then { s with showPc := .wait }
    else { s with showPc := .check false }
  | .wait =>
    if acquires inTime s.avabShowFrame then
      { s with avabShowFrame := s.avabShowFrame - 1, showPc := .check true }
    else { s with showPc := .test }
  | .check _ =>
    if s.mPreviewRunning then { s with showPc := .take }
    else { s with showPc := .test }
  | .take =>
    let (displayIndex, frame, size) := frameAt cfg s s.displayHead
    let s := { s with displayHead := (s.displayHead + 1) % size, shown := s.shown ++ [frame] }
    if cfg.overlay && s.isFirstBuffer then
      { s with isFirstBuffer := false, lastDisplayIndex := displayIndex, showPc := .test }
    else
      let queueBackIndex := if cfg.overlay then s.lastDisplayIndex
        else displayIndex
      { s with showPc := .finishWait displayIndex queueBackIndex }
  | .finishWait displayIndex queueBackIndex =>
    if acquires inTime s.avabEncFrameFinish then
      { s with
        avabEncFrameFinish := s.avabEncFrameFinish - 1
        showPc := .giveBack displayIndex queueBackIndex }
    else
      { s with showPc := .finishTest displayIndex queueBackIndex }
  | .finishTest displayIndex queueBackIndex =>
    if s.mPreviewRunning then
      { s with showPc := .finishWait displayIndex queueBackIndex }
    else
      { s with showPc := .giveBack displayIndex queueBackIndex }
  | .giveBack displayIndex queueBackIndex =>
    if !cfg.mPPDeviceNeed then
      { s with
        driver := queueBackIndex :: s.driver
        captureBuffers := update s.captureBuffers queueBackIndex none
        lastDisplayIndex := displayIndex
        givenBack := s.givenBack ++ [⟨s.captureBuffers queueBackIndex, showDone cfg s, s.encDone⟩]
        showPc := .postDequeue }
    else
      -- The permit is for the next buffer of the ring.
      let index := s.givenBack.length % cfg.mPPbufNum
      { s with
        avabPpOutFrame := s.avabPpOutFrame + 1
        givenBack := s.givenBack ++ [⟨s.ppbuf index, showDone cfg s, s.encDone⟩]
        showPc := .test }
  | .postDequeue =>
    { s with avabDequeueFrame := s.avabDequeueFrame + 1, showPc := .test }

/- `encodeframeThread`, which waits before it tests. -/
def encodeframeThread (inTime : Bool) : Hal :=
  match s.encodePc with
  | .wait =>
    if acquires inTime s.avabEncFrame then
      { s with avabEncFrame := s.avabEncFrame - 1, encodePc := .check true }
    else { s with encodePc := .test }
  | .test =>
    if s.mPreviewRunning then { s with encodePc := .wait }
    else { s with encodePc := .check false }
  | .check _ =>
    if s.mPreviewRunning then { s with encodePc := .take }
    else { s with encodePc := .wait }
  | .take =>
    let (_, frame, size) := frameAt cfg s s.encHead
    { s with
      encHead := (s.encHead + 1) % size
      encoded := s.encoded ++ [frame]
      encodePc := .postFinish }
  | .postFinish =>
    { s with
      avabEncFrameFinish := s.avabEncFrameFinish + 1
      encDone := s.encDone + 1
      encodePc := .wait }

/- `CameraHALPreviewStart`: threads run when they are made. -/
def cameraHALPreviewStart : Hal :=
  match s.starter with
  | [] => s
  | .running :: rest =>
    { s with starter := rest, mPreviewRunning := true }
  | thread :: rest =>
    { s with starter := rest, threads := thread :: s.threads }

/- Which thread goes on, and what its call gives. -/
inductive Event
| start
| capture (inTime : Bool) (buf : Nat)
| post (inTime : Bool)
| shows (inTime : Bool)
| encode (inTime : Bool)

def step : Event → Except Fault Hal
| .start => .ok (cameraHALPreviewStart s)
| .capture inTime buf =>
  if .captureFrame ∈ s.threads then
    .ok (captureframeThread cfg s inTime buf)
  else .ok s
| .post inTime =>
  if .postProcess ∈ s.threads then
    .ok (postprocessThread cfg s inTime)
  else .ok s
| .shows inTime =>
  if .previewShowFrame ∈ s.threads then
    .ok (previewshowFrameThread cfg s inTime)
  else .ok s
| .encode inTime =>
  if .encodeFrame ∈ s.threads then
    .ok (encodeframeThread cfg s inTime)
  else .ok s

end

end

/-
  The frames that were shown and encoded are those that were captured, in the same order, and no
  buffer was given back before its frame was shown and encoded.
-/
structure HandsDown (s : Hal) : Prop where
  shown : s.shown = (List.range s.shown.length).map some ∧ s.shown.length ≤ s.captured
  encoded : s.encoded = (List.range s.encoded.length).map some ∧ s.encoded.length ≤ s.captured
  givenBack : ∀ g ∈ s.givenBack, ∃ k, g.frame = some k ∧ k < g.showDone ∧ k < g.encDone

/-
  A thread that goes on has got the permit it waited for: it did not leave its loop before
  `mPreviewRunning` was set.
-/
def Waited (s : Hal) : Event → Prop
| .start => True
| .capture _ _ => True
| .post _ =>
  ∀ gotOut, s.postPc = .check false gotOut → s.mPreviewRunning = false
| .shows _ =>
  s.showPc = .check false → s.mPreviewRunning = false
| .encode _ =>
  s.encodePc = .check false → s.mPreviewRunning = false

------
-- What The Threads Hold
------

open List

variable {permits : Nat}

/- Frames that were captured and not handed on. -/
def CapturePc.unposted : CapturePc → Nat
| .postFrame => 1
| _ => 0

/- Frames that were captured and not handed to the encoder. -/
def CapturePc.unencoded : CapturePc → Nat
| .postFrame => 1
| .postEnc => 1
| _ => 0

/- Permits for captured frames. -/
def PostPc.holdsIn : PostPc → Nat
| .testOut gotIn => gotIn.toNat
| .waitOut gotIn => gotIn.toNat
| .check gotIn _ => gotIn.toNat
| .process => 1
| _ => 0

/- Permits for buffers of processed frames. -/
def PostPc.holdsOut : PostPc → Nat
| .check _ gotOut => gotOut.toNat
| .process => 1
| _ => 0

/- Frames that were processed and not handed on. -/
def PostPc.unposted : PostPc → Nat
| .postShow _ => 1
| _ => 0

/- Frames that were processed and not handed to the encoder. -/
def PostPc.unencoded : PostPc → Nat
| .postShow _ => 1
| .postEnc _ => 1
| _ => 0

/- The buffer that is to be given back. -/
def PostPc.ppInIdx : PostPc → Option Nat
| .postShow ppInIdx => some ppInIdx
| .postEnc ppInIdx => some ppInIdx
| .queue ppInIdx => some ppInIdx
| _ => none

/- Permits for frames to show. -/
def ShowPc.holds : ShowPc → Nat
| .check got => got.toNat
| .take => 1
| _ => 0

/- The buffer that is shown and the one to give back. -/
def ShowPc.indices : ShowPc → Option (Nat × Nat)
| .finishWait displayIndex queueBackIndex =>
  some (displayIndex, queueBackIndex)
| .finishTest displayIndex queueBackIndex =>
  some (displayIndex, queueBackIndex)
| .giveBack displayIndex queueBackIndex =>
  some (displayIndex, queueBackIndex)
| _ => none

/- Permits for buffers that the encoder is done with. -/
def ShowPc.finished : ShowPc → Nat
| .giveBack _ _ => 1
| _ => 0

/- Permits for frames to encode. -/
def EncodePc.holds : EncodePc → Nat
| .check got => got.toNat
| .take => 1
| _ => 0

/- Frames that were encoded and are still in use. -/
def EncodePc.finishing : EncodePc → Nat
| .postFinish => 1
| _ => 0

section

variable (cfg : Config)

/- The frames that are there to be shown and encoded. -/
def fed (s : Hal) : Nat :=
  if cfg.mPPDeviceNeed then s.processed else s.captured

/- Those of them that are not handed to the show thread. -/
def unshown (s : Hal) : Nat :=
  if cfg.mPPDeviceNeed then s.postPc.unposted
  else s.capturePc.unposted

/- Those that are not handed to the encode thread. -/
def unencoded (s : Hal) : Nat :=
  if cfg.mPPDeviceNeed then s.postPc.unencoded
  else s.capturePc.unencoded

/- The capture buffers that were given back. -/
def released (s : Hal) : Nat :=
  if cfg.mPPDeviceNeed then
    s.processed - s.postPc.ppInIdx.toList.length
  else s.givenBack.length

/- The frame that the overlay keeps on the screen. -/
def onOverlay (s : Hal) : Nat :=
  if cfg.overlay && !s.isFirstBuffer then 1 else 0

/- The number of buffers that are shown in turn. -/
def Config.ring : Nat :=
  if cfg.mPPDeviceNeed then cfg.mPPbufNum
  else cfg.mCaptureBufNum

end

/-
  What holds in every state: how far the threads are started, how many frames each semaphore stands
  for, what the ring heads count, which frames the buffers have, what the local variables name, and
  what was done so far.
-/
structure Sound (cfg : Config) (s : Hal) : Prop where
  started : 0 < s.captured → s.mPreviewRunning = true
  dequeues : s.capturePc = .dequeue → s.mPreviewRunning = true
  noEnc : cfg.mPPDeviceNeed = true → s.capturePc ≠ .postEnc
  gotBoth : s.postPc ≠ .check true false
  made : .postProcess ∈ s.threads ++ s.starter → cfg.mPPDeviceNeed = true
  ppIn : s.avabPpInFrame + s.postPc.holdsIn + s.processed + s.capturePc.unposted ≤ s.captured
  ppOut : s.avabPpOutFrame + s.postPc.holdsOut + s.processed ≤ cfg.mPPbufNum + s.givenBack.length
  shows : s.avabShowFrame + s.showPc.holds + s.shown.length + unshown cfg s ≤ fed cfg s
  encodes : s.avabEncFrame + s.encodePc.holds + s.encoded.length + unencoded cfg s ≤ fed cfg s
  finishes : s.avabEncFrameFinish + s.showPc.finished + s.givenBack.length ≤ s.encDone
  finishing : s.encDone + s.encodePc.finishing ≤ s.encoded.length
  onShow : s.shown.length = s.givenBack.length + s.showPc.indices.toList.length + onOverlay cfg s
  dequeueHead : s.dequeueHead = s.captured % cfg.mCaptureBufNum
  displayHead : s.displayHead = s.shown.length % cfg.ring
  encHead : s.encHead = s.encoded.length % cfg.ring
  ppInHead : s.ppInHead = s.processed % cfg.mCaptureBufNum
  ppOutHead : s.ppOutHead = s.processed % cfg.mPPbufNum
  pool : Lib.RingPool cfg.mCaptureBufNum s.driver s.bufferIndexMaps
      s.captureBuffers (released cfg s) s.captured
  ppbuf : Lib.InSlots cfg.mPPbufNum s.ppbuf s.givenBack.length s.processed
  posting : ∀ ppInIdx, s.postPc.ppInIdx = some ppInIdx →
      cfg.mPPDeviceNeed = true ∧ s.processed = released cfg s + 1 ∧
        ppInIdx = s.bufferIndexMaps (released cfg s % cfg.mCaptureBufNum)
  overlaid : cfg.mPPDeviceNeed = false → onOverlay cfg s = 1 →
      s.lastDisplayIndex = s.bufferIndexMaps (s.givenBack.length % cfg.mCaptureBufNum)
  showing : ∀ displayIndex queueBackIndex, s.showPc.indices = some (displayIndex, queueBackIndex) →
      cfg.mPPDeviceNeed = false →
      displayIndex = s.bufferIndexMaps ((s.shown.length - 1) % cfg.mCaptureBufNum) ∧
        queueBackIndex = s.bufferIndexMaps (s.givenBack.length % cfg.mCaptureBufNum)
  first : cfg.overlay = true → s.isFirstBuffer = true → s.shown.length = 0
  shown : s.shown = (range s.shown.length).map some
  encoded : s.encoded = (range s.encoded.length).map some
  givenBack : ∀ g ∈ s.givenBack, ∃ k, g.frame = some k ∧ k < g.showDone ∧ k < g.encDone

------
-- The Capture Thread
------

theorem permits_of_acquires {inTime : Bool}
    (hAcquires : acquires inTime permits = true) : permits - 1 + 1 ≤ permits := by
  simp only [acquires, Bool.and_eq_true, decide_eq_true_eq] at hAcquires
  omega

theorem got_of_waited {got running : Bool} (hWaited : got = false → running = false)
    (hRunning : running = true) : got = true := by
  cases got with
  | true => rfl
  | false =>
    rw [hWaited rfl] at hRunning
    cases hRunning

theorem numbered_concat {frames : List (Option Nat)}
    (hFrames : frames = (range frames.length).map some) :
    frames ++ [some frames.length] = (range (frames ++ [some frames.length]).length).map
      some := by
  rw [length_append, length_singleton, range_succ, map_append, ← hFrames]
  rfl

namespace Sound

variable {cfg : Config} {s : Hal}

section

variable (hSound : Sound cfg s)

include hSound

theorem shown_le_fed : s.shown.length ≤ fed cfg s := by
  have hShows := hSound.shows
  omega

theorem encoded_le_fed : s.encoded.length ≤ fed cfg s := by
  have hEncodes := hSound.encodes
  omega

theorem fed_le_captured : fed cfg s ≤ s.captured := by
  have hIn := hSound.ppIn
  unfold fed
  split <;> omega

/- A step of the capture thread that at most hands a frame on. -/
theorem moveCapture (permits : Nat) {permitsIn permitsShow permitsEnc : Nat} {old pc : CapturePc}
    (hPc : s.capturePc = old) (hDequeues : pc = .dequeue → s.mPreviewRunning = true)
    (hNoEnc : cfg.mPPDeviceNeed = true → pc ≠ .postEnc)
    (hIn : permitsIn + pc.unposted ≤ s.avabPpInFrame + old.unposted)
    (hShow : permitsShow + unshown cfg { s with capturePc := pc } ≤
      s.avabShowFrame + unshown cfg { s with capturePc := old })
    (hEnc : permitsEnc + unencoded cfg { s with capturePc := pc } ≤
      s.avabEncFrame + unencoded cfg { s with capturePc := old }) :
    Sound cfg
      { s with
        avabDequeueFrame := permits
        avabPpInFrame := permitsIn
        avabShowFrame := permitsShow
        avabEncFrame := permitsEnc
        capturePc := pc } := by
  subst hPc
  change _ ≤ s.avabShowFrame + unshown cfg s at hShow
  change _ ≤ s.avabEncFrame + unencoded cfg s at hEnc
  exact { hSound with
    dequeues := hDequeues
    noEnc := hNoEnc
    ppIn := by
      have hAll := hSound.ppIn
      change permitsIn + s.postPc.holdsIn + s.processed + pc.unposted ≤ s.captured
      omega
    shows := by
      have hAll := hSound.shows
      change permitsShow + s.showPc.holds + s.shown.length +
          unshown cfg { s with capturePc := pc } ≤ fed cfg s
      omega
    encodes := by
      have hAll := hSound.encodes
      change permitsEnc + s.encodePc.holds + s.encoded.length +
          unencoded cfg { s with capturePc := pc } ≤ fed cfg s
      omega }

theorem slot_kept (hPp : cfg.mPPDeviceNeed = false) {buf i : Nat}
    (hBuf : buf ∈ s.driver) (hLo : s.givenBack.length ≤ i) (hHi : i < s.shown.length) :
    s.bufferIndexMaps (i % cfg.mCaptureBufNum) = Function.update s.bufferIndexMaps
      (s.captured % cfg.mCaptureBufNum) buf
      (i % cfg.mCaptureBufNum) := by
  have hPool := hSound.pool
  have hShown := hSound.shown_le_fed
  have hFed := hSound.fed_le_captured
  simp only [released, hPp, Bool.false_eq_true, if_false] at hPool
  exact (hPool.slot_update hBuf hLo (by omega)).symm

/- The driver gives a buffer with the next frame. -/
theorem captureDequeue
    (hPc : s.capturePc = .dequeue) (inTime : Bool) {buf : Nat} (hBuf : buf ∈ s.driver) :
    Sound cfg (captureframeThread cfg s inTime buf) := by
  have hOnShow := hSound.onShow
  have hIn := hSound.ppIn
  have hShows := hSound.shows
  have hEncodes := hSound.encodes
  have hPool := hSound.pool
  have hHead := hSound.dequeueHead
  simp only [captureframeThread, hPc, if_pos hBuf, hHead]
  simp only [unshown, unencoded, fed, hPc, CapturePc.unposted, CapturePc.unencoded]
    at hIn hShows hEncodes
  exact { hSound with
    started := fun _ => hSound.dequeues hPc
    dequeues := nofun
    noEnc := nofun
    ppIn := by
      simp only [CapturePc.unposted]
      omega
    shows := by
      simp only [unshown, fed, CapturePc.unposted]
      cases hPp : cfg.mPPDeviceNeed <;>
        simpa [hPp] using hShows
    encodes := by
      simp only [unencoded, fed, CapturePc.unencoded]
      cases hPp : cfg.mPPDeviceNeed <;>
        simpa [hPp] using hEncodes
    dequeueHead := Nat.mod_add_mod _ _ _
    pool := hPool.take hBuf
    posting := by
      intro ppInIdx hPost
      rcases hSound.posting ppInIdx hPost with ⟨hPp, hProcessed, hIdx⟩
      refine ⟨hPp, hProcessed, ?_⟩
      rw [hIdx]
      exact (hPool.slot_update hBuf le_rfl (by omega)).symm
    overlaid := by
      intro hPp hOverlay
      have hLast := hSound.overlaid hPp hOverlay
      change onOverlay cfg s = 1 at hOverlay
      rw [hLast]
      exact hSound.slot_kept hPp hBuf le_rfl (by omega)
    showing := by
      intro displayIndex queueBackIndex hIndices hPp
      rcases hSound.showing displayIndex queueBackIndex hIndices hPp with ⟨hDisplay, hBack⟩
      rw [hIndices] at hOnShow
      change s.shown.length = s.givenBack.length + 1 + _ at hOnShow
      rw [hDisplay, hBack]
      exact ⟨hSound.slot_kept hPp hBuf (by omega) (by omega),
          hSound.slot_kept hPp hBuf le_rfl (by omega)⟩ }

/- A frame is handed to the thread that comes next. -/
theorem capturePostFrame (hPc : s.capturePc = .postFrame) (inTime : Bool) (buf : Nat) :
    Sound cfg (captureframeThread cfg s inTime buf) := by
  simp only [captureframeThread, hPc]
  cases hPp : cfg.mPPDeviceNeed with
  | false =>
    simp only [Bool.not_false, if_true]
    refine hSound.moveCapture _ hPc nofun ?_ (Nat.le_succ _) ?_ le_rfl
    · intro hNeed
      rw [hPp] at hNeed
      cases hNeed
    · simp [unshown, hPp, CapturePc.unposted]
  | true =>
    simp only [Bool.not_true, Bool.false_eq_true, if_false]
    refine hSound.moveCapture _ hPc nofun nofun le_rfl ?_ ?_
    · simp [unshown, hPp]
    · simp [unencoded, hPp]

/- A frame is handed to the encoder. -/
theorem capturePostEnc (hPc : s.capturePc = .postEnc) (inTime : Bool) (buf : Nat) :
    Sound cfg (captureframeThread cfg s inTime buf) := by
  have hPp : cfg.mPPDeviceNeed = false := by
    cases hNeed : cfg.mPPDeviceNeed with
    | false => rfl
    | true => exact absurd hPc (hSound.noEnc hNeed)
  simp only [captureframeThread, hPc]
  refine hSound.moveCapture _ hPc nofun nofun le_rfl le_rfl ?_
  simp [unencoded, hPp, CapturePc.unencoded]

theorem captureframe (inTime : Bool) (buf : Nat) :
    Sound cfg (captureframeThread cfg s inTime buf) := by
  cases hPc : s.capturePc with
  | test | wait =>
    simp only [captureframeThread, hPc]
    split
    all_goals exact hSound.moveCapture _ hPc nofun nofun le_rfl le_rfl le_rfl
  | check =>
    simp only [captureframeThread, hPc]
    split
    · rename_i hRunning
      exact hSound.moveCapture _ hPc (fun _ => hRunning) nofun le_rfl le_rfl le_rfl
    · exact hSound.moveCapture _ hPc nofun nofun le_rfl le_rfl le_rfl
  | dequeue =>
    by_cases hBuf : buf ∈ s.driver
    · exact hSound.captureDequeue hPc inTime hBuf
    · simp only [captureframeThread, hPc, if_neg hBuf]
      exact hSound
  | postFrame => exact hSound.capturePostFrame hPc inTime buf
  | postEnc => exact hSound.capturePostEnc hPc inTime buf

------
-- The Post-Process Thread
------

section

variable (hPp : cfg.mPPDeviceNeed = true)

include hPp

/- The next frame goes from its buffer to the next one. -/
theorem postProcess (hPc : s.postPc = .process)
    (inTime : Bool) : Sound cfg (postprocessThread cfg s inTime) := by
  have hIn := hSound.ppIn
  have hOut := hSound.ppOut
  have hShows := hSound.shows
  have hEncodes := hSound.encodes
  have hPool := hSound.pool
  have hReleased : released cfg s = s.processed := by
    simp only [released, hPp, hPc, if_true, PostPc.ppInIdx]
    rfl
  simp only [unshown, unencoded, fed, hPc, hPp, if_true, PostPc.holdsIn, PostPc.holdsOut,
    PostPc.unposted, PostPc.unencoded] at hIn hOut hShows hEncodes
  rw [hReleased] at hPool
  have hCell := hPool.cell s.processed le_rfl (by omega)
  simp only [postprocessThread, hPc, hSound.ppInHead, hSound.ppOutHead, hCell]
  exact { hSound with
    gotBoth := nofun
    ppIn := by
      simp only [PostPc.holdsIn]
      omega
    ppOut := by
      simp only [PostPc.holdsOut]
      omega
    shows := by
      simp only [unshown, fed, hPp, if_true, PostPc.unposted]
      omega
    encodes := by
      simp only [unencoded, fed, hPp, if_true, PostPc.unencoded]
      omega
    ppInHead := Nat.mod_add_mod _ _ _
    ppOutHead := Nat.mod_add_mod _ _ _
    pool := by
      simp only [released, hPp, if_true, PostPc.ppInIdx]
      exact hPool
    ppbuf := hSound.ppbuf.push (by omega)
    posting := by
      intro ppInIdx hPost
      cases hPost
      refine ⟨hPp, ?_, ?_⟩
      · simp only [released, hPp, if_true, PostPc.ppInIdx]
        rfl
      · simp only [released, hPp, if_true, PostPc.ppInIdx]
        rfl }

/- A step of the thread that at most hands a processed frame on. -/
theorem movePost (permits : Nat) {permitsIn permitsOut permitsShow permitsEnc : Nat}
    {old pc : PostPc} (hPc : s.postPc = old) (hIdx : pc.ppInIdx = old.ppInIdx)
    (hBoth : pc ≠ .check true false) (hIn : permitsIn + pc.holdsIn ≤ s.avabPpInFrame + old.holdsIn)
    (hOut : permitsOut + pc.holdsOut ≤ s.avabPpOutFrame + old.holdsOut)
    (hShow : permitsShow + pc.unposted = s.avabShowFrame + old.unposted)
    (hEnc : permitsEnc + pc.unencoded = s.avabEncFrame + old.unencoded) :
    Sound cfg
      { s with
        avabDequeueFrame := permits
        avabPpInFrame := permitsIn
        avabPpOutFrame := permitsOut
        avabShowFrame := permitsShow
        avabEncFrame := permitsEnc
        postPc := pc } := by
  subst hPc
  have hShows := hSound.shows
  have hEncodes := hSound.encodes
  have hReleased : released cfg { s with postPc := pc } = released cfg s := by
    unfold released
    rw [hIdx]
  simp only [unshown, unencoded, fed, hPp, if_true] at hShows hEncodes
  exact { hSound with
    gotBoth := hBoth
    ppIn := by
      have hAll := hSound.ppIn
      change permitsIn + pc.holdsIn + s.processed + s.capturePc.unposted ≤ s.captured
      omega
    ppOut := by
      have hAll := hSound.ppOut
      change permitsOut + pc.holdsOut + s.processed ≤ cfg.mPPbufNum + s.givenBack.length
      omega
    shows := by
      simp only [unshown, fed, hPp, if_true]
      omega
    encodes := by
      simp only [unencoded, fed, hPp, if_true]
      omega
    pool := by
      have hPool := hSound.pool
      rw [← hReleased] at hPool
      exact hPool
    posting := by
      intro ppInIdx hPost
      rw [hIdx] at hPost
      have hPosting := hSound.posting ppInIdx hPost
      rw [← hReleased] at hPosting
      exact hPosting }

/- The buffer of a processed frame goes to the driver. -/
theorem postQueue {ppInIdx : Nat} (hPc : s.postPc = .queue ppInIdx) (inTime : Bool) :
    Sound cfg (postprocessThread cfg s inTime) := by
  have hIn := hSound.ppIn
  have hOut := hSound.ppOut
  have hShows := hSound.shows
  have hEncodes := hSound.encodes
  rcases hSound.posting ppInIdx (by rw [hPc]; rfl) with ⟨_, hProcessed, hIdx⟩
  have hPool := hSound.pool.give (by omega)
  rw [← hIdx, ← hProcessed] at hPool
  simp only [unshown, unencoded, fed, hPc, hPp, if_true, PostPc.holdsIn, PostPc.holdsOut,
    PostPc.unposted, PostPc.unencoded] at hIn hOut hShows hEncodes
  simp only [postprocessThread, hPc]
  exact { hSound with
    gotBoth := nofun
    ppIn := hIn
    ppOut := hOut
    shows := by
      simp only [unshown, fed, hPp, if_true, PostPc.unposted]
      exact hShows
    encodes := by
      simp only [unencoded, fed, hPp, if_true, PostPc.unencoded]
      exact hEncodes
    pool := by
      simp only [released, hPp, if_true, PostPc.ppInIdx]
      exact hPool
    posting := nofun }

theorem postprocess (inTime : Bool)
    (hWaited : ∀ gotOut, s.postPc = .check false gotOut → s.mPreviewRunning = false) :
    Sound cfg (postprocessThread cfg s inTime) := by
  cases hPc : s.postPc with
  | test =>
    simp only [postprocessThread, hPc]
    split
    all_goals exact hSound.movePost hPp _ hPc rfl nofun le_rfl le_rfl rfl rfl
  | wait =>
    simp only [postprocessThread, hPc]
    split
    · rename_i hAcquires
      exact hSound.movePost hPp _ hPc rfl nofun (permits_of_acquires hAcquires) le_rfl rfl rfl
    · exact hSound.movePost hPp _ hPc rfl nofun le_rfl le_rfl rfl rfl
  | testOut gotIn =>
    simp only [postprocessThread, hPc]
    split
    · exact hSound.movePost hPp _ hPc rfl nofun le_rfl le_rfl rfl rfl
    · rename_i hStopped
      -- A thread that has a frame knows the preview runs.
      have hNot : gotIn = false := by
        cases gotIn with
        | false => rfl
        | true =>
          have hIn := hSound.ppIn
          simp only [hPc, PostPc.holdsIn, Bool.toNat_true] at hIn
          exact absurd (hSound.started (by omega)) hStopped
      subst hNot
      exact hSound.movePost hPp _ hPc rfl nofun le_rfl le_rfl rfl rfl
  | waitOut gotIn =>
    simp only [postprocessThread, hPc]
    split
    · rename_i hAcquires
      exact hSound.movePost hPp _ hPc rfl nofun le_rfl (permits_of_acquires hAcquires) rfl rfl
    · exact hSound.movePost hPp _ hPc rfl nofun le_rfl le_rfl rfl rfl
  | check gotIn gotOut =>
    simp only [postprocessThread, hPc]
    split
    · rename_i hRunning
      have hGotIn : gotIn = true := by
        apply got_of_waited _ hRunning
        rintro rfl
        exact hWaited gotOut hPc
      subst hGotIn
      have hGotOut : gotOut = true := by
        cases gotOut with
        | true => rfl
        | false => exact absurd hPc hSound.gotBoth
      subst hGotOut
      exact hSound.movePost hPp _ hPc rfl nofun le_rfl le_rfl rfl rfl
    · exact hSound.movePost hPp _ hPc rfl nofun (Nat.le_add_right _ _) (Nat.le_add_right _ _) rfl
        rfl
  | process => exact hSound.postProcess hPp hPc inTime
  | queue ppInIdx => exact hSound.postQueue hPp hPc inTime
  | postShow ppInIdx | postEnc ppInIdx | postDequeue =>
    simp only [postprocessThread, hPc]
    exact hSound.movePost hPp _ hPc rfl nofun le_rfl le_rfl rfl rfl

end

------
-- The Show Thread
------

/- A step of the thread that takes and gives no frame. -/
theorem moveShow (permits : Nat)
    {permitsShow permitsFinish : Nat} {old pc : ShowPc} (hPc : s.showPc = old)
    (hIndices : pc.indices = old.indices)
    (hShow : permitsShow + pc.holds ≤ s.avabShowFrame + old.holds)
    (hFinish : permitsFinish + pc.finished ≤ s.avabEncFrameFinish + old.finished) :
    Sound cfg
      { s with
        avabDequeueFrame := permits
        avabShowFrame := permitsShow
        avabEncFrameFinish := permitsFinish
        showPc := pc } := by
  subst hPc
  exact { hSound with
    shows := by
      have hAll := hSound.shows
      change permitsShow + pc.holds + s.shown.length + unshown cfg s ≤ fed cfg s
      omega
    finishes := by
      have hAll := hSound.finishes
      change permitsFinish + pc.finished + s.givenBack.length ≤ s.encDone
      omega
    onShow := by
      have hAll := hSound.onShow
      rw [← hIndices] at hAll
      exact hAll
    showing := by
      intro displayIndex queueBackIndex hPc hPp
      rw [hIndices] at hPc
      exact hSound.showing displayIndex queueBackIndex hPc hPp }

/- A frame that is there and not given back is in its slot. -/
theorem frameAt_eq {k : Nat} (hLo : s.givenBack.length ≤ k) (hHi : k < fed cfg s) :
    ∃ index, frameAt cfg s (k % cfg.ring) = (index, some k, cfg.ring) ∧ (cfg.mPPDeviceNeed = false →
      index = s.bufferIndexMaps (k % cfg.mCaptureBufNum)) := by
  cases hPp : cfg.mPPDeviceNeed with
  | true =>
    simp only [fed, hPp, if_true] at hHi
    refine ⟨k % cfg.mPPbufNum, ?_, nofun⟩
    simp only [frameAt, Config.ring, hPp, Bool.not_true, Bool.false_eq_true, if_false, if_true]
    rw [hSound.ppbuf k hLo hHi]
  | false =>
    have hPool := hSound.pool
    simp only [fed, released, hPp, Bool.false_eq_true, if_false] at hHi hPool
    refine ⟨s.bufferIndexMaps (k % cfg.mCaptureBufNum), ?_, fun _ => rfl⟩
    simp only [frameAt, Config.ring, hPp, Bool.not_false, Bool.false_eq_true, if_false, if_true]
    rw [hPool.cell k hLo hHi]

/- The next frame is shown. -/
theorem showTake (hPc : s.showPc = .take)
    (inTime : Bool) : Sound cfg (previewshowFrameThread cfg s inTime) := by
  have hShows := hSound.shows
  have hOnShow := hSound.onShow
  have hFinishes := hSound.finishes
  rw [hPc] at hShows hOnShow hFinishes
  change s.avabShowFrame + 1 + s.shown.length + unshown cfg s ≤ fed cfg s at hShows
  change s.shown.length = s.givenBack.length + 0 + onOverlay cfg s at hOnShow
  rcases hSound.frameAt_eq (k := s.shown.length) (by omega) (by omega) with ⟨index, hFrame, hIndex⟩
  rw [← hSound.displayHead] at hFrame
  have hTrace := numbered_concat hSound.shown
  have hLength : (s.shown ++ [some s.shown.length]).length = s.shown.length + 1 := length_append
  have hShown : s.avabShowFrame + 0 + (s.shown ++ [some s.shown.length]).length +
      unshown cfg s ≤ fed cfg s := by
    omega
  have hHead : (s.displayHead + 1) % cfg.ring =
      (s.shown ++ [some s.shown.length]).length % cfg.ring := by
    rw [hLength, hSound.displayHead]
    exact Nat.mod_add_mod _ _ _
  simp only [previewshowFrameThread, hPc, hFrame]
  split
  · rename_i hFirst
    rw [Bool.and_eq_true] at hFirst
    have hNone : onOverlay cfg s = 0 := by
      simp only [onOverlay, hFirst.2, Bool.not_true, Bool.and_false, Bool.false_eq_true, if_false]
    exact { hSound with
      shows := hShown
      finishes := hFinishes
      onShow := by
        simp only [onOverlay, hFirst.1, ShowPc.indices]
        simp only [hLength, Bool.not_false, Bool.and_true, if_true, Option.toList_none, length_nil]
        omega
      displayHead := hHead
      overlaid := by
        intro hPp _
        have hGiven : s.givenBack.length = s.shown.length := by omega
        rw [hIndex hPp, ← hGiven]
      showing := nofun
      first := nofun
      shown := hTrace }
  · rename_i hFirst
    exact { hSound with
      shows := hShown
      finishes := hFinishes
      onShow := by
        change (s.shown ++ [some s.shown.length]).length = s.givenBack.length + 1 + onOverlay cfg s
        omega
      displayHead := hHead
      showing := by
        intro displayIndex queueBackIndex hIndices hPp
        cases hIndices
        rw [hLength, Nat.add_sub_cancel]
        refine ⟨hIndex hPp, ?_⟩
        -- With an overlay it is the one shown before.
        cases hOverlay : cfg.overlay with
        | true =>
          rw [hOverlay, Bool.true_and] at hFirst
          apply hSound.overlaid hPp
          simp [onOverlay, hOverlay, hFirst]
        | false =>
          have hNone : onOverlay cfg s = 0 := by simp [onOverlay, hOverlay]
          have hGiven : s.givenBack.length = s.shown.length := by omega
          rw [hGiven]
          exact hIndex hPp
      first := by
        intro hOverlay hIs
        rw [hOverlay, Bool.true_and] at hFirst
        exact absurd hIs hFirst
      shown := hTrace }

section

variable {displayIndex queueBackIndex : Nat}
variable (hPc : s.showPc = .giveBack displayIndex queueBackIndex)

include hPc

/- What is given back has been shown and encoded. -/
theorem given_done : s.givenBack.length < showDone cfg s ∧ s.givenBack.length < s.encDone := by
  have hOnShow := hSound.onShow
  have hFinishes := hSound.finishes
  rw [hPc] at hOnShow hFinishes
  change s.shown.length = s.givenBack.length + 1 + onOverlay cfg s at hOnShow
  change s.avabEncFrameFinish + 1 + s.givenBack.length ≤ s.encDone at hFinishes
  refine ⟨?_, by omega⟩
  unfold showDone
  split
  · rename_i hOverlay
    have hIs : s.isFirstBuffer = false := by
      by_contra hFirst
      rw [Bool.not_eq_false] at hFirst
      have hNone := hSound.first hOverlay hFirst
      omega
    have hOne : onOverlay cfg s = 1 := by simp [onOverlay, hOverlay, hIs]
    omega
  · omega

/- A buffer whose frame is done with is given back. -/
theorem showGiveBack (inTime : Bool) : Sound cfg (previewshowFrameThread cfg s inTime) := by
  have hDone := hSound.given_done hPc
  have hShows := hSound.shows
  have hOnShow := hSound.onShow
  have hFinishes := hSound.finishes
  have hOut := hSound.ppOut
  have hFed := hSound.fed_le_captured
  rw [hPc] at hShows hOnShow hFinishes
  change s.shown.length = s.givenBack.length + 1 + onOverlay cfg s at hOnShow
  change s.avabEncFrameFinish + 1 + s.givenBack.length ≤ s.encDone at hFinishes
  have hLength (g : GivenBack) : (s.givenBack ++ [g]).length = s.givenBack.length + 1 :=
    length_append
  have hFinished (g : GivenBack) :
      s.avabEncFrameFinish + 0 + (s.givenBack ++ [g]).length ≤ s.encDone := by
    rw [hLength]
    omega
  have hStays (g : GivenBack) :
      s.shown.length = (s.givenBack ++ [g]).length + 0 + onOverlay cfg s := by
    rw [hLength]
    omega
  have hGiven : ∀ g ∈ s.givenBack ++ [⟨some s.givenBack.length, showDone cfg s, s.encDone⟩],
      ∃ k, g.frame = some k ∧ k < g.showDone ∧ k < g.encDone := by
    intro g hMem
    rcases mem_append.mp hMem with hOld | hNew
    · exact hSound.givenBack g hOld
    · rw [mem_singleton.mp hNew]
      exact ⟨s.givenBack.length, rfl, hDone⟩
  cases hPp : cfg.mPPDeviceNeed with
  | false =>
    rcases hSound.showing displayIndex queueBackIndex (by rw [hPc]; rfl) hPp with ⟨hDisplay, hBack⟩
    have hPool := hSound.pool
    simp only [released, hPp, Bool.false_eq_true, if_false] at hPool
    have hCell := hPool.cell s.givenBack.length le_rfl (by omega)
    rw [← hBack] at hCell
    have hNext := hPool.give (by omega)
    rw [← hBack] at hNext
    simp only [previewshowFrameThread, hPc, hPp, Bool.not_false, if_true, hCell]
    exact { hSound with
      ppOut := by
        rw [hLength]
        change s.avabPpOutFrame + s.postPc.holdsOut + s.processed ≤
            cfg.mPPbufNum + (s.givenBack.length + 1)
        omega
      shows := hShows
      finishes := hFinished _
      onShow := hStays _
      pool := by
        simp only [released, hPp, Bool.false_eq_true, if_false, hLength]
        exact hNext
      ppbuf := by
        rw [hLength]
        exact hSound.ppbuf.pop
      posting := by
        intro ppInIdx hPost
        have hPosting := hSound.posting ppInIdx hPost
        rw [hPp] at hPosting
        cases hPosting.1
      overlaid := by
        intro _ hOverlay
        change onOverlay cfg s = 1 at hOverlay
        rw [hDisplay, hLength, hOnShow, hOverlay]
        rfl
      showing := nofun
      givenBack := hGiven }
  | true =>
    simp only [fed, hPp, if_true] at hShows
    have hCell := hSound.ppbuf s.givenBack.length le_rfl (by omega)
    simp only [previewshowFrameThread, hPc, hPp, Bool.not_true, Bool.false_eq_true, if_false, hCell]
    exact { hSound with
      ppOut := by
        rw [hLength]
        change s.avabPpOutFrame + 1 + s.postPc.holdsOut + s.processed ≤
            cfg.mPPbufNum + (s.givenBack.length + 1)
        omega
      shows := by
        simp only [fed, hPp, if_true]
        exact hShows
      finishes := hFinished _
      onShow := hStays _
      pool := by
        have hPool := hSound.pool
        simp only [released, hPp, if_true] at hPool
        simp only [released, hPp, if_true]
        exact hPool
      ppbuf := by
        rw [hLength]
        exact hSound.ppbuf.pop
      posting := by
        intro ppInIdx hPost
        have hPosting := hSound.posting ppInIdx hPost
        simp only [released, hPp, if_true] at hPosting
        simp only [released, hPp, if_true]
        exact hPosting
      overlaid := by
        intro hNeed
        rw [hPp] at hNeed
        cases hNeed
      showing := nofun
      givenBack := hGiven }

end

theorem previewshowFrame (inTime : Bool)
    (hWaited : s.showPc = .check false → s.mPreviewRunning = false) :
    Sound cfg (previewshowFrameThread cfg s inTime) := by
  cases hPc : s.showPc with
  | test =>
    simp only [previewshowFrameThread, hPc]
    split
    all_goals exact hSound.moveShow _ hPc rfl le_rfl le_rfl
  | wait =>
    simp only [previewshowFrameThread, hPc]
    split
    · rename_i hAcquires
      exact hSound.moveShow _ hPc rfl (permits_of_acquires hAcquires) le_rfl
    · exact hSound.moveShow _ hPc rfl le_rfl le_rfl
  | check got =>
    simp only [previewshowFrameThread, hPc]
    split
    · rename_i hRunning
      have hGot : got = true := by
        apply got_of_waited _ hRunning
        rintro rfl
        exact hWaited hPc
      subst hGot
      exact hSound.moveShow _ hPc rfl le_rfl le_rfl
    · exact hSound.moveShow _ hPc rfl (Nat.le_add_right _ _) le_rfl
  | take => exact hSound.showTake hPc inTime
  | finishWait displayIndex queueBackIndex =>
    simp only [previewshowFrameThread, hPc]
    split
    · rename_i hAcquires
      exact hSound.moveShow _ hPc rfl le_rfl (permits_of_acquires hAcquires)
    · exact hSound.moveShow _ hPc rfl le_rfl le_rfl
  | finishTest displayIndex queueBackIndex =>
    simp only [previewshowFrameThread, hPc]
    split
    · exact hSound.moveShow _ hPc rfl le_rfl le_rfl
    · rename_i hStopped
      -- A thread that shows a frame knows the preview runs.
      have hOnShow := hSound.onShow
      have hShown := hSound.shown_le_fed
      have hFed := hSound.fed_le_captured
      rw [hPc] at hOnShow
      change _ = _ + 1 + _ at hOnShow
      exact absurd (hSound.started (by omega)) hStopped
  | giveBack displayIndex queueBackIndex => exact hSound.showGiveBack hPc inTime
  | postDequeue =>
    simp only [previewshowFrameThread, hPc]
    exact hSound.moveShow _ hPc rfl le_rfl le_rfl

------
-- The Encode Thread
------

/- A step of the thread that encodes nothing. -/
theorem moveEncode
    {old pc : EncodePc} (hPc : s.encodePc = old) (hOld : old.finishing = 0)
    (hNew : pc.finishing = 0) (hEncode : permits + pc.holds ≤ s.avabEncFrame + old.holds) :
    Sound cfg { s with avabEncFrame := permits, encodePc := pc } := by
  subst hPc
  exact { hSound with
    encodes := by
      have hAll := hSound.encodes
      change permits + pc.holds + s.encoded.length + unencoded cfg s ≤ fed cfg s
      omega
    finishing := by
      have hAll := hSound.finishing
      rw [hOld, ← hNew] at hAll
      exact hAll }

/- The next frame is encoded. -/
theorem encodeTake (hPc : s.encodePc = .take)
    (inTime : Bool) : Sound cfg (encodeframeThread cfg s inTime) := by
  have hEncodes := hSound.encodes
  have hFinishes := hSound.finishes
  have hFinishing := hSound.finishing
  rw [hPc] at hEncodes hFinishing
  change s.avabEncFrame + 1 + s.encoded.length + unencoded cfg s ≤ fed cfg s at hEncodes
  have hLo : s.givenBack.length ≤ s.encoded.length := by omega
  rcases hSound.frameAt_eq hLo (by omega) with ⟨index, hFrame, _⟩
  rw [← hSound.encHead] at hFrame
  have hLength : (s.encoded ++ [some s.encoded.length]).length =
      s.encoded.length + 1 := length_append
  simp only [encodeframeThread, hPc, hFrame]
  exact { hSound with
    encodes := by
      rw [hLength]
      change s.avabEncFrame + 0 + (s.encoded.length + 1) + unencoded cfg s ≤ fed cfg s
      omega
    finishing := by
      rw [hLength]
      exact Nat.succ_le_succ hFinishing
    encHead := by
      rw [hLength, hSound.encHead]
      exact Nat.mod_add_mod _ _ _
    encoded := numbered_concat hSound.encoded }

theorem encodeframe (inTime : Bool)
    (hWaited : s.encodePc = .check false → s.mPreviewRunning = false) :
    Sound cfg (encodeframeThread cfg s inTime) := by
  cases hPc : s.encodePc with
  | wait =>
    simp only [encodeframeThread, hPc]
    split
    · rename_i hAcquires
      exact hSound.moveEncode hPc rfl rfl (permits_of_acquires hAcquires)
    · exact hSound.moveEncode hPc rfl rfl le_rfl
  | test =>
    simp only [encodeframeThread, hPc]
    split <;> exact hSound.moveEncode hPc rfl rfl le_rfl
  | check got =>
    simp only [encodeframeThread, hPc]
    split
    · rename_i hRunning
      have hGot : got = true := by
        apply got_of_waited _ hRunning
        rintro rfl
        exact hWaited hPc
      subst hGot
      exact hSound.moveEncode hPc rfl rfl le_rfl
    · exact hSound.moveEncode hPc rfl rfl (Nat.le_add_right _ _)
  | take => exact hSound.encodeTake hPc inTime
  | postFinish =>
    have hEncodes := hSound.encodes
    have hFinishes := hSound.finishes
    have hFinishing := hSound.finishing
    rw [hPc] at hEncodes hFinishing
    simp only [encodeframeThread, hPc]
    exact { hSound with
      encodes := hEncodes
      finishes := by
        change s.avabEncFrameFinish + 1 + s.showPc.finished + s.givenBack.length ≤ s.encDone + 1
        omega
      finishing := hFinishing }

end

end Sound

------
-- Whole Runs
------

open Lib

variable {cfg : Config} {s : Hal}

/- Starting a thread leaves the frames alone. -/
theorem Sound.previewStart (hSound : Sound cfg s) : Sound cfg (cameraHALPreviewStart s) := by
  have hMade := hSound.made
  unfold cameraHALPreviewStart
  split
  · exact hSound
  · rename_i rest hStarter
    rw [hStarter] at hMade
    exact { hSound with
      started := fun _ => rfl
      dequeues := fun _ => rfl
      made := by
        intro hMem
        apply hMade
        rw [mem_append, mem_cons]
        rcases mem_append.mp hMem with hOld | hRest
        · exact .inl hOld
        · exact .inr (.inr hRest) }
  · rename_i thread rest _ hStarter
    rw [hStarter] at hMade
    exact { hSound with
      made := by
        intro hMem
        apply hMade
        rw [mem_append, mem_cons]
        rcases mem_append.mp hMem with hNew | hRest
        · rcases mem_cons.mp hNew with hIs | hOld
          · exact .inr (.inl hIs)
          · exact .inl hOld
        · exact .inr (.inr hRest) }

theorem Sound.thread {made : Prop} [Decidable made] {moved : Hal}
    (hSound : Sound cfg s) (hMoved : made → Sound cfg moved) :
    ∃ next, (if made then .ok moved else .ok s : Except Fault Hal) = .ok next ∧ Sound cfg next := by
  split
  · rename_i hMade
    exact ⟨moved, rfl, hMoved hMade⟩
  · exact ⟨s, rfl, hSound⟩

/- A thread that has waited keeps the frames in order. -/
theorem step_sound (hSound : Sound cfg s) (event : Event) (hWaited : Waited s event) :
    ∃ next, step cfg s event = .ok next ∧ Sound cfg next := by
  cases event with
  | start => exact ⟨_, rfl, hSound.previewStart⟩
  | capture inTime buf =>
    apply hSound.thread
    intro _
    exact hSound.captureframe inTime buf
  | post inTime =>
    apply hSound.thread
    intro hMade
    have hPp := hSound.made (mem_append_left _ hMade)
    exact hSound.postprocess hPp inTime hWaited
  | shows inTime =>
    apply hSound.thread
    intro _
    exact hSound.previewshowFrame inTime hWaited
  | encode inTime =>
    apply hSound.thread
    intro _
    exact hSound.encodeframe inTime hWaited

/- Nothing is captured when the preview is prepared. -/
theorem Sound.prepared (cfg : Config) (bufferIndexMaps : Nat → Nat) :
    Sound cfg (preparePreviewMisc cfg bufferIndexMaps) where
  started := nofun
  dequeues := nofun
  noEnc := nofun
  gotBoth := nofun
  made := by
    intro hMem
    cases hPp : cfg.mPPDeviceNeed with
    | true => rfl
    | false => simp [preparePreviewMisc, hPp] at hMem
  ppIn := le_refl 0
  ppOut := Nat.le_refl cfg.mPPbufNum
  shows := by
    unfold unshown
    split <;> exact Nat.zero_le _
  encodes := by
    unfold unencoded
    split <;> exact Nat.zero_le _
  finishes := Nat.le_refl 0
  finishing := Nat.le_refl 0
  onShow := by simp [onOverlay, preparePreviewMisc, ShowPc.indices]
  dequeueHead := (Nat.zero_mod _).symm
  displayHead := (Nat.zero_mod _).symm
  encHead := (Nat.zero_mod _).symm
  ppInHead := (Nat.zero_mod _).symm
  ppOutHead := (Nat.zero_mod _).symm
  pool := by
    have hNone : released cfg (preparePreviewMisc cfg bufferIndexMaps) = 0 := by
      unfold released
      split <;> rfl
    rw [hNone]
    exact RingPool.start bufferIndexMaps
  ppbuf := nofun
  posting := nofun
  overlaid := by
    intro _ hOverlay
    simp [onOverlay, preparePreviewMisc] at hOverlay
  showing := nofun
  first := fun _ _ => rfl
  shown := rfl
  encoded := rfl
  givenBack := nofun

theorem Sound.handsDown (hSound : Sound cfg s) : HandsDown s where
  shown := ⟨hSound.shown, le_trans hSound.shown_le_fed hSound.fed_le_captured⟩
  encoded := ⟨hSound.encoded, le_trans hSound.encoded_le_fed hSound.fed_le_captured⟩
  givenBack := hSound.givenBack

/-
  In every run in which no thread goes on without the permit it waited for, the frames are handed
  down once and in order.
-/
theorem preview_hands_frames_down (cfg : Config) (bufferIndexMaps : Nat → Nat) (events : List Event)
    (hWaited : Along (step cfg) Waited (preparePreviewMisc cfg bufferIndexMaps) events) :
    ∃ last, run (step cfg) (preparePreviewMisc cfg bufferIndexMaps) events = .ok last ∧
      HandsDown last := by
  rcases run_preserves (fun _ event hSound => step_sound hSound event)
    (Sound.prepared cfg bufferIndexMaps) hWaited with ⟨last, hRun, hSound⟩
  exact ⟨last, hRun, hSound.handsDown⟩

/- One capture buffer, no overlay and nothing to process. -/
def onePicture : Config where
  mPPDeviceNeed := false
  overlay := false
  mCaptureBufNum := 1
  mPPbufNum := 1
  capture_pos := Nat.one_pos
  pp_pos := Nat.one_pos

/- The preview is started, a frame is shown, encoded and given back, and the next is captured. -/
def showOne : List Event :=
  replicate 4 .start ++ replicate 6 (.capture true 0) ++ replicate 4 (.shows true) ++
    replicate 4 (.encode true) ++ replicate 3 (.shows true) ++ replicate 4 (.capture true 0)

theorem showOne_waited :
    Along (step onePicture) Waited (preparePreviewMisc onePicture fun _ => 0) showOne := by
  iterate 10 apply Along.cons rfl trivial
  iterate 11 apply Along.cons rfl nofun
  iterate 4 apply Along.cons rfl trivial
  exact trivial

theorem preview_hands_frame_down :
    ∃ last, run (step onePicture) (preparePreviewMisc onePicture fun _ => 0) showOne = .ok last ∧
      last.givenBack = [⟨some 0, 1, 1⟩] ∧ HandsDown last := by
  rcases preview_hands_frames_down onePicture _ _ showOne_waited with ⟨last, hRun, hDown⟩
  cases Except.ok.inj hRun
  exact ⟨_, rfl, rfl, hDown⟩

/-
  In such a run no capture buffer is lost: those that the driver does not have hold the frames that
  are not given back, each in its slot.
-/
theorem preview_conserves_buffers (cfg : Config) (bufferIndexMaps : Nat → Nat) (events : List Event)
    (hWaited : Along (step cfg) Waited (preparePreviewMisc cfg bufferIndexMaps) events) :
    ∃ last, run (step cfg) (preparePreviewMisc cfg bufferIndexMaps) events = .ok last ∧
      RingPool cfg.mCaptureBufNum last.driver last.bufferIndexMaps last.captureBuffers
        (released cfg last) last.captured := by
  rcases run_preserves (fun _ event hSound => step_sound hSound event)
    (Sound.prepared cfg bufferIndexMaps) hWaited with ⟨last, hRun, hSound⟩
  exact ⟨last, hRun, hSound.pool⟩

theorem preview_conserves_buffer :
    ∃ last, run (step onePicture) (preparePreviewMisc onePicture fun _ => 0) showOne = .ok last ∧
      last.captured = 2 ∧ RingPool 1 last.driver last.bufferIndexMaps last.captureBuffers
        (released onePicture last) last.captured := by
  rcases preview_conserves_buffers onePicture _ _ showOne_waited with ⟨last, hRun, hPool⟩
  cases Except.ok.inj hRun
  exact ⟨_, rfl, rfl, hPool⟩

/- The show thread leaves its loop before the preview runs and goes on when it does. -/
def showEarly : List Event :=
  [.start, .start, .shows true, .start, .start, .shows true, .shows true]

/- It shows a frame although none was captured. -/
theorem show_thread_skips_wait :
    ∃ last, run (step onePicture) (preparePreviewMisc onePicture fun _ => 0) showEarly = .ok last ∧
      last.captured = 0 ∧ last.shown = [none] ∧ ¬ HandsDown last := by
  refine ⟨_, rfl, rfl, rfl, ?_⟩
  intro hDown
  have hLe := hDown.shown.2
  revert hLe
  decide

end OpenIvi.Camera
