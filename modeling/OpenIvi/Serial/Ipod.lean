import Mathlib.Data.List.Forall2
import OpenIvi.Lib.Decoder
import OpenIvi.Serial.Reader

/-
  Clean streams of `libipod` and the reports that it makes of its frames.

  The frame taker of `libipod` leaves the checksum byte of a frame in front of the bytes behind it,
  and that byte may look like a start byte. On a stream of well-formed frames the search start is
  never past that one byte, so every frame is handed over, however the stream is cut.

  `parse_command` computes the lengths of its copies from the length byte in unsigned arithmetic,
  and goes on after a wrong checksum. A frame that is shorter than what its report needs makes such
  a length wrap around; a length byte of 255 puts the checksum behind the end of `command`.

  Main declarations:
    * `runReader_clean`
    * `ipod_delivers_clean_stream`
    * `eimReport_safe_iff`
    * `ipod_parse_safe_iff`
-/

------
-- Well-Formed Frames
------

namespace OpenIvi.Serial

open Lib List

variable {missing : List UInt8}

/-
  A well-formed frame: one to 254 payload bytes and a checksum that makes the sum from the length
  byte on zero.
-/
structure IpodFrame where
  payload : List UInt8
  checksum : UInt8
  nonempty : 1 ≤ payload.length
  bounded : payload.length ≤ 254
  sumZero : UInt8.ofNat payload.length + payload.sum + checksum = 0

namespace IpodFrame

variable (f : IpodFrame)

def lengthByte : UInt8 :=
  UInt8.ofNat f.payload.length

/- The length byte, the payload and the checksum. -/
def body : List UInt8 :=
  f.lengthByte :: f.payload ++ [f.checksum]

/- The frame as sent. -/
def bytes : List UInt8 :=
  ipod.startByteOne :: ipod.startByteTwo :: f.body

/- The buffer that `parse_command` gets for the frame. -/
def command : Buffer :=
  paddedCommand f.body

@[simp] theorem toNat_lengthByte : f.lengthByte.toNat = f.payload.length := by
  have hBounded := f.bounded
  exact UInt8.toNat_ofNat_of_lt' (by
    change f.payload.length < 256
    omega)

@[simp] theorem length_body : f.body.length = f.payload.length + 2 := by
  simp [body]

@[simp] theorem length_bytes : f.bytes.length = f.payload.length + 4 := by
  simp [bytes]

theorem take_command : f.command.take (f.payload.length + 2) = f.body := by
  rw [command, paddedCommand, Buffer.splice_zero, ← length_body]
  exact take_left

end IpodFrame

------
-- Scanning A Clean Stream
------

/-
  What may stand in front of the next frame: nothing, or one left-over checksum byte, which the
  search start may have passed.
-/
inductive Lead : Nat → List UInt8 → Prop where
| clean : Lead 0 []
| ahead (x : UInt8) : Lead 0 [x]
| passed (x : UInt8) : Lead 1 [x]

variable {k start : Nat} {lead part keep future : List UInt8}

/- A lead with no byte of a frame behind it is scanned. -/
theorem Lead.scans_alone (hLead : Lead k lead) :
    ∃ keep, Scans ipod k lead [] keep ∧ Lead 0 keep := by
  cases hLead with
  | clean => exact ⟨[], .noHead (by simp), .clean⟩
  | ahead x =>
    by_cases hStart : x = ipod.startByteOne
    · subst hStart
      refine ⟨_, .lastByte (i := 0) ?_ rfl, .ahead _⟩
      exact ⟨le_refl _, rfl, fun j _ hj => by omega⟩
    · refine ⟨[], .noHead ?_, .clean⟩
      intro i _ hByte
      cases i with
      | zero => exact hStart (by simpa using hByte)
      | succ i => simp at hByte
  | passed x =>
    refine ⟨[], .noHead ?_, .clean⟩
    intro i hi hByte
    rw [getElem?_eq_none (by simpa using hi)] at hByte
    cases hByte

/-
  The search passes the lead and finds the start byte behind it; a lead that looks like a start byte
  is rejected first.
-/
theorem Lead.finds_head (hLead : Lead k lead) (tail : List UInt8) :
    ∃ start, start ≤ 1 ∧ Buffer.FirstFrom (lead ++ ipod.startByteOne :: tail)
      start ipod.startByteOne lead.length ∧
      ∀ parsed keep, Scans ipod start (lead ++ ipod.startByteOne :: tail) parsed keep →
        Scans ipod k (lead ++ ipod.startByteOne :: tail)
          parsed keep := by
  have hPassed (x : UInt8) : Buffer.FirstFrom ([x] ++ ipod.startByteOne :: tail) 1
      ipod.startByteOne 1 :=
    ⟨le_refl _, rfl, fun j hGe hLt => by omega⟩
  cases hLead with
  | clean =>
    refine ⟨0, by omega, ?_, fun _ _ hScans => hScans⟩
    exact ⟨le_refl _, rfl, fun j _ hj => by simp at hj⟩
  | passed x => exact ⟨1, by omega, hPassed x, fun _ _ hScans => hScans⟩
  | ahead x =>
    by_cases hStart : x = ipod.startByteOne
    · refine ⟨1, by omega, hPassed x, ?_⟩
      intro parsed keep hScans
      exact .falseHead (i := 0) (b := ipod.startByteOne)
          ⟨le_refl _, by simp [hStart], fun j _ hj => by omega⟩
          rfl (by decide) hScans
    · refine ⟨0, by omega, ?_, fun _ _ hScans => hScans⟩
      refine ⟨by omega, rfl, ?_⟩
      intro j _ hj hByte
      simp only [length_singleton] at hj
      obtain rfl : j = 0 := by omega
      exact hStart (by simpa using hByte)

theorem Lead.of_le_one (hk : k ≤ 1) (x : UInt8) : Lead k [x] := by
  match k, hk with
  | 0, _ => exact .ahead x
  | 1, _ => exact .passed x

theorem IpodFrame.badLength_eq (f : IpodFrame) : ipod.badLength f.lengthByte.toNat = false := by
  have hNonempty := f.nonempty
  rw [f.toNat_lengthByte]
  exact decide_eq_false (by omega)

theorem IpodFrame.lengthAt (f : IpodFrame) {tail : List UInt8} (hFirst :
      Buffer.FirstFrom (lead ++ ipod.startByteOne :: ipod.startByteTwo :: f.lengthByte :: tail)
        start ipod.startByteOne lead.length)
    (hMore : 1 ≤ tail.length) :
    LengthAt ipod start (lead ++ ipod.startByteOne :: ipod.startByteTwo :: f.lengthByte :: tail)
      lead.length f.lengthByte where
  first := hFirst
  second := by simp
  lengthByte := by simp
  more := by
    simp only [length_append, length_cons]
    omega

/- A frame that has not arrived in full is kept from its first start byte on. -/
theorem IpodFrame.scans_part (f : IpodFrame)
    (hPart : f.bytes = part ++ missing) (hPartial : missing ≠ [])
    (hFirst : Buffer.FirstFrom (lead ++ part) start ipod.startByteOne lead.length) :
    Scans ipod start (lead ++ part) [] part := by
  have hKeep : (lead ++ part).drop lead.length = part := drop_left
  have hLength := congrArg length hPart
  have hMissing := length_pos_iff.mpr hPartial
  rw [f.length_bytes, length_append] at hLength
  match part, hPart with
  | [], _ => exact absurd (lt_length_of_getElem? hFirst.holds) (by simp)
  | [a], _ =>
    have hScans := Scans.lastByte hFirst (by simp)
    rwa [hKeep] at hScans
  | [a, b], hPart =>
    obtain ⟨-, rfl, -⟩ : ipod.startByteOne = a ∧ ipod.startByteTwo = b ∧ f.body = missing := by
      simpa [bytes] using hPart
    have hScans := Scans.header (p := ipod) ⟨hFirst, by simp⟩ (by simp)
    rwa [hKeep] at hScans
  | [a, b, c], hPart =>
    obtain ⟨-, rfl, -⟩ : ipod.startByteOne = a ∧ ipod.startByteTwo = b ∧ f.body = c :: missing := by
      simpa [bytes] using hPart
    have hScans := Scans.header (p := ipod) ⟨hFirst, by simp⟩ (by simp)
    rwa [hKeep] at hScans
  | a :: b :: c :: d :: tail, hPart =>
    obtain ⟨rfl, rfl, rfl, -⟩ : ipod.startByteOne = a ∧ ipod.startByteTwo = b ∧
        f.lengthByte = c ∧ f.payload ++ [f.checksum] = d :: (tail ++ missing) := by
      simpa [bytes, body] using hPart
    have hScans := Scans.partialFrame (f.lengthAt hFirst (by simp)) f.badLength_eq (by
          simp only [f.toNat_lengthByte, length_append, length_cons] at hLength ⊢
          change _ < _ + 1
          omega)
    rwa [hKeep] at hScans

/- A complete frame is handed over; its checksum byte stays in front of the rest. -/
theorem IpodFrame.scans_whole (f : IpodFrame) {rest : List UInt8} {parsed : List Buffer}
    (hFirst : Buffer.FirstFrom (lead ++ (f.bytes ++ rest)) start ipod.startByteOne lead.length)
    (hRest : Scans ipod start (f.checksum :: rest) parsed keep) :
    Scans ipod start (lead ++ (f.bytes ++ rest)) (f.command :: parsed) keep := by
  have hBounded := f.bounded
  have hShape : f.bytes ++ rest = ipod.startByteOne :: ipod.startByteTwo ::
      f.lengthByte :: (f.payload ++ (f.checksum :: rest)) := by
    simp [bytes, body]
  have hCommand : commandBuffer ipod (lead ++ (f.bytes ++ rest))
      lead.length f.lengthByte.toNat = f.command := by
    have hBody : (lead ++ (f.bytes ++ rest)).drop (lead.length + 2) = f.body ++ rest := by
      simp [drop_append, bytes]
    rw [commandBuffer, command, hBody, f.toNat_lengthByte]
    congr 1
    exact take_left' f.length_body
  have hDrop : (lead ++ (f.bytes ++ rest)).drop (lead.length + 3 + f.lengthByte.toNat) =
      f.checksum :: rest := by
    rw [hShape, f.toNat_lengthByte, add_assoc, ← drop_drop, drop_left, add_comm]
    simp
  rw [← hCommand]
  rw [hShape] at hFirst hDrop ⊢
  have hAt := f.lengthAt hFirst (by
      rw [length_append, length_cons]
      omega)
  refine .frame hAt f.badLength_eq ?_ ?_ (by rwa [hDrop])
  · simp only [f.toNat_lengthByte, length_append, length_cons]
    change _ + 1 ≤ _
    omega
  · rw [f.toNat_lengthByte]
    change _ + 1 + 1 ≤ 256
    omega

/-
  What a scan leaves of a clean stream: a lead and the first part of the frames still to come,
  shorter than a frame.
-/
structure Remains (frames : List IpodFrame) (future keep : List UInt8) : Prop where
  split : ∃ lead part, keep = lead ++ part ∧ Lead 0 lead ∧
      part ++ future = stream IpodFrame.bytes frames ∧
      (∀ f ∈ frames.head?, part.length < f.bytes.length)
  short : keep.length ≤ 257

variable {frames : List IpodFrame}

theorem Lead.remains (hLead : Lead 0 lead) (hFuture : future = stream IpodFrame.bytes frames) :
    Remains frames future lead where
  split := ⟨lead, [], by simp, hLead, hFuture, fun f _ => by simp⟩
  short := by
    cases hLead with
    | clean | ahead x => simp

/- An incomplete frame remains as it is. -/
theorem IpodFrame.remains {f : IpodFrame}
    (hBytes : f.bytes = part ++ missing) (hMissing : missing ≠ [])
    (hStream : part ++ future = stream bytes (f :: frames)) :
    Remains (f :: frames) future part := by
  have hLength := congrArg length hBytes
  have hPositive := length_pos_iff.mpr hMissing
  have hBounded := f.bounded
  rw [f.length_bytes, length_append] at hLength
  refine ⟨⟨[], part, rfl, .clean, hStream, ?_⟩, by omega⟩
  intro g hg
  obtain rfl : f = g := by simpa using hg
  rw [f.length_bytes]
  omega

/- A scan of the first part of a clean stream hands over the frames that have arrived in full. -/
theorem scans_clean (frames : List IpodFrame) (hLead : Lead k lead)
    (hStream : part ++ future = stream IpodFrame.bytes frames) :
    ∃ arrived later keep, frames = arrived ++ later ∧ Scans ipod k (lead ++ part)
      (arrived.map IpodFrame.command) keep ∧ Remains later future keep := by
  induction frames generalizing k lead part with
  | nil =>
    obtain ⟨rfl, rfl⟩ : part = [] ∧ future = [] := by simpa using hStream
    rcases hLead.scans_alone with ⟨keep, hScans, hKeep⟩
    exact ⟨[], [], keep, rfl, by simpa using hScans, hKeep.remains rfl⟩
  | cons f frames ih =>
    cases part with
    | nil =>
      rcases hLead.scans_alone with ⟨keep, hScans, hKeep⟩
      exact ⟨[], f :: frames, keep, rfl, by simpa using hScans, hKeep.remains hStream⟩
    | cons b part =>
      obtain ⟨rfl, -⟩ : b = ipod.startByteOne ∧ _ := by simpa [IpodFrame.bytes] using hStream
      rcases hLead.finds_head part with ⟨start, hStart, hFirst, hFinds⟩
      rcases stream_part hStream with ⟨missing, hMissing, hBytes, -⟩ | ⟨rest, hPart, hRest⟩
      · exact ⟨[], f :: frames, _, rfl, hFinds _ _ (f.scans_part hBytes hMissing hFirst),
            IpodFrame.remains hBytes hMissing hStream⟩
      · rcases ih (.of_le_one hStart f.checksum) hRest with
          ⟨arrived, later, keep, hSplit, hScans, hRemains⟩
        refine ⟨f :: arrived, later, keep, by simp [hSplit], hFinds _ _ ?_, hRemains⟩
        rw [hPart] at hFirst ⊢
        exact f.scans_whole hFirst hScans

------
-- Clean Streams Are Delivered
------

theorem Remains.frames_eq_nil (h : Remains frames [] keep) : frames = [] := by
  rcases h.split with ⟨lead, part, -, -, hStream, hShort⟩
  cases frames with
  | nil => rfl
  | cons f frames =>
    have hLt := hShort f (by simp)
    have hLength := congrArg length hStream
    rw [stream_cons, length_append, length_append] at hLength
    simp only [length_nil] at hLength
    omega

/-
  The read thread hands over every frame still to come, from any state that an earlier part of the
  stream leaves.
-/
theorem runReader_clean {chunks : List (List UInt8)}
    (hCut : IsCut maxReadByteOnce chunks) {r : Reader} (hHolds : Holds r keep)
    (hRemains : Remains frames chunks.flatten keep) :
    ∃ last, runReader ipod r chunks = .ok (last, frames.map IpodFrame.command) := by
  induction chunks generalizing r keep frames with
  | nil =>
    rw [hRemains.frames_eq_nil]
    exact ⟨r, rfl⟩
  | cons chunk chunks ih =>
    rcases hRemains.split with ⟨lead, part, rfl, hLead, hStream, -⟩
    have hChunk : chunk.length ≤ 256 := (hCut chunk (by simp)).2
    rw [flatten_cons, ← append_assoc] at hStream
    rcases scans_clean frames hLead hStream with ⟨arrived, later, next, rfl, hScans, hLater⟩
    rw [← append_assoc] at hScans
    rcases readerStep_eq (by decide) hHolds (by
          have hShort := hRemains.short
          change _ ≤ 528
          omega)
        hScans with ⟨r', hStep, hNext⟩
    rcases ih (fun c hc => hCut c (by simp [hc])) hNext hLater with ⟨last, hRun⟩
    refine ⟨last, ?_⟩
    rw [map_append]
    exact feed_cons hStep hRun

/-
  However a stream of well-formed frames is cut into reads, every frame is handed to `parse_command`
  exactly once, in order, in a buffer that starts with its length byte, its payload and its
  checksum.
-/
theorem ipod_delivers_clean_stream (frames : List IpodFrame)
    (chunks : List (List UInt8)) (hCut : IsCut maxReadByteOnce chunks)
    (hStream : chunks.flatten = stream IpodFrame.bytes frames) :
    ∃ last parsed, runReader ipod Reader.init chunks = .ok (last, parsed) ∧ List.Forall₂
      (fun (f : IpodFrame) (command : Buffer) => command.take (f.payload.length + 2) = f.body)
      frames parsed := by
  rcases runReader_clean hCut Holds.init (Lead.clean.remains hStream) with ⟨last, hRun⟩
  refine ⟨last, _, hRun, ?_⟩
  rw [forall₂_map_right_iff, forall₂_same]
  exact fun f _ => f.take_command

/- Two frames, the first with a start byte as checksum. -/
theorem ipod_delivers_clean_stream_start_checksum :
    ∃ last parsed, runReader ipod Reader.init [[0xFF, 0x55, 0x01, 0x00, 0xFF, 0xFF],
      [0x55, 0x02, 0x01, 0x02, 0xFB]] = .ok (last, parsed) ∧
        List.Forall₂ (fun (f : IpodFrame) (command : Buffer) =>
          command.take (f.payload.length + 2) = f.body)
          [⟨[0x00], 0xFF, by decide, by decide, by decide⟩,
            ⟨[0x01, 0x02], 0xFB, by decide, by decide, by decide⟩]
          parsed :=
  ipod_delivers_clean_stream _ _ (by decide) (by decide)

------
-- Report Types
------

/- The reports of the general lingo. -/
inductive GeneralReportType
| ack
| returnRemoteUiMode
deriving DecidableEq

def generalReportType (code : UInt8) : Option GeneralReportType :=
  if code = 0x02 then some .ack
  else if code = 0x04 then some .returnRemoteUiMode
  else none

/- The reports of the extended interface mode. -/
inductive EimReportType
| ack
| returnIpodName
| returnNumberCategorizedDbrecords
| returnCategorizedDbrecord
| returnPlayStatus
| returnCurrentPlayingTrackIndex
| returnCurrentPlayingTrackTitle
| returnCurrentPlayingTrackArtist
| returnCurrentPlayingTrackAlbum
| playstatusChangenotification
| returnShuffle
| returnRepeat
deriving DecidableEq

def eimReportType (code : Nat) : Option EimReportType :=
  if code = 0x0001 then some .ack
  else if code = 0x0015 then some .returnIpodName
  else if code = 0x0019 then
    some .returnNumberCategorizedDbrecords
  else if code = 0x001B then some .returnCategorizedDbrecord
  else if code = 0x001D then some .returnPlayStatus
  else if code = 0x001F then
    some .returnCurrentPlayingTrackIndex
  else if code = 0x0021 then
    some .returnCurrentPlayingTrackTitle
  else if code = 0x0023 then
    some .returnCurrentPlayingTrackArtist
  else if code = 0x0025 then
    some .returnCurrentPlayingTrackAlbum
  else if code = 0x0027 then
    some .playstatusChangenotification
  else if code = 0x002D then some .returnShuffle
  else if code = 0x0030 then some .returnRepeat
  else none

/- What is set of a notification. A text field has old bytes behind the ones that are copied. -/
inductive IpodReport
| generalAck (commandResult commandId : UInt8) (commandWaitTime : Nat)
| generalReturnRemoteUi (mode : UInt8)
| eimAck (commandResult commandId : UInt8)
| eimIpodName (ipodName : List UInt8) (length : UInt8)
| eimNumberCategorizedDbrecords (recordCount : Nat)
| eimCategorizedDbrecords (recordIndex : Nat) (recordString : List UInt8) (length : UInt8)
| eimPlaystatus (playStatus : UInt8) (trackCurrentPosition trackTotalTime : Nat)
| eimCurrentPlayingTrack (trackPlayingIndex : Nat)
| eimCurrentPlayingTrackTitle (trackTitle : List UInt8)
| eimCurrentPlayingTrackArtist (trackArtist : List UInt8)
| eimCurrentPlayingTrackAlbum (trackAlbum : List UInt8)
| eimPlayChangeNotification (playChangeType : UInt8) (playValue : Nat)
| eimShuffle (shuffle : UInt8)
| eimRepeat (repeatMode : UInt8)
/- Another interface: pushed with nothing set. -/
| unset
deriving DecidableEq

------
-- The Reports Of A Command
------

/- The size of the text fields. -/
def ipodTextSize : Nat := 256

variable (command : Buffer)

def generalReport : GeneralReportType → Except Fault IpodReport
| .ack => do
    let commandResult ← command.load 3
    let commandId ← command.load 4
    if commandResult = 0x06 then
      let commandWaitTime ← load32 command 5
      return .generalAck commandResult commandId commandWaitTime
    else return .generalAck commandResult commandId 0
| .returnRemoteUiMode => do
    let mode ← command.load 3
    return .generalReturnRemoteUi mode

/-
  `length` and then the text, which share their memory in the reports of the playing track: the text
  overwrites the length.
-/
def unionText (length : Nat) (text : List UInt8) : List UInt8 :=
  text ++ [UInt8.ofNat length].drop text.length

/- The notification of a change of the play status. -/
def playChangeNotification : Except Fault (Option IpodReport) := do
  let type ← command.load 4
  if type = 0x06 then
    let value ← command.load 5
    return some (.eimPlayChangeNotification type value.toNat)
  else if type = 0x01 then
    let value ← load32 command 5
    return some (.eimPlayChangeNotification type value)
  else return none

def eimReport (length : Nat) : EimReportType → Except Fault (Option IpodReport)
| .ack => do
    let commandResult ← command.load 4
    let commandId ← load16 command 5
    return some (.eimAck commandResult (.ofNat commandId))
| .returnIpodName => do
    let n := uintSub length 3
    let text ← copyField ipodTextSize command 4 n
    return some (.eimIpodName text (.ofNat n))
| .returnNumberCategorizedDbrecords => do
    let recordCount ← load32 command 4
    return some (.eimNumberCategorizedDbrecords recordCount)
| .returnCategorizedDbrecord => do
    let recordIndex ← load32 command 4
    let n := uintSub length 7
    let text ← copyField ipodTextSize command 8 n
    return some (.eimCategorizedDbrecords recordIndex text (.ofNat n))
| .returnPlayStatus => do
    let trackTotalTime ← load32 command 4
    let trackCurrentPosition ← load32 command 8
    let playStatus ← command.load 12
    return some (.eimPlaystatus playStatus trackCurrentPosition trackTotalTime)
| .returnCurrentPlayingTrackIndex => do
    let trackPlayingIndex ← load32 command 4
    return some (.eimCurrentPlayingTrack trackPlayingIndex)
| .returnCurrentPlayingTrackTitle => do
    let n := uintSub length 3
    let text ← copyField ipodTextSize command 4 n
    return some (.eimCurrentPlayingTrackTitle (unionText n text))
| .returnCurrentPlayingTrackArtist => do
    let n := uintSub length 3
    let text ← copyField ipodTextSize command 4 n
    return some (.eimCurrentPlayingTrackArtist (unionText n text))
| .returnCurrentPlayingTrackAlbum => do
    let n := uintSub length 3
    let text ← copyField ipodTextSize command 4 n
    return some (.eimCurrentPlayingTrackAlbum (unionText n text))
| .playstatusChangenotification =>
  playChangeNotification command
| .returnShuffle => do
    let shuffle ← command.load 4
    return some (.eimShuffle shuffle)
| .returnRepeat => do
    let repeatMode ← command.load 4
    return some (.eimRepeat repeatMode)

/- The notification that is pushed, if any. -/
def ipodReport (length : Nat) : Except Fault (Option IpodReport) := do
  let interfaceId ← command.load 1
  if interfaceId = 0x00 then
    let code ← command.load 2
    match generalReportType code with
    | some type =>
      let report ← generalReport command type
      return some report
    | none => return none
  else if interfaceId = 0x04 then
    let code ← load16 command 2
    match eimReportType code with
    | some type => eimReport command length type
    | none => return none
  else return some .unset

/-
  `parse_command` of `libipod`: whether the checksum is right, which is only logged, and the
  notification.
-/
def ipodParseCommand : Except Fault (Bool × Option IpodReport) := do
  let lengthByte ← command.load 0
  let length := lengthByte.toNat
  let summed ← command.block 0 (length + 1)
  let checksum ← command.load (length + 1)
  let report ← ipodReport command length
  return (checksum = calcChecksum summed, report)

------
-- Lengths That Are Safe
------

variable {command : Buffer}

/- The least length that a report's copies allow. -/
def EimReportType.minLength : EimReportType → Nat
| .returnIpodName => 3
| .returnCategorizedDbrecord => 7
| .returnCurrentPlayingTrackTitle => 3
| .returnCurrentPlayingTrackArtist => 3
| .returnCurrentPlayingTrackAlbum => 3
| _ => 0

section

variable (hSize : command.length = maxCommandByteLength)

include hSize

theorem copyText_safe_iff {length skip : Nat} (hLength : length ≤ 254) (hSkip : skip ≤ 7) :
    Safe (copyField ipodTextSize command (skip + 1) (uintSub length skip)) ↔ skip ≤ length := by
  rw [copyField_safe_iff hSize, ipodTextSize, maxCommandByteLength]
  rcases lt_or_ge length skip with hShort | hLong
  · rw [uintSub_of_lt hShort]
    omega
  · rw [uintSub_of_le hLong (by omega)]
    omega

theorem generalReport_safe (type : GeneralReportType) : Safe (generalReport command type) := by
  cases type with
  | ack =>
    apply (load_safe hSize (by decide)).bind
    intro commandResult
    apply (load_safe hSize (by decide)).bind
    intro commandId
    split
    · apply (load32_safe hSize (by decide)).bind
      exact fun _ => safe_pure _
    · exact safe_pure _
  | returnRemoteUiMode =>
    apply (load_safe hSize (by decide)).bind
    exact fun _ => safe_pure _

theorem playChangeNotification_safe : Safe (playChangeNotification command) := by
  apply (load_safe hSize (by decide)).bind
  intro type
  split
  · apply (load_safe hSize (by decide)).bind
    exact fun _ => safe_pure _
  · split
    · apply (load32_safe hSize (by decide)).bind
      exact fun _ => safe_pure _
    · exact safe_pure none

/- One condition for each report. -/
theorem eimReport_safe_iff {length : Nat} (hLength : length ≤ 254) (type : EimReportType) :
    Safe (eimReport command length type) ↔ type.minLength ≤ length := by
  have hText : Safe (copyField ipodTextSize command 4 (uintSub length 3)) ↔ 3 ≤ length :=
    copyText_safe_iff hSize hLength (by decide)
  have hNumber (report : Nat → IpodReport) : Safe (do
        let n ← load32 command 4
        return some (report n)) :=
    (load32_safe hSize (by decide)).bind fun _ => safe_pure _
  have hByte (report : UInt8 → IpodReport) : Safe (do
        let c ← command.load 4
        return some (report c)) :=
    (load_safe hSize (by decide)).bind fun _ => safe_pure _
  cases type with
  | ack =>
    apply iff_of_true _ (Nat.zero_le length)
    apply (load_safe hSize (by decide)).bind
    intro commandResult
    apply (load16_safe hSize (by decide)).bind
    exact fun _ => safe_pure _
  | returnIpodName | returnCurrentPlayingTrackTitle | returnCurrentPlayingTrackArtist
  | returnCurrentPlayingTrackAlbum => exact safe_bind_pure.trans hText
  | returnNumberCategorizedDbrecords | returnCurrentPlayingTrackIndex =>
    exact iff_of_true (hNumber _) (Nat.zero_le length)
  | returnCategorizedDbrecord =>
    apply safe_bind_of_safe (load32_safe hSize (by decide))
    intro recordIndex
    exact safe_bind_pure.trans (copyText_safe_iff hSize hLength (by decide))
  | returnPlayStatus =>
    apply iff_of_true _ (Nat.zero_le length)
    apply (load32_safe hSize (by decide)).bind
    intro trackTotalTime
    apply (load32_safe hSize (by decide)).bind
    intro trackCurrentPosition
    apply (load_safe hSize (by decide)).bind
    exact fun _ => safe_pure _
  | playstatusChangenotification =>
    exact iff_of_true (playChangeNotification_safe hSize) (Nat.zero_le length)
  | returnShuffle | returnRepeat => exact iff_of_true (hByte _) (Nat.zero_le length)

end

/- The report of the extended interface that a frame has. -/
def RawFrame.eimType (f : RawFrame ipod) : Option EimReportType :=
  if byte f.command 1 = 0x04 then
    eimReportType ((byte f.command 2).toNat * 2 ^ 8 + (byte f.command 3).toNat)
  else none

/- Behind the checksum only the report decides. -/
theorem ipodReport_safe_iff (f : RawFrame ipod) (hLength : f.length.toNat ≤ 254) :
    Safe (ipodReport f.command f.length.toNat) ↔
      ∀ type, f.eimType = some type → type.minLength ≤ f.length.toNat := by
  have hSize := f.length_command
  unfold ipodReport RawFrame.eimType
  rw [load_byte hSize (by decide), ok_bind]
  split
  · rename_i hGeneral
    rw [hGeneral, load_byte hSize (by decide), ok_bind]
    apply iff_of_true
    · cases generalReportType (byte f.command 2) with
      | none => exact safe_pure none
      | some type =>
        apply safe_bind_pure.mpr
        exact generalReport_safe hSize type
    · nofun
  · split
    · rw [load16_byte hSize (by decide), ok_bind]
      cases eimReportType _ with
      | none => exact iff_of_true (safe_pure none) nofun
      | some type =>
        have hReport := eimReport_safe_iff hSize hLength type
        constructor
        · intro hSafe other hOther
          cases hOther
          exact hReport.mp hSafe
        · intro hAll
          exact hReport.mpr (hAll type rfl)
    · exact iff_of_true (safe_pure _) nofun

/- The first two tests need the checksum in `command`. -/
theorem ipodParseCommand_safe_iff (f : RawFrame ipod) :
    Safe (ipodParseCommand f.command) ↔ f.length.toNat ≤ 254 ∧
      Safe (ipodReport f.command f.length.toNat) := by
  have hSize := f.length_command
  have hLt := f.length.toNat_lt
  have hBlock : 0 + (f.length.toNat + 1) ≤ f.command.length := by
    rw [hSize, maxCommandByteLength]
    omega
  unfold ipodParseCommand
  rw [Buffer.load_eq f.command_zero, ok_bind]
  dsimp only
  rw [Buffer.block_eq hBlock, ok_bind]
  rcases lt_or_ge 254 f.length.toNat with hLong | hFits
  · apply iff_of_false
    · have hNone : f.command[f.length.toNat + 1]? = none := by
        apply List.getElem?_eq_none
        rw [hSize, maxCommandByteLength]
        omega
      rintro ⟨result, hResult⟩
      simp only [Buffer.load, hNone] at hResult
      cases hResult
    · omega
  · rw [load_byte hSize (by omega), ok_bind]
    exact safe_bind_pure.trans (and_iff_right hFits).symm

/-
  A frame is parsed inside all buffers if and only if its length byte is not 255 and it is as long
  as the copies of its report need.
-/
theorem ipod_parse_safe_iff (f : RawFrame ipod) :
    Safe (ipodParseCommand f.command) ↔ f.length.toNat ≤ 254 ∧ ∀ type, f.eimType = some type →
      type.minLength ≤ f.length.toNat := by
  rw [ipodParseCommand_safe_iff]
  constructor
  · rintro ⟨hLength, hSafe⟩
    exact ⟨hLength, (ipodReport_safe_iff f hLength).mp hSafe⟩
  · rintro ⟨hLength, hAll⟩
    exact ⟨hLength, (ipodReport_safe_iff f hLength).mpr hAll⟩

/- `02 04 00 15`: the checksum is the code of a name. -/
def shortName : RawFrame ipod where
  length := 2
  good := rfl
  rest := [0x04, 0x00, 0x15]
  complete := rfl

/- A frame of the greatest length. -/
def longestFrame : RawFrame ipod where
  length := 255
  good := rfl
  rest := List.replicate 256 0x05
  complete := List.length_replicate

theorem ipod_parse_not_safe :
    ipodParseCommand shortName.command = .error .outOfBounds ∧
      ipodParseCommand longestFrame.command = .error .outOfBounds := by
  constructor
  · decide +kernel
  · decide +kernel

end OpenIvi.Serial
