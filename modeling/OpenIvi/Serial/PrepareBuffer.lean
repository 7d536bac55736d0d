import OpenIvi.Serial.Ipod
import OpenIvi.Serial.Mpeg

/-
  The commands that `libmpeg` and `libipod` send.

  Each branch of `prepareBuffer` sets the length byte by hand. The bytes that are summed up and the
  size that is sent are taken from it, so that a branch has to agree with what it stores. Four
  commands of `libmpeg` have no branch, and the lingo of `libipod`'s first command is not the one
  of its caller.

  Main declarations:
    * `prepareBuffer`
    * `MpegEncoded`
    * `mpeg_encoded_iff`
    * `ipod_encoded`
-/

------
-- The Frame Around A Command
------

namespace OpenIvi.Serial

open Lib List Buffer LittleEndian

/- What a branch does: its value of the length byte, if it has one, and what it stores behind it. -/
structure Stored where
  length : Option UInt8
  bytes : List UInt8

/- `command_buffer` of the callers. -/
def zeroedBuffer : Buffer :=
  replicate maxReadByteOnce 0

theorem length_zeroedBuffer : zeroedBuffer.length = maxReadByteOnce :=
  length_replicate

/- `prepareBuffer` around its branches, with the buffer and the size that is returned. -/
def prepareBuffer (p : Protocol) (stored : Stored) (buffer : Buffer) :
    Except Fault (Buffer × Nat) := do
  let old ← buffer.load 2
  let length := stored.length.getD old
  let front := p.startByteOne :: p.startByteTwo :: length :: stored.bytes
  let buffer ← buffer.memcpy 0 front 0 front.length
  let summed ← buffer.block 2 (length.toNat + p.checksumBytes)
  let buffer ← buffer.memcpy front.length [calcChecksum summed] 0 1
  return (buffer, length.toNat + 3 + p.checksumBytes)

/- The frame of a length byte and the bytes behind it. -/
def frameOf (p : Protocol) (length : UInt8) (bytes : List UInt8) : List UInt8 :=
  p.startByteOne :: p.startByteTwo :: length :: (bytes ++ [calcChecksum (length :: bytes)])

variable (p : Protocol) (length : UInt8) (bytes : List UInt8)

theorem length_frameOf : (frameOf p length bytes).length = bytes.length + 4 := by
  simp [frameOf]

theorem sum_frameOf : ((frameOf p length bytes).drop 2).sum = 0 := by
  change (length :: (bytes ++ [0 - (length :: bytes).sum])).sum = 0
  rw [← cons_append, sum_append, sum_singleton, zero_sub, add_neg_cancel]

/- A branch whose length byte is right builds a frame. -/
theorem prepareBuffer_eq {buffer : Buffer}
    (hLength : length.toNat + p.checksumBytes = bytes.length + 1)
    (hBuffer : buffer.length = maxReadByteOnce) (hFits : bytes.length + 4 ≤ maxReadByteOnce) :
    prepareBuffer p ⟨some length, bytes⟩ buffer =
      .ok (buffer.splice 0 (frameOf p length bytes), bytes.length + 4) := by
  generalize hFront : p.startByteOne :: p.startByteTwo :: length :: bytes = front
  have hCount : front.length = bytes.length + 3 := by simp [← hFront]
  have hCopy : buffer.memcpy 0 front 0 front.length = .ok (buffer.splice 0 front) := by
    rw [memcpy_eq (by omega) (by omega), drop_zero, take_length]
  have hSize : (buffer.splice 0 front).length = maxReadByteOnce :=
    (length_splice (by omega)).trans hBuffer
  have hSummed : (buffer.splice 0 front).block 2 (bytes.length + 1) = .ok (length :: bytes) := by
    rw [block_eq (by omega), splice_zero, ← hFront]
    exact congrArg _ (take_left' (by simp))
  have hRest : length.toNat + 3 + p.checksumBytes = bytes.length + 4 := by omega
  have hFrame : frameOf p length bytes = front ++ [calcChecksum (length :: bytes)] := by
    rw [← hFront]
    rfl
  unfold prepareBuffer
  simp only [load_byte hBuffer (by decide : 2 < 256), ok_bind, Option.getD_some, hFront, hCopy,
    hLength, hSummed, hRest]
  rw [memcpy_eq (by omega) (by simp), hFrame]
  simp [Buffer.splice]

theorem size_of_prepareBuffer {p : Protocol} {stored : Stored} {buffer next : Buffer} {size : Nat}
    (hBuffer : buffer.length = maxReadByteOnce)
    (hRun : prepareBuffer p stored buffer = .ok (next, size)) :
    size = (stored.length.getD (byte buffer 2)).toNat + 3 + p.checksumBytes := by
  unfold prepareBuffer at hRun
  rw [load_byte hBuffer (by decide : 2 < 256), ok_bind] at hRun
  rcases bind_eq_ok.mp hRun with ⟨_, _, hSum⟩
  rcases bind_eq_ok.mp hSum with ⟨_, _, hStore⟩
  rcases bind_eq_ok.mp hStore with ⟨_, _, hEnd⟩
  cases hEnd
  rfl

------
-- Commands Of libmpeg
------

inductive MpegCommandType
| initReq
| deviceStatusReq
| mpuReportStatusReq
| keyControlReq
| mpuReportTsPosReq
| playStatusReq
| playInfoReq
| id3InfoReq
| playlistIndexReq
| playlistNameReq
| dvdDispInfoReq
| mpuSetMpegSourceReq
| mpuSetMpegSuspendReq
| setMpegPowerOffReq
| mpuRetBootmark
| upgradeStartReq
| versionReq
| divxCodeReq
| commStatusReq
| resetReq
deriving DecidableEq

namespace MpegCommandType

def value : MpegCommandType → UInt8
| initReq => 0x01
| deviceStatusReq => 0x02
| mpuReportStatusReq => 0x03
| keyControlReq => 0x05
| mpuReportTsPosReq => 0x07
| playStatusReq => 0x09
| playInfoReq => 0x0B
| id3InfoReq => 0x0D
| playlistIndexReq => 0x0F
| playlistNameReq => 0x11
| dvdDispInfoReq => 0x13
| mpuSetMpegSourceReq => 0x15
| mpuSetMpegSuspendReq => 0x16
| setMpegPowerOffReq => 0x17
| mpuRetBootmark => 0x18
| upgradeStartReq => 0x20
| versionReq => 0x22
| divxCodeReq => 0x23
| commStatusReq => 0x30
| resetReq => 0xFE

/- The `char`s of its structure. -/
def paramCount : MpegCommandType → Nat
| initReq | mpuReportStatusReq | mpuSetMpegSourceReq | mpuSetMpegSuspendReq | commStatusReq => 1
| keyControlReq | mpuReportTsPosReq => 1 + 4
| playlistNameReq => 1 + 2
| mpuRetBootmark => 1 + 64
| _ => 0

/- The length byte of its branch and the parameters that are stored there. -/
def branch : MpegCommandType → Option UInt8 × Nat
| initReq | mpuSetMpegSourceReq | mpuReportStatusReq | mpuSetMpegSuspendReq =>
  (some (1 + 1 + 1), 1)
| playlistIndexReq | deviceStatusReq | playStatusReq | playInfoReq | dvdDispInfoReq | id3InfoReq
| setMpegPowerOffReq | resetReq => (some (1 + 0 + 1), 0)
| keyControlReq | mpuReportTsPosReq => (some (1 + 5 + 1), 5)
| playlistNameReq => (some (1 + 3 + 1), 3)
| mpuRetBootmark => (some (1 + 65 + 1), 65)
| upgradeStartReq | versionReq | divxCodeReq | commStatusReq => (none, 0)

end MpegCommandType

/- A command with the bytes of its union, which is an array of `char` for each type. -/
structure MpegCommand where
  type : MpegCommandType
  context : Nat → UInt8

namespace MpegCommand

/- The command id and some parameters. -/
def withParams (c : MpegCommand) (n : Nat) : List UInt8 :=
  c.type.value :: (range n).map c.context

def prepareBuffer (c : MpegCommand) : Except Fault (Buffer × Nat) :=
  Serial.prepareBuffer mpeg ⟨c.type.branch.1, c.withParams c.type.branch.2⟩ zeroedBuffer

end MpegCommand

/- A frame with the command id and all parameters. -/
structure IsMpegFrame (c : MpegCommand) (length checksum : UInt8) (frame : List UInt8) : Prop where
  bytes : frame = 0x4B :: 0xB4 :: length :: (c.withParams c.type.paramCount ++ [checksum])
  length : frame.length = length.toNat + 3
  sum : (frame.drop 2).sum = 0

/- The frame is what is written, all of it is sent, and it is one command for the reader. -/
def MpegEncoded (c : MpegCommand) : Prop :=
  ∃ length checksum frame r, IsMpegFrame c length checksum frame ∧
    c.prepareBuffer = .ok (zeroedBuffer.splice 0 frame, frame.length) ∧
    readerStep mpeg Reader.init frame = .ok (r, [paddedCommand (frame.drop 2)])

/- The reader takes the frame as one command. -/
theorem readerStep_frameOf (length : UInt8) (bytes : List UInt8)
    (hLength : length.toNat = bytes.length + 1) :
    ∃ r, readerStep mpeg Reader.init (frameOf mpeg length bytes) =
      .ok (r, [paddedCommand ((frameOf mpeg length bytes).drop 2)]) := by
  generalize hFrame : frameOf mpeg length bytes = frame
  have hCount : frame.length = length.toNat + 3 := by rw [← hFrame, length_frameOf, hLength]
  have hAt : LengthAt mpeg 0 frame 0 length := by
    rw [← hFrame]
    exact ⟨⟨⟨Nat.le_refl 0, rfl, fun _ _ hLt => absurd hLt (Nat.not_lt_zero _)⟩, rfl⟩, rfl,
      by rw [length_frameOf]; omega⟩
  have hCommand : commandBuffer mpeg frame 0 length.toNat = paddedCommand (frame.drop 2) := by
    unfold commandBuffer
    rw [take_of_length_le]
    rw [length_drop, hCount]
    omega
  have hRest : Scans mpeg 0 (frame.drop (0 + 3 + length.toNat)) [] [] := by
    rw [drop_eq_nil_of_le (by omega)]
    exact .noHead (by simp)
  have hSmall := length.toNat_lt
  have hScans := Scans.frame hAt (mpeg_badLength length) (by change 0 + 3 + _ + 0 ≤ _; omega)
    (by change _ + 1 + 0 ≤ 256; omega) hRest
  rw [hCommand] at hScans
  rcases readerStep_eq (by decide) Holds.init (by change 0 + _ ≤ 528; omega) hScans with
    ⟨r, hRun, _⟩
  exact ⟨r, hRun⟩

theorem not_mpegEncoded {c : MpegCommand} (hBranch : c.type.branch.1 = none) : ¬ MpegEncoded c := by
  rintro ⟨length, checksum, frame, r, hFrame, hRun, _⟩
  have hZero : byte zeroedBuffer 2 = 0 := rfl
  have hSize : frame.length = 3 := by
    rw [size_of_prepareBuffer length_zeroedBuffer hRun, hBranch, hZero]
    rfl
  simp [hFrame.bytes, MpegCommand.withParams] at hSize

theorem mpegEncoded_of_branch {c : MpegCommand} {n : Nat}
    (hBranch : c.type.branch = (some (UInt8.ofNat (n + 2)), n)) (hParams : c.type.paramCount = n)
    (hSmall : n < 250) : MpegEncoded c := by
  have hBytes : (c.withParams n).length = n + 1 := by simp [MpegCommand.withParams]
  have hLength : (UInt8.ofNat (n + 2)).toNat = n + 2 :=
    UInt8.toNat_ofNat_of_lt' (by change n + 2 < 256; omega)
  have hRun := prepareBuffer_eq mpeg (UInt8.ofNat (n + 2)) (c.withParams n)
    (by change _ + 0 = _; omega) length_zeroedBuffer
    (by change _ ≤ 256; omega)
  rcases readerStep_frameOf (UInt8.ofNat (n + 2)) (c.withParams n) (by omega) with ⟨r, hRead⟩
  rw [← length_frameOf mpeg (UInt8.ofNat (n + 2))] at hRun
  refine ⟨UInt8.ofNat (n + 2), calcChecksum (UInt8.ofNat (n + 2) :: c.withParams n), _, r,
    ⟨?_, ?_, sum_frameOf ..⟩, ?_, hRead⟩
  · rw [hParams]
    rfl
  · rw [length_frameOf]
    omega
  · rw [MpegCommand.prepareBuffer, hBranch]
    exact hRun

theorem MpegCommandType.branch_eq {type : MpegCommandType}
    (hType : type ∉ [.upgradeStartReq, .versionReq, .divxCodeReq, .commStatusReq]) :
    type.branch = (some (UInt8.ofNat (type.paramCount + 2)), type.paramCount) ∧
      type.paramCount < 250 := by
  revert hType
  cases type <;> decide

theorem mpeg_encoded_iff (c : MpegCommand) :
    MpegEncoded c ↔ c.type ∉ [.upgradeStartReq, .versionReq, .divxCodeReq, .commStatusReq] := by
  constructor
  · intro hEncoded hType
    refine not_mpegEncoded ?_ hEncoded
    simp only [mem_cons, not_mem_nil, or_false] at hType
    rcases hType with hType | hType | hType | hType <;> rw [hType] <;> rfl
  · intro hType
    have hBranch := MpegCommandType.branch_eq hType
    exact mpegEncoded_of_branch hBranch.1 rfl hBranch.2

/- The request for the version is three bytes long. -/
theorem mpeg_version_req_not_encoded : ¬ MpegEncoded ⟨.versionReq, fun _ => 0⟩ :=
  not_mpegEncoded rfl

------
-- Commands Of libipod
------

inductive IpodCommandType
| generalIdentify
| generalRequestRemoteUiMode
| generalEnterRemoteUiMode
| generalExitRemoteUiMode
| requestIpodName
| resetDbSelection
| selectDbRecord
| getNumberCategorizedDbRecords
| retriveCategorizedDatabaseRecords
| getPlayStatus
| getCurrentPlayingTrackIndex
| getIndexedPlayingTrackTitle
| getIndexedPlayingTrackArtist
| getIndexedPlayingTrackAlbum
| setPlayStatusChangeNotification
| playCurrentSelection
| playControl
| getShuffle
| setShuffle
| getRepeat
| setRepeat
deriving DecidableEq

def generalLingoType : Nat := 0x00

def extendeInterfaceModeType : Nat := 0x04

namespace IpodCommandType

def value : IpodCommandType → Nat
| generalIdentify => 0x01
| generalRequestRemoteUiMode => 0x03
| generalEnterRemoteUiMode => 0x05
| generalExitRemoteUiMode => 0x06
| requestIpodName => 0x0014
| resetDbSelection => 0x0016
| selectDbRecord => 0x0017
| getNumberCategorizedDbRecords => 0x0018
| retriveCategorizedDatabaseRecords => 0x001A
| getPlayStatus => 0x001C
| getCurrentPlayingTrackIndex => 0x001E
| getIndexedPlayingTrackTitle => 0x0020
| getIndexedPlayingTrackArtist => 0x0022
| getIndexedPlayingTrackAlbum => 0x0024
| setPlayStatusChangeNotification => 0x0026
| playCurrentSelection => 0x0028
| playControl => 0x0029
| getShuffle => 0x002C
| setShuffle => 0x002E
| getRepeat => 0x002F
| setRepeat => 0x0031

/- The lingo and the command id, each with its width. -/
def header (type : IpodCommandType) : List (Nat × Nat) :=
  match type with
  | generalIdentify | generalRequestRemoteUiMode | generalEnterRemoteUiMode
  | generalExitRemoteUiMode => [(1, generalLingoType), (1, type.value)]
  | _ => [(1, extendeInterfaceModeType), (2, type.value)]

end IpodCommandType

/- A command with the bytes of its union. -/
structure IpodCommand where
  type : IpodCommandType
  context : Nat → UInt8

/- Numbers of given widths, the highest byte of each first. -/
def bigEndian (fields : List (Nat × Nat)) : List UInt8 :=
  fields.flatMap fun field => (toBytes field.1 field.2).reverse

/- Read numbers of the given widths. -/
def readBigEndian : List Nat → List UInt8 → List Nat
| [], _ => []
| width :: widths, bytes =>
  ofBytes (bytes.take width).reverse :: readBigEndian widths (bytes.drop width)

namespace IpodCommand

variable (c : IpodCommand)

/- A number of the union: an `unsigned char` or an `unsigned int`. -/
def member (width off : Nat) : Nat × Nat :=
  (width, ofBytes ((range' off width).map c.context))

/- The members of its structure, but for dummies and the mask of the notification. -/
def arguments : List (Nat × Nat) :=
  match c.type with
  | .generalIdentify | .getNumberCategorizedDbRecords | .playControl => [c.member 1 0]
  | .selectDbRecord => [c.member 1 0, c.member 4 4]
  | .retriveCategorizedDatabaseRecords => [c.member 1 0, c.member 4 4, c.member 4 8]
  | .getIndexedPlayingTrackTitle | .getIndexedPlayingTrackArtist | .getIndexedPlayingTrackAlbum
  | .playCurrentSelection => [c.member 4 0]
  | .setShuffle | .setRepeat => [c.member 1 0, c.member 1 1]
  | _ => []

/- What its branch stores behind the header and its value of the length byte. -/
def branch : List (Nat × Nat) × UInt8 :=
  match c.type with
  | .generalIdentify => ([(1, extendeInterfaceModeType)], 0x03)
  | .generalRequestRemoteUiMode | .generalEnterRemoteUiMode | .generalExitRemoteUiMode => ([], 0x2)
  | .selectDbRecord => ([c.member 1 0, c.member 4 4], 0x08)
  | .getNumberCategorizedDbRecords => ([c.member 1 0], 0x04)
  | .retriveCategorizedDatabaseRecords => ([c.member 1 0, c.member 4 4, c.member 4 8], 0x0C)
  | .getIndexedPlayingTrackTitle | .getIndexedPlayingTrackArtist | .getIndexedPlayingTrackAlbum
  | .playCurrentSelection => ([c.member 4 0], 0x07)
  | .setPlayStatusChangeNotification => ([(1, 0x1)], 0x04)
  | .playControl => ([c.member 1 0], 0x04)
  | .setShuffle | .setRepeat => ([c.member 1 0, c.member 1 1], 0x05)
  | .requestIpodName | .resetDbSelection | .getPlayStatus | .getCurrentPlayingTrackIndex
  | .getShuffle | .getRepeat => ([], 0x03)

def prepareBuffer (buffer : Buffer) : Except Fault (Buffer × Nat) :=
  Serial.prepareBuffer ipod ⟨some c.branch.2, bigEndian (c.type.header ++ c.branch.1)⟩ buffer

/- The lingo, the command id and the arguments. -/
def fields : List (Nat × Nat) :=
  c.type.header ++ c.arguments

/- A well-formed frame is written, and its fields can be read from its payload. -/
def Encoded (buffer : Buffer) : Prop :=
  ∃ f : IpodFrame, c.prepareBuffer buffer = .ok (buffer.splice 0 f.bytes, f.payload.length + 4) ∧
    readBigEndian (c.fields.map Prod.fst) f.payload = c.fields.map Prod.snd

end IpodCommand

/- A number that fits its width. -/
def FitsWidth (field : Nat × Nat) : Prop :=
  ofBytes (toBytes field.1 field.2) = field.2

theorem readBigEndian_bigEndian {fields : List (Nat × Nat)}
    (hFits : ∀ field ∈ fields, FitsWidth field) (rest : List (Nat × Nat)) :
    readBigEndian (fields.map Prod.fst) (bigEndian (fields ++ rest)) = fields.map Prod.snd := by
  induction fields with
  | nil => rfl
  | cons field fields ih =>
    have hLength : (toBytes field.1 field.2).reverse.length = field.1 := by simp
    have hFirst := hFits field (by simp)
    rw [map_cons, readBigEndian, cons_append, bigEndian, flatMap_cons, take_left' hLength,
      drop_left' hLength, reverse_reverse, hFirst, map_cons]
    congr 1
    exact ih fun other hOther => hFits other (by simp [hOther])

namespace IpodCommand

variable {c : IpodCommand} {buffer : Buffer}

theorem fits_member (c : IpodCommand) (width off : Nat) : FitsWidth (c.member width off) := by
  have hBytes := toBytes_ofBytes ((range' off width).map c.context)
  rw [length_map, length_range'] at hBytes
  unfold FitsWidth member
  rw [hBytes]

theorem fits_fields (c : IpodCommand) : ∀ field ∈ c.fields, FitsWidth field := by
  rcases c with ⟨type, context⟩
  cases type <;> simp [fields, arguments, IpodCommandType.header, fits_member] <;>
    exact ⟨rfl, rfl⟩

theorem branch_eq (hType : c.type ≠ .generalIdentify) :
    ∃ extra, c.branch.1 = c.arguments ++ extra := by
  rcases c with ⟨type, context⟩
  cases type with
  | generalIdentify => exact absurd rfl hType
  | setPlayStatusChangeNotification => exact ⟨[(1, 0x1)], rfl⟩
  | _ => exact ⟨[], rfl⟩

/- The frame of a command, with what its branch stores as the payload. -/
theorem prepareBuffer_frame (c : IpodCommand) (hBuffer : buffer.length = maxReadByteOnce) :
    ∃ f : IpodFrame, f.payload = bigEndian (c.type.header ++ c.branch.1) ∧
      c.prepareBuffer buffer = .ok (buffer.splice 0 f.bytes, f.payload.length + 4) := by
  have hLength : c.branch.2.toNat = (bigEndian (c.type.header ++ c.branch.1)).length := by
    rcases c with ⟨type, context⟩
    cases type <;> rfl
  have hBounds : 1 ≤ c.branch.2.toNat ∧ c.branch.2.toNat ≤ 12 := by
    rcases c with ⟨type, context⟩
    cases type <;> simp [branch]
  generalize hPayload : bigEndian (c.type.header ++ c.branch.1) = payload at hLength ⊢
  have hByte : UInt8.ofNat payload.length = c.branch.2 := by rw [← hLength, UInt8.ofNat_toNat]
  refine ⟨⟨payload, calcChecksum (c.branch.2 :: payload), by omega, by omega, ?_⟩, rfl, ?_⟩
  · rw [hByte, calcChecksum, sum_cons, zero_sub, add_neg_cancel]
  · simp only [IpodFrame.bytes, IpodFrame.body, IpodFrame.lengthByte, hByte]
    rw [prepareBuffer, hPayload]
    exact prepareBuffer_eq ipod _ _ (by change _ + 1 = _; omega) hBuffer (by change _ ≤ 256; omega)

/- A buffer shows one frame of a length only. -/
theorem payload_eq {f g : IpodFrame} (hLength : f.payload.length = g.payload.length)
    (hSame : buffer.splice 0 f.bytes = buffer.splice 0 g.bytes) : f.payload = g.payload := by
  have hFront := congrArg (take f.bytes.length) hSame
  rw [take_splice_zero, f.length_bytes, hLength, ← g.length_bytes, take_splice_zero] at hFront
  simp only [IpodFrame.bytes, IpodFrame.body, cons_append, cons.injEq] at hFront
  exact (append_inj hFront.2.2.2 hLength).1

end IpodCommand

/-
  Every command is sent as a well-formed frame with its lingo and its id. All of its arguments can
  be read back, unless it is the first one of a caller with another lingo.
-/
theorem ipod_encoded (c : IpodCommand) (buffer : Buffer)
    (hBuffer : buffer.length = maxReadByteOnce) :
    ∃ f : IpodFrame, c.prepareBuffer buffer = .ok (buffer.splice 0 f.bytes, f.payload.length + 4) ∧
      readBigEndian (c.type.header.map Prod.fst) f.payload = c.type.header.map Prod.snd ∧
      (readBigEndian (c.fields.map Prod.fst) f.payload = c.fields.map Prod.snd ↔
        (c.type = .generalIdentify → c.context 0 = 4)) := by
  rcases c.prepareBuffer_frame hBuffer with ⟨f, hPayload, hRun⟩
  have hHeader : ∀ field ∈ c.type.header, FitsWidth field :=
    fun field hField => c.fits_fields field (mem_append_left _ hField)
  refine ⟨f, hRun, ?_, ?_⟩
  · rw [hPayload]
    exact readBigEndian_bigEndian hHeader _
  rw [hPayload]
  by_cases hType : c.type = .generalIdentify
  · rcases c with ⟨type, context⟩
    subst hType
    have hSame : 4 = (context 0).toNat ↔ context 0 = 4 := by
      rw [← UInt8.toNat_inj, eq_comm]
      rfl
    simpa [IpodCommand.fields, IpodCommand.arguments, IpodCommand.branch, IpodCommand.member,
      IpodCommandType.header, IpodCommandType.value, generalLingoType, extendeInterfaceModeType,
      bigEndian, readBigEndian, toBytes, ofBytes] using hSame
  · rcases IpodCommand.branch_eq hType with ⟨extra, hBranch⟩
    rw [hBranch, ← append_assoc]
    exact iff_of_true (readBigEndian_bigEndian c.fits_fields extra) fun h => absurd h hType

theorem ipod_encoded_shuffle : ∃ f : IpodFrame,
    IpodCommand.prepareBuffer ⟨.setShuffle, fun _ => 1⟩ zeroedBuffer =
      .ok (zeroedBuffer.splice 0 f.bytes, f.payload.length + 4) := by
  rcases ipod_encoded ⟨.setShuffle, fun _ => 1⟩ zeroedBuffer length_zeroedBuffer with ⟨f, hRun, _⟩
  exact ⟨f, hRun⟩

/- The lingo of the caller is replaced by another one. -/
theorem ipod_identify_sends_other_lingo :
    ¬ IpodCommand.Encoded ⟨.generalIdentify, fun _ => 0⟩ zeroedBuffer := by
  rintro ⟨f, hFrame, hRead⟩
  rcases IpodCommand.prepareBuffer_frame ⟨.generalIdentify, fun _ => 0⟩ length_zeroedBuffer with
    ⟨g, hPayload, hRun⟩
  have hSame := hFrame.symm.trans hRun
  simp only [Except.ok.injEq, Prod.mk.injEq, add_right_cancel_iff] at hSame
  rw [IpodCommand.payload_eq hSame.2 hSame.1, hPayload] at hRead
  revert hRead
  decide

end OpenIvi.Serial
