import OpenIvi.Lib.Buffer

/-
  The firmware downloads of `mpeg_burning.c` and `mcu_burning.c`.

  `mpeg_update` prepares the device in up to three attempts and then calls `transfer`, which sends
  the image in frames of 4096 bytes and goes by the byte with which the device answers each of them.
  The image, the results of the calls that prepare the device and what the tty does are inputs.

  The file is read into a buffer of 32 KiB and sent in blocks of 128 bytes. What does not fit is
  left out, and the display of the progress divides by a fiftieth of the number of blocks.

  `send_sloader` sends its loader to a device that stores what is written to it. The length of the
  loader is rounded up with `len | (~3)`, which sets all bits but two, and then with `+ 4`, which
  wraps around. A length that is no multiple of four becomes its rest.

  Main declarations:
    * `mpegSendFrame`
    * `mcu_burning_covers_iff`
    * `sendSloader`
    * `sloader_sent_whole_iff`
-/

------
-- Frames
------

namespace OpenIvi.Recovery

open Lib List

/- The bytes of the image in one frame. -/
def blockSize : Nat := 4096

/- One more than the largest `unsigned int`. -/
def uintLimit : Nat := 2 ^ 32

/- One more than the largest `unsigned short`. -/
def ushortLimit : Nat := 2 ^ 16

/- `get_checksum`: the sum of the 16-bit words. -/
def getChecksum : List UInt8 → Nat
| low :: high :: rest =>
  (low.toNat + 256 * high.toNat + getChecksum rest) % uintLimit
| _ => 0

/- `get_frame`: the number of the frame, its block of the image, and the checksum of the block. -/
def getFrame (buf : Buffer) (frameid : Nat) : Except Fault (List UInt8) := do
  let block ← buf.block (frameid * blockSize) blockSize
  let checksum := getChecksum block
  return [UInt8.ofNat frameid, UInt8.ofNat (frameid / 256)] ++ block ++
    [UInt8.ofNat checksum, UInt8.ofNat (checksum / 256), UInt8.ofNat (checksum / 256 ^ 2),
      UInt8.ofNat (checksum / 256 ^ 3)]

/-
  How many of `n` bytes a blocking `write` takes: at least one, and all of them unless `counts` says
  less.
-/
def accepted (n : Nat) : List Nat → Nat
| [] => max 1 n
| count :: _ => max 1 (min count n)

/- `mpeg_send_frame`: the pieces in which a frame is written, each of at most `frameSize` bytes. -/
def mpegSendFrame (frameSize : Nat) (counts : List Nat) (frame : List UInt8) : List (List UInt8) :=
  if frame = [] then
    []
  else
    let n := accepted (min frameSize frame.length) counts
    frame.take n :: mpegSendFrame frameSize counts.tail (frame.drop n)
termination_by frame.length
decreasing_by
  rename_i hDone
  have hLength := List.length_pos_of_ne_nil hDone
  have hOne : 1 ≤ accepted (min frameSize frame.length) counts := by
    unfold accepted
    split <;> exact Nat.le_max_left ..
  rw [List.length_drop]
  omega

------
-- Answers
------

/- The answers `O`, `X`, `E` and `L` of the device. -/
def answerO : UInt8 := 0x4F

def answerX : UInt8 := 0x58

def answerE : UInt8 := 0x45

def answerL : UInt8 := 0x4C

/- What `mpeg_wait_return` returns without an answer. -/
def noAnswer : UInt8 := 0

/- The loop of `mpeg_wait_return`, `n` reads from its end. -/
def waitReturn : Nat → List UInt8 → Option UInt8
| 0, _ => some noAnswer
| _ + 1, [] => none
| n + 1, cmdFb :: reads =>
  if cmdFb = answerO ∨ cmdFb = answerX ∨ cmdFb = answerE ∨ cmdFb = answerL then
    some cmdFb
  else
    waitReturn n reads

/-
  `mpeg_wait_return`. The reads block until a byte is there; `none` says that the function still
  waits behind the last byte that came.
-/
def mpegWaitReturn (reads : List UInt8) : Option UInt8 :=
  waitReturn 10000 reads

/- What the tty does while one frame is sent and answered. -/
structure Exchange where
  /- The bytes that the writes take, see `accepted`. -/
  counts : List Nat
  /- The bytes that the reads return. -/
  reads : List UInt8
deriving DecidableEq, Repr

/- A frame that was sent and how it was answered. -/
structure Sent where
  frameid : Nat
  writes : List (List UInt8)
  mpegFb : UInt8
deriving DecidableEq, Repr

------
-- The Transfer
------

/- What `transfer` finds: the file, the memory, the tty. -/
structure Link where
  /- The content of `rom.bin`. -/
  image : List UInt8
  /- Whether `mpeg_get_file_size` can open the file. -/
  sizeOpens : Bool
  mallocs : Bool
  opens : Bool
  /- What is in the memory that `malloc` returns. -/
  fresh : Nat → UInt8
  exchanges : List Exchange

/-
  `mpeg_get_file_size`. The offset of the end of a file of 2 GiB or more is no `long`, and `ftell`
  returns -1.
-/
def mpegGetFileSize (opens : Bool) (file : List UInt8) : Nat :=
  if opens = true then
    if file.length < 2 ^ 31 then
      file.length
    else
      uintLimit - 1
  else
    0

/- `romsize`, rounded up to whole frames. -/
def Link.romsize (l : Link) : Nat :=
  (mpegGetFileSize l.sizeOpens l.image + 4095) % uintLimit / blockSize * blockSize

/- The memory of the given size after `fread`. -/
def Link.loaded (l : Link) (size : Nat) : Buffer :=
  l.image.take size ++ (List.range (size - l.image.length)).map fun i =>
      l.fresh (l.image.length + i)

/- The locals of the loop of `transfer`. -/
structure Sender where
  frameid : Nat
  romsize : Nat
  frame : List UInt8
  sent : List Sent

/-
  Go on to the next frame. The progress display is left out, but not its divisions by `dsp_2p` and
  `dsp_10p`.
-/
def Sender.nextFrame (buf : Buffer) (dsp10p dsp2p : Nat) (s : Sender) : Except Fault Sender := do
  let frameid := (s.frameid + 1) % ushortLimit
  let frame ← getFrame buf frameid
  if dsp2p = 0 ∨ dsp10p = 0 then
    throw .divideByZero
  return {
    frameid := frameid
    romsize := (s.romsize + uintLimit - blockSize) % uintLimit
    frame := frame
    sent := s.sent }

/-
  The loop of `transfer`: its return value and the frames that were sent. It is still running when
  the exchanges are used up.
-/
def transferLoop (frameSize : Nat) (buf : Buffer) (dsp10p dsp2p : Nat) :
    Sender → List Exchange → Except Fault (Bool × List Sent)
| _, [] => .error .outOfFuel
| s, x :: exchanges =>
  match mpegWaitReturn x.reads with
  | none => .error .outOfFuel
  | some mpegFb => do
      let writes := mpegSendFrame frameSize x.counts s.frame
      let sent := s.sent ++ [⟨s.frameid, writes, mpegFb⟩]
      if mpegFb = answerO then
        if s.romsize = 0 then
          return (true, sent)
        else
          let s ← Sender.nextFrame buf dsp10p dsp2p
              { s with sent := sent }
          transferLoop frameSize buf dsp10p dsp2p s exchanges
      else if mpegFb = answerL ∨ mpegFb = answerX then
        transferLoop frameSize buf dsp10p dsp2p
          { s with sent := sent } exchanges
      else if mpegFb = answerE then
        return (true, sent)
      else
        return (false, sent)

def transfer (frameSize : Nat) (l : Link) : Except Fault (Bool × List Sent) := do
  let romsize := l.romsize
  let dsp10p := romsize / blockSize / 5
  let dsp2p := romsize / blockSize / 50
  if l.mallocs = false then
    return (false, [])
  if l.opens = false then
    return (false, [])
  let buf := l.loaded romsize
  let frame ← getFrame buf 0
  transferLoop frameSize buf dsp10p dsp2p
    { frameid := 0
      romsize := (romsize + uintLimit - blockSize) % uintLimit
      frame := frame
      sent := [] }
    l.exchanges

------
-- The Update
------

inductive InstallResult where
| success
| error
| notExisted
| corrupt
deriving DecidableEq, Repr

/- What the calls in front of `transfer` return. -/
structure Attempt where
  bootOpens : Bool
  romOpens : Bool
  confirmDevice : InstallResult
  initSdram : InstallResult
  sendSloader : InstallResult
  rebootIntoSloader : InstallResult
  /- Whether the device answers `S` with `R` at some time. -/
  answersReady : Bool
deriving DecidableEq, Repr

/- How far an attempt gets. -/
inductive Progress where
| notExisted
| failed
| prepared
deriving DecidableEq, Repr

/- The part of `mpeg_update` in front of the transfer. -/
def Attempt.prepare (a : Attempt) : Progress :=
  if a.bootOpens = false then .notExisted
  else if a.romOpens = false then .notExisted
  else if a.confirmDevice ≠ .success then .failed
  else if a.initSdram ≠ .success then .failed
  else if a.sendSloader ≠ .success then .failed
  else if a.rebootIntoSloader ≠ .success then .failed
  else .prepared

/-
  `mpeg_update` from the label `burning` on, with the tries that are left. It returns the same
  whatever `transfer` returns.
-/
def burning (attempts : Nat → Attempt) (l : Link) :
    Nat → Nat → Except Fault (InstallResult × List Sent)
| 0, _ => .ok (.error, [])
| left + 1, tryTime =>
  match (attempts tryTime).prepare with
  | .notExisted => .ok (.notExisted, [])
  | .failed => burning attempts l left (tryTime + 1)
  | .prepared => do
      -- `send_start_wait_ready` waits for ever.
      if (attempts tryTime).answersReady = false then
        throw .outOfFuel
      let (_, sent) ← transfer 1400 l
      return (.success, sent)

def mpegUpdate (attempts : Nat → Attempt) (l : Link) : Except Fault (InstallResult × List Sent) :=
  burning attempts l 3 0

------
-- Burning
------

def fileMaxSize : Nat := 32 * 1024

def numOnce : Nat := 128

/- `get_checksum` of `mcu_burning.c`, over bytes of type `char`, which is unsigned here. -/
def mcuChecksum (bytes : List UInt8) : Nat :=
  (bytes.map UInt8.toNat).sum % uintLimit

/- The answers of the device to the calls for block `i`; `none` is a call that fails. -/
structure McuDevice where
  writes : Nat → List UInt8 → Bool
  reads : Nat → List UInt8 → Option Nat

/- `file_buf` and `file_len`. -/
structure FileBuf where
  bytes : Buffer
  fileLen : Nat

/- `get_burning_data`; `old` is what `file_buf` held. -/
def getBurningData (old : Buffer) (file : List UInt8) : Option FileBuf :=
  let read := file.take fileMaxSize
  if read.length = 0 then none
  else
    let numZero := (numOnce - read.length % numOnce) % numOnce
    some ⟨read ++ replicate numZero 0 ++ old.drop (read.length + numZero), read.length + numZero⟩

/- The loop of `mcu_data_transfer`, with the blocks that were sent. -/
def mcuLoop (d : McuDevice) (buf : Buffer) (dsp10p dsp2p len i : Nat) (sent : List (List UInt8)) :
    Except Fault (InstallResult × List (List UInt8)) :=
  if len = 0 then .ok (.success, sent)
  else do
    let dataOnce ← buf.block (i * numOnce) numOnce
    if d.writes i dataOnce = false then return (.error, sent)
    let sent := sent ++ [dataOnce]
    if d.reads i dataOnce ≠ some (mcuChecksum dataOnce) then return (.error, sent)
    if dsp2p = 0 ∨ dsp10p = 0 then throw .divideByZero
    mcuLoop d buf dsp10p dsp2p (len - numOnce) (i + 1) sent
termination_by len
decreasing_by
  unfold numOnce
  omega

def mcuDataTransfer (d : McuDevice) (f : FileBuf) :
    Except Fault (InstallResult × List (List UInt8)) :=
  let transferTimes := (f.fileLen + numOnce - 1) / numOnce
  mcuLoop d f.bytes (transferTimes / 10) (transferTimes / 50) f.fileLen 0 []

/- One behind the other, as in `mcu_update`. -/
def mcuBurning (d : McuDevice) (old : Buffer) (file : List UInt8) :
    Except Fault (InstallResult × List (List UInt8)) :=
  match getBurningData old file with
  | none => .ok (.notExisted, [])
  | some f => mcuDataTransfer d f

------
-- What Was Sent
------

/- The device takes every block and returns its sum. -/
def Echoes (d : McuDevice) : Prop :=
  ∀ i block, d.writes i block = true ∧ d.reads i block = some (mcuChecksum block)

/-
  Nothing is divided by zero, the blocks are the bytes of the file and zeros in the last one, and
  after a success they are all of the file.
-/
def Covers (file : List UInt8)
    (outcome : Except Fault (InstallResult × List (List UInt8))) : Prop :=
  ∃ result sent, outcome = .ok (result, sent) ∧ (∀ block ∈ sent, block.length = numOnce) ∧
    (∃ k zeros, zeros < numOnce ∧ sent.flatten = file.take k ++ replicate zeros 0) ∧
    (result = .success → ∃ zeros, sent.flatten = file ++ replicate zeros 0)

variable {d : McuDevice} {buf : Buffer} {dsp10p dsp2p : Nat}

/- The loop sends the rest of the buffer. -/
theorem mcuLoop_sends (hEchoes : Echoes d) (hTenth : dsp10p ≠ 0) (hFiftieth : dsp2p ≠ 0) {n i : Nat}
    (hFits : (i + n) * numOnce ≤ buf.length) (sent : List (List UInt8)) :
    ∃ blocks, mcuLoop d buf dsp10p dsp2p (n * numOnce) i sent = .ok (.success, sent ++ blocks) ∧
      (∀ block ∈ blocks, block.length = numOnce) ∧
      blocks.flatten = (buf.drop (i * numOnce)).take (n * numOnce) := by
  induction n generalizing i sent with
  | zero =>
    refine ⟨[], ?_, by simp, by simp⟩
    rw [mcuLoop, if_pos (zero_mul _), append_nil]
  | succ n ih =>
    have hBlock : i * numOnce + numOnce ≤ buf.length := by
      unfold numOnce at *
      omega
    have hNext : (i + 1 + n) * numOnce ≤ buf.length := by
      rw [add_right_comm]
      exact hFits
    rcases ih hNext (sent ++ [(buf.drop (i * numOnce)).take numOnce]) with
      ⟨blocks, hRun, hLengths, hFlatten⟩
    refine ⟨(buf.drop (i * numOnce)).take numOnce :: blocks, ?_, ?_, ?_⟩
    · have hMore : ¬ (n + 1) * numOnce = 0 := by simp [numOnce]
      have hLess : (n + 1) * numOnce - numOnce = n * numOnce := by
        rw [Nat.succ_mul, Nat.add_sub_cancel]
      rw [mcuLoop, if_neg hMore, Buffer.block_eq hBlock, ok_bind]
      simp only [hEchoes i _, hTenth, hFiftieth, hLess, hRun, Bool.true_eq_false, if_false, ne_eq,
        not_true_eq_false, or_self, append_assoc, singleton_append]
    · intro block hMem
      rcases mem_cons.mp hMem with rfl | hRest
      · rw [length_take, length_drop]
        omega
      · exact hLengths block hRest
    · rw [flatten_cons, hFlatten, Nat.succ_mul, Nat.succ_mul, Nat.add_comm (n * numOnce), take_add,
        drop_drop]

theorem mcuLoop_few (hEchoes : Echoes d) {len : Nat} (hLen : len ≠ 0) (hFits : numOnce ≤ buf.length)
    (dsp10p : Nat) : mcuLoop d buf dsp10p 0 len 0 [] = .error .divideByZero := by
  have hBlock : 0 * numOnce + numOnce ≤ buf.length := by omega
  rw [mcuLoop, if_neg hLen, Buffer.block_eq hBlock, ok_bind]
  simp only [hEchoes 0 _, Bool.true_eq_false, if_false, ne_eq, not_true_eq_false, true_or, if_true]
  rfl

/- The bytes of the file that are read, padded to whole blocks. -/
theorem getBurningData_eq (old : Buffer) {file : List UInt8} (hFile : file ≠ []) :
    ∃ f n zeros, getBurningData old file = some f ∧ f.fileLen = n * numOnce ∧ 0 < n ∧
      zeros < numOnce ∧ (file.take fileMaxSize).length + zeros = n * numOnce ∧
      n * numOnce ≤ f.bytes.length ∧
      f.bytes.take (n * numOnce) = file.take fileMaxSize ++ replicate zeros 0 := by
  have hSome : (file.take fileMaxSize).length ≠ 0 := by
    have hPos := length_pos_of_ne_nil hFile
    rw [length_take]
    unfold fileMaxSize
    omega
  generalize hRead : file.take fileMaxSize = read at hSome
  have hWhole : read.length + (numOnce - read.length % numOnce) % numOnce =
      (read.length + numOnce - 1) / numOnce * numOnce := by
    unfold numOnce
    omega
  unfold getBurningData
  rw [hRead, if_neg hSome]
  refine ⟨_, (read.length + numOnce - 1) / numOnce, (numOnce - read.length % numOnce) % numOnce,
    rfl, hWhole, ?_, Nat.mod_lt _ (by decide), hWhole, ?_, ?_⟩
  · unfold numOnce
    omega
  · rw [← hWhole, length_append, length_append, length_replicate]
    exact Nat.le_add_right _ _
  · rw [← hWhole, take_left']
    rw [length_append, length_replicate]

/-
  For a file that is not empty and a device that never fails, the image is covered if and only if it
  has more than 49 blocks and fits in the buffer.
-/
theorem mcu_burning_covers_iff (d : McuDevice) (hEchoes : Echoes d) (old : Buffer)
    (file : List UInt8) (hFile : file ≠ []) :
    Covers file (mcuBurning d old file) ↔
      49 * numOnce < file.length ∧ file.length ≤ fileMaxSize := by
  rcases getBurningData_eq old hFile with
    ⟨f, n, zeros, hData, hLen, hPos, hZeros, hLength, hFits, hBytes⟩
  have hTimes : (n * numOnce + numOnce - 1) / numOnce = n := by
    unfold numOnce
    omega
  have hRun : mcuBurning d old file = mcuLoop d f.bytes (n / 10) (n / 50) (n * numOnce) 0 [] := by
    rw [mcuBurning, hData]
    dsimp only
    rw [mcuDataTransfer, hLen, hTimes]
  rw [length_take] at hLength
  rw [hRun]
  by_cases hFew : n < 50
  · have hOnce : numOnce ≤ f.bytes.length := Nat.le_trans (Nat.le_mul_of_pos_left _ hPos) hFits
    rw [Nat.div_eq_of_lt hFew, mcuLoop_few hEchoes (by simp [numOnce]; omega) hOnce]
    apply iff_of_false
    · rintro ⟨result, sent, hOk, _⟩
      cases hOk
    · unfold numOnce fileMaxSize at *
      omega
  · have hTenth : n / 10 ≠ 0 := by omega
    have hFiftieth : n / 50 ≠ 0 := by omega
    rw [← zero_add n] at hFits
    rcases mcuLoop_sends hEchoes hTenth hFiftieth hFits [] with
      ⟨blocks, hBlocks, hLengths, hFlatten⟩
    rw [zero_mul, drop_zero, hBytes] at hFlatten
    rw [hBlocks, nil_append]
    constructor
    · rintro ⟨result, sent, hOk, _, _, hAll⟩
      cases hOk
      rcases hAll rfl with ⟨more, hMore⟩
      have hSame := congrArg length (hFlatten.symm.trans hMore)
      simp only [length_append, length_take, length_replicate] at hSame
      unfold numOnce fileMaxSize at *
      omega
    · rintro ⟨_, hWhole⟩
      rw [take_of_length_le hWhole] at hFlatten
      refine ⟨.success, blocks, rfl, hLengths, ⟨file.length, zeros, hZeros, ?_⟩,
        fun _ => ⟨zeros, hFlatten⟩⟩
      rw [take_length]
      exact hFlatten

/- A device that never fails. -/
def goodMcu : McuDevice where
  writes := fun _ _ => true
  reads := fun _ block => some (mcuChecksum block)

/- A file of fifty blocks. -/
def fiftyBlocks : List UInt8 :=
  replicate 6400 7

theorem mcu_burning_covers_fifty_blocks :
    Covers fiftyBlocks (mcuBurning goodMcu [] fiftyBlocks) := by
  have hLength : fiftyBlocks.length = 6400 := length_replicate
  have hFile : fiftyBlocks ≠ [] := by
    rw [← length_pos_iff, hLength]
    decide
  apply (mcu_burning_covers_iff goodMcu (fun _ _ => ⟨rfl, rfl⟩) [] fiftyBlocks hFile).mpr
  rw [hLength]
  decide

/- A file of one byte leads to a division by zero. -/
theorem mcu_burning_divides_by_zero : mcuBurning goodMcu [] [7] = .error .divideByZero := by
  have hRun : mcuBurning goodMcu [] [7] = mcuLoop goodMcu (7 :: replicate 127 0) 0 0 128 0 [] := rfl
  rw [hRun]
  exact mcuLoop_few (fun _ _ => ⟨rfl, rfl⟩) (by decide) (by simp [numOnce]) 0

------
-- The Device
------

open Function LittleEndian

def readCmd : UInt8 := 0x52

def writeCmd : UInt8 := 0x57

inductive WordEvent
| wrote (addr value : Nat)
| readBack (addr value : Nat)
deriving DecidableEq

/- The device: its words, what it sends behind a word (`read` takes 8 bytes), and what was done. -/
structure Board where
  words : Nat → Nat
  tail : List UInt8
  log : List WordEvent

/- The device takes a command and answers. -/
def Board.receive (b : Board) (bytes : List UInt8) : Board × List UInt8 :=
  let addr := ofBytes ((bytes.drop 1).take 4)
  if bytes.head? = some writeCmd then
    let value := ofBytes (bytes.drop 5)
    (⟨update b.words addr value, b.tail, b.log ++ [.wrote addr value]⟩, [writeCmd])
  else if bytes.head? = some readCmd then
    ({ b with log := b.log ++ [.readBack addr (b.words addr)] },
      readCmd :: (toBytes 4 (b.words addr) ++ b.tail.take 4))
  else (b, bytes)

/- What comes behind the echo of a command, if it is among the first 100 bytes. -/
def waitEcho (cmd : UInt8) (reads : List UInt8) : Option (List UInt8) :=
  ((reads.take 100).findIdx? (· == cmd)).map fun i => reads.drop (i + 1)

def mpegWriteCommand (addr value : Nat) (b : Board) : Board × InstallResult :=
  let (b, reads) := b.receive (writeCmd :: (toBytes 4 addr ++ toBytes 4 value))
  (b, if (waitEcho writeCmd reads).isSome then .success else .error)

/- `mpeg_read_command`; the first word of `read_buf` is returned. -/
def mpegReadCommand (addr : Nat) (b : Board) : Board × Nat :=
  let (b, reads) := b.receive (readCmd :: toBytes 4 addr)
  match waitEcho readCmd reads with
  | some rest => (b, ofBytes (rest.take 4))
  | none => (b, 0)

------
-- Sending The Loader
------

/- `len` of `send_sloader`, from the size of the file. -/
def alignedLen (len : BitVec 32) : BitVec 32 :=
  if len &&& 3 ≠ 0 then (len ||| ~~~3) + 4 else len

/- The locals of the loop; `bufPtr` is the memory from `buf_ptr` on. -/
structure Writing where
  romsize : Nat
  bufPtr : Buffer
  addr : Nat
  board : Board

/- One pass; a word that was not read back is written again. -/
def writeFlow (s : Writing) : Except Fault (Ctl Writing Board) := do
  if s.romsize = 0 then
    return .done s.board
  let word ← fetch s.bufPtr 4 0
  let (board, _) := mpegWriteCommand s.addr word s.board
  let (board, checkFb) := mpegReadCommand s.addr board
  if checkFb ≠ word then
    return .again { s with board := board }
  return .again ⟨s.romsize - 1, s.bufPtr.drop 4, (s.addr + 4) % uintLimit, board⟩

def sloaderJumpPoint : Nat := 0x00019000

/- The commands in front of the loader. -/
def Board.prepared (b : Board) : Board :=
  [(0x00018ffc, 0x0042EC44), (0x00018ff8, 0x0042EC48), (0x00018ff4, 0x0042EC58),
    (0x00018ff0, 0x0042EC4C), (0x00018fec, 0x0042EC50), (0x00018fe8, 230400)].foldl
    (fun b word => (mpegWriteCommand word.1 word.2 b).1) (b.receive [0x43]).1

/- `fread` computes the number of bytes in 32 bits. -/
def freadCount (file : List UInt8) (len : Nat) : Nat :=
  min file.length (len * 4 % uintLimit)

/- The memory of the given size after `fread`. -/
def sloaderBuf (fresh : Nat → UInt8) (file : List UInt8) (len : Nat) : Buffer :=
  (range len).map fun i => if i < freadCount file len then file.getD i 0 else fresh i

/- `send_sloader` for at most the given number of passes. -/
def sendSloader (fuel : Nat) (l : Link) (b : Board) : Except Fault (InstallResult × Board) := do
  let len := (alignedLen (BitVec.ofNat 32 (mpegGetFileSize l.sizeOpens l.image))).toNat
  if l.mallocs = false then
    return (.error, b)
  if l.opens = false then
    return (.error, b)
  if len < freadCount l.image len then
    throw .outOfBounds
  let board ← loop writeFlow fuel
    ⟨len / 4, sloaderBuf l.fresh l.image len, sloaderJumpPoint, b.prepared⟩
  return (.success, board)

/- Each word of some bytes is written to the next address and read back. -/
def wordEvents (addr : Nat) : List UInt8 → List WordEvent
| b0 :: b1 :: b2 :: b3 :: bytes =>
  let word := ofBytes [b0, b1, b2, b3]
  .wrote addr word :: .readBack addr word :: wordEvents (addr + 4) bytes
| _ => []

/- The words of the file, padded at the end, and nothing else are written and read back. -/
def SentWhole (file : List UInt8) (fresh : Nat → UInt8) (b : Board) : Prop :=
  ∃ pad board, (file ++ pad).length = (file.length + 3) / 4 * 4 ∧
    (∀ fuel, (file.length + 3) / 4 < fuel →
      sendSloader fuel ⟨file, true, true, true, fresh, []⟩ b = .ok (.success, board)) ∧
    board.log = b.prepared.log ++ wordEvents sloaderJumpPoint (file ++ pad)

------
-- What Is Sent
------

theorem alignedLen_eq (len : BitVec 32) :
    (alignedLen len).toNat = if len.toNat % 4 = 0 then len.toNat else len.toNat % 4 := by
  have hRest : (len &&& 3).toNat = len.toNat % 4 := Nat.and_two_pow_sub_one_eq_mod len.toNat 2
  have hWrap : (len ||| ~~~3) + 4 = len &&& 3 := by
    have hApart : (len &&& 3) &&& ~~~3 = 0 := by
      rw [BitVec.and_assoc]
      exact BitVec.and_zero
    have hParts : len ||| ~~~3 = (len &&& 3) + ~~~3 := by
      rw [BitVec.add_eq_or_of_and_eq_zero _ _ hApart]
      ext i hI
      simp only [BitVec.getElem_or, BitVec.getElem_and, BitVec.getElem_not]
      cases len[i] <;> simp
    rw [hParts, BitVec.add_assoc]
    exact BitVec.add_zero _
  unfold alignedLen
  rw [hWrap]
  split
  · rename_i hNe
    rw [hRest, if_neg]
    intro hZero
    exact hNe (BitVec.eq_of_toNat_eq (hRest.trans hZero))
  · rename_i hEq
    rw [not_not] at hEq
    rw [← hRest, hEq]
    rfl

variable {addr value : Nat}

theorem ofBytes_toBytes_word {rest : List UInt8} (hValue : value < uintLimit) :
    ofBytes ((toBytes 4 value ++ rest).take 4) = value := by
  rw [take_left' (length_toBytes 4 value)]
  exact ofBytes_toBytes_of_lt hValue

/- The device stores the word. -/
theorem mpegWriteCommand_eq (hAddr : addr < uintLimit) (hValue : value < uintLimit) (b : Board) :
    (mpegWriteCommand addr value b).1 =
      ⟨update b.words addr value, b.tail, b.log ++ [.wrote addr value]⟩ := by
  have hBytes : (writeCmd :: (toBytes 4 addr ++ toBytes 4 value)).drop 5 = toBytes 4 value :=
    drop_left' (length_toBytes 4 addr)
  simp only [mpegWriteCommand, Board.receive, head?_cons, if_true, drop_succ_cons, drop_zero,
    ofBytes_toBytes_word hAddr] at hBytes ⊢
  rw [hBytes, ofBytes_toBytes_of_lt hValue]

/- The word that it holds is read. -/
theorem mpegReadCommand_eq (hAddr : addr < uintLimit) (hValue : value < uintLimit) {b : Board}
    (hHolds : b.words addr = value) :
    mpegReadCommand addr b = ({ b with log := b.log ++ [.readBack addr value] }, value) := by
  have hOther : some readCmd ≠ some writeCmd := by decide
  have hBytes := @ofBytes_toBytes_word addr [] hAddr
  rw [append_nil] at hBytes
  simp only [mpegReadCommand, Board.receive, head?_cons, if_neg hOther, if_true, drop_succ_cons,
    drop_zero, hBytes, waitEcho, take_succ_cons, findIdx?_cons, beq_self_eq_true, Option.map_some,
    hHolds, ofBytes_toBytes_word hValue]

/- A word is sent in one pass. -/
theorem writeFlow_word (n : Nat) (b0 b1 b2 b3 : UInt8) (bytes : Buffer) (hAddr : addr < uintLimit)
    (b : Board) :
    ∃ board, writeFlow ⟨n + 1, b0 :: b1 :: b2 :: b3 :: bytes, addr, b⟩ =
      .ok (.again ⟨n, bytes, (addr + 4) % uintLimit, board⟩) ∧
      board.log ++ wordEvents (addr + 4) bytes =
        b.log ++ wordEvents addr (b0 :: b1 :: b2 :: b3 :: bytes) := by
  generalize hWord : ofBytes [b0, b1, b2, b3] = word
  have hLt : word < uintLimit := by
    have h0 := b0.toNat_lt
    have h1 := b1.toNat_lt
    have h2 := b2.toNat_lt
    have h3 := b3.toNat_lt
    simp only [← hWord, ofBytes, uintLimit]
    omega
  have hFetch : fetch (b0 :: b1 :: b2 :: b3 :: bytes) 4 0 = .ok word :=
    congrArg Except.ok hWord
  have hRead := mpegReadCommand_eq hAddr hLt (b := (mpegWriteCommand addr word b).1) (by
    rw [mpegWriteCommand_eq hAddr hLt]
    exact update_self ..)
  rw [mpegWriteCommand_eq hAddr hLt] at hRead
  refine ⟨⟨update b.words addr word, b.tail,
    b.log ++ [.wrote addr word] ++ [.readBack addr word]⟩, ?_, ?_⟩
  · simp only [writeFlow, Nat.succ_ne_zero, if_false, hFetch, ok_bind,
      mpegWriteCommand_eq hAddr hLt, hRead, ne_eq, not_true]
    rfl
  · simp only [wordEvents, hWord, append_assoc]
    rfl

/- All words of the memory are sent. -/
theorem writeFlow_log (n : Nat) {bytes : Buffer} (hLength : bytes.length = 4 * n) {addr : Nat}
    (hAddr : addr + bytes.length < uintLimit) (b : Board) :
    ∃ board, (∀ fuel, n < fuel → loop writeFlow fuel ⟨n, bytes, addr, b⟩ = .ok board) ∧
      board.log = b.log ++ wordEvents addr bytes := by
  induction n generalizing bytes addr b with
  | zero =>
    rw [eq_nil_of_length_eq_zero hLength]
    refine ⟨b, ?_, (append_nil _).symm⟩
    intro fuel hFuel
    obtain ⟨fuel, rfl⟩ := Nat.exists_eq_add_one_of_ne_zero (Nat.ne_of_gt hFuel)
    rfl
  | succ n ih =>
    match bytes, hLength with
    | b0 :: b1 :: b2 :: b3 :: bytes, hLength =>
      simp only [length_cons] at hLength hAddr
      have hHere : addr < uintLimit := by omega
      have hNext : addr + 4 + bytes.length < uintLimit := by omega
      rcases writeFlow_word n b0 b1 b2 b3 bytes hHere b with ⟨next, hPass, hLog⟩
      rw [Nat.mod_eq_of_lt (by omega)] at hPass
      rcases ih (by omega) hNext next with ⟨board, hRun, hEnd⟩
      refine ⟨board, ?_, hEnd.trans hLog⟩
      intro fuel hFuel
      obtain ⟨fuel, rfl⟩ := Nat.exists_eq_add_one_of_ne_zero (Nat.ne_zero_of_lt hFuel)
      simp only [loop, hPass, hRun fuel (Nat.lt_of_succ_lt_succ hFuel)]

/- The words tell the bytes. -/
theorem wordEvents_inj (n : Nat) {bytes bytes' : List UInt8} (hLength : bytes.length = 4 * n)
    (hLength' : bytes'.length = 4 * n) {addr : Nat}
    (hSame : wordEvents addr bytes = wordEvents addr bytes') : bytes = bytes' := by
  induction n generalizing bytes bytes' addr with
  | zero => rw [eq_nil_of_length_eq_zero hLength, eq_nil_of_length_eq_zero hLength']
  | succ n ih =>
    match bytes, bytes', hLength, hLength' with
    | a0 :: a1 :: a2 :: a3 :: as, b0 :: b1 :: b2 :: b3 :: bs, hLength, hLength' =>
      simp only [length_cons] at hLength hLength'
      simp only [wordEvents, cons.injEq, WordEvent.wrote.injEq, true_and] at hSame
      have hWord := congrArg (toBytes 4 ·) (congrArg Nat.cast hSame.1)
      have hBytes := (toBytes_ofBytes [a0, a1, a2, a3]).symm.trans
        (hWord.trans (toBytes_ofBytes [b0, b1, b2, b3]))
      have hRest := ih (by omega) (by omega) hSame.2.2
      simp only [cons.injEq, and_true] at hBytes
      rw [hBytes.1, hBytes.2.1, hBytes.2.2.1, hBytes.2.2.2, hRest]

variable {file : List UInt8} {fresh : Nat → UInt8} {b : Board}

theorem length_sloaderBuf (fresh : Nat → UInt8) (file : List UInt8) (len : Nat) :
    (sloaderBuf fresh file len).length = len := by
  rw [sloaderBuf, length_map, length_range]

/- Without a rest the memory is sent as it is after `fread`. -/
theorem sendSloader_log (hWhole : file.length % 4 = 0) (hSmall : file.length < 2 ^ 31)
    (fresh : Nat → UInt8) (b : Board) :
    ∃ board, (∀ fuel, file.length / 4 < fuel →
      sendSloader fuel ⟨file, true, true, true, fresh, []⟩ b = .ok (.success, board)) ∧
      board.log = b.prepared.log ++
        wordEvents sloaderJumpPoint (sloaderBuf fresh file file.length) := by
  have hLen : (alignedLen (BitVec.ofNat 32 (mpegGetFileSize true file))).toNat = file.length := by
    have hMod : file.length % 2 ^ 32 = file.length := Nat.mod_eq_of_lt (by omega)
    rw [alignedLen_eq, mpegGetFileSize, if_pos rfl, if_pos hSmall, BitVec.toNat_ofNat, hMod,
      if_pos hWhole]
  have hCount : ¬ file.length < freadCount file file.length := by
    unfold freadCount
    omega
  have hLength : (sloaderBuf fresh file file.length).length = 4 * (file.length / 4) := by
    rw [length_sloaderBuf]
    omega
  have hFits : sloaderJumpPoint + (sloaderBuf fresh file file.length).length < uintLimit := by
    simp only [hLength, sloaderJumpPoint, uintLimit]
    omega
  rcases writeFlow_log _ hLength hFits b.prepared with ⟨board, hRun, hLog⟩
  refine ⟨board, ?_, hLog⟩
  intro fuel hFuel
  simp only [sendSloader, hLen, hCount, if_false, hRun fuel hFuel, ok_bind]
  rfl

/- With a rest nothing of the loader is sent, or the memory is overrun. -/
theorem not_sentWhole_of_rest (hRest : file.length % 4 ≠ 0 ∨ 2 ^ 31 ≤ file.length) :
    ¬ SentWhole file fresh b := by
  rintro ⟨pad, board, hPad, hRun, hLog⟩
  have hRun := hRun _ (Nat.lt_succ_self _)
  generalize hLen : (alignedLen (BitVec.ofNat 32 (mpegGetFileSize true file))).toNat = len at hRun
  have hBounds : 0 < len ∧ len < 4 := by
    rw [← hLen, alignedLen_eq, BitVec.toNat_ofNat, mpegGetFileSize, if_pos rfl]
    by_cases hSmall : file.length < 2 ^ 31
    · rw [if_pos hSmall, if_neg (by omega)]
      omega
    · rw [if_neg hSmall]
      decide
  simp only [sendSloader, hLen] at hRun
  by_cases hOver : len < freadCount file len
  · rw [if_pos hOver] at hRun
    cases hRun
  · have hWords : len / 4 = 0 := Nat.div_eq_of_lt hBounds.2
    rw [if_neg hOver, hWords] at hRun
    cases hRun
    have hFile : file.length < 4 := by
      simp only [freadCount, uintLimit] at hOver
      omega
    have hFour : (file ++ pad).length = 4 := by omega
    rw [self_eq_append_right] at hLog
    generalize file ++ pad = bytes at hFour hLog
    match bytes, hFour with
    | [b0, b1, b2, b3], _ => cases hLog

theorem getElem?_sloaderBuf {i : Nat} (hI : i < file.length) :
    (sloaderBuf fresh file file.length)[i]? =
      if i < freadCount file file.length then file[i]? else some (fresh i) := by
  rw [sloaderBuf, getElem?_map, getElem?_range hI, Option.map_some]
  split
  · rw [getD_eq_getElem?_getD, getElem?_eq_getElem hI]
    rfl
  · rfl

/- The memory is the file if all of it was read. -/
theorem sloaderBuf_eq (hReads : file.length ≤ file.length * 4 % 2 ^ 32) :
    sloaderBuf fresh file file.length = file := by
  have hCount : freadCount file file.length = file.length := min_eq_left hReads
  have hLength := length_sloaderBuf fresh file file.length
  apply ext_getElem?
  intro i
  by_cases hI : i < file.length
  · rw [getElem?_sloaderBuf hI, hCount, if_pos hI]
  · rw [getElem?_eq_none (by omega), getElem?_eq_none (by omega)]

/- Otherwise the byte behind what was read is that of the memory. -/
theorem sloaderBuf_ne (hNe : ∀ i, some (fresh i) ≠ file[i]?)
    (hShort : file.length * 4 % 2 ^ 32 < file.length) :
    sloaderBuf fresh file file.length ≠ file := by
  intro hEq
  have hCount : freadCount file file.length = file.length * 4 % 2 ^ 32 :=
    min_eq_right (le_of_lt hShort)
  have hByte := @getElem?_sloaderBuf file fresh _ hShort
  rw [hEq, hCount, if_neg (lt_irrefl _)] at hByte
  exact hNe _ hByte.symm

/-
  The loader is sent whole if and only if its length is a multiple of four that `ftell` can tell and
  `fread` reads all of it.
-/
theorem sloader_sent_whole_iff (file : List UInt8) :
    (∀ fresh b, SentWhole file fresh b) ↔
      file.length % 4 = 0 ∧ file.length < 2 ^ 31 ∧ file.length ≤ file.length * 4 % 2 ^ 32 := by
  constructor
  · intro hAll
    have hWhole : file.length % 4 = 0 ∧ file.length < 2 ^ 31 := by
      by_contra hRest
      exact not_sentWhole_of_rest (by omega) (hAll (fun _ => 0) ⟨fun _ => 0, [], []⟩)
    refine ⟨hWhole.1, hWhole.2, Nat.le_of_not_lt ?_⟩
    intro hShort
    -- memory that differs from the file everywhere
    let fresh : Nat → UInt8 := fun i => file.getD i 0 + 1
    have hNe : ∀ i, some (fresh i) ≠ file[i]? := by
      intro i hEq
      have hSelf : file.getD i 0 = file.getD i 0 + 1 := by
        conv_lhs => rw [getD_eq_getElem?_getD, ← hEq]
        rfl
      exact absurd (left_eq_add.mp hSelf) (by decide)
    rcases hAll fresh ⟨fun _ => 0, [], []⟩ with ⟨pad, board, hPad, hRun, hLog⟩
    rcases sendSloader_log hWhole.1 hWhole.2 fresh ⟨fun _ => 0, [], []⟩ with ⟨board', hRun', hLog'⟩
    have hSame := (hRun _ (Nat.lt_succ_self _)).symm.trans (hRun' _ (by omega))
    cases hSame
    have hNil : pad = [] := eq_nil_of_length_eq_zero (by
      rw [length_append] at hPad
      omega)
    have hEvents := append_cancel_left (hLog'.symm.trans hLog)
    rw [hNil, append_nil] at hEvents
    exact sloaderBuf_ne hNe hShort (wordEvents_inj (file.length / 4)
      (by rw [length_sloaderBuf]; omega) (by omega) hEvents)
  · rintro ⟨hWhole, hSmall, hReads⟩ fresh b
    rcases sendSloader_log hWhole hSmall fresh b with ⟨board, hRun, hLog⟩
    rw [sloaderBuf_eq hReads] at hLog
    refine ⟨[], board, ?_, ?_, by rw [append_nil]; exact hLog⟩
    · rw [append_nil]
      omega
    · intro fuel hFuel
      exact hRun fuel (by omega)

/- A loader of one byte is not sent, and success is reported. -/
theorem sloader_of_one_byte_not_sent :
    sendSloader 2 ⟨[1], true, true, true, fun _ => 0, []⟩ ⟨fun _ => 0, [], []⟩ =
      .ok (.success, Board.prepared ⟨fun _ => 0, [], []⟩) ∧
      ¬ SentWhole [1] (fun _ => 0) ⟨fun _ => 0, [], []⟩ :=
  ⟨rfl, not_sentWhole_of_rest (.inl (by decide))⟩

end OpenIvi.Recovery
