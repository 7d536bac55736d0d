import OpenIvi.Lib.Holders
import OpenIvi.Lib.Loop

/-
  The locks of gralloc buffers.

  The state of a lock is one word: bit 31 says that a thread writes, bit 30 that the buffer is
  mapped, and the other bits count the locks that are held. The threads change the word by
  compare-and-swap and read it between; the id of the thread that writes is stored apart.

  A step is one access to what the threads share: the word, the owner, the base address, the mutex
  `sMapLock` and the call of `mmap`.

  A thread that unlocks a buffer it has written clears the owner before it changes the word. Nobody
  else changes the word in between: who would lock has seen the write bit or an older word, and who
  would unlock or map holds a lock.

  The count takes the low 30 bits of the word and no lock tests whether it is full.

  Main declarations:
    * `act`
    * `PcOk`
    * `act_kept`
    * `buffer_locks_iff_countable`
-/

------
-- The Handle
------

namespace OpenIvi.Gralloc.BufferLock

open Lib

def lockStateWrite : BitVec 32 := BitVec.twoPow 32 31

def lockStateMapped : BitVec 32 := BitVec.twoPow 32 30

def lockStateReadMask : BitVec 32 := 0x3FFFFFFF#32

def privFlagsFramebuffer : BitVec 32 := 0x00000001#32

def grallocUsageSwReadMask : BitVec 32 := 0x0000000F#32

def grallocUsageSwWriteMask : BitVec 32 := 0x000000F0#32

def grallocUsageHwRender : BitVec 32 := 0x00000200#32

/- The fields of `private_handle_t` that are used here. -/
structure PrivateHandle where
  flags : BitVec 32
  offset : BitVec 32
  base : BitVec 32
  lockState : BitVec 32
  writeOwner : Int
  pid : Int

/- Does the usage ask for the buffer to write it? -/
def usageWrites (usage : BitVec 32) : Bool :=
  usage &&& (grallocUsageSwWriteMask ||| grallocUsageHwRender) != 0

/- Does the software use the buffer? -/
def usageSoftware (usage : BitVec 32) : Bool :=
  usage &&& (grallocUsageSwReadMask ||| grallocUsageSwWriteMask) != 0

def usageMode (usage : BitVec 32) : Mode :=
  if usageWrites usage then .write else .read

def isFramebuffer (hnd : PrivateHandle) : Bool :=
  hnd.flags &&& privFlagsFramebuffer != 0

def grallocRegisterBuffer (hnd : PrivateHandle) (getpid : Int) : PrivateHandle :=
  if hnd.pid ≠ getpid then
    { hnd with base := 0, lockState := 0, writeOwner := 0 }
  else hnd

def EBUSY : Int := 16

def EINVAL : Int := 22

/-
  Where a thread is in `gralloc_lock` and `gralloc_unlock`, with the local variables that it still
  needs. Outside it has the result of its last call.
-/
inductive Pc
| idle (ret : Int)
| lockRead (usage : BitVec 32)
| lockSwap (usage currentValue newValue : BitVec 32)
| lockOwner (usage currentValue : BitVec 32)
| lockMutex
| lockCheck
| lockMap
| lockBase (mappedAddress : BitVec 32)
| lockMapped
| lockRelease
| lockAddress
| unlockRead
| unlockOwner (currentValue : BitVec 32)
| unlockClear (currentValue : BitVec 32)
| unlockSwap (currentValue newValue : BitVec 32)

/- The loop of `gralloc_lock` after the word was read. -/
def lockDecide (usage currentValue : BitVec 32) : Pc :=
  if currentValue &&& lockStateWrite != 0 then
    .idle (-EBUSY)
  else if currentValue &&& lockStateReadMask != 0 && usageWrites usage then
    .idle (-EBUSY)
  else
    let newValue := if usageWrites usage then currentValue ||| lockStateWrite
      else currentValue
    .lockSwap usage currentValue (newValue + 1)

/- The end of `gralloc_lock`, after the owner was stored. -/
def lockUse (usage currentValue : BitVec 32) : Pc :=
  if usageSoftware usage then
    if currentValue &&& lockStateMapped != 0 then .lockAddress
    else .lockMutex
  else .idle 0

/- The loop of `gralloc_unlock` with the new value. -/
def unlockDecide (currentValue newValue : BitVec 32) : Pc :=
  if newValue &&& lockStateReadMask == 0 then .idle (-EINVAL)
  else .unlockSwap currentValue (newValue - 1)

------
-- The Threads
------

section

/-
  The handle, the owner of `sMapLock`, and the threads; the locks that are held, the addresses that
  `mmap` gave in this process, and the addresses that locks for software use have returned.
-/
structure State (τ : Type) where
  hnd : PrivateHandle
  mapLock : Option τ
  pc : τ → Pc
  holders : List (τ × Mode)
  maps : List (BitVec 32)
  vaddrs : List (BitVec 32)

variable {τ : Type} [DecidableEq τ]

section

variable (s : State τ)

def State.goto (t : τ) (pc : Pc) : State τ :=
  { s with pc := Function.update s.pc t pc }

def State.setLockState (lockState : BitVec 32) : State τ :=
  { s with hnd := { s.hnd with lockState := lockState } }

def State.setOwner (writeOwner : Int) : State τ :=
  { s with hnd := { s.hnd with writeOwner := writeOwner } }

/- `android_atomic_cmpxchg` in the loop of `gralloc_lock`. -/
def lockExchange (t : τ) (usage currentValue newValue : BitVec 32) : State τ :=
  if s.hnd.lockState = currentValue then
    let s := { s.setLockState newValue with holders := (t, usageMode usage) :: s.holders }
    if newValue &&& lockStateWrite != 0 then
      s.goto t (.lockOwner usage currentValue)
    else s.goto t (lockUse usage currentValue)
  else s.goto t (.lockRead usage)

/- `android_atomic_cmpxchg` in the loop of `gralloc_unlock`. -/
def unlockExchange (t : τ) (currentValue newValue : BitVec 32) : State τ :=
  if s.hnd.lockState = currentValue then
    { s.setLockState newValue with holders := Holders.release s.holders t }.goto t (.idle 0)
  else s.goto t .unlockRead

/-
  The next access of a thread. Where it calls `mmap`, that gives the address `mappedAddress`. A
  thread that waits for `sMapLock` stays where it is.
-/
def act (ids : KernelIds τ) (s : State τ) (t : τ) (mappedAddress : BitVec 32) : Pc → State τ
| .idle _ => s
| .lockRead usage =>
  s.goto t (lockDecide usage s.hnd.lockState)
| .lockSwap usage currentValue newValue =>
  lockExchange s t usage currentValue newValue
| .lockOwner usage currentValue =>
  (s.setOwner (ids.id t)).goto t (lockUse usage currentValue)
| .lockMutex =>
  match s.mapLock with
  | none => { s with mapLock := some t }.goto t .lockCheck
  | some _ => s
| .lockCheck =>
  if s.hnd.lockState &&& lockStateMapped == 0 then
    s.goto t .lockMap
  else s.goto t .lockRelease
| .lockMap =>
  -- `gralloc_map`
  if !isFramebuffer s.hnd then
    { s with maps := mappedAddress :: s.maps }.goto t (.lockBase mappedAddress)
  else s.goto t .lockMapped
| .lockBase mappedAddress =>
  { s with hnd := { s.hnd with base := mappedAddress + s.hnd.offset } }.goto t .lockMapped
| .lockMapped =>
  -- `android_atomic_or`
  (s.setLockState (s.hnd.lockState ||| lockStateMapped)).goto t .lockRelease
| .lockRelease =>
  { s with mapLock := none }.goto t .lockAddress
| .lockAddress =>
  { s with vaddrs := s.hnd.base :: s.vaddrs }.goto t (.idle 0)
| .unlockRead =>
  if s.hnd.lockState &&& lockStateWrite != 0 then
    s.goto t (.unlockOwner s.hnd.lockState)
  else
    s.goto t (unlockDecide s.hnd.lockState s.hnd.lockState)
| .unlockOwner currentValue =>
  if s.hnd.writeOwner == ids.id t then
    s.goto t (.unlockClear currentValue)
  else s.goto t (unlockDecide currentValue currentValue)
| .unlockClear currentValue =>
  (s.setOwner 0).goto t (unlockDecide currentValue (currentValue &&& ~~~ lockStateWrite))
| .unlockSwap currentValue newValue =>
  unlockExchange s t currentValue newValue

/- A thread calls a function, or takes its next step. -/
inductive Event (τ : Type)
| lock (t : τ) (usage : BitVec 32)
| unlock (t : τ)
| act (t : τ) (mappedAddress : BitVec 32)

def step (ids : KernelIds τ) (s : State τ) : Event τ → Except Fault (State τ)
| .lock t usage => .ok (s.goto t (.lockRead usage))
| .unlock t => .ok (s.goto t .unlockRead)
| .act t mappedAddress =>
  .ok (act ids s t mappedAddress (s.pc t))

def Pc.isIdle : Pc → Bool
| .idle _ => true
| _ => false

/- A thread unlocks only what it has locked. -/
def Legal : Event τ → Prop
| .lock t _ => (s.pc t).isIdle
| .unlock t =>
  (s.pc t).isIdle ∧ ∃ mode, (t, mode) ∈ s.holders
| .act _ _ => True

end

/-
  A handle of another process is not mapped in this one. A handle that was made in this process is
  not locked, and it is mapped if it says so or is the one of the framebuffer.
-/
def Intact (hnd : PrivateHandle) (getpid : Int) (maps : List (BitVec 32)) : Prop :=
  if hnd.pid ≠ getpid then maps = []
  else
    hnd.writeOwner = 0 ∧ ((hnd.lockState = 0 ∧ isFramebuffer hnd = false ∧ maps = []) ∨
        ((hnd.lockState = lockStateMapped ∨ (hnd.lockState = 0 ∧ isFramebuffer hnd = true)) ∧
          ∃ m, maps = [m] ∧ hnd.base = m + hnd.offset))

/- The handle was registered, and nothing else happened. -/
def State.init (hnd : PrivateHandle) (getpid : Int) (maps : List (BitVec 32)) : State τ :=
  ⟨grallocRegisterBuffer hnd getpid, none, fun _ => .idle 0, [], maps, []⟩

/- The buffer is locked for readers and writers. -/
structure LocksBuffer (s : State τ) : Prop where
  alone : ∀ t, (t, Mode.write) ∈ s.holders → s.holders = [(t, Mode.write)]
  count : (s.hnd.lockState &&& lockStateReadMask).toNat = s.holders.length
  write : s.hnd.lockState &&& lockStateWrite ≠ 0 ↔ ∃ t, (t, Mode.write) ∈ s.holders
  once : s.maps.length ≤ 1
  address : ∀ vaddr ∈ s.vaddrs, ∃ m, s.maps = [m] ∧ vaddr = m + s.hnd.offset

end

------
-- The Word
------

open List Function BitVec

variable {n : Nat} {mode : Mode}

section

open Lib Holders

variable {τ : Type} {v : BitVec 32} {holders : List (τ × Mode)} {t : τ}

theorem write_test (v : BitVec 32) : (v &&& lockStateWrite != 0) = v.getLsbD 31 := by
  rw [Bool.eq_iff_iff, bne_iff_ne]
  exact Packed.and_twoPow_ne_zero (by decide) v

theorem mapped_test (v : BitVec 32) : (v &&& lockStateMapped != 0) = v.getLsbD 30 := by
  rw [Bool.eq_iff_iff, bne_iff_ne]
  exact Packed.and_twoPow_ne_zero (by decide) v

theorem readMask_toNat (v : BitVec 32) : (v &&& lockStateReadMask).toNat = Packed.count 30 v := by
  have hMask : lockStateReadMask = BitVec.ofNat 32 (2 ^ 30 - 1) := by decide
  rw [hMask]
  exact Packed.toNat_and_mask (by decide) v

theorem readMask_test (v : BitVec 32) :
    (v &&& lockStateReadMask == 0) = decide (Packed.count 30 v = 0) := by
  rw [← readMask_toNat, Bool.eq_iff_iff, beq_iff_eq, decide_eq_true_iff]
  exact toNat_inj.symm

theorem count_or_write (v : BitVec 32) :
    Packed.count 30 (v ||| lockStateWrite) = Packed.count 30 v :=
  Packed.count_or_twoPow (by decide) v

theorem count_clear_write (v : BitVec 32) :
    Packed.count 30 (v &&& ~~~ lockStateWrite) = Packed.count 30 v :=
  Packed.count_and_not_twoPow (by decide) (by decide) v

/- The word says who holds the lock. -/
structure WordOk (v : BitVec 32) (holders : List (τ × Mode)) : Prop where
  count : Packed.count 30 v = holders.length
  write : v.getLsbD 31 = true ↔ ∃ t, (t, Mode.write) ∈ holders
  alone : ∀ t, (t, Mode.write) ∈ holders → holders = [(t, Mode.write)]

theorem WordOk.no_write (hWord : WordOk v holders) (hFree : v.getLsbD 31 = false) (u : τ) :
    (u, Mode.write) ∉ holders := by
  intro hU
  have hSet := hWord.write.mpr ⟨u, hU⟩
  rw [hFree] at hSet
  cases hSet

theorem WordOk.of_readers (hCount : Packed.count 30 v = holders.length)
    (hFree : v.getLsbD 31 = false) (hNone : ∀ u, (u, Mode.write) ∉ holders) : WordOk v holders where
  count := hCount
  write := by
    rw [hFree]
    apply iff_of_false
    · exact Bool.false_ne_true
    · rintro ⟨u, hU⟩
      exact hNone u hU
  alone := fun u hU => absurd hU (hNone u)

section

variable (hWord : WordOk v holders)

include hWord

theorem WordOk.lock_read (hFree : v.getLsbD 31 = false)
    (hRoom : holders.length + 1 < 2 ^ 30) (t : τ) : WordOk (v + 1) ((t, Mode.read) :: holders) := by
  have hCount := hWord.count
  apply WordOk.of_readers
  · rw [Packed.count_add_one (by decide) (by omega), hCount]
    rfl
  · rw [Packed.flag_add_one (k := 30) (by decide) (by decide) (by omega), hFree]
  · intro u hU
    rcases mem_cons.mp hU with hEq | hOld
    · cases hEq
    · exact hWord.no_write hFree u hOld

theorem WordOk.eq_nil (hFree : Packed.count 30 v = 0) : holders = [] := by
  apply eq_nil_of_length_eq_zero
  rw [← hWord.count]
  exact hFree

/- A lock for writing, which nobody else holds. -/
theorem WordOk.lock_write (hFree : Packed.count 30 v = 0) (t : τ) :
    WordOk ((v ||| lockStateWrite) + 1) ((t, Mode.write) :: holders) := by
  have hSame := (count_or_write v).trans hFree
  rw [hWord.eq_nil hFree]
  refine ⟨?_, ?_, ?_⟩
  · rw [Packed.count_add_one (by decide) (by rw [hSame]; decide), hSame]
    rfl
  · rw [Packed.flag_add_one (k := 30) (by decide) (by decide) (by rw [hSame]; decide)]
    apply iff_of_true
    · unfold lockStateWrite
      simp
    · exact ⟨t, mem_cons_self⟩
  · intro u hU
    rcases mem_cons.mp hU with hEq | hOld
    · rw [hEq]
    · cases hOld

theorem WordOk.eq_writer
    {u : τ} (hHeld : (t, mode) ∈ holders) (hWriter : (u, Mode.write) ∈ holders) : t = u := by
  rw [hWord.alone u hWriter, mem_singleton] at hHeld
  exact congrArg Prod.fst hHeld

theorem WordOk.no_writer (hHeld : (t, mode) ∈ holders) (hNot : (t, Mode.write) ∉ holders)
    (u : τ) : (u, Mode.write) ∉ holders := by
  intro hU
  rw [hWord.eq_writer hHeld hU] at hNot
  exact hNot hU

end

variable [DecidableEq τ]

/- A reader gives its lock back. -/
theorem WordOk.unlock_read (hWord : WordOk v holders)
    (hHeld : (t, mode) ∈ holders) (hNot : (t, Mode.write) ∉ holders) :
    WordOk (v - 1) (release holders t) := by
  have hCount := hWord.count
  have hPositive := length_pos_of_mem hHeld
  have hNone := hWord.no_writer hHeld hNot
  have hFree : v.getLsbD 31 = false := by
    rw [Bool.eq_false_iff]
    intro hSet
    rcases hWord.write.mp hSet with ⟨u, hU⟩
    exact hNone u hU
  apply WordOk.of_readers
  · rw [Packed.count_sub_one (by omega), hCount, length_release hHeld]
  · rw [Packed.flag_sub_one (k := 30) (by decide) (by decide) (by omega), hFree]
  · intro u hU
    exact hNone u (mem_of_mem_release hU)

/- The writer gives its lock back. -/
theorem WordOk.unlock_write (hWord : WordOk v holders) (hHeld : (t, Mode.write) ∈ holders) :
    WordOk ((v &&& ~~~ lockStateWrite) - 1) (release holders t) := by
  have hCount := hWord.count
  have hAlone := hWord.alone t hHeld
  have hNil : release holders t = [] := by
    apply eq_nil_of_length_eq_zero
    rw [length_release hHeld, hAlone]
    rfl
  have hSame : Packed.count 30 (v &&& ~~~ lockStateWrite) = 1 := by
    rw [hAlone] at hCount
    exact (count_clear_write v).trans hCount
  rw [hNil]
  apply WordOk.of_readers
  · rw [Packed.count_sub_one (by omega), hSame]
    rfl
  · rw [Packed.flag_sub_one (k := 30) (by decide) (by decide) (by omega)]
    unfold lockStateWrite
    simp
  · intro u hU
    cases hU

end

------
-- Where The Threads Are
------

open Lib Holders

variable {τ : Type}

/- The thread has `sMapLock`. -/
def Pc.inside : Pc → Bool
| .lockCheck => true
| .lockMap => true
| .lockBase _ => true
| .lockMapped => true
| .lockRelease => true
| _ => false

/-
  If the thread is the writer, its id is stored: it is not about to store it and has not cleared it.
-/
def Pc.ownerKnown : Pc → Bool
| .lockOwner _ _ => false
| .unlockSwap _ _ => false
| _ => true

def Holds (s : State τ) (t : τ) : Prop :=
  ∃ mode, (t, mode) ∈ s.holders

/-
  There is one mapping, and the base is in it. The handle of the framebuffer of another process is
  never mapped.
-/
def Backed (foreign : Bool) (s : State τ) : Prop :=
  (∃ m, s.maps = [m] ∧ s.hnd.base = m + s.hnd.offset) ∨ (foreign = true ∧ s.maps = [])

/- Nothing is mapped unless the word says so. -/
def Unmapped (s : State τ) : Prop :=
  s.hnd.lockState.getLsbD 30 = false → isFramebuffer s.hnd = false → s.maps = []

/- What a thread knows where it is. -/
def PcOk (foreign : Bool) (s : State τ) (t : τ) : Pc → Prop
| .idle _ => True
| .lockRead _ => True
| .lockSwap usage currentValue newValue =>
  currentValue.getLsbD 31 = false ∧ (usageWrites usage = true → Packed.count 30 currentValue = 0) ∧
    newValue = (if usageWrites usage then
        currentValue ||| lockStateWrite
      else currentValue) + 1
| .lockOwner _ currentValue =>
  (t, Mode.write) ∈ s.holders ∧ (currentValue.getLsbD 30 = true → s.hnd.lockState.getLsbD 30 = true)
| .lockMutex => Holds s t
| .lockCheck => Holds s t ∧ Unmapped s
| .lockMap =>
  Holds s t ∧ s.hnd.lockState.getLsbD 30 = false ∧ Unmapped s
| .lockBase mappedAddress =>
  Holds s t ∧ s.hnd.lockState.getLsbD 30 = false ∧ s.maps = [mappedAddress]
| .lockMapped => Holds s t ∧ Backed foreign s
| .lockRelease =>
  Holds s t ∧ s.hnd.lockState.getLsbD 30 = true
| .lockAddress =>
  Holds s t ∧ s.hnd.lockState.getLsbD 30 = true
| .unlockRead => Holds s t
| .unlockOwner currentValue =>
  (t, Mode.write) ∈ s.holders ∧ s.hnd.lockState = currentValue
| .unlockClear currentValue =>
  (t, Mode.write) ∈ s.holders ∧ s.hnd.lockState = currentValue
| .unlockSwap currentValue newValue =>
  Holds s t ∧ (((t, Mode.write) ∈ s.holders ∧ s.hnd.lockState = currentValue ∧
      newValue = (currentValue &&& ~~~ lockStateWrite) - 1) ∨
      ((t, Mode.write) ∉ s.holders ∧ newValue = currentValue - 1))

/- The buffer is mapped once, where the word says so. -/
structure MapsOk (foreign : Bool) (s : State τ) : Prop where
  once : s.maps.length ≤ 1
  mapped : s.hnd.lockState.getLsbD 30 = true → Backed foreign s
  framebuffer : isFramebuffer s.hnd = true → Backed foreign s
  unmapped : s.mapLock = none → Unmapped s
  vaddrs : ∀ vaddr ∈ s.vaddrs, ∃ m, s.maps = [m] ∧ vaddr = m + s.hnd.offset
  apart : foreign = true → isFramebuffer s.hnd = true ∧ s.maps = []

/- The state is in order. -/
structure Inv (ids : KernelIds τ) (foreign : Bool) (s : State τ) : Prop where
  word : WordOk s.hnd.lockState s.holders
  countable : s.holders.length < 2 ^ 30
  threads : ∀ t, PcOk foreign s t (s.pc t)
  owner : ∀ t, (t, Mode.write) ∈ s.holders → (s.pc t).ownerKnown = true →
      s.hnd.writeOwner = ids.id t
  mutex : ∀ t, (s.pc t).inside = true ↔ s.mapLock = some t
  maps : MapsOk foreign s

/- What a step of a thread leaves to the others. -/
structure Frame (t : τ) (s s' : State τ) : Prop where
  flags : s'.hnd.flags = s.hnd.flags
  offset : s'.hnd.offset = s.hnd.offset
  pc : ∀ u, u ≠ t → s'.pc u = s.pc u
  holders : ∀ u, u ≠ t → ∀ mode, (u, mode) ∈ s'.holders ↔ (u, mode) ∈ s.holders
  word : ∀ u, u ≠ t → (u, Mode.write) ∈ s.holders → s'.hnd.lockState = s.hnd.lockState
  owner : ∀ u, u ≠ t → (u, Mode.write) ∈ s.holders → s'.hnd.writeOwner = s.hnd.writeOwner
  grows : s.hnd.lockState.getLsbD 30 = true → s'.hnd.lockState.getLsbD 30 = true
  mapLock : ∀ u, u ≠ t → (s'.mapLock = some u ↔ s.mapLock = some u)
  inside : ∀ u, u ≠ t → s.mapLock = some u → s'.hnd.lockState.getLsbD 30 =
      s.hnd.lockState.getLsbD 30 ∧ s'.maps = s.maps ∧ s'.hnd.base = s.hnd.base

variable {ids : KernelIds τ} {foreign : Bool} {s s' : State τ} {t u : τ} {pc : Pc}

theorem Frame.same (t : τ) (s : State τ) : Frame t s s where
  flags := rfl
  offset := rfl
  pc := fun _ _ => rfl
  holders := fun _ _ _ => Iff.rfl
  word := fun _ _ _ => rfl
  owner := fun _ _ _ => rfl
  grows := fun hBit => hBit
  mapLock := fun _ _ => Iff.rfl
  inside := fun _ _ _ => ⟨rfl, rfl, rfl⟩

section

variable (hFrame : Frame t s s')

include hFrame

theorem Frame.holds (hOther : u ≠ t) (hHolds : Holds s u) : Holds s' u := by
  rcases hHolds with ⟨mode, hMem⟩
  exact ⟨mode, (hFrame.holders u hOther mode).mpr hMem⟩

theorem Frame.isFramebuffer : isFramebuffer s'.hnd = isFramebuffer s.hnd := by
  unfold BufferLock.isFramebuffer
  rw [hFrame.flags]

theorem Frame.unmapped (hOther : u ≠ t)
    (hInside : s.mapLock = some u) (hUnmapped : Unmapped s) : Unmapped s' := by
  rcases hFrame.inside u hOther hInside with ⟨hBit, hMaps, _⟩
  unfold Unmapped
  rw [hBit, hMaps, hFrame.isFramebuffer]
  exact hUnmapped

theorem Frame.backed (hOther : u ≠ t)
    (hInside : s.mapLock = some u) (hBacked : Backed foreign s) : Backed foreign s' := by
  rcases hFrame.inside u hOther hInside with ⟨_, hMaps, hBase⟩
  unfold Backed
  rw [hMaps, hBase, hFrame.offset]
  exact hBacked

end

theorem Inv.pcOk_at (hInv : Inv ids foreign s) (hAt : s.pc t = pc) : PcOk foreign s t pc :=
  hAt ▸ hInv.threads t

theorem Inv.locked_at (hInv : Inv ids foreign s) (hAt : s.pc t = pc) (hInside : pc.inside = true) :
    s.mapLock = some t := by
  rw [← hAt] at hInside
  exact (hInv.mutex t).mp hInside

/- The other threads still know what they knew. -/
theorem Frame.pcOk (hFrame : Frame t s s') (hOther : u ≠ t)
    (hLock : pc.inside = true → s.mapLock = some u)
    (hPc : PcOk foreign s u pc) : PcOk foreign s' u pc := by
  have hHolds := hFrame.holds hOther
  have hWrite := hFrame.holders u hOther Mode.write
  have hWord := hFrame.word u hOther
  have hInside := hFrame.inside u hOther
  cases pc with
  | idle ret | lockRead usage => exact trivial
  | lockSwap usage currentValue newValue => exact hPc
  | lockOwner usage currentValue => exact ⟨hWrite.mpr hPc.1, fun hBit => hFrame.grows (hPc.2 hBit)⟩
  | lockMutex => exact hHolds hPc
  | lockCheck => exact ⟨hHolds hPc.1, hFrame.unmapped hOther (hLock rfl) hPc.2⟩
  | lockMap =>
    exact ⟨hHolds hPc.1, (hInside (hLock rfl)).1.trans hPc.2.1,
      hFrame.unmapped hOther (hLock rfl) hPc.2.2⟩
  | lockBase mappedAddress =>
    exact ⟨hHolds hPc.1, (hInside (hLock rfl)).1.trans hPc.2.1,
      (hInside (hLock rfl)).2.1.trans hPc.2.2⟩
  | lockMapped => exact ⟨hHolds hPc.1, hFrame.backed hOther (hLock rfl) hPc.2⟩
  | lockRelease | lockAddress => exact ⟨hHolds hPc.1, hFrame.grows hPc.2⟩
  | unlockRead => exact hHolds hPc
  | unlockOwner currentValue | unlockClear currentValue =>
    exact ⟨hWrite.mpr hPc.1, (hWord hPc.1).trans hPc.2⟩
  | unlockSwap currentValue newValue =>
    refine ⟨hHolds hPc.1, ?_⟩
    rcases hPc.2 with ⟨hMem, hSame, hNew⟩ | ⟨hNot, hNew⟩
    · left
      exact ⟨hWrite.mpr hMem, (hWord hMem).trans hSame, hNew⟩
    · right
      exact ⟨fun hMem => hNot (hWrite.mp hMem), hNew⟩

/-
  A step keeps the invariant if it does what the others rely on and the thread itself knows where it
  is.
-/
theorem Inv.of_frame (hInv : Inv ids foreign s) (hFrame : Frame t s s')
    (hWord : WordOk s'.hnd.lockState s'.holders) (hSmall : s'.holders.length < 2 ^ 30)
    (hPc : PcOk foreign s' t (s'.pc t))
    (hOwner : (t, Mode.write) ∈ s'.holders → (s'.pc t).ownerKnown = true →
      s'.hnd.writeOwner = ids.id t)
    (hMutex : (s'.pc t).inside = true ↔ s'.mapLock = some t) (hMaps : MapsOk foreign s') :
    Inv ids foreign s' where
  word := hWord
  countable := hSmall
  threads := by
    intro u
    by_cases hSame : u = t
    · rw [hSame]
      exact hPc
    · rw [hFrame.pc u hSame]
      exact hFrame.pcOk hSame (hInv.mutex u).mp (hInv.threads u)
  owner := by
    intro u hMem hKnown
    by_cases hSame : u = t
    · rw [hSame] at hMem hKnown ⊢
      exact hOwner hMem hKnown
    · rw [hFrame.holders u hSame] at hMem
      rw [hFrame.pc u hSame] at hKnown
      rw [hFrame.owner u hSame hMem]
      exact hInv.owner u hMem hKnown
  mutex := by
    intro u
    by_cases hSame : u = t
    · rw [hSame]
      exact hMutex
    · rw [hFrame.pc u hSame, hFrame.mapLock u hSame]
      exact hInv.mutex u
  maps := hMaps

------
-- The Steps Of A Thread
------

section

variable {usage currentValue newValue v : BitVec 32} {holders : List (τ × Mode)}

theorem lockDecide_outside (usage currentValue : BitVec 32) :
    (lockDecide usage currentValue).inside = false := by
  unfold lockDecide
  split
  · rfl
  · split <;> rfl

theorem pcOk_lockDecide (s : State τ) (t : τ) (usage currentValue : BitVec 32) :
    PcOk foreign s t (lockDecide usage currentValue) := by
  unfold lockDecide
  rw [write_test]
  cases hWrite : currentValue.getLsbD 31 with
  | true => exact trivial
  | false =>
    simp only [Bool.false_eq_true, if_false]
    split
    · exact trivial
    · rename_i hFree
      refine ⟨hWrite, ?_, rfl⟩
      intro hWrites
      have hTest := readMask_test currentValue
      rw [hWrites, Bool.and_true, bne, hTest] at hFree
      simpa using hFree

theorem lockUse_outside (usage currentValue : BitVec 32) :
    (lockUse usage currentValue).inside = false := by
  unfold lockUse
  split
  · split <;> rfl
  · rfl

theorem pcOk_lockUse (hHolds : Holds s t) (hMapped :
      currentValue.getLsbD 30 = true → s.hnd.lockState.getLsbD 30 = true) :
    PcOk foreign s t (lockUse usage currentValue) := by
  unfold lockUse
  rw [mapped_test]
  split
  · cases hBit : currentValue.getLsbD 30 with
    | true => exact ⟨hHolds, hMapped hBit⟩
    | false => exact hHolds
  · exact trivial

theorem unlockDecide_eq (hSome : 0 < Packed.count 30 newValue) (currentValue : BitVec 32) :
    unlockDecide currentValue newValue = .unlockSwap currentValue (newValue - 1) := by
  have hNot : ¬ Packed.count 30 newValue = 0 := by omega
  unfold unlockDecide
  rw [readMask_test, decide_eq_false hNot]
  rfl

theorem WordOk.set_mapped (hWord : WordOk v holders) : WordOk (v ||| lockStateMapped) holders := by
  refine ⟨?_, ?_, hWord.alone⟩
  · rw [← hWord.count]
    exact Packed.count_or_twoPow (by decide) v
  · rw [← hWord.write]
    unfold lockStateMapped
    simp

/-
  A step of the thread that has `sMapLock`: it may change the mapping, set the bit for it and give
  up the mutex.
-/
structure Maps (s s' : State τ) : Prop where
  flags : s'.hnd.flags = s.hnd.flags
  offset : s'.hnd.offset = s.hnd.offset
  pc : s'.pc = s.pc
  holders : s'.holders = s.holders
  owner : s'.hnd.writeOwner = s.hnd.writeOwner
  word : s'.hnd.lockState = s.hnd.lockState ∨ s'.hnd.lockState = s.hnd.lockState ||| lockStateMapped
  mapLock : s'.mapLock = s.mapLock ∨ s'.mapLock = none

theorem Maps.grows (hStep : Maps s s') (hBit : s.hnd.lockState.getLsbD 30 = true) :
    s'.hnd.lockState.getLsbD 30 = true := by
  rcases hStep.word with hSame | hSet
  · rw [hSame]
    exact hBit
  · rw [hSet, getLsbD_or, hBit]
    rfl

theorem Maps.wordOk (hStep : Maps s s') (hWord : WordOk s.hnd.lockState s.holders) :
    WordOk s'.hnd.lockState s'.holders := by
  rw [hStep.holders]
  rcases hStep.word with hSame | hSet
  · rw [hSame]
    exact hWord
  · rw [hSet]
    exact hWord.set_mapped

variable [DecidableEq τ]

theorem goto_pc_self (s : State τ) (t : τ) (pc : Pc) : (s.goto t pc).pc t = pc :=
  update_self ..

theorem mapped_lock (hRoom : Packed.count 30 v + 1 < 2 ^ 30) : (v + 1).getLsbD 30 = v.getLsbD 30 :=
  Packed.flag_add_one (by decide) (by decide) hRoom

theorem mapped_unlock (hSome : 0 < Packed.count 30 v) : (v - 1).getLsbD 30 = v.getLsbD 30 :=
  Packed.flag_sub_one (by decide) (by decide) hSome

section

variable (hInv : Inv ids foreign s)

include hInv

/- After what the step did, the thread goes to its new place. -/
theorem Inv.of_goto (hFrame : Frame t s s') (hWord : WordOk s'.hnd.lockState s'.holders)
    (hSmall : s'.holders.length < 2 ^ 30) (hPc : PcOk foreign s' t pc)
    (hOwner : (t, Mode.write) ∈ s'.holders → pc.ownerKnown = true → s'.hnd.writeOwner = ids.id t)
    (hMutex : pc.inside = true ↔ s'.mapLock = some t)
    (hMaps : MapsOk foreign s') : Inv ids foreign (s'.goto t pc) := by
  have hGoto : Frame t s (s'.goto t pc) :=
    { hFrame with pc := fun u hOther => (update_of_ne hOther ..).trans (hFrame.pc u hOther) }
  apply hInv.of_frame hGoto hWord hSmall
  · rw [goto_pc_self]
    exact hPc
  · rw [goto_pc_self]
    exact hOwner
  · rw [goto_pc_self]
    exact hMutex
  · exact { hMaps with }

theorem Inv.goto (hPc : PcOk foreign s t pc) (hKnown :
      (t, Mode.write) ∈ s.holders → pc.ownerKnown = true → (s.pc t).ownerKnown = true)
    (hInside : pc.inside = (s.pc t).inside) :
    Inv ids foreign (s.goto t pc) := by
  apply hInv.of_goto (.same t s) hInv.word hInv.countable hPc
  · intro hMem hOwner
    exact hInv.owner t hMem (hKnown hMem hOwner)
  · rw [hInside]
    exact hInv.mutex t
  · exact hInv.maps

theorem Inv.goto_from {old : Pc} (hAt : s.pc t = old) (hPc : PcOk foreign s t pc)
    (hKnown : old.ownerKnown = true) (hInside : pc.inside = old.inside) :
    Inv ids foreign (s.goto t pc) := by
  rw [← hAt] at hKnown hInside
  exact hInv.goto hPc (fun _ _ => hKnown) hInside

/- The owner is stored or cleared by the writer. -/
theorem Inv.set_owner (hWriter : (t, Mode.write) ∈ s.holders) (writeOwner : Int)
    (hPc : PcOk foreign s t pc) (hOwner : pc.ownerKnown = true → writeOwner = ids.id t)
    (hInside : pc.inside = (s.pc t).inside) :
    Inv ids foreign ((s.setOwner writeOwner).goto t pc) := by
  have hFrame : Frame t s (s.setOwner writeOwner) :=
    { Frame.same t s with
      owner := fun u hOther hMem => absurd (hInv.word.eq_writer hMem hWriter) hOther }
  apply hInv.of_goto hFrame hInv.word hInv.countable hPc
  · exact fun _ hKnown => hOwner hKnown
  · rw [hInside]
    exact hInv.mutex t
  · exact { hInv.maps with }

/- The holders change, and the word with them. -/
theorem Inv.set_word (hWord : WordOk newValue holders) (hSmall : holders.length < 2 ^ 30)
    (hHolders : ∀ u, u ≠ t → ∀ mode, (u, mode) ∈ holders ↔ (u, mode) ∈ s.holders)
    (hOnly : ∀ u, u ≠ t → (u, Mode.write) ∉ s.holders)
    (hMapped : newValue.getLsbD 30 = s.hnd.lockState.getLsbD 30) (hPc : PcOk foreign
      { s.setLockState newValue with holders := holders } t
      pc)
    (hOwner : (t, Mode.write) ∈ holders → pc.ownerKnown = false)
    (hInside : pc.inside = (s.pc t).inside) :
    Inv ids foreign
      ({ s.setLockState newValue with
          holders := holders }.goto t pc) := by
  have hFrame : Frame t s { s.setLockState newValue with holders := holders } :=
    { Frame.same t s with
      holders := hHolders
      word := fun u hOther hMem => absurd hMem (hOnly u hOther)
      grows := fun hBit => hMapped.trans hBit
      inside := fun _ _ _ => ⟨hMapped, rfl, rfl⟩ }
  have hMaps := hInv.maps
  apply hInv.of_goto hFrame hWord hSmall hPc
  · intro hMem hKnown
    rw [hOwner hMem] at hKnown
    cases hKnown
  · rw [hInside]
    exact hInv.mutex t
  · exact { hMaps with
      mapped := fun hBit => hMaps.mapped (hMapped.symm.trans hBit)
      unmapped := fun hNone hBit => hMaps.unmapped hNone (hMapped.symm.trans hBit) }

section

variable (hAt : (s.pc t).inside = false)

include hAt

theorem Inv.lock_read (hReads : usageWrites usage = false)
    (hFree : s.hnd.lockState.getLsbD 31 = false) (hRoom : s.holders.length + 1 < 2 ^ 30) :
    Inv ids foreign (lockExchange s t usage s.hnd.lockState (s.hnd.lockState + 1)) := by
  have hCount := hInv.word.count
  have hRoomWord : Packed.count 30 s.hnd.lockState + 1 < 2 ^ 30 := by omega
  have hWord := hInv.word.lock_read hFree hRoom t
  have hMapped := mapped_lock hRoomWord
  have hNone := hInv.word.no_write hFree
  have hFlag : (s.hnd.lockState + 1).getLsbD 31 = false := by
    rw [Packed.flag_add_one (k := 30) (by decide) (by decide) hRoomWord]
    exact hFree
  have hMode : usageMode usage = Mode.read := by
    unfold usageMode
    rw [hReads]
    rfl
  have hOut := lockUse_outside usage s.hnd.lockState
  unfold lockExchange
  simp only [if_true, write_test, hFlag, Bool.false_eq_true, if_false, hMode]
  apply hInv.set_word hWord hRoom _ (fun u _ => hNone u) hMapped
  · apply pcOk_lockUse
    · exact ⟨Mode.read, mem_cons_self⟩
    · intro hBit
      exact hMapped.trans hBit
  · intro hMem
    rcases mem_cons.mp hMem with hEq | hOld
    · cases hEq
    · exact absurd hOld (hNone t)
  · rw [hOut, hAt]
  · intro u hOther mode
    exact mem_cons_of_ne hOther _ mode

theorem Inv.lock_write (hWrites : usageWrites usage = true)
    (hFree : Packed.count 30 s.hnd.lockState = 0) :
    Inv ids foreign (lockExchange s t usage s.hnd.lockState
      ((s.hnd.lockState ||| lockStateWrite) + 1)) := by
  have hWord := hInv.word.lock_write hFree t
  have hNil := hInv.word.eq_nil hFree
  have hRoom : Packed.count 30 (s.hnd.lockState ||| lockStateWrite) + 1 < 2 ^ 30 := by
    have hSame := count_or_write s.hnd.lockState
    omega
  have hMapped := ((mapped_lock hRoom).trans BitVec.getLsbD_or).trans (Bool.or_false _)
  have hFlag := hWord.write.mpr ⟨t, mem_cons_self⟩
  have hMode : usageMode usage = Mode.write := by
    unfold usageMode
    rw [hWrites]
    rfl
  unfold lockExchange
  simp only [if_true, write_test, hFlag, hMode]
  apply hInv.set_word hWord
  · rw [hNil, length_singleton]
    decide
  · intro u hOther mode
    exact mem_cons_of_ne hOther _ mode
  · intro u _ hMem
    rw [hNil] at hMem
    cases hMem
  · exact hMapped
  · exact ⟨mem_cons_self, fun hBit => hMapped.trans hBit⟩
  · intro _
    rfl
  · rw [hAt]
    rfl

theorem Inv.unlocked (hHolds : Holds s t) (hWord : WordOk newValue (release s.holders t))
    (hOnly : ∀ u, u ≠ t → (u, Mode.write) ∉ s.holders)
    (hMapped : newValue.getLsbD 30 = s.hnd.lockState.getLsbD 30)
    (hNot : (t, Mode.write) ∉ release s.holders t) :
    Inv ids foreign (unlockExchange s t s.hnd.lockState newValue) := by
  rcases hHolds with ⟨mode, hHeld⟩
  have hLength := length_release hHeld
  have hSmall := hInv.countable
  unfold unlockExchange
  rw [if_pos rfl]
  apply hInv.set_word hWord (by omega) _ hOnly hMapped
  · exact trivial
  · intro hMem
    exact absurd hMem hNot
  · rw [hAt]
    rfl
  · intro u hOther held
    exact mem_release_of_ne hOther held

end

theorem Inv.unlock_exchange (hAt : s.pc t = .unlockSwap currentValue newValue) :
    Inv ids foreign (unlockExchange s t currentValue newValue) := by
  have hOut : (s.pc t).inside = false := by
    rw [hAt]
    rfl
  rcases hInv.pcOk_at hAt with ⟨hHolds, ⟨hMem, hSame, hNew⟩ | ⟨hNot, hNew⟩⟩
  · -- The writer finds the word as it was.
    have hAlone := hInv.word.alone t hMem
    have hCount := hInv.word.count
    have hSome : Packed.count 30 (s.hnd.lockState &&& ~~~ lockStateWrite) = 1 := by
      rw [hAlone] at hCount
      exact (count_clear_write _).trans hCount
    have hClear : (s.hnd.lockState &&& ~~~ lockStateWrite).getLsbD 30 =
        s.hnd.lockState.getLsbD 30 := by
      unfold lockStateWrite
      simp
    rw [hNew, ← hSame]
    apply hInv.unlocked hOut hHolds (hInv.word.unlock_write hMem)
    · intro u hOther hU
      exact hOther (hInv.word.eq_writer hU hMem)
    · exact (mapped_unlock (by omega)).trans hClear
    · intro hLeft
      have hLength := length_release hMem
      have hPositive := length_pos_of_mem hLeft
      rw [hLength, hAlone] at hPositive
      exact lt_irrefl 0 hPositive
  · by_cases hSame : s.hnd.lockState = currentValue
    · rcases hHolds with ⟨mode, hHeld⟩
      have hCount := hInv.word.count
      have hPositive := length_pos_of_mem hHeld
      rw [hNew, ← hSame]
      apply hInv.unlocked hOut ⟨mode, hHeld⟩ (hInv.word.unlock_read hHeld hNot)
      · intro u _ hU
        exact hInv.word.no_writer hHeld hNot u hU
      · exact mapped_unlock (by omega)
      · intro hLeft
        exact hNot (mem_of_mem_release hLeft)
    · -- Another thread was faster.
      unfold unlockExchange
      rw [if_neg hSame]
      have hRead : PcOk foreign s t .unlockRead := hHolds
      apply hInv.goto hRead
      · intro hMem
        exact absurd hMem hNot
      · rw [hOut]
        rfl

/- The thread gets `sMapLock`. -/
theorem Inv.take_mapLock (hAt : s.pc t = .lockMutex) (hFree : s.mapLock = none) :
    Inv ids foreign ({ s with mapLock := some t }.goto t .lockCheck) := by
  have hMaps := hInv.maps
  have hFrame : Frame t s { s with mapLock := some t } :=
    { Frame.same t s with
      mapLock := fun u hOther => by
        rw [hFree]
        exact iff_of_false (fun hEq => hOther (Option.some.inj hEq).symm)
          (fun hEq => by cases hEq) }
  apply hInv.of_goto hFrame hInv.word hInv.countable
  · exact ⟨hInv.pcOk_at hAt, hMaps.unmapped hFree⟩
  · intro hMem _
    apply hInv.owner t hMem
    rw [hAt]
    rfl
  · exact iff_of_true rfl rfl
  · exact { hMaps with unmapped := fun hNone => by cases hNone }

theorem Inv.maps_step (hStep : Maps s s') {old : Pc} (hAt : s.pc t = old)
    (hOld : old.inside = true) (hKnown : old.ownerKnown = true)
    (hHolds : Holds s t) (hPc : PcOk foreign s' t pc)
    (hInside : pc.inside = true ↔ s'.mapLock = some t)
    (hMaps : MapsOk foreign s') : Inv ids foreign (s'.goto t pc) := by
  rw [← hAt] at hOld hKnown
  have hLock := (hInv.mutex t).mp hOld
  rcases hHolds with ⟨mode, hHeld⟩
  have hFrame : Frame t s s' :=
    { flags := hStep.flags
      offset := hStep.offset
      pc := fun u _ => congrFun hStep.pc u
      holders := fun u _ held => by rw [hStep.holders]
      word := fun u hOther hMem => absurd (hInv.word.eq_writer hHeld hMem).symm hOther
      owner := fun _ _ _ => hStep.owner
      grows := hStep.grows
      mapLock := fun u hOther => by
        have hNot : ¬ s.mapLock = some u := by
          rw [hLock]
          exact fun hEq => hOther (Option.some.inj hEq).symm
        have hNot' : ¬ s'.mapLock = some u := by
          rcases hStep.mapLock with hSame | hNone
          · rw [hSame]
            exact hNot
          · rw [hNone]
            exact fun hEq => by cases hEq
        exact iff_of_false hNot' hNot
      inside := fun u hOther hOwn => by
        rw [hLock] at hOwn
        exact absurd (Option.some.inj hOwn).symm hOther }
  have hSmall : s'.holders.length < 2 ^ 30 := by
    rw [hStep.holders]
    exact hInv.countable
  apply hInv.of_goto hFrame (hStep.wordOk hInv.word) hSmall hPc
  · intro hMem _
    rw [hStep.holders] at hMem
    exact hStep.owner.trans (hInv.owner t hMem hKnown)
  · exact hInside
  · exact hMaps

end

end

------
-- Every Step
------

section

/-
  The count has room for the locks that are held, and no lock for software use of the framebuffer of
  another process has returned.
-/
def Countable (foreign : Bool) (s : State τ) : Prop :=
  s.holders.length < 2 ^ 30 ∧ (foreign = true → s.vaddrs = [])

/- The step keeps the invariant, or it breaks the lock. -/
def Kept (ids : KernelIds τ) (foreign : Bool) (s : State τ) : Prop :=
  Inv ids foreign s ∨ (¬ LocksBuffer s ∧ ¬ Countable foreign s)

theorem Inv.locksBuffer (hInv : Inv ids foreign s) : LocksBuffer s where
  alone := hInv.word.alone
  count := by
    rw [readMask_toNat]
    exact hInv.word.count
  write := by
    rw [← hInv.word.write]
    exact Packed.and_twoPow_ne_zero (by decide) _
  once := hInv.maps.once
  address := hInv.maps.vaddrs

theorem Inv.countable_foreign (hInv : Inv ids foreign s) : Countable foreign s := by
  refine ⟨hInv.countable, ?_⟩
  intro hForeign
  rw [eq_nil_iff_forall_not_mem]
  intro vaddr hMem
  rcases hInv.maps.vaddrs vaddr hMem with ⟨m, hMap, _⟩
  rw [(hInv.maps.apart hForeign).2] at hMap
  cases hMap

/- The framebuffer of another process. -/
def isForeign (hnd : PrivateHandle) (getpid : Int) : Bool :=
  isFramebuffer hnd && hnd.pid != getpid

theorem wordOk_unlocked {v : BitVec 32} (hUnlocked : v = 0 ∨ v = lockStateMapped) :
    WordOk v ([] : List (τ × Mode)) := by
  have hParts : Packed.count 30 v = 0 ∧ v.getLsbD 31 = false := by
    rcases hUnlocked with hZero | hMapped
    · rw [hZero]
      decide
    · rw [hMapped]
      decide
  apply WordOk.of_readers hParts.1 hParts.2
  intro t hT
  cases hT

theorem not_locksBuffer_of_full (hFull : 2 ^ 30 ≤ s.holders.length) : ¬ LocksBuffer s := by
  intro hLocks
  have hCount := hLocks.count
  rw [readMask_toNat] at hCount
  have hLess : Packed.count 30 s.hnd.lockState < 2 ^ 30 := Nat.mod_lt _ (by decide)
  omega

variable [DecidableEq τ] {currentValue : BitVec 32}

section

variable (hInv : Inv ids foreign s)

include hInv

theorem lockExchange_kept {usage newValue : BitVec 32}
    (hAt : s.pc t = .lockSwap usage currentValue newValue) :
    Kept ids foreign (lockExchange s t usage currentValue newValue) := by
  have hOut : (s.pc t).inside = false := by
    rw [hAt]
    rfl
  rcases hInv.pcOk_at hAt with ⟨hFree, hWrites, hNew⟩
  by_cases hSame : s.hnd.lockState = currentValue
  · rw [← hSame] at hFree hWrites hNew ⊢
    cases hUsage : usageWrites usage with
    | true =>
      rw [hUsage] at hNew
      rw [hNew]
      left
      exact hInv.lock_write hOut hUsage (hWrites hUsage)
    | false =>
      rw [hUsage] at hNew
      by_cases hRoom : s.holders.length + 1 < 2 ^ 30
      · rw [hNew]
        left
        exact hInv.lock_read hOut hUsage hFree hRoom
      · -- The count carries into the bit of the mapping.
        right
        have hFull : 2 ^ 30 ≤ (lockExchange s t usage s.hnd.lockState newValue).holders.length := by
          unfold lockExchange
          simp only [if_true]
          split <;> exact Nat.le_of_not_lt hRoom
        exact ⟨not_locksBuffer_of_full hFull, fun hCountable => Nat.not_lt_of_le hFull hCountable.1⟩
  · unfold lockExchange
    rw [if_neg hSame]
    left
    have hRead : PcOk foreign s t (.lockRead usage) := trivial
    exact hInv.goto_from hAt hRead rfl rfl

theorem lockAddress_kept (hAt : s.pc t = .lockAddress) :
    Kept ids foreign ({ s with vaddrs := s.hnd.base :: s.vaddrs }.goto t (.idle 0)) := by
  have hMaps := hInv.maps
  rcases hMaps.mapped (hInv.pcOk_at hAt).2 with ⟨m, hMap, hBase⟩ | ⟨hForeign, hNil⟩
  · left
    have hIdle : PcOk foreign s t (.idle 0) := trivial
    have hGoto : Inv ids foreign (s.goto t (.idle 0)) := by exact hInv.goto_from hAt hIdle rfl rfl
    refine ⟨hGoto.word, hGoto.countable, hGoto.threads, hGoto.owner, hGoto.mutex, ?_⟩
    refine ⟨hMaps.once, hMaps.mapped, hMaps.framebuffer, hMaps.unmapped, ?_, hMaps.apart⟩
    intro vaddr hMem
    rcases mem_cons.mp hMem with hEq | hOld
    · exact ⟨m, hMap, hEq.trans hBase⟩
    · exact hMaps.vaddrs vaddr hOld
  · right
    constructor
    · intro hLocks
      rcases hLocks.address s.hnd.base mem_cons_self with ⟨m, hMap, _⟩
      rw [hNil] at hMap
      cases hMap
    · intro hCountable
      have hNone := hCountable.2 hForeign
      cases hNone

/- `mmap` gives an address. -/
theorem Inv.map (hAt : s.pc t = .lockMap)
    (hBuffer : isFramebuffer s.hnd = false) (mappedAddress : BitVec 32) :
    Inv ids foreign ({ s with maps := mappedAddress :: s.maps }.goto t
        (.lockBase mappedAddress)) := by
  have hLock := hInv.locked_at hAt rfl
  rcases hInv.pcOk_at hAt with ⟨hHolds, hBit, hUnmapped⟩
  have hNil := hUnmapped hBit hBuffer
  have hStep : Maps s { s with maps := mappedAddress :: s.maps } :=
    ⟨rfl, rfl, rfl, rfl, rfl, .inl rfl, .inl rfl⟩
  apply hInv.maps_step hStep hAt rfl rfl hHolds
  · refine ⟨hHolds, hBit, ?_⟩
    rw [hNil]
  · exact iff_of_true rfl hLock
  · refine ⟨?_, ?_, ?_, ?_, ?_, ?_⟩
    · rw [hNil]
      exact le_refl 1
    · intro hSet
      rw [hBit] at hSet
      cases hSet
    · intro hSet
      rw [hBuffer] at hSet
      cases hSet
    · intro hNone
      rw [hLock] at hNone
      cases hNone
    · intro vaddr hMem
      rcases hInv.maps.vaddrs vaddr hMem with ⟨m, hMap, _⟩
      rw [hNil] at hMap
      cases hMap
    · intro hForeign
      have hSet := (hInv.maps.apart hForeign).1
      rw [hBuffer] at hSet
      cases hSet

/- The base is stored. -/
theorem Inv.store_base {mappedAddress : BitVec 32} (hAt : s.pc t = .lockBase mappedAddress) :
    Inv ids foreign ({ s with hnd := { s.hnd with base := mappedAddress + s.hnd.offset } }.goto t
        .lockMapped) := by
  have hLock := hInv.locked_at hAt rfl
  rcases hInv.pcOk_at hAt with ⟨hHolds, hBit, hMap⟩
  have hStep : Maps s { s with hnd := { s.hnd with base := mappedAddress + s.hnd.offset } } :=
    ⟨rfl, rfl, rfl, rfl, rfl, .inl rfl, .inl rfl⟩
  have hBacked : Backed foreign
      { s with hnd := { s.hnd with base := mappedAddress + s.hnd.offset } } :=
    .inl ⟨mappedAddress, hMap, rfl⟩
  apply hInv.maps_step hStep hAt rfl rfl hHolds
  · exact ⟨hHolds, hBacked⟩
  · exact iff_of_true rfl hLock
  · refine ⟨hInv.maps.once, fun _ => hBacked, fun _ => hBacked, ?_, hInv.maps.vaddrs,
      hInv.maps.apart⟩
    intro hNone
    rw [hLock] at hNone
    cases hNone

/- The bit for the mapping is set. -/
theorem Inv.set_mapped (hAt : s.pc t = .lockMapped) :
    Inv ids foreign ((s.setLockState (s.hnd.lockState ||| lockStateMapped)).goto t
      .lockRelease) := by
  have hLock := hInv.locked_at hAt rfl
  rcases hInv.pcOk_at hAt with ⟨hHolds, hBacked⟩
  have hStep : Maps s (s.setLockState (s.hnd.lockState ||| lockStateMapped)) :=
    ⟨rfl, rfl, rfl, rfl, rfl, .inr rfl, .inl rfl⟩
  have hSet : (s.hnd.lockState ||| lockStateMapped).getLsbD 30 = true := by
    unfold lockStateMapped
    simp
  apply hInv.maps_step hStep hAt rfl rfl hHolds
  · exact ⟨hHolds, hSet⟩
  · exact iff_of_true rfl hLock
  · refine ⟨hInv.maps.once, fun _ => hBacked, fun _ => hBacked, ?_, hInv.maps.vaddrs,
      hInv.maps.apart⟩
    intro hNone
    change s.mapLock = none at hNone
    rw [hLock] at hNone
    cases hNone

/- The thread gives up `sMapLock`. -/
theorem Inv.release_mapLock (hAt : s.pc t = .lockRelease) :
    Inv ids foreign ({ s with mapLock := none }.goto t .lockAddress) := by
  rcases hInv.pcOk_at hAt with ⟨hHolds, hBit⟩
  have hStep : Maps s { s with mapLock := none } :=
    ⟨rfl, rfl, rfl, rfl, rfl, .inl rfl, .inr rfl⟩
  apply hInv.maps_step hStep hAt rfl rfl hHolds
  · exact ⟨hHolds, hBit⟩
  · apply iff_of_false
    · exact Bool.false_ne_true
    · intro hEq
      cases hEq
  · refine ⟨hInv.maps.once, hInv.maps.mapped, hInv.maps.framebuffer, ?_, hInv.maps.vaddrs,
      hInv.maps.apart⟩
    intro _ hClear
    rw [hBit] at hClear
    cases hClear

/- A holder reads the word to unlock. -/
theorem Inv.unlock_read (hAt : s.pc t = .unlockRead) (mappedAddress : BitVec 32) :
    Inv ids foreign (act ids s t mappedAddress .unlockRead) := by
  rcases hInv.pcOk_at hAt with ⟨mode, hHeld⟩
  have hCount := hInv.word.count
  have hPositive := length_pos_of_mem hHeld
  change Inv ids foreign (if s.hnd.lockState &&& lockStateWrite != 0 then
      s.goto t (.unlockOwner s.hnd.lockState)
    else
      s.goto t (unlockDecide s.hnd.lockState s.hnd.lockState))
  rw [write_test]
  cases hWrite : s.hnd.lockState.getLsbD 31 with
  | true =>
    rcases hInv.word.write.mp hWrite with ⟨u, hU⟩
    rw [← hInv.word.eq_writer hHeld hU] at hU
    have hKnow : PcOk foreign s t (.unlockOwner s.hnd.lockState) := ⟨hU, rfl⟩
    exact hInv.goto_from hAt hKnow rfl rfl
  | false =>
    have hNot := hInv.word.no_write hWrite t
    have hKnow : PcOk foreign s t (.unlockSwap s.hnd.lockState (s.hnd.lockState - 1)) :=
      ⟨⟨mode, hHeld⟩, .inr ⟨hNot, rfl⟩⟩
    rw [unlockDecide_eq (by omega)]
    apply hInv.goto hKnow
    · intro _ hKnown
      cases hKnown
    · rw [hAt]
      rfl

/- The writer clears the owner. -/
theorem Inv.unlock_clear (hAt : s.pc t = .unlockClear currentValue) (mappedAddress : BitVec 32) :
    Inv ids foreign (act ids s t mappedAddress (.unlockClear currentValue)) := by
  rcases hInv.pcOk_at hAt with ⟨hMem, hSame⟩
  have hCount := hInv.word.count
  have hPositive := length_pos_of_mem hMem
  have hClear := count_clear_write currentValue
  rw [hSame] at hCount
  have hKnow : PcOk foreign s t (.unlockSwap currentValue
      ((currentValue &&& ~~~ lockStateWrite) - 1)) :=
    ⟨⟨Mode.write, hMem⟩, .inl ⟨hMem, hSame, rfl⟩⟩
  change Inv ids foreign ((s.setOwner 0).goto t (unlockDecide currentValue
      (currentValue &&& ~~~ lockStateWrite)))
  rw [unlockDecide_eq (by omega)]
  apply hInv.set_owner hMem 0 hKnow
  · intro hKnown
    cases hKnown
  · rw [hAt]
    rfl

theorem act_kept (t : τ) (mappedAddress : BitVec 32) :
    Kept ids foreign (act ids s t mappedAddress (s.pc t)) := by
  have hPc := hInv.threads t
  cases hAt : s.pc t with
  | idle ret => exact .inl hInv
  | lockRead usage =>
    left
    exact hInv.goto_from hAt (pcOk_lockDecide s t usage _) rfl (lockDecide_outside usage _)
  | lockSwap usage currentValue newValue => exact lockExchange_kept hInv hAt
  | lockOwner usage currentValue =>
    left
    rw [hAt] at hPc
    have hOut := lockUse_outside usage currentValue
    apply hInv.set_owner hPc.1 (ids.id t) (pcOk_lockUse ⟨Mode.write, hPc.1⟩ hPc.2)
    · intro _
      rfl
    · rw [hAt, hOut]
      rfl
  | lockMutex =>
    left
    cases hLock : s.mapLock with
    | none =>
      have hStep := hInv.take_mapLock hAt hLock
      simpa only [act, hLock] using hStep
    | some u => simpa only [act, hLock] using hInv
  | lockCheck =>
    left
    rw [hAt] at hPc
    have hTest := mapped_test s.hnd.lockState
    change Inv ids foreign (if s.hnd.lockState &&& lockStateMapped == 0 then
        s.goto t .lockMap
      else s.goto t .lockRelease)
    cases hBit : s.hnd.lockState.getLsbD 30 with
    | true =>
      rw [hBit, bne, Bool.not_eq_true'] at hTest
      rw [hTest]
      have hKnow : PcOk foreign s t .lockRelease := ⟨hPc.1, hBit⟩
      exact hInv.goto_from hAt hKnow rfl rfl
    | false =>
      rw [hBit, bne, Bool.not_eq_false'] at hTest
      rw [hTest]
      have hKnow : PcOk foreign s t .lockMap := ⟨hPc.1, hBit, hPc.2⟩
      exact hInv.goto_from hAt hKnow rfl rfl
  | lockMap =>
    left
    rw [hAt] at hPc
    cases hBuffer : isFramebuffer s.hnd with
    | false =>
      have hStep := hInv.map hAt hBuffer mappedAddress
      simpa only [act, hBuffer, Bool.not_false, if_true] using hStep
    | true =>
      have hKnow : PcOk foreign s t .lockMapped := ⟨hPc.1, hInv.maps.framebuffer hBuffer⟩
      have hStep : Inv ids foreign (s.goto t .lockMapped) :=
        hInv.goto_from hAt hKnow rfl rfl
      simpa only [act, hBuffer, Bool.not_true, Bool.false_eq_true, if_false] using hStep
  | lockBase address => exact .inl (hInv.store_base hAt)
  | lockMapped => exact .inl (hInv.set_mapped hAt)
  | lockRelease => exact .inl (hInv.release_mapLock hAt)
  | lockAddress => exact lockAddress_kept hInv hAt
  | unlockRead => exact .inl (hInv.unlock_read hAt mappedAddress)
  | unlockOwner currentValue =>
    left
    rw [hAt] at hPc
    have hOwner := hInv.owner t hPc.1 (by rw [hAt]; rfl)
    have hKnow : PcOk foreign s t (.unlockClear currentValue) := hPc
    have hStep : Inv ids foreign (s.goto t (.unlockClear currentValue)) :=
      hInv.goto_from hAt hKnow rfl rfl
    simpa only [act, hOwner, beq_self_eq_true, if_true] using hStep
  | unlockClear currentValue => exact .inl (hInv.unlock_clear hAt mappedAddress)
  | unlockSwap currentValue newValue => exact .inl (hInv.unlock_exchange hAt)

end

theorem Pc.isIdle_eq {pc : Pc} (hIdle : pc.isIdle = true) : ∃ ret, pc = .idle ret := by
  cases pc with
  | idle ret => exact ⟨ret, rfl⟩
  | _ => cases hIdle

theorem step_kept (hInv : Inv ids foreign s) {event : Event τ} (hLegal : Legal s event) :
    ∃ next, step ids s event = .ok next ∧ Kept ids foreign next := by
  cases event with
  | lock t usage =>
    rcases Pc.isIdle_eq hLegal with ⟨ret, hAt⟩
    have hKnow : PcOk foreign s t (.lockRead usage) := trivial
    refine ⟨_, rfl, .inl ?_⟩
    exact hInv.goto_from hAt hKnow rfl rfl
  | unlock t =>
    rcases Pc.isIdle_eq hLegal.1 with ⟨ret, hAt⟩
    have hKnow : PcOk foreign s t .unlockRead := hLegal.2
    refine ⟨_, rfl, .inl ?_⟩
    exact hInv.goto_from hAt hKnow rfl rfl
  | act t mappedAddress => exact ⟨_, rfl, act_kept hInv t mappedAddress⟩

omit [DecidableEq τ] in
theorem registered_inv (ids : KernelIds τ) {hnd : PrivateHandle}
    {getpid : Int} {maps : List (BitVec 32)} (hIntact : Intact hnd getpid maps) :
    Inv ids (isForeign hnd getpid) (State.init hnd getpid maps) := by
  have hParts : ((grallocRegisterBuffer hnd getpid).lockState = 0 ∨
      (grallocRegisterBuffer hnd getpid).lockState = lockStateMapped) ∧
        MapsOk (isForeign hnd getpid) (State.init hnd getpid maps : State τ) := by
    unfold Intact at hIntact
    unfold State.init grallocRegisterBuffer isForeign
    by_cases hPid : hnd.pid ≠ getpid
    · rw [if_pos hPid] at hIntact
      rw [if_pos hPid, bne_iff_ne.mpr hPid, Bool.and_true, hIntact]
      refine ⟨.inl rfl, ?_⟩
      refine ⟨Nat.zero_le 1, ?_, ?_, fun _ _ _ => rfl, ?_, fun hBuffer => ⟨hBuffer, rfl⟩⟩
      · intro hBit
        change (0 : BitVec 32).getLsbD 30 = true at hBit
        exact absurd hBit (by decide)
      · intro hBuffer
        exact .inr ⟨hBuffer, rfl⟩
      · intro vaddr hMem
        cases hMem
    · rw [if_neg hPid] at hIntact
      rw [if_neg hPid]
      rcases hIntact with ⟨_, ⟨hZero, hBuffer, hNil⟩ | ⟨hMapped, m, hMap, hBase⟩⟩
      · refine ⟨.inl hZero, ?_⟩
        refine ⟨?_, ?_, ?_, fun _ _ _ => hNil, ?_, ?_⟩
        · rw [hNil]
          exact Nat.zero_le 1
        · intro hBit
          rw [hZero] at hBit
          cases hBit
        · intro hSet
          rw [hBuffer] at hSet
          cases hSet
        · intro vaddr hMem
          cases hMem
        · intro hForeign
          rw [hBuffer] at hForeign
          cases hForeign
      · have hBacked : Backed (isFramebuffer hnd && hnd.pid != getpid)
            (⟨hnd, none, fun _ => .idle 0, [], maps, []⟩ : State τ) :=
          .inl ⟨m, hMap, hBase⟩
        refine ⟨hMapped.symm.imp_left And.left, ?_⟩
        refine ⟨?_, fun _ => hBacked, fun _ => hBacked, ?_, ?_, ?_⟩
        · rw [hMap]
          exact le_refl 1
        · intro _ hBit hBuffer
          rcases hMapped with hSet | ⟨_, hFramebuffer⟩
          · rw [hSet] at hBit
            exact absurd hBit (by decide)
          · rw [hFramebuffer] at hBuffer
            cases hBuffer
        · intro vaddr hMem
          cases hMem
        · intro hForeign
          have hSame : (hnd.pid != getpid) = false := by
            rw [bne_eq_false_iff_eq]
            exact Decidable.not_not.mp hPid
          rw [hSame, Bool.and_false] at hForeign
          cases hForeign
  refine ⟨wordOk_unlocked hParts.1, Nat.two_pow_pos 30, fun _ => trivial, ?_, ?_, hParts.2⟩
  · intro t hMem
    cases hMem
  · intro t
    apply iff_of_false
    · exact Bool.false_ne_true
    · intro hEq
      cases hEq

/-
  For any number of threads and every interleaving, the locks of the buffer are locks for readers
  and writers if and only if there are never 2 ^ 30 of them and the framebuffer of another process
  is not locked for software use.
-/
theorem buffer_locks_iff_countable (ids : KernelIds τ)
    (hnd : PrivateHandle) (getpid : Int) (maps : List (BitVec 32))
    (hIntact : Intact hnd getpid maps) (events : List (Event τ))
    (hLegal : Along (step ids) Legal (State.init hnd getpid maps) events) :
    Always (step ids) LocksBuffer (State.init hnd getpid maps) events ↔
      Always (step ids) (Countable (isForeign hnd getpid)) (State.init hnd getpid maps) events :=
  always_iff_always (fun _ hInv => hInv.locksBuffer) (fun _ hInv => hInv.countable_foreign)
    (fun _ _ hInv hEvent => step_kept hInv hEvent)
    (registered_inv ids hIntact) hLegal

/- A buffer of another process. -/
def sharedBuffer : PrivateHandle := ⟨0, 0, 0, 0, 0, 7⟩

/- A thread locks the buffer for writing and unlocks it. -/
def writeAndUnlock : List (Event Unit) :=
  [.lock () grallocUsageHwRender, .act () 0, .act () 0, .act () 0, .unlock (), .act () 0, .act () 0,
    .act () 0, .act () 0]

theorem buffer_locks_write_and_unlock :
    Always (step oneThread) LocksBuffer (State.init sharedBuffer 8 []) writeAndUnlock ↔
      Always (step oneThread) (Countable (isForeign sharedBuffer 8))
        (State.init sharedBuffer 8 []) writeAndUnlock := by
  apply buffer_locks_iff_countable
  · exact rfl
  · refine .cons rfl (by exact rfl) ?_
    iterate 3 apply Along.cons rfl trivial
    apply Along.cons rfl ⟨rfl, Mode.write, mem_cons_self⟩
    iterate 3 apply Along.cons rfl trivial
    exact .cons rfl trivial trivial

end

------
-- Too Many Locks
------

open Lib

/- One thread has locked the buffer `n` times for reading. -/
def readers (n : Nat) : State Unit :=
  ⟨{ sharedBuffer with lockState := BitVec.ofNat 32 n }, none,
    fun _ => .idle 0, replicate n ((), .read), [], []⟩

/- The thread locks the buffer for reading `n` times more. -/
def readLocks : Nat → List (Event Unit)
| 0 => []
| n + 1 =>
  .lock () 0 :: .act () 0 :: .act () 0 :: readLocks n

theorem write_clear (hSmall : n < 2 ^ 31) : (BitVec.ofNat 32 n).getLsbD 31 = false := by
  rw [getLsbD_ofNat, Nat.testBit_lt_two_pow hSmall]
  rfl

theorem update_unit (pc : Unit → Pc) (new : Pc) : update pc () new = fun _ => new := by
  funext u
  exact update_self ..

theorem step_lock (n : Nat) :
    step oneThread (readers n) (.lock () 0) =
      .ok { readers n with pc := fun _ => .lockRead 0 } := by
  unfold step State.goto
  simp only [update_unit]

theorem step_read (hSmall : n < 2 ^ 31) :
    step oneThread
      { readers n with pc := fun _ => .lockRead 0 }
      (.act () 0) = .ok
        { readers n with
          pc := fun _ => .lockSwap 0 (BitVec.ofNat 32 n) (BitVec.ofNat 32 n + 1) } := by
  have hDecide : lockDecide 0 (BitVec.ofNat 32 n) = .lockSwap 0 (BitVec.ofNat 32 n)
      (BitVec.ofNat 32 n + 1) := by
    unfold lockDecide
    rw [write_test, write_clear hSmall]
    simp [usageWrites]
  rw [← hDecide]
  rfl

theorem step_swap (hSmall : n + 1 < 2 ^ 31) :
    step oneThread
      { readers n with pc := fun _ => .lockSwap 0 (BitVec.ofNat 32 n) (BitVec.ofNat 32 n + 1) }
      (.act () 0) = .ok (readers (n + 1)) := by
  have hNext : BitVec.ofNat 32 n + 1 = BitVec.ofNat 32 (n + 1) := (ofNat_add n 1).symm
  have hUse : lockUse 0 (BitVec.ofNat 32 n) = .idle 0 := by
    unfold lockUse
    simp [usageSoftware]
  unfold step act lockExchange State.goto
  simp only [readers, State.setLockState, if_true, write_test, hNext, write_clear hSmall,
    Bool.false_eq_true, if_false, update_unit, hUse]
  rfl

theorem legal_readLocks {k : Nat} (hSmall : k + n < 2 ^ 31) :
    Along (step oneThread) Legal (readers k) (readLocks n) := by
  induction n generalizing k with
  | zero => exact trivial
  | succ n ih =>
    apply Along.cons (step_lock k) rfl
    apply Along.cons (step_read (by omega)) trivial
    apply Along.cons (step_swap (by omega)) trivial
    exact ih (by omega)

theorem always_readLocks {P : State Unit → Prop} {k : Nat} (hSmall : k + n < 2 ^ 31)
    (hAlways : Always (step oneThread) P (readers k) (readLocks n)) : P (readers (k + n)) := by
  induction n generalizing k with
  | zero => exact hAlways
  | succ n ih =>
    rcases hAlways with ⟨_, s₁, h₁, _, s₂, h₂, _, s₃, h₃, hRest⟩
    rw [step_lock] at h₁
    rw [← Except.ok.inj h₁, step_read (by omega)] at h₂
    rw [← Except.ok.inj h₂, step_swap (by omega)] at h₃
    rw [← Except.ok.inj h₃] at hRest
    rw [add_comm n 1, ← add_assoc]
    exact ih (by omega) hRest

/- The count of a buffer that is locked 2 ^ 30 times is zero, and the buffer seems to be mapped. -/
theorem count_of_read_locks_overflows :
    Intact sharedBuffer 8 [] ∧ ∃ events, Along (step oneThread) Legal
      (State.init sharedBuffer 8 []) events ∧
        ¬ Always (step oneThread) LocksBuffer (State.init sharedBuffer 8 []) events := by
  refine ⟨rfl, readLocks (2 ^ 30), ?_, ?_⟩
  · exact legal_readLocks (k := 0) (by decide)
  · intro hAlways
    have hLocks : LocksBuffer (readers (0 + 2 ^ 30)) := always_readLocks (by decide) hAlways
    have hFull : 2 ^ 30 ≤ (readers (0 + 2 ^ 30)).holders.length := by
      unfold readers
      rw [length_replicate, zero_add]
    exact not_locksBuffer_of_full hFull hLocks

end OpenIvi.Gralloc.BufferLock
