import Mathlib.Data.List.Nodup
import OpenIvi.Lib.Ring

/-
  The data that an overlay shares with the mixer thread.

  `overlay_data_shared_t` holds two rings of buffers, the free ones and the queued ones. The client
  side takes free buffers out and queues them; the mixer thread fetches queued buffers and, in
  normal mode, returns them to the free ring. Every function here is one critical section under
  `obj_lock`; a section that ends in `pthread_cond_wait` has the outcome `waiting`.

  A world holds the shared record, the client's table of buffers, the handles that the client has
  dequeued, its calls that are waiting, and the buffer that the mixer is mixing. Every buffer is in
  exactly one place, and no ring is ever accessed outside of its slots, as long as no run sets the
  number of buffers to the size of the rings.

  `allocate` looks for a free slot among all `MAX_SLOT` slots, not among the slots that have memory,
  and the size of the mapped memory is a product of 32 bits.

  An overlay may be in push mode. The client pushes buffers of its own; the queue keeps the one that
  is displayed. A client that has to wait does so once: it releases `obj_lock`, is signalled by the
  mixer, and takes the lock again without looking at `buf_mixing` any more. The mixer may have
  fetched the head again in the meantime.

  Main declarations:
    * `DataShared`
    * `World`
    * `pmem_own_memory_iff`
    * `push_keeps_mixed_head_iff`
-/

------
-- The Shared Record
------

namespace OpenIvi.Overlay

open Lib

def maxOverlayBufferNum : Nat := 24

def einval : Int := -22

/- `OVERLAY_NORAML_MODE` and `OVERLAY_PUSH_MODE`. -/
inductive Mode where
| normal
| push
deriving DecidableEq, Repr

/-
  The fields of `overlay_data_shared_t` that the buffer queues use. Buffers are known by their
  physical address.
-/
structure DataShared where
  numBuffer : Nat
  /- `free_bufs`, `free_head`, `free_tail`, `free_count`. -/
  free : Ring Nat maxOverlayBufferNum
  /- `queued_bufs` with its head, tail and count. -/
  queued : Ring Nat maxOverlayBufferNum
  bufDisplayed : Vector Nat maxOverlayBufferNum
  waitBufFlag : Bool
  overlayMode : Mode
  inDestroy : Bool
  bufMixing : Bool
deriving DecidableEq, Repr

structure OverlayBuffer where
  virAddr : Nat
  phyAddr : Nat
deriving DecidableEq, Repr

namespace DataShared

/- `buf_displayed[index] = value`. -/
def setDisplayed (s : DataShared) (index value : Nat) : Except Fault DataShared :=
  if index < maxOverlayBufferNum then
    .ok
      { s with bufDisplayed := s.bufDisplayed.setIfInBounds index value }
  else
    .error .outOfBounds

/- `buf_displayed[queued_head]`. -/
def headDisplayed (s : DataShared) : Except Fault Nat :=
  match s.bufDisplayed[s.queued.head]? with
  | some value => .ok value
  | none => .error .outOfBounds

end DataShared

------
-- The Client Side
------

/- How a critical section of `dequeueBuffer` ends. -/
inductive DequeueOutcome where
/- Return with a handle, the index of the buffer. -/
| returned (ret : Int) (buf : Option Nat)
| waiting
/- Unlock and go through the loop once more. -/
| again
deriving DecidableEq, Repr

/- How a critical section of `queueBuffer` ends. -/
inductive QueueOutcome where
| returned (ret : Int)
| waiting
deriving DecidableEq, Repr

variable (table : List OverlayBuffer)

/- The last buffer with this address and its index. -/
def findBuffer (phyAddr : Nat) : Option (OverlayBuffer × Nat) :=
  (table.zipIdx.filter fun entry => entry.1.phyAddr == phyAddr).getLast?

namespace DataShared

/- Take the head of the free ring and find its handle. -/
def takeFree (s : DataShared) : Except Fault (DequeueOutcome × DataShared) := do
  let (phyAddr, free) ← s.free.pop 0
  let s := { s with free := free }
  match findBuffer table phyAddr with
  | some (buffer, index) =>
    if buffer.virAddr = 0 then
      return (.returned (-1) none, s)
    else
      return (.returned 0 (some index), s)
  | none => return (.returned (-1) none, s)

/- `overlay_data_dequeueBuffer` up to its return, its wait or its next try. -/
def dequeueBuffer (s : DataShared) : Except Fault (DequeueOutcome × DataShared) :=
  if s.overlayMode = .push then
    .ok (.returned einval none, s)
  else if s.inDestroy then
    .ok (.returned einval none, s)
  else if s.free.count = 0 then
    .ok (.waiting, { s with waitBufFlag := true })
  else
    s.takeFree table

/-
  The rest of `overlay_data_dequeueBuffer` behind its wait. `failed` says that an earlier wait has
  set `ret`.
-/
def dequeueBufferWoken (failed : Bool)
    (s : DataShared) : Except Fault (DequeueOutcome × DataShared) :=
  if 0 < s.free.count then
    s.takeFree table
  else if failed || s.waitBufFlag then
    .ok (.again, s)
  else
    .ok (.returned 0 none, s)

/- Whether `overlay_data_queueBuffer` has to wait. -/
def queueMustWait (threshold : Nat) (s : DataShared) : Except Fault Bool :=
  match s.overlayMode with
  | .normal =>
    .ok (decide (threshold ≤ s.queued.count) ||
        (decide (s.queued.count = threshold - 1) && s.bufMixing))
  | .push =>
    if s.bufMixing then
      .ok true
    else do
      let displayed ← s.headDisplayed
      return decide (displayed = 0) && decide (threshold ≤ s.queued.count)

/- Take the head out of the queued ring, as push mode does. -/
def dropHead (s : DataShared) : Except Fault DataShared := do
  let cleared ← s.setDisplayed s.queued.head 0
  let (_, queued) ← cleared.queued.pop 0
  return { cleared with queued := queued }

/-
  The part of `overlay_data_queueBuffer` behind the wait: a null buffer flushes in push mode, a
  buffer that is queued already is refused.
-/
def queueCommit (threshold : Nat) (phyAddr : Nat) (s : DataShared) :
    Except Fault (QueueOutcome × DataShared) := do
  if s.overlayMode = .push ∧ phyAddr = 0 then
    if 0 < s.queued.count then
      let s ← s.dropHead
      return (.returned 0, s)
    else
      return (.returned 0, s)
  else if s.queued.contents.contains phyAddr then
    return (.returned einval, s)
  else
    let s ← s.setDisplayed s.queued.tail 0
    let queued ← s.queued.push phyAddr
    let s := { s with queued := queued }
    if s.overlayMode = .push ∧ threshold < s.queued.count then
      let s ← s.dropHead
      return (.returned 0, s)
    else
      return (.returned 0, s)

/- `overlay_data_queueBuffer` up to its return or wait. -/
def queueBuffer (threshold : Nat) (phyAddr : Nat) (s : DataShared) :
    Except Fault (QueueOutcome × DataShared) := do
  if s.inDestroy then
    return (.returned einval, s)
  else
    let wait ← s.queueMustWait threshold
    if wait then
      return (.waiting, { s with waitBufFlag := true })
    else
      s.queueCommit threshold phyAddr

/- `overlay_data_queueBuffer` behind its wait. -/
def queueBufferWoken (threshold : Nat) (phyAddr : Nat)
    (s : DataShared) : Except Fault (QueueOutcome × DataShared) :=
  if s.waitBufFlag then
    .ok (.returned einval, s)
  else
    s.queueCommit threshold phyAddr

end DataShared

------
-- The Mixer Side
------

namespace DataShared

/- `free_bufs[free_tail] = buffer`, in normal mode only. -/
def returnBuffer (s : DataShared) (buffer : Nat) : Except Fault DataShared :=
  match s.overlayMode with
  | .normal => do
      let free ← s.free.push buffer
      return { s with free := free }
  | .push => .ok s

/- The loop that flushes the queue, `k` buffers of it. -/
def flushQueue : Nat → DataShared → Except Fault DataShared
| 0, s => .ok s
| k + 1, s => do
    let (buffer, queued) ← s.queued.pop 0
    let s ← { s with queued := queued }.returnBuffer buffer
    flushQueue k { s with waitBufFlag := false }

/-
  The mixer's section that fetches: flush if the overlay is destroyed or hidden, then fetch the head
  of the queue. The buffer is zero if there is none. Normal mode takes it out.
-/
def fetch (hidden : Bool) (s : DataShared) : Except Fault (Nat × DataShared) := do
  let s ←
    if s.inDestroy || hidden then
      s.flushQueue s.queued.count
    else
      pure s
  if s.queued.count = 0 then
    return (0, s)
  else
    match s.overlayMode with
    | .normal =>
      let (buffer, queued) ← s.queued.pop 0
      return (buffer, { s with queued := queued, bufMixing := true })
    | .push =>
      let buffer ← s.queued.peek
      return (buffer, { s with bufMixing := true })

/- The mixer's section at `free_buf_exit`, for a buffer that is not null. -/
def freeBuffer (buffer : Nat) (s : DataShared) : Except Fault DataShared := do
  let s ← s.returnBuffer buffer
  let s := { s with waitBufFlag := false, bufMixing := false }
  match s.overlayMode with
  | .normal => return s
  | .push => s.setDisplayed s.queued.head 1

end DataShared

------
-- Allocating The Buffers
------

open List Function

/- `MAX_SLOT` of the allocator. -/
def maxSlot : Nat := 64

/- `PmemAllocator` with its memory mapped. -/
structure PmemAllocator where
  virBase : Nat
  phyBase : Nat
  bufSize : Nat
  slotAllocated : List Bool

variable (a : PmemAllocator)

/- The buffer in a slot; addresses have 32 bits. -/
def PmemAllocator.bufferAt (index : Nat) : OverlayBuffer where
  virAddr := (a.virBase + index * a.bufSize) % 2 ^ 32
  phyAddr := (a.phyBase + index * a.bufSize) % 2 ^ 32

/- `PmemAllocator::allocate`, for the first slot not taken. -/
def PmemAllocator.allocate (size : Nat) : Option (OverlayBuffer × PmemAllocator) :=
  if a.virBase = 0 ∨ a.bufSize < size then
    none
  else
    match a.slotAllocated.findIdx? (fun taken => !taken) with
    | some index =>
      some (a.bufferAt index, { a with slotAllocated := a.slotAllocated.set index true })
    | none => none

/- With the first `n` slots taken, the next one is allocated. -/
theorem PmemAllocator.allocate_next (hVir : a.virBase ≠ 0) {size n : Nat}
    (hSize : size ≤ a.bufSize) (hSlot : n < maxSlot) :
    { a with slotAllocated := replicate n true ++ replicate (maxSlot - n) false }.allocate size =
      some (a.bufferAt n,
    { a with
          slotAllocated :=
            replicate (n + 1) true ++ replicate (maxSlot - (n + 1)) false }) := by
  have hSplit : maxSlot - n = maxSlot - (n + 1) + 1 := by omega
  have hFind : (replicate n true ++ replicate (maxSlot - n) false).findIdx?
      (fun taken => !taken) = some n := by
    rw [hSplit, replicate_succ, findIdx?_append]
    simp [findIdx?_cons]
  have hSet : (replicate n true ++ replicate (maxSlot - n) false).set n true =
      replicate (n + 1) true ++ replicate (maxSlot - (n + 1)) false := by
    rw [hSplit, replicate_succ, set_append_right _ _ (by simp)]
    simp [replicate_succ']
  simp [allocate, hVir, not_lt.mpr hSize, hFind, hSet, bufferAt]

/- `mBufSize`, the size rounded up to `DEFAULT_PMEM_ALIGN`. -/
def alignedSize (size : Nat) : Nat :=
  (size + 4095) / 4096 * 4096

/-
  The memory that the driver maps for an allocator: not at address zero, and large enough for a full
  ring of buffers below the end of the address space.
-/
structure PmemRegion where
  virBase : Nat
  phyBase : Nat
  size : Nat
  virPositive : 0 < virBase
  phyPositive : 0 < phyBase
  sizePositive : 0 < size
  virFits : virBase + maxOverlayBufferNum * alignedSize size ≤ 2 ^ 32
  phyFits : phyBase + maxOverlayBufferNum * alignedSize size ≤ 2 ^ 32

/- A new allocator on a region. -/
def PmemRegion.allocator (region : PmemRegion) : PmemAllocator where
  virBase := region.virBase
  phyBase := region.phyBase
  bufSize := alignedSize region.size
  slotAllocated := replicate maxSlot false

/- The loop that allocates buffers and inserts them into the free ring, `k` more of them. -/
def insertBuffers (size : Nat) :
    Nat → PmemAllocator → Ring Nat maxOverlayBufferNum → List OverlayBuffer → Except Fault
      (Int × Ring Nat maxOverlayBufferNum × List OverlayBuffer)
| 0, _, free, table => .ok (0, free, table)
| k + 1, a, free, table =>
  match a.allocate size with
  | none => .ok (-1, free, table ++ replicate (k + 1) ⟨0, 0⟩)
  | some (buffer, a) => do
      let free ← free.fill buffer.phyAddr
      insertBuffers size k a free (table ++ [buffer])

/-
  `overlay_data_setParameter` for `OVERLAY_BUFNUM`: its result, the shared record and the client's
  table.
-/
def setBufnum (region : PmemRegion) (value : Nat) (s : DataShared) (table : List OverlayBuffer) :
    Except Fault (Int × DataShared × List OverlayBuffer) :=
  if maxOverlayBufferNum < value then
    .ok (einval, s, table)
  else if s.free.count ≠ s.numBuffer then
    .ok (einval, s, table)
  else do
    let (ret, free, table) ← insertBuffers region.size value region.allocator (Ring.empty 0) []
    let s : DataShared := { s with free := free, queued := Ring.empty 0, numBuffer := value }
    return (ret, s, table)

------
-- Worlds And Their Steps
------

def overlayQueueThreshold : Nat := 2

/- A client call between two of its critical sections. -/
inductive Call where
| dequeueWaiting (failed : Bool)
| dequeueRetry
| queueWaiting (handle : Nat)
deriving DecidableEq, Repr

/- The handle that a call has in hand. -/
def Call.handle : Call → Option Nat
| .dequeueWaiting _ => none
| .dequeueRetry => none
| .queueWaiting handle => some handle

structure World where
  shared : DataShared
  /- `ctx->overlay_buffer`. -/
  table : List OverlayBuffer
  /- Handles that the client has dequeued. -/
  hands : List Nat
  calls : List Call
  /- The mixer's `overlay_buf0`, zero if it has none. -/
  mixing : Nat
deriving DecidableEq, Repr

/- An overlay as `overlay_data_initialize` leaves it. -/
def World.init : World where
  shared :=
    { numBuffer := 0
      free := Ring.empty 0
      queued := Ring.empty 0
      bufDisplayed := Vector.replicate _ 0
      waitBufFlag := false
      overlayMode := .normal
      inDestroy := false
      bufMixing := false }
  table := []
  hands := []
  calls := []
  mixing := 0

inductive Action where
| setBufnum (value : Nat) (region : PmemRegion)
| dequeue
/- Queue a handle that the client has dequeued. -/
| queue (handle : Nat)
/- A call gets `obj_lock` back. -/
| resume (i : Nat)
| fetch (hidden : Bool)
| free

namespace World

/- The world after a section of `dequeueBuffer`. -/
def afterDequeue (w : World) (failed : Bool) (result : DequeueOutcome × DataShared) : World :=
  match result with
  | (.returned _ (some handle), s) =>
    { w with shared := s, hands := handle :: w.hands }
  | (.returned _ none, s) => { w with shared := s }
  | (.waiting, s) =>
    { w with shared := s, calls := .dequeueWaiting failed :: w.calls }
  | (.again, s) =>
    { w with shared := s, calls := .dequeueRetry :: w.calls }

/- The world after a section of `queueBuffer` for a handle that is in the client's hands no more. -/
def afterQueue (w : World) (handle : Nat) (result : QueueOutcome × DataShared) : World :=
  match result with
  | (.returned ret, s) =>
    if ret = 0 then
      { w with shared := s }
    else
      { w with shared := s, hands := handle :: w.hands }
  | (.waiting, s) =>
    { w with shared := s, calls := .queueWaiting handle :: w.calls }

/- A call gets `obj_lock` back and goes on. -/
def resumeCall (w : World) : Call → Except Fault World
| .dequeueWaiting failed => do
    let result ← w.shared.dequeueBufferWoken w.table failed
    return w.afterDequeue (failed || w.shared.waitBufFlag) result
| .dequeueRetry => do
    let result ← w.shared.dequeueBuffer w.table
    return w.afterDequeue true result
| .queueWaiting handle =>
  match w.table[handle]? with
  | none => .error .outOfBounds
  | some buffer => do
      let result ← w.shared.queueBufferWoken overlayQueueThreshold buffer.phyAddr
      return w.afterQueue handle result

end World

/-
  One step. An action that cannot be taken leaves the world as it is: the client queues only handles
  it has, and the mixer fetches and frees in turn.
-/
def step (w : World) : Action → Except Fault World
| .setBufnum value region => do
    let (_, shared, table) ← Overlay.setBufnum region value w.shared w.table
    return { w with shared := shared, table := table }
| .dequeue => do
    let result ← w.shared.dequeueBuffer w.table
    return w.afterDequeue false result
| .queue handle =>
  if handle ∈ w.hands then
    match w.table[handle]? with
    -- Not a buffer of the table: `-EINVAL`.
    | none => .ok w
    | some buffer => do
        let result ← w.shared.queueBuffer overlayQueueThreshold buffer.phyAddr
        return { w with hands := w.hands.erase handle }.afterQueue handle result
  else
    .ok w
| .resume i =>
  match w.calls[i]? with
  | none => .ok w
  | some call =>
    { w with calls := w.calls.eraseIdx i }.resumeCall call
| .fetch hidden =>
  if w.mixing = 0 then do
    let (buffer, shared) ← w.shared.fetch hidden
    return { w with shared := shared, mixing := buffer }
  else
    .ok w
| .free =>
  if w.mixing = 0 then
    .ok w
  else do
    let shared ← w.shared.freeBuffer w.mixing
    return { w with shared := shared, mixing := 0 }

------
-- Calls Of The Allocator
------

variable {i : Nat} {a : PmemAllocator}

/- `mTotalSize`, a product of 32 bits. -/
def totalSize (bufCount bufSize : Nat) : Nat :=
  alignedSize bufSize * bufCount % 2 ^ 32

/-
  An allocator whose constructor succeeded: the driver has mapped memory of the total size, not at
  address zero.
-/
structure Constructed where
  bufCount : Nat
  bufSize : Nat
  virBase : Nat
  phyBase : Nat
  count_le : bufCount ≤ maxSlot
  size_lt : alignedSize bufSize < 2 ^ 31
  total_pos : 0 < totalSize bufCount bufSize
  virPositive : 0 < virBase
  virFits : virBase + totalSize bufCount bufSize ≤ 2 ^ 32

def Constructed.allocator (c : Constructed) : PmemAllocator where
  virBase := c.virBase
  phyBase := c.phyBase
  bufSize := alignedSize c.bufSize
  slotAllocated := replicate maxSlot false

/- `nSlot` of `deAllocate`, by unsigned division. -/
def PmemAllocator.nSlot (virAddr : Nat) : Nat :=
  (virAddr + 2 ^ 32 - a.virBase) % 2 ^ 32 / a.bufSize

/- `PmemAllocator::deAllocate`, which looks at the address of the buffer only. -/
def PmemAllocator.deAllocate (virAddr : Nat) : Option PmemAllocator :=
  if a.virBase = 0 then none
  else if a.nSlot virAddr < maxSlot ∧ a.slotAllocated[a.nSlot virAddr]? = some true then
    some { a with slotAllocated := a.slotAllocated.set (a.nSlot virAddr) false }
  else none

inductive PmemCall where
| allocate (size : Nat)
| deAllocate (virAddr : Fin (2 ^ 32))

/- The allocator and the buffers that were not given back. -/
structure Pool where
  allocator : PmemAllocator
  live : List OverlayBuffer

/- The address is in the buffer. -/
def inside (bufSize virAddr : Nat) (b : OverlayBuffer) : Bool :=
  decide (b.virAddr ≤ virAddr ∧ virAddr < b.virAddr + bufSize)

def Pool.call (p : Pool) : PmemCall → Pool
| .allocate size =>
  match p.allocator.allocate size with
  | some (buf, a) => ⟨a, p.live ++ [buf]⟩
  | none => p
| .deAllocate virAddr =>
  match p.allocator.deAllocate virAddr with
  | some a => ⟨a, p.live.filter fun b => !inside a.bufSize virAddr b⟩
  | none => p

/- The pool after some calls on a new allocator. -/
def Constructed.after (c : Constructed) (calls : List PmemCall) : Pool :=
  calls.foldl Pool.call ⟨c.allocator, []⟩

/- Live buffers are in the memory and disjoint, and there are no more than were asked for. -/
structure OwnMemory (c : Constructed) (p : Pool) : Prop where
  within : ∀ b ∈ p.live, c.virBase ≤ b.virAddr ∧
      b.virAddr + alignedSize c.bufSize ≤ c.virBase + totalSize c.bufCount c.bufSize
  disjoint : p.live.Pairwise fun b d =>
      b.virAddr + alignedSize c.bufSize ≤ d.virAddr ∨ d.virAddr + alignedSize c.bufSize ≤ b.virAddr
  fails : c.bufCount ≤ p.live.length → ∀ size, p.allocator.allocate size = none

------
-- All Slots Have Memory
------

/- The live buffers are those of the slots that are taken. -/
structure Tracks (c : Constructed) (p : Pool) (slots : List Nat) : Prop where
  allocator : p.allocator = { c.allocator with slotAllocated := p.allocator.slotAllocated }
  length : p.allocator.slotAllocated.length = maxSlot
  nodup : slots.Nodup
  live : p.live = slots.map c.allocator.bufferAt
  taken : ∀ i, i ∈ slots ↔ p.allocator.slotAllocated[i]? = some true

variable {c : Constructed} {p : Pool} {slots : List Nat}

namespace Tracks

theorem start (c : Constructed) : Tracks c ⟨c.allocator, []⟩ [] where
  allocator := rfl
  length := length_replicate
  nodup := nodup_nil
  live := rfl
  taken := by
    simp [Constructed.allocator, getElem?_replicate]

theorem lt_maxSlot (h : Tracks c p slots) (hMem : i ∈ slots) : i < maxSlot := by
  have hTaken := (h.taken i).mp hMem
  rw [← h.length]
  exact (List.getElem?_eq_some_iff.mp hTaken).1

/- A slot that is allocated was free. -/
theorem allocate (h : Tracks c p slots) {size : Nat} {buf : OverlayBuffer}
    (hSome : p.allocator.allocate size = some (buf, a)) :
    ∃ index, index < maxSlot ∧ index ∉ slots ∧
      Tracks c ⟨a, p.live ++ [buf]⟩ (slots ++ [index]) := by
  unfold PmemAllocator.allocate at hSome
  split at hSome
  · cases hSome
  · split at hSome
    · rename_i index hFind
      rcases findIdx?_eq_some_iff_getElem.mp hFind with ⟨hLt, hFree, _⟩
      have hNot : index ∉ slots := by
        rw [h.taken, getElem?_eq_getElem hLt]
        simpa using hFree
      cases hSome
      refine ⟨index, h.length ▸ hLt, hNot, ?_, ?_, ?_, ?_, ?_⟩
      · rw [h.allocator]
      · exact length_set.trans h.length
      · exact nodup_append.mpr ⟨h.nodup, nodup_singleton _, by
          intro i hi j hj
          rw [mem_singleton] at hj
          rintro rfl
          exact hNot (hj ▸ hi)⟩
      · rw [h.live, map_append, h.allocator]
        rfl
      · intro i
        rw [mem_append, mem_singleton, h.taken, getElem?_set]
        by_cases hSame : index = i
        · simp [hSame, hSame ▸ hLt]
        · simp [hSame, Ne.symm hSame]
    · cases hSome

end Tracks

section

variable (hCount : c.bufCount = maxSlot) (hWhole : alignedSize c.bufSize * maxSlot < 2 ^ 32)

include hCount hWhole

omit hCount hWhole in
theorem slot_le {j : Nat} (hLess : i < j) :
    i * alignedSize c.bufSize + alignedSize c.bufSize ≤ j * alignedSize c.bufSize := by
  rw [← Nat.succ_mul]
  exact Nat.mul_le_mul_right _ hLess

theorem totalSize_eq : totalSize c.bufCount c.bufSize = alignedSize c.bufSize * maxSlot := by
  rw [totalSize, hCount, Nat.mod_eq_of_lt hWhole]

theorem virAddr_eq (hi : i < maxSlot) :
    (c.allocator.bufferAt i).virAddr = c.virBase + i * alignedSize c.bufSize := by
  have hFits := c.virFits
  have hPositive := c.total_pos
  have hLe := slot_le (c := c) hi
  rw [totalSize_eq hCount hWhole, Nat.mul_comm] at hFits hPositive
  have hSize := Nat.pos_of_mul_pos_left hPositive
  have hLess : c.virBase + i * alignedSize c.bufSize < 2 ^ 32 := by omega
  exact Nat.mod_eq_of_lt hLess

/- The address is in the slot that `deAllocate` computes. -/
theorem inside_iff (hi : i < maxSlot) (virAddr : Fin (2 ^ 32))
    (hSlot : c.allocator.nSlot virAddr < maxSlot) :
    inside (alignedSize c.bufSize) virAddr (c.allocator.bufferAt i) = true ↔
      c.allocator.nSlot virAddr = i := by
  change (virAddr.val + 2 ^ 32 - c.virBase) % 2 ^ 32 / alignedSize c.bufSize < _ at hSlot
  change _ ↔ (virAddr.val + 2 ^ 32 - c.virBase) % 2 ^ 32 / alignedSize c.bufSize = i
  have hFits := c.virFits
  have hPositive := c.total_pos
  rw [totalSize_eq hCount hWhole] at hFits hPositive
  have hSize := Nat.pos_of_mul_pos_right hPositive
  rw [Nat.div_lt_iff_lt_mul hSize, Nat.mul_comm] at hSlot
  have hOffset : (virAddr.val + 2 ^ 32 - c.virBase) % 2 ^ 32 = virAddr.val - c.virBase ∧
      c.virBase ≤ virAddr.val := by
    omega
  rw [inside, decide_eq_true_iff, virAddr_eq hCount hWhole hi, hOffset.1, Nat.div_eq_iff hSize,
    Nat.mul_comm i]
  omega

section

variable (h : Tracks c p slots)

include h

/- A buffer that is given back is the one of its slot. -/
theorem Tracks.deAllocate (virAddr : Fin (2 ^ 32))
    (hSome : p.allocator.deAllocate virAddr = some a) :
    ∃ rest, Tracks c ⟨a, p.live.filter fun b => !inside a.bufSize virAddr b⟩ rest := by
  have hSlotEq : p.allocator.nSlot virAddr = c.allocator.nSlot virAddr := by
    rw [h.allocator]
    rfl
  unfold PmemAllocator.deAllocate at hSome
  rw [hSlotEq] at hSome
  split at hSome
  · cases hSome
  · split at hSome
    · rename_i hSlot
      cases hSome
      refine ⟨slots.filter fun i => c.allocator.nSlot virAddr ≠ i, ?_, length_set.trans h.length,
        h.nodup.filter _, ?_, ?_⟩
      · rw [h.allocator]
      · rw [h.live, filter_map]
        refine congrArg (map c.allocator.bufferAt) (filter_congr ?_)
        intro i hMem
        have hSize : p.allocator.bufSize = alignedSize c.bufSize := by
          rw [h.allocator]
          rfl
        rw [Bool.eq_iff_iff, comp_apply, Bool.not_eq_true', ← Bool.not_eq_true, decide_eq_true_iff,
          hSize]
        exact (inside_iff hCount hWhole (h.lt_maxSlot hMem) virAddr hSlot.1).not
      · intro i
        rw [mem_filter, h.taken, getElem?_set, decide_eq_true_iff]
        by_cases hSame : c.allocator.nSlot virAddr = i
        · simp [hSame]
        · simp [hSame]
    · cases hSome

theorem Tracks.call (call : PmemCall) : ∃ rest, Tracks c (p.call call) rest := by
  cases call with
  | allocate size =>
    rw [Pool.call]
    split
    · rename_i hSome
      rcases h.allocate hSome with ⟨index, _, _, hNext⟩
      exact ⟨_, hNext⟩
    · exact ⟨slots, h⟩
  | deAllocate virAddr =>
    rw [Pool.call]
    split
    · rename_i hSome
      exact h.deAllocate hCount hWhole virAddr hSome
    · exact ⟨slots, h⟩

/- The slots are disjoint, and all of them are memory. -/
theorem Tracks.ownMemory : OwnMemory c p where
  within := by
    rw [h.live, forall_mem_map, totalSize_eq hCount hWhole]
    intro i hMem
    have hLe := slot_le (c := c) (h.lt_maxSlot hMem)
    rw [virAddr_eq hCount hWhole (h.lt_maxSlot hMem), mul_comm _ maxSlot]
    omega
  disjoint := by
    rw [h.live, pairwise_map]
    refine h.nodup.imp_of_mem ?_
    intro i j hI hJ hNe
    rw [virAddr_eq hCount hWhole (h.lt_maxSlot hI), virAddr_eq hCount hWhole (h.lt_maxSlot hJ)]
    rcases lt_or_gt_of_ne hNe with hLess | hLess
    · have hLe := slot_le (c := c) hLess
      omega
    · have hLe := slot_le (c := c) hLess
      omega
  fails := by
    intro hAll size
    rw [h.live, length_map, hCount] at hAll
    cases hSome : p.allocator.allocate size with
    | none => rfl
    | some result =>
      -- One slot more than there are.
      rcases h.allocate hSome with ⟨index, hIndex, hNot, _⟩
      have hNodup : (index :: slots).Nodup := nodup_cons.mpr ⟨hNot, h.nodup⟩
      have hSubset : index :: slots ⊆ range maxSlot := by
        intro i hMem
        rw [mem_range]
        rcases mem_cons.mp hMem with rfl | hOld
        · exact hIndex
        · exact h.lt_maxSlot hOld
      have hLength := (hNodup.subperm hSubset).length_le
      rw [length_range, length_cons] at hLength
      omega

theorem Tracks.calls (calls : List PmemCall) : ∃ rest, Tracks c (calls.foldl Pool.call p) rest := by
  induction calls generalizing p slots with
  | nil => exact ⟨slots, h⟩
  | cons call calls ih =>
    rcases h.call hCount hWhole call with ⟨rest, hNext⟩
    exact ih hNext

end

end

------
-- More Slots Than Memory
------

namespace Constructed

/- The first slots are allocated one after the other. -/
theorem after_allocate {n : Nat} (hSlots : n ≤ maxSlot) :
    c.after (replicate n (.allocate 0)) =
      ⟨{ c.allocator with slotAllocated := replicate n true ++ replicate (maxSlot - n) false },
        (range n).map c.allocator.bufferAt⟩ := by
  induction n with
  | zero => rfl
  | succ n ih =>
    have hNext := c.allocator.allocate_next (Nat.pos_iff_ne_zero.mp c.virPositive)
      (Nat.zero_le _) hSlots
    unfold after at ih ⊢
    rw [replicate_succ', foldl_append, ih (by omega), foldl_cons, foldl_nil, Pool.call, hNext,
      range_succ, map_append]
    rfl

/- A total that wrapped is less than the slots need. -/
theorem within_fails (hWrapped : totalSize c.bufCount c.bufSize < alignedSize c.bufSize * maxSlot) :
    ∃ n ≤ maxSlot, ¬ OwnMemory c (c.after (replicate n (.allocate 0))) := by
  have hFits := c.virFits
  have hBase := c.virPositive
  have hSize : 0 < alignedSize c.bufSize := Nat.pos_of_mul_pos_right (Nat.zero_lt_of_lt hWrapped)
  have hSlot : totalSize c.bufCount c.bufSize / alignedSize c.bufSize < maxSlot := by
    rw [Nat.div_lt_iff_lt_mul hSize, Nat.mul_comm]
    exact hWrapped
  -- The slot behind the last one that is whole.
  generalize hSlotEq : totalSize c.bufCount c.bufSize / alignedSize c.bufSize = slot at hSlot
  rw [Nat.div_eq_iff hSize] at hSlotEq
  refine ⟨slot + 1, hSlot, ?_⟩
  intro hOwn
  rw [after_allocate hSlot] at hOwn
  have hIn := hOwn.within (c.allocator.bufferAt slot) (by simp [range_succ])
  change _ ≤ (c.virBase + slot * alignedSize c.bufSize) % 2 ^ 32 ∧
    (c.virBase + slot * alignedSize c.bufSize) % 2 ^ 32 + _ ≤ _ at hIn
  omega

end Constructed

/-
  An allocator hands out its own memory in all sequences of calls if and only if it was made for
  `MAX_SLOT` buffers and their size is a number of 32 bits.
-/
theorem pmem_own_memory_iff (c : Constructed) :
    (∀ calls, OwnMemory c (c.after calls)) ↔
      c.bufCount = maxSlot ∧ alignedSize c.bufSize * maxSlot < 2 ^ 32 := by
  constructor
  · intro hAll
    have hCount : c.bufCount = maxSlot := by
      by_contra hNot
      have hLess : c.bufCount < maxSlot := Nat.lt_of_le_of_ne c.count_le hNot
      have hFails := (hAll (replicate c.bufCount (.allocate 0))).fails
      rw [Constructed.after_allocate hLess.le] at hFails
      have hNone := hFails (by simp) 0
      rw [c.allocator.allocate_next (Nat.pos_iff_ne_zero.mp c.virPositive) (Nat.zero_le _) hLess]
        at hNone
      cases hNone
    refine ⟨hCount, ?_⟩
    by_contra hWrapped
    have hTotal : totalSize c.bufCount c.bufSize < 2 ^ 32 := Nat.mod_lt _ (by decide)
    rcases c.within_fails (by omega) with ⟨n, _, hNot⟩
    exact hNot (hAll _)
  · rintro ⟨hCount, hWhole⟩ calls
    rcases (Tracks.start c).calls hCount hWhole calls with ⟨slots, hTracks⟩
    exact hTracks.ownMemory hCount hWhole

/- An allocator for one buffer. -/
def oneBuffer : Constructed where
  bufCount := 1
  bufSize := 4096
  virBase := 4096
  phyBase := 4096
  count_le := by decide
  size_lt := by decide
  total_pos := by decide
  virPositive := (by decide : 0 < 2 ^ 12)
  virFits := by decide

/- The second buffer is behind the memory. -/
theorem pmem_hands_out_more :
    (oneBuffer.after [.allocate 0, .allocate 0]).live = [⟨4096, 4096⟩, ⟨8192, 8192⟩] ∧
      oneBuffer.virBase + totalSize oneBuffer.bufCount oneBuffer.bufSize = 8192 := by
  decide

------
-- Worlds In Push Mode
------

variable {buffer : Nat}

/- The threshold that push mode sets. -/
def pushQueueThreshold : Nat := 1

/- Where the client is in a call of `queueBuffer`. -/
inductive PushClient where
| idle
/- In `pthread_cond_wait`, with `obj_lock` released. -/
| waiting (buffer : Nat)
/- Signalled, but `obj_lock` is not taken again yet. -/
| signalled (buffer : Nat)
deriving DecidableEq, Repr

structure PushWorld where
  shared : DataShared
  client : PushClient
  /- The mixer's `overlay_buf0`, zero if it has none. -/
  mixing : Nat
deriving DecidableEq, Repr

/- The overlay after its change to push mode. -/
def PushWorld.init : PushWorld where
  shared :=
    { numBuffer := 0
      free := Ring.empty 0
      queued := Ring.empty 0
      bufDisplayed := Vector.replicate _ 0
      waitBufFlag := false
      overlayMode := .push
      inDestroy := false
      bufMixing := false }
  client := .idle
  mixing := 0

inductive PushAction where
/- Call `queueBuffer`; a null buffer flushes. -/
| queue (buffer : Nat)
/- The signalled client takes `obj_lock` again. -/
| resume
| fetch (hidden : Bool)
| free
deriving DecidableEq, Repr

/- `pthread_cond_signal`, sent when the flag is cleared. -/
def PushClient.afterSection (client : PushClient) (before after : DataShared) : PushClient :=
  match client with
  | .waiting buffer =>
    if before.waitBufFlag && !after.waitBufFlag then
      .signalled buffer
    else
      .waiting buffer
  | other => other

/- One step; a step that cannot be taken changes nothing. -/
def pushStep (w : PushWorld) : PushAction → Except Fault PushWorld
| .queue buffer =>
  match w.client with
  | .idle => do
      let (outcome, shared) ← w.shared.queueBuffer pushQueueThreshold buffer
      match outcome with
      | .returned _ => return { w with shared := shared }
      | .waiting => return { w with shared := shared, client := .waiting buffer }
  | _ => .ok w
| .resume =>
  match w.client with
  | .signalled buffer => do
      let (_, shared) ← w.shared.queueBufferWoken pushQueueThreshold buffer
      return { w with shared := shared, client := .idle }
  | _ => .ok w
| .fetch hidden =>
  if w.mixing = 0 then do
    let (buffer, shared) ← w.shared.fetch hidden
    return {
      shared := shared
      client := w.client.afterSection w.shared shared
      mixing := buffer }
  else
    .ok w
| .free =>
  if w.mixing = 0 then
    .ok w
  else do
    let shared ← w.shared.freeBuffer w.mixing
    return {
      shared := shared
      client := w.client.afterSection w.shared shared
      mixing := 0 }

/- The buffer that is being mixed is the head of the queue. -/
def StillQueued (w : PushWorld) : Prop :=
  w.mixing ≠ 0 → w.shared.queued.contents.head? = some w.mixing

/-
  A client does not go on with a call while a buffer is being mixed, unless it pushes that same
  buffer.
-/
def Rechecked (w : PushWorld) (action : PushAction) : Prop :=
  ∀ buffer, action = .resume → w.client = .signalled buffer → w.mixing ≠ 0 → buffer = w.mixing

------
-- What The Sections Do To The Queue
------

/- In push mode, with these queued buffers. -/
structure PushRing (s : DataShared) (queued : List Nat) : Prop where
  push : s.overlayMode = .push
  alive : s.inDestroy = false
  queued : s.queued.Holds queued

namespace PushRing

variable {s : DataShared} {queued : List Nat} {x : Nat}

theorem setDisplayed_eq (h : PushRing s queued) {index : Nat}
    (hIndex : index < maxOverlayBufferNum) (value : Nat) :
    ∃ next, s.setDisplayed index value = .ok next ∧ PushRing next queued ∧
      next.bufMixing = s.bufMixing ∧ next.waitBufFlag = s.waitBufFlag ∧ next.queued = s.queued := by
  refine ⟨{ s with bufDisplayed := s.bufDisplayed.setIfInBounds index value }, ?_,
      ⟨h.push, h.alive, h.queued⟩, rfl, rfl, rfl⟩
  simp [DataShared.setDisplayed, hIndex]

theorem dropHead_eq (h : PushRing s (x :: queued)) :
    ∃ next, s.dropHead = .ok next ∧ PushRing next queued ∧ next.bufMixing = s.bufMixing ∧
      next.waitBufFlag = s.waitBufFlag := by
  rcases h.setDisplayed_eq h.queued.head_lt 0 with ⟨cleared, hCleared, hRing, hMixing, hFlag, -⟩
  rcases hRing.queued.pop_eq 0 with ⟨ring, hPop, hHolds⟩
  refine ⟨{ cleared with queued := ring }, ?_, ⟨hRing.push, hRing.alive, hHolds⟩, hMixing, hFlag⟩
  simp [DataShared.dropHead, hCleared, hPop]

/-
  The queue after a buffer has been pushed: a null buffer empties it, a buffer that is in it changes
  nothing, any other takes its place.
-/
def afterPush (queued : List Nat) (x : Nat) : List Nat :=
  if x = 0 then
    []
  else if x ∈ queued then
    queued
  else
    [x]

section

variable (h : PushRing s queued)

include h

theorem queueCommit_eq (hSingle : queued.length ≤ 1) (x : Nat) :
    ∃ outcome next, s.queueCommit pushQueueThreshold x = .ok (.returned outcome, next) ∧
      PushRing next (afterPush queued x) ∧ next.bufMixing = s.bufMixing ∧
      next.waitBufFlag = s.waitBufFlag := by
  have hCount := h.queued.count_eq
  by_cases hNull : x = 0
  · subst hNull
    cases queued with
    | nil =>
      refine ⟨0, s, ?_, h, rfl, rfl⟩
      simp [DataShared.queueCommit, h.push, hCount]
    | cons y queued =>
      have hNil : queued = [] := length_eq_zero_iff.mp (by simpa using hSingle)
      subst hNil
      rcases h.dropHead_eq with ⟨next, hDrop, hNext, hMixing, hFlag⟩
      refine ⟨0, next, ?_, hNext, hMixing, hFlag⟩
      simp [DataShared.queueCommit, h.push, hCount, hDrop]
  by_cases hMem : x ∈ queued
  · refine ⟨einval, s, ?_, ?_, rfl, rfl⟩
    · simp [DataShared.queueCommit, hNull, h.queued.contents_eq, hMem]
    · rw [afterPush, if_neg hNull, if_pos hMem]
      exact h
  rw [afterPush, if_neg hNull, if_neg hMem]
  have hTail : s.queued.tail < maxOverlayBufferNum := by
    rw [h.queued.tail_eq]
    exact Nat.mod_lt _ (by decide)
  rcases h.setDisplayed_eq hTail 0 with ⟨cleared, hCleared, hRing, hMixing, hFlag, -⟩
  rcases hRing.queued.push_eq (by
      change _ < 24
      omega) x with ⟨ring, hPush, hHolds⟩
  have hPushed : PushRing { cleared with queued := ring } (queued ++ [x]) :=
    ⟨hRing.push, hRing.alive, hHolds⟩
  have hRingCount := hHolds.count_eq
  cases queued with
  | nil =>
    refine ⟨0, { cleared with queued := ring }, ?_, hPushed, hMixing, hFlag⟩
    simp [DataShared.queueCommit, hNull, h.queued.contents_eq, hCleared, hPush, hRingCount,
      pushQueueThreshold]
  | cons y queued =>
    have hNil : queued = [] := length_eq_zero_iff.mp (by simpa using hSingle)
    subst hNil
    rcases hPushed.dropHead_eq with ⟨next, hDrop, hNext, hNextMixing, hNextFlag⟩
    refine ⟨0, next, ?_, hNext, hNextMixing.trans hMixing, hNextFlag.trans hFlag⟩
    simp only [hRing.push] at hDrop
    simp [DataShared.queueCommit, hNull, h.queued.contents_eq, hMem, hCleared, hPush, hRingCount,
      hRing.push, pushQueueThreshold, hDrop]

/- A flush empties the queue and clears the wait flag. -/
theorem flushQueue_eq :
    ∃ next, s.flushQueue queued.length = .ok next ∧ PushRing next [] ∧
      next.bufMixing = s.bufMixing ∧ (next.waitBufFlag = true → s.waitBufFlag = true) := by
  induction queued generalizing s with
  | nil => exact ⟨s, rfl, h, rfl, id⟩
  | cons x queued ih =>
    rcases h.queued.pop_eq 0 with ⟨ring, hPop, hHolds⟩
    have hCleared : PushRing { s with queued := ring, waitBufFlag := false } queued :=
      ⟨h.push, h.alive, hHolds⟩
    rcases ih hCleared with ⟨next, hFlush, hNext, hMixing, hFlag⟩
    refine ⟨next, ?_, hNext, hMixing, ?_⟩
    · simp only [length_cons, DataShared.flushQueue, hPop, ok_bind, DataShared.returnBuffer, h.push]
      simpa only [h.push] using hFlush
    · intro hSet
      exact absurd (hFlag hSet) (by simp)

/- The mixer fetches the head and leaves it in the queue. -/
theorem fetch_eq (hidden : Bool) :
    ∃ buffer next queued', s.fetch hidden = .ok (buffer, next) ∧ PushRing next queued' ∧
      (next.waitBufFlag = true → s.waitBufFlag = true) ∧
      ((buffer = 0 ∧ next.bufMixing = s.bufMixing ∧ (queued' = [] ∨ queued' = queued)) ∨
        (next.bufMixing = true ∧ queued' = queued ∧ queued.head? = some buffer)) := by
  cases hidden with
  | true =>
    rcases h.flushQueue_eq with ⟨next, hFlush, hNext, hMixing, hFlag⟩
    have hCount : next.queued.count = 0 := hNext.queued.count_eq
    rw [← h.queued.count_eq] at hFlush
    refine ⟨0, next, [], ?_, hNext, hFlag, .inl ⟨rfl, hMixing, .inl rfl⟩⟩
    simp [DataShared.fetch, hFlush, hCount]
  | false =>
    cases queued with
    | nil =>
      have hCount : s.queued.count = 0 := h.queued.count_eq
      refine ⟨0, s, [], ?_, h, id, .inl ⟨rfl, rfl, .inl rfl⟩⟩
      simp [DataShared.fetch, h.alive, hCount]
    | cons x queued =>
      have hCount : ¬ s.queued.count = 0 := by
        rw [h.queued.count_eq]
        simp
      refine ⟨x, { s with bufMixing := true }, x :: queued, ?_, ⟨h.push, h.alive, h.queued⟩, id,
          .inr ⟨rfl, rfl, rfl⟩⟩
      simp [DataShared.fetch, h.alive, hCount, h.push, Ring.peek, h.queued.head_eq]

theorem freeBuffer_eq (x : Nat) :
    ∃ next, s.freeBuffer x = .ok next ∧ PushRing next queued ∧ next.bufMixing = false ∧
      next.waitBufFlag = false := by
  have hDone : PushRing { s with waitBufFlag := false, bufMixing := false } queued :=
    ⟨h.push, h.alive, h.queued⟩
  rcases hDone.setDisplayed_eq h.queued.head_lt 1 with ⟨next, hSet, hNext, hMixing, hFlag, -⟩
  refine ⟨next, ?_, hNext, hMixing, hFlag⟩
  simp only [DataShared.freeBuffer, DataShared.returnBuffer, h.push, ok_bind]
  simpa only [h.push] using hSet

end

end PushRing

------
-- The Mixed Buffer In Every Run
------

/- What holds between the steps of runs in which no client goes on with a call at the wrong time. -/
structure PushTracked (w : PushWorld) : Prop where
  ring : ∃ queued, PushRing w.shared queued ∧ queued.length ≤ 1 ∧ 0 ∉ queued ∧
      (w.mixing ≠ 0 → queued = [w.mixing])
  mixing : w.shared.bufMixing = decide (w.mixing ≠ 0)
  /- A signalled client finds the wait flag cleared. -/
  signalled : ∀ buffer, w.client = .signalled buffer → w.shared.waitBufFlag = false

theorem PushTracked.init : PushTracked PushWorld.init where
  ring := ⟨[], ⟨rfl, rfl, Ring.Holds.empty (by decide) 0⟩, by simp, by simp, by decide⟩
  mixing := rfl
  signalled := by
    intro buffer hClient
    cases hClient

theorem PushTracked.stillQueued {w : PushWorld} (h : PushTracked w) : StillQueued w := by
  rcases h.ring with ⟨queued, hRing, -, -, hHead⟩
  intro hMixing
  rw [hRing.queued.contents_eq, hHead hMixing]
  rfl

/- The queue never gets longer than one buffer. -/
theorem afterPush_valid {queued : List Nat}
    (hSingle : queued.length ≤ 1) (hNonzero : 0 ∉ queued) (x : Nat) :
    (PushRing.afterPush queued x).length ≤ 1 ∧ 0 ∉ PushRing.afterPush queued x := by
  unfold PushRing.afterPush
  split
  next => simp
  next hNull =>
    split
    next => exact ⟨hSingle, hNonzero⟩
    next =>
      constructor
      · simp
      · simpa using fun hZero => hNull hZero.symm

variable {w next : PushWorld} {action : PushAction}

/- The client is signalled only when the flag is cleared. -/
theorem PushClient.afterSection_signalled {client : PushClient} {before after : DataShared}
    (hOld : ∀ buffer, client = .signalled buffer → before.waitBufFlag = false)
    (hFlag : after.waitBufFlag = true → before.waitBufFlag = true)
    (hClient : client.afterSection before after = .signalled buffer) :
    after.waitBufFlag = false := by
  cases client with
  | idle => cases hClient
  | waiting other =>
    by_contra hSet
    simp [PushClient.afterSection, hSet] at hClient
  | signalled other =>
    by_contra hSet
    have hBefore := hOld other rfl
    rw [hFlag (by simpa using hSet)] at hBefore
    cases hBefore

section

variable (h : PushTracked w)

include h

/- A call that is not made to wait finds nothing mixed. -/
theorem PushTracked.queue (buffer : Nat) :
    ∃ next, pushStep w (.queue buffer) = .ok next ∧ PushTracked next := by
  by_cases hIdle : w.client = .idle
  · rcases h.ring with ⟨queued, hRing, hSingle, hNonzero, hHead⟩
    have hDisplayed : ∃ value, w.shared.headDisplayed = .ok value := by
      have hLt := hRing.queued.head_lt
      simp [DataShared.headDisplayed, hLt]
    rcases hDisplayed with ⟨value, hDisplayed⟩
    by_cases hWait : w.shared.queueMustWait pushQueueThreshold = .ok true
    · refine
        ⟨{ w with
            shared := { w.shared with waitBufFlag := true }
            client := .waiting buffer }, ?_, ?_⟩
      · simp [pushStep, hIdle, DataShared.queueBuffer, hRing.alive, hWait]
      · exact
          { ring := ⟨queued, ⟨hRing.push, hRing.alive, hRing.queued⟩, hSingle, hNonzero, hHead⟩
            mixing := h.mixing
            signalled := by
              intro other hClient
              cases hClient }
    · have hMixing : w.shared.bufMixing = false := by
        by_contra hSet
        apply hWait
        simp [DataShared.queueMustWait, hRing.push, hSet]
      have hGo : w.shared.queueMustWait pushQueueThreshold = .ok false := by
        cases hValue : w.shared.queueMustWait pushQueueThreshold with
        | error fault =>
          simp [DataShared.queueMustWait, hRing.push, hMixing, hDisplayed] at hValue
        | ok wait =>
          cases wait with
          | true => exact absurd hValue hWait
          | false => rfl
      have hNone : w.mixing = 0 := by
        have hDecide := h.mixing
        rw [hMixing] at hDecide
        simpa using hDecide
      rcases hRing.queueCommit_eq hSingle buffer with ⟨outcome, next, hCommit, hNext, hSame, hFlag⟩
      refine ⟨{ w with shared := next }, ?_, ?_⟩
      · simp [pushStep, hIdle, DataShared.queueBuffer, hRing.alive, hGo, hCommit]
      · have hValid := afterPush_valid hSingle hNonzero buffer
        exact
          { ring := ⟨_, hNext, hValid.1, hValid.2, by
                intro hMixed
                exact absurd hNone hMixed⟩
            mixing := hSame.trans h.mixing
            signalled := by
              intro other hClient
              have hOld : w.client = .signalled other := hClient
              rw [hIdle] at hOld
              cases hOld }
  · refine ⟨w, ?_, h⟩
    cases hClient : w.client with
    | idle => exact absurd hClient hIdle
    | waiting other | signalled other => simp [pushStep, hClient]

theorem PushTracked.resume_eq (hClient : w.client = .signalled buffer) {queued : List Nat}
    (hRing : PushRing w.shared queued) (hSingle : queued.length ≤ 1) :
    ∃ shared, pushStep w .resume = .ok { w with shared := shared, client := .idle } ∧
        PushRing shared (PushRing.afterPush queued buffer) ∧
        shared.bufMixing = w.shared.bufMixing := by
  have hFlag := h.signalled buffer hClient
  rcases hRing.queueCommit_eq hSingle buffer with ⟨outcome, next, hCommit, hNext, hSame, -⟩
  refine ⟨next, ?_, hNext, hSame⟩
  simp [pushStep, hClient, DataShared.queueBufferWoken, hFlag, hCommit]

theorem PushTracked.resume (hRechecked : Rechecked w .resume) :
    ∃ next, pushStep w .resume = .ok next ∧ PushTracked next := by
  cases hClient : w.client with
  | idle | waiting other => exact ⟨w, by simp [pushStep, hClient], h⟩
  | signalled buffer =>
    rcases h.ring with ⟨queued, hRing, hSingle, hNonzero, hHead⟩
    rcases h.resume_eq hClient hRing hSingle with ⟨shared, hStep, hNext, hSame⟩
    refine ⟨_, hStep, ?_⟩
    have hValid := afterPush_valid hSingle hNonzero buffer
    refine ⟨⟨_, hNext, hValid.1, hValid.2, ?_⟩, ?_, ?_⟩
    · intro hMixed
      have hQueued := hHead hMixed
      have hBuffer := hRechecked buffer rfl hClient hMixed
      subst hBuffer
      rw [PushRing.afterPush, if_neg hMixed, hQueued, if_pos (by simp)]
    · exact hSame.trans h.mixing
    · intro other hIdle
      cases hIdle

/- A client that goes on at the wrong time takes the head. -/
theorem PushTracked.resume_breaks (hNot : ¬ Rechecked w .resume)
    (hNext : pushStep w .resume = .ok next) : ¬ StillQueued next := by
  unfold Rechecked at hNot
  push Not at hNot
  rcases hNot with ⟨buffer, -, hClient, hMixed, hOther⟩
  rcases h.ring with ⟨queued, hRing, hSingle, hNonzero, hHead⟩
  rcases h.resume_eq hClient hRing hSingle with ⟨shared, hStep, hAfter, -⟩
  rw [hStep] at hNext
  cases hNext
  intro hStill
  have hQueue := hStill hMixed
  rw [hAfter.queued.contents_eq, hHead hMixed, PushRing.afterPush] at hQueue
  by_cases hNull : buffer = 0
  · simp [hNull] at hQueue
  · simp [hNull, hOther] at hQueue

theorem PushTracked.fetch (hidden : Bool) :
    ∃ next, pushStep w (.fetch hidden) = .ok next ∧ PushTracked next := by
  by_cases hMixing : w.mixing = 0
  · rcases h.ring with ⟨queued, hRing, hSingle, hNonzero, -⟩
    have hIdle : w.shared.bufMixing = false := by
      rw [h.mixing]
      simp [hMixing]
    rcases hRing.fetch_eq hidden with ⟨buffer, shared, queued', hFetch, hNext, hFlag, hCases⟩
    refine
      ⟨{ shared := shared
         client := w.client.afterSection w.shared shared
         mixing := buffer }, ?_, ?_⟩
    · simp only [pushStep, hMixing, if_true, hFetch, ok_bind]
      rfl
    have hSignalled : ∀ other, w.client.afterSection w.shared shared = .signalled other →
        shared.waitBufFlag = false := by
      intro other hClient
      exact PushClient.afterSection_signalled h.signalled hFlag hClient
    rcases hCases with ⟨rfl, hSame, hQueue⟩ | ⟨hSet, rfl, hHead⟩
    · refine ⟨⟨queued', hNext, ?_, ?_, ?_⟩, ?_, hSignalled⟩
      · rcases hQueue with rfl | rfl
        · simp
        · exact hSingle
      · rcases hQueue with rfl | rfl
        · simp
        · exact hNonzero
      · intro hMixed
        exact absurd rfl hMixed
      · rw [hSame, hIdle]
        simp
    · have hOne : queued' = [buffer] := by
        cases queued' with
        | nil => cases hHead
        | cons x queued =>
          have hNil : queued = [] := length_eq_zero_iff.mp (by simpa using hSingle)
          subst hNil
          simpa using hHead
      have hBuffer : buffer ≠ 0 := by
        rintro rfl
        exact hNonzero (by simp [hOne])
      refine ⟨⟨queued', hNext, hSingle, hNonzero, fun _ => hOne⟩, ?_, hSignalled⟩
      rw [hSet]
      simp [hBuffer]
  · refine ⟨w, ?_, h⟩
    simp only [pushStep, hMixing, if_false]

theorem PushTracked.free : ∃ next, pushStep w .free = .ok next ∧ PushTracked next := by
  by_cases hMixing : w.mixing = 0
  · refine ⟨w, ?_, h⟩
    simp only [pushStep, hMixing, if_true]
  · rcases h.ring with ⟨queued, hRing, hSingle, hNonzero, -⟩
    rcases hRing.freeBuffer_eq w.mixing with ⟨shared, hFree, hNext, hDone, hFlag⟩
    refine
      ⟨{ shared := shared, client := w.client.afterSection w.shared shared, mixing := 0 }, ?_, ?_⟩
    · simp only [pushStep, hMixing, if_false, hFree, ok_bind]
      rfl
    · refine ⟨⟨queued, hNext, hSingle, hNonzero, ?_⟩, ?_, ?_⟩
      · intro hMixed
        exact absurd rfl hMixed
      · rw [hDone]
        simp
      · intro other _
        exact hFlag

theorem PushTracked.step (hRechecked : Rechecked w action) :
    ∃ next, pushStep w action = .ok next ∧ PushTracked next := by
  cases action with
  | queue buffer => exact h.queue buffer
  | resume => exact h.resume hRechecked
  | fetch hidden => exact h.fetch hidden
  | free => exact h.free

theorem PushTracked.step_breaks (hNot : ¬ Rechecked w action)
    (hNext : pushStep w action = .ok next) : ¬ StillQueued next := by
  cases action with
  | resume => exact h.resume_breaks hNot hNext
  | queue buffer | fetch hidden | free => exact absurd (fun _ hEq => by cases hEq) hNot

end

/-
  In push mode the buffer being mixed is the head of the queue at every moment of a run, if and only
  if no client that was signalled goes on with its call while a buffer is being mixed, unless it
  pushes that buffer again.
-/
theorem push_keeps_mixed_head_iff (actions : List PushAction) :
    Always pushStep StillQueued PushWorld.init actions ↔
      Along pushStep Rechecked PushWorld.init actions :=
  always_iff_along (fun _ hTracked => hTracked.stillQueued)
    (fun _ _ hTracked hCond => hTracked.step hCond)
    (fun _ _ _ hTracked hNot hNext => hTracked.step_breaks hNot hNext)
    PushTracked.init actions

/-
  The client waits while buffer 1 is mixed and is signalled when the mixer is done; the mixer
  fetches buffer 1 again, and then the client takes it out of the queue.
-/
theorem push_takes_mixed_head :
    (run pushStep PushWorld.init [.queue 1, .fetch false, .queue 2, .free, .fetch false,
      .resume]).map (fun w => (w.mixing, w.shared.bufMixing, w.shared.queued.contents)) =
      .ok (1, true, [2]) := by
  decide +kernel

end OpenIvi.Overlay
