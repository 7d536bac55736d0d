import OpenIvi.Overlay.Buffers
import Mathlib.Data.List.Perm.Basic
import Mathlib.Tactic.Tauto

/-
  No buffer of an overlay in normal mode is lost.

  The sections of the client and the mixer are described by what they do to the lists of free and
  queued buffers. From that every step keeps each buffer in exactly one place.

  Main declarations:
    * `Rings`
    * `Conserved`
    * `Tracked.step`
    * `overlay_conserves_buffers_iff`
-/

------
-- What The Sections Do To The Rings
------

namespace OpenIvi.Overlay

open Lib List Function

variable {loose : List Nat} {i index : Nat}

/- In normal mode, with these free and queued buffers. -/
structure Rings (s : DataShared) (free queued : List Nat) : Prop where
  normal : s.overlayMode = .normal
  free : s.free.Holds free
  queued : s.queued.Holds queued

namespace Rings

variable {s : DataShared} {free queued : List Nat} {table : List OverlayBuffer} {x : Nat}

theorem takeFree_eq (h : Rings s (x :: free) queued) {buffer : OverlayBuffer}
    (hFind : findBuffer table x = some (buffer, index)) (hVir : buffer.virAddr ≠ 0) :
    ∃ next, s.takeFree table = .ok (.returned 0 (some index), next) ∧ Rings next free queued ∧
      next.numBuffer = s.numBuffer := by
  rcases h.free.pop_eq 0 with ⟨ring, hPop, hRing⟩
  refine ⟨{ s with free := ring }, ?_, ⟨h.normal, hRing, h.queued⟩, rfl⟩
  simp [DataShared.takeFree, hPop, hFind, hVir]

/-
  How a section of `queueBuffer` may end: the buffer is queued and the call returns zero, or nothing
  changes.
-/
def QueueSpec (s : DataShared) (free queued : List Nat) (x : Nat)
    (result : Except Fault (QueueOutcome × DataShared)) : Prop :=
  ∃ outcome next, result = .ok (outcome, next) ∧ next.numBuffer = s.numBuffer ∧
      ((outcome = .returned 0 ∧ Rings next free (queued ++ [x])) ∨
        (outcome ≠ .returned 0 ∧ Rings next free queued))

section

variable (h : Rings s free queued)

include h

section

variable (hRoom : queued.length < maxOverlayBufferNum) (threshold x : Nat)

include hRoom

/- A buffer is queued unless it is queued already. -/
theorem queueCommit_spec : QueueSpec s free queued x (s.queueCommit threshold x) := by
  have hMode : ¬ s.overlayMode = .push := by
    rw [h.normal]
    decide
  by_cases hMem : x ∈ queued
  · refine ⟨.returned einval, s, ?_, rfl, .inr ⟨by decide, h⟩⟩
    simp [DataShared.queueCommit, hMode, h.queued.contents_eq, hMem]
  · rcases h.queued.push_eq hRoom x with ⟨ring, hPush, hRing⟩
    have hTail : s.queued.tail < maxOverlayBufferNum := by
      rw [h.queued.tail_eq]
      exact Nat.mod_lt _ (by decide)
    refine ⟨.returned 0,
        { s with
          bufDisplayed := s.bufDisplayed.setIfInBounds s.queued.tail 0
          queued := ring }, ?_, rfl, .inl ⟨rfl, h.normal, h.free, hRing⟩⟩
    simp [DataShared.queueCommit, DataShared.setDisplayed, hMode, h.queued.contents_eq, hMem, hTail,
      hPush]

theorem queueBuffer_spec : QueueSpec s free queued x (s.queueBuffer threshold x) := by
  have hSame : ∀ flag : Bool, Rings { s with waitBufFlag := flag } free queued :=
    fun _ => ⟨h.normal, h.free, h.queued⟩
  have hWait : ∃ wait, s.queueMustWait threshold = .ok wait := by
    simp [DataShared.queueMustWait, h.normal]
  rcases hWait with ⟨wait, hWait⟩
  unfold DataShared.queueBuffer
  split
  next => exact ⟨.returned einval, s, rfl, rfl, .inr ⟨by decide, h⟩⟩
  next =>
    rw [hWait, ok_bind]
    split
    next => exact ⟨.waiting, _, rfl, rfl, .inr ⟨by decide, hSame true⟩⟩
    next => exact h.queueCommit_spec hRoom threshold x

theorem queueBufferWoken_spec : QueueSpec s free queued x (s.queueBufferWoken threshold x) := by
  unfold DataShared.queueBufferWoken
  split
  next => exact ⟨.returned einval, s, rfl, rfl, .inr ⟨by decide, h⟩⟩
  next => exact h.queueCommit_spec hRoom threshold x

end

theorem returnBuffer_eq (hRoom : free.length < maxOverlayBufferNum) (x : Nat) :
    ∃ next, s.returnBuffer x = .ok next ∧ Rings next (free ++ [x]) queued ∧
      next.numBuffer = s.numBuffer := by
  rcases h.free.push_eq hRoom x with ⟨ring, hPush, hRing⟩
  refine ⟨{ s with free := ring }, ?_, ⟨h.normal, hRing, h.queued⟩, rfl⟩
  simp [DataShared.returnBuffer, h.normal, hPush]

/- A flush moves the whole queue behind the free buffers. -/
theorem flushQueue_eq (hRoom : free.length + queued.length ≤ maxOverlayBufferNum) :
    ∃ next, s.flushQueue queued.length = .ok next ∧ Rings next (free ++ queued) [] ∧
      next.numBuffer = s.numBuffer := by
  induction queued generalizing s free with
  | nil =>
    rw [append_nil]
    exact ⟨s, rfl, h, rfl⟩
  | cons x queued ih =>
    rw [length_cons] at hRoom
    rcases h.queued.pop_eq 0 with ⟨ring, hPop, hRing⟩
    have hPopped : Rings { s with queued := ring } free queued := ⟨h.normal, h.free, hRing⟩
    rcases hPopped.returnBuffer_eq (by omega) x with ⟨middle, hReturn, hMiddle, hNum⟩
    have hCleared : Rings { middle with waitBufFlag := false } (free ++ [x]) queued :=
      ⟨hMiddle.normal, hMiddle.free, hMiddle.queued⟩
    rcases ih hCleared (by
        rw [length_append, length_singleton]
        omega) with ⟨next, hFlush, hNext, hSame⟩
    refine ⟨next, ?_, ?_, hSame.trans hNum⟩
    · simp only [length_cons, DataShared.flushQueue, hPop, hReturn, ok_bind]
      exact hFlush
    · rwa [append_assoc, singleton_append] at hNext

/- The mixer's fetch moves at most one buffer out of the two rings and none out of order. -/
theorem fetch_spec (hRoom : free.length + queued.length ≤ maxOverlayBufferNum) (hidden : Bool) :
    ∃ buffer next free' queued', s.fetch hidden = .ok (buffer, next) ∧ Rings next free' queued' ∧
      next.numBuffer = s.numBuffer ∧ ((buffer = 0 ∧ free' ++ queued' = free ++ queued) ∨
        free' ++ buffer :: queued' = free ++ queued) := by
  by_cases hFlush : (s.inDestroy || hidden) = true
  · rcases h.flushQueue_eq hRoom with ⟨next, hFlushed, hNext, hNum⟩
    have hCount : next.queued.count = 0 := hNext.queued.count_eq
    rw [← h.queued.count_eq] at hFlushed
    refine ⟨0, next, _, _, ?_, hNext, hNum, .inl ⟨rfl, by simp⟩⟩
    simp [DataShared.fetch, hFlush, hFlushed, hCount]
  · cases queued with
    | nil =>
      have hCount : s.queued.count = 0 := h.queued.count_eq
      refine ⟨0, s, free, [], ?_, h, rfl, .inl ⟨rfl, rfl⟩⟩
      simp [DataShared.fetch, hFlush, hCount]
    | cons x queued =>
      have hCount : ¬ s.queued.count = 0 := by
        rw [h.queued.count_eq]
        simp
      rcases h.queued.pop_eq 0 with ⟨ring, hPop, hRing⟩
      refine ⟨x, { s with queued := ring, bufMixing := true }, free, queued, ?_,
          ⟨h.normal, h.free, hRing⟩, rfl, .inr rfl⟩
      simp [DataShared.fetch, hFlush, hCount, h.normal, hPop]

theorem freeBuffer_eq (hRoom : free.length < maxOverlayBufferNum) (x : Nat) :
    ∃ next, s.freeBuffer x = .ok next ∧ Rings next (free ++ [x]) queued ∧
      next.numBuffer = s.numBuffer := by
  rcases h.returnBuffer_eq hRoom x with ⟨next, hReturn, hNext, hNum⟩
  refine ⟨{ next with waitBufFlag := false, bufMixing := false }, ?_,
      ⟨hNext.normal, hNext.free, hNext.queued⟩, hNum⟩
  simp [DataShared.freeBuffer, hReturn, hNext.normal]

end

end Rings

------
-- The Buffers Of A Region
------

namespace PmemRegion

variable (region : PmemRegion)

/- The buffers in the first slots. -/
def buffers (n : Nat) : List OverlayBuffer :=
  (range n).map region.allocator.bufferAt

/- The allocator with the first slots taken. -/
def taken (n : Nat) : PmemAllocator :=
  { region.allocator with slotAllocated := replicate n true ++ replicate (maxSlot - n) false }

theorem size_le_alignedSize : region.size ≤ alignedSize region.size := by
  unfold alignedSize
  omega

theorem allocate_taken {n : Nat} (hSlot : n < maxSlot) :
    (region.taken n).allocate region.size = some
      (region.allocator.bufferAt n, region.taken (n + 1)) :=
  region.allocator.allocate_next (Nat.pos_iff_ne_zero.mp region.virPositive)
    region.size_le_alignedSize hSlot

theorem alignedSize_pos : 0 < alignedSize region.size := by
  have hPositive := region.sizePositive
  have hLe := region.size_le_alignedSize
  omega

theorem address_lt {base : Nat} (hFits :
      base + maxOverlayBufferNum * alignedSize region.size ≤ 2 ^ 32)
    (hi : i < maxOverlayBufferNum) :
    base + i * alignedSize region.size < 2 ^ 32 := by
  have hPositive := region.alignedSize_pos
  have hLe : (i + 1) * alignedSize region.size ≤ maxOverlayBufferNum * alignedSize region.size :=
    Nat.mul_le_mul_right _ hi
  rw [Nat.add_mul, Nat.one_mul] at hLe
  omega

theorem phyAddr_bufferAt (hi : i < maxOverlayBufferNum) :
    (region.allocator.bufferAt i).phyAddr = region.phyBase + i * alignedSize region.size :=
  Nat.mod_eq_of_lt (region.address_lt region.phyFits hi)

theorem virAddr_bufferAt (hi : i < maxOverlayBufferNum) :
    (region.allocator.bufferAt i).virAddr = region.virBase + i * alignedSize region.size :=
  Nat.mod_eq_of_lt (region.address_lt region.virFits hi)

variable {n : Nat}

theorem nodup_buffers (hn : n ≤ maxOverlayBufferNum) :
    ((region.buffers n).map OverlayBuffer.phyAddr).Nodup := by
  unfold buffers
  rw [map_map]
  apply List.Nodup.map_on _ nodup_range
  intro i hi j hj hEq
  rw [mem_range] at hi hj
  simp only [comp_apply] at hEq
  rw [region.phyAddr_bufferAt (by omega), region.phyAddr_bufferAt (by omega)] at hEq
  exact Nat.eq_of_mul_eq_mul_right region.alignedSize_pos (Nat.add_left_cancel hEq)

theorem valid_buffers (hn : n ≤ maxOverlayBufferNum)
    {buffer : OverlayBuffer} (hMem : buffer ∈ region.buffers n) :
    buffer.virAddr ≠ 0 ∧ buffer.phyAddr ≠ 0 := by
  rcases mem_map.mp hMem with ⟨i, hi, rfl⟩
  rw [mem_range] at hi
  have hVir := region.virPositive
  have hPhy := region.phyPositive
  rw [region.virAddr_bufferAt (by omega), region.phyAddr_bufferAt (by omega)]
  omega

@[simp] theorem length_buffers : (region.buffers n).length = n := by
  simp [buffers]

/- The loop inserts the buffers of the next slots. -/
theorem insertBuffers_eq (k : Nat) {ring : Ring Nat maxOverlayBufferNum} (hRing :
      ring.Filled ((region.buffers n).map OverlayBuffer.phyAddr))
    (hRoom : n + k ≤ maxOverlayBufferNum) :
    ∃ next, insertBuffers region.size k (region.taken n) ring (region.buffers n) =
      .ok (0, next, region.buffers (n + k)) ∧
        next.Filled ((region.buffers (n + k)).map OverlayBuffer.phyAddr) := by
  induction k generalizing n ring with
  | zero => exact ⟨ring, rfl, hRing⟩
  | succ k ih =>
    have hSlot : n < maxSlot := by
      change _ ≤ 24 at hRoom
      change _ < 64
      omega
    have hSucc : region.buffers (n + 1) = region.buffers n ++ [region.allocator.bufferAt n] := by
      simp [buffers, range_succ]
    rcases hRing.fill_eq (by
          rw [length_map, region.length_buffers]
          omega)
        (region.allocator.bufferAt n).phyAddr with ⟨middle, hFill, hMiddle⟩
    have hFilled : middle.Filled ((region.buffers (n + 1)).map OverlayBuffer.phyAddr) := by
      rw [hSucc, map_append]
      exact hMiddle
    rcases ih hFilled (by omega) with ⟨next, hInsert, hNext⟩
    have hShift : n + 1 + k = n + (k + 1) := by omega
    rw [hShift] at hInsert hNext
    refine ⟨next, ?_, hNext⟩
    simp only [insertBuffers, region.allocate_taken hSlot, hFill, ok_bind, ← hSucc]
    exact hInsert

end PmemRegion

------
-- Where The Buffers Are
------

/- The address of the buffer with this handle. -/
def address (table : List OverlayBuffer) (handle : Nat) : Option Nat :=
  table[handle]?.map OverlayBuffer.phyAddr

namespace World

/- Handles in the client's hands, waiting calls included. -/
def handles (w : World) : List Nat :=
  w.hands ++ w.calls.filterMap Call.handle

/- The buffers in the client's hands. -/
def clientBuffers (w : World) : List Nat :=
  w.handles.filterMap (address w.table)

/- The buffer that is being mixed, if any. -/
def mixerBuffers (w : World) : List Nat :=
  if w.mixing = 0 then [] else [w.mixing]

end World

/- The rings are indexed below their size, and each of the buffers is in exactly one place. -/
structure Conserved (w : World) : Prop where
  freeIndices : w.shared.free.head < maxOverlayBufferNum ∧ w.shared.free.tail < maxOverlayBufferNum
  queuedIndices : w.shared.queued.head < maxOverlayBufferNum ∧
      w.shared.queued.tail < maxOverlayBufferNum
  numBuffer : w.table.length = w.shared.numBuffer
  distinct : (w.table.map OverlayBuffer.phyAddr).Nodup
  inOnePlace : (w.shared.free.contents ++ w.clientBuffers ++
      w.shared.queued.contents ++ w.mixerBuffers).Perm
      (w.table.map OverlayBuffer.phyAddr)

/- The buffers are accounted for, those in `loose` being between two places. -/
structure Tracked (w : World) (loose : List Nat) : Prop where
  rings : ∃ free queued, Rings w.shared free queued ∧
      (free ++ w.clientBuffers ++ queued ++ w.mixerBuffers ++ loose).Perm
        (w.table.map OverlayBuffer.phyAddr)
  distinct : (w.table.map OverlayBuffer.phyAddr).Nodup
  valid : ∀ buffer ∈ w.table, buffer.virAddr ≠ 0 ∧ buffer.phyAddr ≠ 0
  numBuffer : w.table.length = w.shared.numBuffer
  small : w.table.length < maxOverlayBufferNum
  bounded : ∀ handle ∈ w.handles, handle < w.table.length

theorem Tracked.conserved {w : World} (h : Tracked w []) : Conserved w := by
  rcases h.rings with ⟨free, queued, hRings, hPerm⟩
  have hTail (n : Nat) : n % maxOverlayBufferNum < maxOverlayBufferNum := Nat.mod_lt _ (by decide)
  exact
    { freeIndices := ⟨hRings.free.head_lt, hRings.free.tail_eq ▸ hTail _⟩
      queuedIndices := ⟨hRings.queued.head_lt, hRings.queued.tail_eq ▸ hTail _⟩
      numBuffer := h.numBuffer
      distinct := h.distinct
      inOnePlace := by
        rw [hRings.free.contents_eq, hRings.queued.contents_eq]
        simpa using hPerm }

/- A step that keeps the table is judged by what it moves between the places. -/
theorem Tracked.move {w : World} {loose' free queued free' queued' : List Nat}
    (h : Tracked w loose) (next : World)
    (hPerm : (free ++ w.clientBuffers ++ queued ++ w.mixerBuffers ++ loose).Perm
      (w.table.map OverlayBuffer.phyAddr))
    (hTable : next.table = w.table) (hNum : next.shared.numBuffer = w.shared.numBuffer)
    (hRings : Rings next.shared free' queued')
    (hBounded : ∀ handle ∈ next.handles, handle < w.table.length)
    (hMoved : ∀ b, free'.count b + next.clientBuffers.count b +
      queued'.count b + next.mixerBuffers.count b + loose'.count b =
        free.count b + w.clientBuffers.count b + queued.count b + w.mixerBuffers.count b +
          loose.count b) :
    Tracked next loose' where
  rings := by
    refine ⟨free', queued', hRings, ?_⟩
    rw [hTable]
    apply List.Perm.trans _ hPerm
    rw [perm_iff_count]
    intro b
    simpa only [count_append] using hMoved b
  distinct := by
    rw [hTable]
    exact h.distinct
  valid := by
    rw [hTable]
    exact h.valid
  numBuffer := by
    rw [hTable, hNum]
    exact h.numBuffer
  small := by
    rw [hTable]
    exact h.small
  bounded := by
    rw [hTable]
    exact hBounded

theorem Tracked.room {w : World} {free queued : List Nat} (h : Tracked w loose) (hPerm :
      (free ++ w.clientBuffers ++ queued ++ w.mixerBuffers ++ loose).Perm
        (w.table.map OverlayBuffer.phyAddr)) :
    free.length + queued.length < maxOverlayBufferNum := by
  have hLength := hPerm.length_eq
  have hSmall := h.small
  simp only [length_append, length_map] at hLength
  omega

/- A buffer is found by its address. -/
theorem Tracked.findBuffer_eq {w : World} (h : Tracked w loose) {buffer : OverlayBuffer}
    (hEntry : w.table[index]? = some buffer) :
    findBuffer w.table buffer.phyAddr = some (buffer, index) := by
  have hMem : (buffer, index) ∈ w.table.zipIdx.filter fun entry =>
          entry.1.phyAddr == buffer.phyAddr := by
    rw [mem_filter]
    exact ⟨mem_zipIdx_iff_getElem?.mpr hEntry, by simp⟩
  have hUnique : ∀ entry ∈ w.table.zipIdx.filter fun entry =>
          entry.1.phyAddr == buffer.phyAddr, entry = (buffer, index) := by
    rintro ⟨other, i⟩ hOther
    rw [mem_filter, mem_zipIdx_iff_getElem?] at hOther
    rcases hOther with ⟨hOther, hSame⟩
    have hIndex : i = index := by
      have hLt := (List.getElem?_eq_some_iff.mp hOther).1
      apply (getElem?_inj (by simpa using hLt) h.distinct).mp
      rw [getElem?_map, getElem?_map, hOther, hEntry]
      simpa using hSame
    subst hIndex
    rw [hEntry] at hOther
    cases hOther
    rfl
  unfold findBuffer
  cases hLast : (w.table.zipIdx.filter fun entry => entry.1.phyAddr == buffer.phyAddr).getLast? with
  | none =>
    rw [getLast?_eq_none_iff] at hLast
    rw [hLast] at hMem
    cases hMem
  | some entry => rw [hUnique entry (mem_of_getLast? hLast)]

------
-- Every Step Keeps The Buffers
------

variable {w : World}

/- A section of `dequeueBuffer` moves a buffer or nothing. -/
theorem Tracked.takeFree (h : Tracked w []) (failed : Bool) (hCount : w.shared.free.count ≠ 0) :
    ∃ result, w.shared.takeFree w.table = .ok result ∧
      Tracked (w.afterDequeue failed result) [] := by
  rcases h.rings with ⟨free, queued, hRings, hPerm⟩
  cases free with
  | nil => exact absurd hRings.free.count_eq (by simpa using hCount)
  | cons x free =>
    have hMem : x ∈ w.table.map OverlayBuffer.phyAddr := by
      rw [← hPerm.mem_iff]
      simp
    rcases mem_map.mp hMem with ⟨buffer, hBuffer, rfl⟩
    rcases mem_iff_getElem?.mp hBuffer with ⟨index, hEntry⟩
    rcases hRings.takeFree_eq (h.findBuffer_eq hEntry) (h.valid buffer hBuffer).1 with
      ⟨next, hTake, hNext, hNum⟩
    refine ⟨_, hTake, ?_⟩
    apply h.move (w.afterDequeue failed (.returned 0 (some index), next)) hPerm rfl hNum hNext
    · intro handle hHandle
      rcases mem_cons.mp hHandle with rfl | hOld
      · exact (List.getElem?_eq_some_iff.mp hEntry).1
      · exact h.bounded handle hOld
    · intro b
      have hClient : (w.afterDequeue failed (.returned 0 (some index), next)).clientBuffers =
          buffer.phyAddr :: w.clientBuffers := by
        simp [World.clientBuffers, World.afterDequeue, World.handles, address, hEntry]
      have hMixer : (w.afterDequeue failed (.returned 0 (some index), next)).mixerBuffers =
          w.mixerBuffers :=
        rfl
      rw [hClient, hMixer, count_cons, count_cons]
      omega

/- Nothing moves if rings, handles and mixer stay. -/
theorem Tracked.unmoved (h : Tracked w loose) (next : World) (hTable : next.table = w.table)
    (hNum : next.shared.numBuffer = w.shared.numBuffer)
    (hMode : next.shared.overlayMode = w.shared.overlayMode)
    (hFree : next.shared.free = w.shared.free) (hQueued : next.shared.queued = w.shared.queued)
    (hHandles : next.handles.Perm w.handles)
    (hMixing : next.mixing = w.mixing) : Tracked next loose := by
  rcases h.rings with ⟨free, queued, hRings, hPerm⟩
  have hNext : Rings next.shared free queued := by
    constructor
    · rw [hMode]
      exact hRings.normal
    · rw [hFree]
      exact hRings.free
    · rw [hQueued]
      exact hRings.queued
  apply h.move next hPerm hTable hNum hNext
  · intro handle hMem
    exact h.bounded handle (hHandles.mem_iff.mp hMem)
  · intro b
    have hClient : next.clientBuffers.Perm w.clientBuffers := by
      unfold World.clientBuffers
      rw [hTable]
      exact hHandles.filterMap _
    rw [hClient.count_eq]
    simp only [World.mixerBuffers, hMixing]

/- `dequeueBuffer` keeps track of the buffers. -/
theorem Tracked.dequeueBuffer (h : Tracked w []) (failed : Bool) :
    ∃ result, w.shared.dequeueBuffer w.table = .ok result ∧
      Tracked (w.afterDequeue failed result) [] := by
  unfold DataShared.dequeueBuffer
  split
  next => exact ⟨_, rfl, h.unmoved _ rfl rfl rfl rfl rfl .rfl rfl⟩
  next =>
    split
    next => exact ⟨_, rfl, h.unmoved _ rfl rfl rfl rfl rfl .rfl rfl⟩
    next =>
      split
      next => exact ⟨_, rfl, h.unmoved _ rfl rfl rfl rfl rfl .rfl rfl⟩
      next hCount => exact h.takeFree failed hCount

theorem Tracked.dequeueBufferWoken (h : Tracked w []) (failed later : Bool) :
    ∃ result, w.shared.dequeueBufferWoken w.table failed = .ok result ∧
      Tracked (w.afterDequeue later result) [] := by
  unfold DataShared.dequeueBufferWoken
  split
  next hCount => exact h.takeFree later (by omega)
  next =>
    split
    next => exact ⟨_, rfl, h.unmoved _ rfl rfl rfl rfl rfl .rfl rfl⟩
    next => exact ⟨_, rfl, h.unmoved _ rfl rfl rfl rfl rfl .rfl rfl⟩

variable {buffer : OverlayBuffer}

section

variable {handle : Nat} (h : Tracked w [buffer.phyAddr]) (hEntry : w.table[handle]? = some buffer)

include h hEntry

/- A loose buffer that goes back to the client. -/
theorem Tracked.handBack {free queued : List Nat}
    (hPerm : (free ++ w.clientBuffers ++ queued ++ w.mixerBuffers ++ [buffer.phyAddr]).Perm
      (w.table.map OverlayBuffer.phyAddr)) (other : World)
    (hTable : other.table = w.table) (hNum : other.shared.numBuffer = w.shared.numBuffer)
    (hRings : Rings other.shared free queued) (hMixing : other.mixing = w.mixing)
    (hHandles : other.handles.Perm (handle :: w.handles)) :
    Tracked other [] := by
  apply h.move other hPerm hTable hNum hRings
  · intro x hx
    rw [hHandles.mem_iff] at hx
    rcases mem_cons.mp hx with rfl | hOld
    · exact (List.getElem?_eq_some_iff.mp hEntry).1
    · exact h.bounded x hOld
  · intro b
    have hClient : other.clientBuffers.Perm (buffer.phyAddr :: w.clientBuffers) := by
      have hMap := hHandles.filterMap (address w.table)
      simpa [World.clientBuffers, hTable, address, hEntry] using hMap
    rw [hClient.count_eq, count_cons]
    simp only [World.mixerBuffers, hMixing, count_nil, count_singleton]
    omega

/- A section of `queueBuffer` for a handle that is between the client's hands and the queue. -/
theorem Tracked.afterQueue {critical : DataShared →
      Except Fault (QueueOutcome × DataShared)}
    (hSpec : ∀ free queued, Rings w.shared free queued → queued.length < maxOverlayBufferNum →
      Rings.QueueSpec w.shared free queued buffer.phyAddr (critical w.shared)) :
    ∃ result, critical w.shared = .ok result ∧ Tracked (w.afterQueue handle result) [] := by
  rcases h.rings with ⟨free, queued, hRings, hPerm⟩
  have hRoom := h.room hPerm
  rcases hSpec free queued hRings (by omega) with ⟨outcome, next, hResult, hNum, hCases⟩
  refine ⟨_, hResult, ?_⟩
  rcases hCases with ⟨rfl, hNext⟩ | ⟨hFailed, hNext⟩
  · apply h.move (w.afterQueue handle (.returned 0, next)) hPerm rfl hNum hNext
    · exact h.bounded
    · intro b
      have hClient : (w.afterQueue handle (.returned 0, next)).clientBuffers = w.clientBuffers :=
        rfl
      have hMixer : (w.afterQueue handle (.returned 0, next)).mixerBuffers = w.mixerBuffers := rfl
      rw [hClient, hMixer, count_append, count_nil]
      omega
  · cases outcome with
    | returned ret =>
      have hNonzero : ¬ ret = 0 := by
        intro hZero
        exact hFailed (by rw [hZero])
      apply h.handBack hEntry hPerm (w.afterQueue handle (.returned ret, next))
      all_goals
        simp [World.afterQueue, hNonzero, World.handles, hNum, hNext]
    | waiting =>
      apply h.handBack hEntry hPerm (w.afterQueue handle (.waiting, next)) rfl hNum hNext rfl
      exact perm_middle

end

section

variable (h : Tracked w [])

include h

/- A handle taken from the client is loose. -/
theorem Tracked.detach (next : World) {handle : Nat} (hEntry : w.table[handle]? = some buffer)
    (hTable : next.table = w.table) (hShared : next.shared = w.shared)
    (hMixing : next.mixing = w.mixing) (hHandles : w.handles.Perm (handle :: next.handles)) :
    Tracked next [buffer.phyAddr] := by
  rcases h.rings with ⟨free, queued, hRings, hPerm⟩
  apply h.move next hPerm hTable (by rw [hShared]) (by rwa [hShared])
  · intro x hx
    apply h.bounded x
    rw [hHandles.mem_iff]
    exact mem_cons_of_mem _ hx
  · intro b
    have hClient : w.clientBuffers.Perm (buffer.phyAddr :: next.clientBuffers) := by
      have hMap := hHandles.filterMap (address w.table)
      simpa [World.clientBuffers, hTable, address, hEntry] using hMap
    rw [hClient.count_eq]
    simp only [World.mixerBuffers, hMixing, count_nil, count_cons]
    omega

/- A call gets the lock back. -/
theorem Tracked.resume {call : Call} (hCall : w.calls[i]? = some call) :
    ∃ next, { w with calls := w.calls.eraseIdx i }.resumeCall call = .ok next ∧
        Tracked next [] := by
  have hLt := (List.getElem?_eq_some_iff.mp hCall).1
  have hGet := (List.getElem?_eq_some_iff.mp hCall).2
  have hCalls : w.calls.Perm (call :: w.calls.eraseIdx i) := by
    rw [← hGet]
    exact (getElem_cons_eraseIdx_perm hLt).symm
  have hHandles := (hCalls.filterMap Call.handle).append_left w.hands
  cases call with
  | dequeueWaiting failed =>
    have hErased := h.unmoved { w with calls := w.calls.eraseIdx i }
        rfl rfl rfl rfl rfl hHandles.symm rfl
    rcases hErased.dequeueBufferWoken failed (failed || w.shared.waitBufFlag) with
      ⟨result, hResult, hNext⟩
    refine ⟨_, ?_, hNext⟩
    simp only [World.resumeCall, hResult, ok_bind]
    rfl
  | dequeueRetry =>
    have hErased := h.unmoved { w with calls := w.calls.eraseIdx i }
        rfl rfl rfl rfl rfl hHandles.symm rfl
    rcases hErased.dequeueBuffer true with ⟨result, hResult, hNext⟩
    refine ⟨_, ?_, hNext⟩
    simp only [World.resumeCall, hResult, ok_bind]
    rfl
  | queueWaiting handle =>
    have hLoose : w.handles.Perm (handle :: { w with calls := w.calls.eraseIdx i }.handles) :=
      hHandles.trans perm_middle
    have hHandle : handle < w.table.length := h.bounded handle (hLoose.mem_iff.mpr (by simp))
    have hEntry : w.table[handle]? = some w.table[handle] := getElem?_eq_getElem hHandle
    have hDetached := h.detach { w with calls := w.calls.eraseIdx i } hEntry rfl rfl rfl hLoose
    rcases hDetached.afterQueue hEntry (fun free queued hRings hRoom =>
          hRings.queueBufferWoken_spec hRoom overlayQueueThreshold _) with ⟨result, hResult, hNext⟩
    refine ⟨_, ?_, hNext⟩
    simp only [World.resumeCall, hEntry, hResult, ok_bind]
    rfl

/- A handle is queued. -/
theorem Tracked.queue (handle : Nat) :
    ∃ next, step w (.queue handle) = .ok next ∧ Tracked next [] := by
  by_cases hMem : handle ∈ w.hands
  · have hHandle : handle < w.table.length := h.bounded handle (mem_append_left _ hMem)
    have hEntry : w.table[handle]? = some w.table[handle] := getElem?_eq_getElem hHandle
    have hLoose : w.handles.Perm (handle :: { w with hands := w.hands.erase handle }.handles) :=
      (perm_cons_erase hMem).append_right _
    have hDetached := h.detach { w with hands := w.hands.erase handle } hEntry rfl rfl rfl hLoose
    rcases hDetached.afterQueue hEntry (fun free queued hRings hRoom =>
          hRings.queueBuffer_spec hRoom overlayQueueThreshold _) with ⟨result, hResult, hNext⟩
    refine ⟨_, ?_, hNext⟩
    simp only [step, hMem, if_true, hEntry, hResult, ok_bind]
    rfl
  · refine ⟨w, ?_, h⟩
    simp only [step, hMem, if_false]

/- The mixer fetches a buffer or flushes the queue. -/
theorem Tracked.fetch (hidden : Bool) :
    ∃ next, step w (.fetch hidden) = .ok next ∧ Tracked next [] := by
  by_cases hMixing : w.mixing = 0
  · rcases h.rings with ⟨free, queued, hRings, hPerm⟩
    have hRoom := h.room hPerm
    rcases hRings.fetch_spec (by omega) hidden with
      ⟨buffer, shared, free', queued', hFetch, hNext, hNum, hMoved⟩
    refine ⟨{ w with shared := shared, mixing := buffer }, ?_, ?_⟩
    · simp only [step, hMixing, if_true, hFetch, ok_bind]
      rfl
    · apply h.move { w with shared := shared, mixing := buffer } hPerm rfl hNum hNext
      · exact h.bounded
      · intro b
        have hClient :
            { w with shared := shared, mixing := buffer : World }.clientBuffers = w.clientBuffers :=
          rfl
        rw [hClient]
        rcases hMoved with ⟨rfl, hKept⟩ | hTaken
        · have hCount := congrArg (count b) hKept
          rw [count_append, count_append] at hCount
          simp only [World.mixerBuffers, hMixing, if_true, count_nil]
          omega
        · have hNonzero : ¬ buffer = 0 := by
            have hOld : buffer ∈ free ++ queued := by
              rw [← hTaken]
              simp
            have hMem : buffer ∈ w.table.map OverlayBuffer.phyAddr := by
              rw [← hPerm.mem_iff]
              simp only [mem_append] at hOld ⊢
              tauto
            rcases mem_map.mp hMem with ⟨entry, hEntry, rfl⟩
            exact (h.valid entry hEntry).2
          have hCount := congrArg (count b) hTaken
          rw [count_append, count_append, count_cons] at hCount
          simp only [World.mixerBuffers, hMixing, hNonzero, if_true, if_false, count_nil,
            count_singleton]
          omega
  · refine ⟨w, ?_, h⟩
    simp only [step, hMixing, if_false]

/- The mixer frees the buffer it has mixed. -/
theorem Tracked.free : ∃ next, step w .free = .ok next ∧ Tracked next [] := by
  by_cases hMixing : w.mixing = 0
  · refine ⟨w, ?_, h⟩
    simp only [step, hMixing, if_true]
  · rcases h.rings with ⟨free, queued, hRings, hPerm⟩
    have hRoom := h.room hPerm
    rcases hRings.freeBuffer_eq (by omega) w.mixing with ⟨shared, hFree, hNext, hNum⟩
    refine ⟨{ w with shared := shared, mixing := 0 }, ?_, ?_⟩
    · simp only [step, hMixing, if_false, hFree, ok_bind]
      rfl
    · apply h.move { w with shared := shared, mixing := 0 } hPerm rfl hNum hNext
      · exact h.bounded
      · have hClient :
            { w with shared := shared, mixing := 0 : World }.clientBuffers = w.clientBuffers :=
          rfl
        rw [hClient]
        simp only [World.mixerBuffers, hMixing, if_true, if_false, count_append, count_nil]
        omega

/- When all buffers are free, nothing else is held. -/
theorem Tracked.idle (hFree : w.shared.free.count = w.shared.numBuffer) :
    w.handles = [] ∧ w.mixing = 0 := by
  rcases h.rings with ⟨free, queued, hRings, hPerm⟩
  have hLength := hPerm.length_eq
  have hCount := hRings.free.count_eq
  have hNum := h.numBuffer
  simp only [length_append, length_map] at hLength
  have hClient : w.clientBuffers = [] := length_eq_zero_iff.mp (by omega)
  have hMixer : w.mixerBuffers = [] := length_eq_zero_iff.mp (by omega)
  constructor
  · cases hHandles : w.handles with
    | nil => rfl
    | cons handle handles =>
      have hLt := h.bounded handle (by simp [hHandles])
      simp [World.clientBuffers, hHandles, address, getElem?_eq_getElem hLt] at hClient
  · by_contra hNonzero
    simp [World.mixerBuffers, hNonzero] at hMixer

end

/- New buffers are tracked when all are in the free ring. -/
theorem Tracked.fresh {region : PmemRegion} (hRings :
      Rings w.shared ((region.buffers w.shared.numBuffer).map OverlayBuffer.phyAddr) [])
    (hTable : w.table = region.buffers w.shared.numBuffer)
    (hSmall : w.shared.numBuffer < maxOverlayBufferNum)
    (hHandles : w.handles = []) (hMixing : w.mixing = 0) :
    Tracked w [] where
  rings := by
    refine ⟨_, [], hRings, ?_⟩
    have hClient : w.clientBuffers = [] := by
      rw [World.clientBuffers, hHandles]
      rfl
    have hMixer : w.mixerBuffers = [] := by simp [World.mixerBuffers, hMixing]
    rw [hClient, hMixer, hTable]
    simp
  distinct := by
    rw [hTable]
    exact region.nodup_buffers (by omega)
  valid := by
    intro buffer hMem
    rw [hTable] at hMem
    exact region.valid_buffers (by omega) hMem
  numBuffer := by
    rw [hTable]
    exact region.length_buffers
  small := by
    rw [hTable, region.length_buffers]
    exact hSmall
  bounded := by
    intro handle hMem
    rw [hHandles] at hMem
    cases hMem

/- What a number of buffers is that `overlay_data_setParameter` does not refuse. -/
def Sets (allowed : Nat → Prop) (w : World) : Action → Prop
| .setBufnum value _ =>
  value ≤ maxOverlayBufferNum → w.shared.free.count = w.shared.numBuffer → allowed value
| _ => True

/-
  A new number of buffers is accepted only when all buffers are free, and then nothing else is held.
-/
theorem Tracked.setBufnum (h : Tracked w []) {value : Nat} (region : PmemRegion)
    (hSets : Sets (· ≠ maxOverlayBufferNum) w (.setBufnum value region)) :
    ∃ next, step w (.setBufnum value region) = .ok next ∧ Tracked next [] := by
  by_cases hLarge : maxOverlayBufferNum < value
  · refine ⟨w, ?_, h⟩
    simp [step, Overlay.setBufnum, hLarge]
  by_cases hBusy : w.shared.free.count ≠ w.shared.numBuffer
  · refine ⟨w, ?_, h⟩
    simp [step, Overlay.setBufnum, hLarge, hBusy]
  have hValue := hSets (not_lt.mp hLarge) (not_not.mp hBusy)
  have hIdle := h.idle (not_not.mp hBusy)
  rcases h.rings with ⟨_, _, hRings, _⟩
  have hEmpty : (.empty 0 : Ring Nat maxOverlayBufferNum).Filled
      ((region.buffers 0).map OverlayBuffer.phyAddr) :=
    Ring.Filled.empty 0
  have hRoom : 0 + value ≤ maxOverlayBufferNum := by omega
  rcases region.insertBuffers_eq value hEmpty hRoom with ⟨ring, hInsert, hRing⟩
  rw [zero_add] at hInsert hRing
  have hHolds := hRing.holds (by
      rw [length_map, region.length_buffers]
      omega)
  refine
    ⟨{ w with
        shared := { w.shared with free := ring, queued := .empty 0, numBuffer := value }
        table := region.buffers value }, ?_, ?_⟩
  · have hTaken : region.allocator = region.taken 0 := by
      simp [PmemRegion.taken, PmemRegion.allocator]
    have hBuffers : region.buffers 0 = [] := rfl
    rw [hBuffers, ← hTaken] at hInsert
    simp only [step, Overlay.setBufnum, hLarge, hBusy, if_false, hInsert, ok_bind]
    rfl
  · have hSmall : value < maxOverlayBufferNum := by omega
    exact .fresh ⟨hRings.normal, hHolds, Ring.Holds.empty (by decide) 0⟩ rfl hSmall hIdle.1 hIdle.2

/- Every step keeps track of the buffers. -/
theorem Tracked.step (h : Tracked w []) (action : Action)
    (hSets : Sets (· ≠ maxOverlayBufferNum) w action) :
    ∃ next, Overlay.step w action = .ok next ∧ Tracked next [] := by
  cases action with
  | setBufnum value region => exact h.setBufnum region hSets
  | dequeue =>
    rcases h.dequeueBuffer false with ⟨result, hResult, hNext⟩
    refine ⟨_, ?_, hNext⟩
    simp only [Overlay.step, hResult, ok_bind]
    rfl
  | queue handle => exact h.queue handle
  | resume i =>
    cases hCall : w.calls[i]? with
    | none =>
      refine ⟨w, ?_, h⟩
      simp only [Overlay.step, hCall]
    | some call =>
      rcases h.resume hCall with ⟨next, hResume, hNext⟩
      refine ⟨next, ?_, hNext⟩
      simp only [Overlay.step, hCall]
      exact hResume
  | fetch hidden => exact h.fetch hidden
  | free => exact h.free

------
-- Conservation In Every Run
------

theorem Tracked.init : Tracked World.init [] where
  rings := ⟨[], [], ⟨rfl, Ring.Holds.empty (by decide) 0,
      Ring.Holds.empty (by decide) 0⟩, by decide⟩
  distinct := nodup_nil
  valid := by
    intro buffer hMem
    cases hMem
  numBuffer := rfl
  small := by decide
  bounded := by
    intro handle hMem
    cases hMem

/- A region of one page for each buffer. -/
def pageRegion : PmemRegion where
  virBase := 0x40000000
  phyBase := 0x70000000
  size := 4096
  virPositive := by decide
  phyPositive := by decide
  sizePositive := by decide
  virFits := by decide
  phyFits := by decide

/-
  With a full ring of buffers, the first buffer that comes back is written behind the last slot of
  the free ring.
-/
theorem run_full_ring :
    run step World.init [.setBufnum maxOverlayBufferNum pageRegion, .dequeue, .queue 0,
      .fetch false, .free] = .error .outOfBounds := by
  decide +kernel

end OpenIvi.Overlay
