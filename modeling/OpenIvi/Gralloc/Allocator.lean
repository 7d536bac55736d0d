import Mathlib.Data.List.Nodup
import Mathlib.Data.List.Perm.Basic
import Mathlib.Tactic.Linarith
import OpenIvi.Lib.Tiling
import OpenIvi.Lib.Loop

/-
  `SimpleBestFitAllocator` of `libgralloc`.

  The heap is a doubly linked list of chunks in units of 32 bytes; here it is the list of these
  chunks. An allocation takes the smallest free chunk that is large enough for the size on a page
  boundary and splits off what is in front of and behind it. A deallocation merges the freed chunk
  with its free neighbours.

  The scan keeps the smallest chunk that fits. It may end at a chunk of just the size that is asked
  for: no chunk that fits is smaller.

  `gralloc_alloc` computes the size it asks for. An image in two planes has the brightness of its
  pixels in the first one and interleaved pairs of colours, in rows of the same stride, in the
  second one.

  The chunks of a heap partition it, none is empty, no two neighbours are free, and allocated chunks
  start on a page boundary. Allocation replaces one chunk by several of the same extent,
  deallocation up to three chunks by one.

  The invariant pairs the allocated chunks with the live allocations. It holds along every sequence
  of operations on a heap of at least a page.

  Main declarations:
    * `Allocator`
    * `allocate_best_fit`
    * `gralloc_alloc_reserves_iff`
    * `allocator_keeps_tiling_iff`
-/

------
-- Chunks
------

namespace OpenIvi.Gralloc

open Lib List

def kMemoryAlign : Nat := 32

/- `getpagesize()`. -/
def pagesize : Nat := 4096

/- One more than the largest `size_t`. -/
def sizeLimit : Nat := 2 ^ 32

/- `-EINVAL`, `-ENOMEM` and `-ENOENT`. -/
inductive Errno where
| einval
| enomem
| enoent
deriving DecidableEq, Repr

/- `chunk_t`. The source keeps sizes in 28 bits; a heap has fewer than `2 ^ 27` units. -/
structure Chunk where
  start : Nat
  size : Nat
  free : Bool
deriving DecidableEq, Repr

structure Allocator where
  mHeapSize : Nat
  mList : List Chunk
deriving DecidableEq, Repr

/- An allocator without a heap. -/
def Allocator.init : Allocator where
  mHeapSize := 0
  mList := []

/- `setSize`: the size is rounded up to a page in 32-bit arithmetic. -/
def Allocator.setSize (a : Allocator) (size : Nat) : Except Errno Nat × Allocator :=
  if a.mHeapSize ≠ 0 then
    (.error .einval, a)
  else
    let heap := (size + pagesize - 1) % sizeLimit / pagesize * pagesize
    (.ok size, { mHeapSize := heap, mList := ⟨0, heap / kMemoryAlign, true⟩ :: a.mList })

/- The units from `start` to the next page boundary. -/
def extraUnits (start : Nat) : Nat :=
  (pagesize / kMemoryAlign - start % (pagesize / kMemoryAlign)) % (pagesize / kMemoryAlign)

------
-- Allocation
------

/-
  `free_chunk` after a chunk that fits, the one with index `i`: the smaller one, and the earlier one
  of two equals.
-/
def smaller (i size : Nat) : Option (Nat × Nat) → Option (Nat × Nat)
| none => some (i, size)
| some (j, bestSize) =>
  if size < bestSize then
    some (i, size)
  else
    some (j, bestSize)

/-
  The best-fit loop of `alloc` from the chunk with index `i` on. `best` is the index and the size of
  `free_chunk`.
-/
def bestFit (size : Nat) : List Chunk → Nat → Option (Nat × Nat) → Option (Nat × Nat)
| [], _, best => best
| cur :: rest, i, best =>
  if cur.free = true ∧ size + extraUnits cur.start ≤ cur.size then
    if cur.size = size then
      smaller i cur.size best
    else
      bestFit size rest (i + 1) (smaller i cur.size best)
  else
    bestFit size rest (i + 1) best

/- A chunk that is split off free, unless it is empty. -/
def splitOff (start size : Nat) : List Chunk :=
  if size = 0 then [] else [⟨start, size, true⟩]

/-
  The chunks that take the place of the free chunk: a free one up to the page boundary, the
  allocated one, and a free one for the rest.
-/
def carve (size : Nat) (c : Chunk) : List Chunk :=
  if size < c.size then
    let extra := extraUnits c.start
    let start := c.start + extra
    splitOff c.start extra ++ [⟨start, size, false⟩] ++
      splitOff (start + size) (c.size - (size + extra))
  else
    [⟨c.start, size, false⟩]

/- Where the allocated chunk starts. -/
def carveStart (size : Nat) (c : Chunk) : Nat :=
  if size < c.size then
    c.start + extraUnits c.start
  else
    c.start

/-
  `alloc` for a size in bytes: the offset of the memory. The source returns both kinds of results as
  one `ssize_t`; no offset is one of the two error numbers.
-/
def Allocator.alloc (a : Allocator) (size : Nat) : Except Errno Nat × Allocator :=
  if size = 0 then
    (.ok 0, a)
  else
    let units := (size + kMemoryAlign - 1) % sizeLimit / kMemoryAlign
    match bestFit units a.mList 0 none with
    | none => (.error .enomem, a)
    | some (i, _) =>
      match a.mList[i]? with
      | none => (.error .enomem, a)
      | some c =>
        (.ok (carveStart units c * kMemoryAlign),
          { a with mList := a.mList.take i ++ carve units c ++ a.mList.drop (i + 1) })

def Allocator.allocate (a : Allocator) (size : Nat) : Except Errno Nat × Allocator :=
  if a.mHeapSize = 0 then
    (.error .einval, a)
  else
    a.alloc size

------
-- Deallocation
------

/-
  Merge `cur` into its predecessor if that is free. The chunks in front are listed from the nearest
  on.
-/
def absorb (cur : Chunk) : List Chunk → List Chunk
| [] => [cur]
| p :: before =>
  if p.free = true ∨ cur.size = 0 then
    { p with size := p.size + cur.size } :: before
  else
    cur :: p :: before

/- Whether `freed` is free after this. -/
def freedFree (freed : Bool) (cur : Chunk) : List Chunk → Bool
| [] => freed
| p :: _ =>
  if p.free = true ∨ cur.size = 0 then p.free else freed

/- The `do`/`while` loop of `dealloc`: the chunks afterwards and whether `freed` is free. -/
def mergeLoop : Bool → List Chunk → Chunk → List Chunk → Bool × List Chunk
| freed, before, cur, [] =>
  (freedFree freed cur before, (absorb cur before).reverse)
| freed, before, cur, n :: after =>
  if n.free = true then
    mergeLoop (freedFree freed cur before) (absorb cur before) n after
  else
    (freedFree freed cur before, (absorb cur before).reverse ++ n :: after)

/- The freed chunk `cur` is merged with its neighbours. -/
def mergeFreed (before : List Chunk) (cur : Chunk)
    (after : List Chunk) : Except Fault (List Chunk) :=
  let merged := mergeLoop true before cur after
  if merged.1 = true then
    .ok merged.2
  else
    .error .aborted

/-
  `dealloc`: the chunk that starts at the given unit is freed. A chunk that is free already stops
  the program, and so does a result that is not free.
-/
def deallocFrom (start : Nat) : List Chunk → List Chunk → Except Fault (Option (List Chunk))
| _, [] => .ok none
| before, cur :: after =>
  if cur.start = start then
    if cur.free = true then
      .error .aborted
    else do
      let chunks ← mergeFreed before { cur with free := true } after
      return some chunks
  else
    deallocFrom start (cur :: before) after

def Allocator.deallocate (a : Allocator) (offset : Nat) :
    Except Fault (Except Errno Nat × Allocator) := do
  if a.mHeapSize = 0 then
    return (.error .einval, a)
  else
    let freed ← deallocFrom (offset / kMemoryAlign) [] a.mList
    match freed with
    | none => return (.error .enoent, a)
    | some chunks => return (.ok 0, { a with mList := chunks })

------
-- Using An Allocator
------

/- An allocation that was made and not given back. -/
structure Allocation where
  offset : Nat
  requested : Nat
deriving DecidableEq, Repr

structure World where
  allocator : Allocator
  live : List Allocation
deriving DecidableEq, Repr

/- The world after `setSize` of a new allocator. -/
def World.ofSize (size : Nat) : World where
  allocator := (Allocator.init.setSize size).2
  live := []

inductive Action where
| allocate (size : Nat)
/- Give the `i`-th live allocation back. -/
| deallocate (i : Nat)
deriving DecidableEq, Repr

/- The sizes that `allocate` may be called with. -/
def Requestable (size : Nat) : Prop :=
  0 < size ∧ size + kMemoryAlign - 1 < sizeLimit

instance (size : Nat) : Decidable (Requestable size) := by
  unfold Requestable
  infer_instance

/- One step of a user who asks for such sizes and gives live allocations back. -/
def step (w : World) : Action → Except Fault World
| .allocate size =>
  if Requestable size then
    match w.allocator.allocate size with
    | (.ok offset, a) =>
      .ok
        { allocator := a, live := ⟨offset, size⟩ :: w.live }
    | (.error _, a) => .ok { w with allocator := a }
  else
    .ok w
| .deallocate i =>
  match w.live[i]? with
  | none => .ok w
  | some allocation => do
      let (_, a) ← w.allocator.deallocate allocation.offset
      return {
        allocator := a
        live := w.live.eraseIdx i }

------
-- The Scan
------

/- A free chunk with room behind its first page boundary. -/
def FreeFits (units : Nat) (c : Chunk) : Prop :=
  c.free = true ∧ units + extraUnits c.start ≤ c.size

/- The best chunk of a list, by its index and its size. -/
def Best (units : Nat) (cs : List Chunk) : Option (Nat × Nat) → Prop
| none => ∀ d ∈ cs, ¬ FreeFits units d
| some (i, size) =>
  (∃ c, cs[i]? = some c ∧ FreeFits units c ∧ c.size = size) ∧
    ∀ d ∈ cs, FreeFits units d → size ≤ d.size

variable {units i size : Nat} {c : Chunk} {seen rest : List Chunk} {best : Option (Nat × Nat)}

theorem Best.append (hBest : Best units seen (some (i, size)))
    (hRest : ∀ d ∈ rest, FreeFits units d → size ≤ d.size) :
    Best units (seen ++ rest) (some (i, size)) := by
  rcases hBest with ⟨⟨b, hIndex, hB⟩, hLe⟩
  refine ⟨⟨b, ?_, hB⟩, forall_mem_append.mpr ⟨hLe, hRest⟩⟩
  rw [getElem?_append_left (List.getElem?_eq_some_iff.mp hIndex).1]
  exact hIndex

theorem Best.snoc_other (hBest : Best units seen best)
    (hNot : ¬ FreeFits units c) : Best units (seen ++ [c]) best := by
  cases best with
  | none => exact forall_mem_append.mpr ⟨hBest, forall_mem_singleton.mpr hNot⟩
  | some best => exact hBest.append (forall_mem_singleton.mpr (absurd · hNot))

/- Of the best chunk so far and the next one, the smaller. -/
theorem Best.snoc_fits (hBest : Best units seen best) (hFits : FreeFits units c) :
    Best units (seen ++ [c]) (smaller seen.length c.size best) := by
  have hLast : (seen ++ [c])[seen.length]? = some c := by simp
  cases best with
  | none =>
    refine ⟨⟨c, hLast, hFits, rfl⟩, forall_mem_append.mpr
      ⟨?_, forall_mem_singleton.mpr fun _ => le_refl _⟩⟩
    intro d hD hOther
    exact absurd hOther (hBest d hD)
  | some best =>
    simp only [smaller]
    split
    · rename_i hLt
      refine ⟨⟨c, hLast, hFits, rfl⟩, forall_mem_append.mpr
        ⟨?_, forall_mem_singleton.mpr fun _ => le_refl _⟩⟩
      intro d hD hOther
      exact le_trans (le_of_lt hLt) (hBest.2 d hD hOther)
    · rename_i hNot
      exact hBest.append (forall_mem_singleton.mpr fun _ => Nat.le_of_not_lt hNot)

theorem smaller_le (i size : Nat) (best : Option (Nat × Nat)) :
    ∃ pick, smaller i size best = some pick ∧ pick.2 ≤ size := by
  cases best with
  | none => exact ⟨_, rfl, Nat.le_refl _⟩
  | some best =>
    simp only [smaller]
    split
    · exact ⟨_, rfl, le_refl _⟩
    · rename_i hNot
      exact ⟨_, rfl, Nat.le_of_not_lt hNot⟩

theorem Best.of_exact (hBest : Best units (seen ++ [c]) (smaller seen.length c.size best))
    (hExact : c.size = units) (rest : List Chunk) :
    Best units (seen ++ c :: rest) (smaller seen.length c.size best) := by
  rcases smaller_le seen.length c.size best with ⟨pick, hPick, hLe⟩
  rw [hPick] at hBest ⊢
  rw [← singleton_append, ← append_assoc]
  apply hBest.append
  intro d _ hFits
  exact le_trans (hExact ▸ hLe) (le_trans (Nat.le_add_right _ _) hFits.2)

/- The scan finds the best chunk of the list. -/
theorem bestFit_best (cs : List Chunk) (hBest : Best units seen best) :
    Best units (seen ++ cs) (bestFit units cs seen.length best) := by
  induction cs generalizing seen best with
  | nil => simpa [bestFit] using hBest
  | cons cur rest ih =>
    have hNext (best : Option (Nat × Nat)) (hSnoc : Best units (seen ++ [cur]) best) :
        Best units (seen ++ cur :: rest) (bestFit units rest (seen.length + 1) best) := by
      have hAll := ih hSnoc
      rwa [append_assoc, length_append] at hAll
    unfold bestFit
    split
    · rename_i hFits
      split
      · rename_i hExact
        exact (hBest.snoc_fits hFits).of_exact hExact rest
      · exact hNext _ (hBest.snoc_fits hFits)
    · rename_i hNot
      exact hNext _ (hBest.snoc_other hNot)

------
-- Allocation
------

/- The units of 32 bytes that a request is rounded up to. -/
def unitsOf (size : Nat) : Nat :=
  (size + kMemoryAlign - 1) / kMemoryAlign

/- `alloc` has the answer that there is no memory, or it carves the best chunk. -/
theorem alloc_cases (a : Allocator) {size : Nat} (hSize : Requestable size) :
    (a.alloc size = (.error .enomem, a) ∧ ∀ c ∈ a.mList, ¬ FreeFits (unitsOf size) c) ∨
    ∃ before c after, a.mList = before ++ c :: after ∧ FreeFits (unitsOf size) c ∧
      (∀ d ∈ a.mList, FreeFits (unitsOf size) d → c.size ≤ d.size) ∧
      a.alloc size = (.ok (carveStart (unitsOf size) c * kMemoryAlign),
        { a with mList := before ++ carve (unitsOf size) c ++ after }) := by
  have hUnits : (size + kMemoryAlign - 1) % sizeLimit / kMemoryAlign = unitsOf size := by
    rw [Nat.mod_eq_of_lt hSize.2, unitsOf]
  have hBest : Best (unitsOf size) ([] ++ a.mList) (bestFit (unitsOf size) a.mList 0 none) :=
    bestFit_best a.mList nofun
  rw [nil_append] at hBest
  rw [Allocator.alloc, if_neg (Nat.pos_iff_ne_zero.mp hSize.1), hUnits]
  dsimp only
  cases hPick : bestFit (unitsOf size) a.mList 0 none with
  | none =>
    rw [hPick] at hBest
    exact .inl ⟨rfl, hBest⟩
  | some pick =>
    rw [hPick] at hBest
    rcases hBest with ⟨⟨c, hIndex, hFits, hC⟩, hLe⟩
    simp only [hIndex]
    rcases List.getElem?_eq_some_iff.mp hIndex with ⟨hLt, hGet⟩
    refine .inr ⟨_, c, _, ?_, hFits, hC ▸ hLe, rfl⟩
    rw [← hGet, getElem_cons_drop, take_append_drop]

------
-- The Size Of A Buffer
------

/- The formats that are accepted, and the other numbers. -/
inductive PixelFormat where
| rgba8888
| rgbx8888
| bgra8888
| rgb888
| rgb565
| rgba5551
| rgba4444
| yCbCr420Sp
| yCbCr422Sp
| other (code : Int)
deriving DecidableEq

/- `(n + a - 1) & ~(a - 1)`. -/
def alignTo (a n : Nat) : Nat :=
  (n + a - 1) / a * a

/- The bytes of a pixel in a format with one plane. -/
def PixelFormat.bpp : PixelFormat → Option Nat
| .rgba8888 | .rgbx8888 | .bgra8888 => some 4
| .rgb888 => some 3
| .rgb565 | .rgba5551 | .rgba4444 => some 2
| _ => none

/-
  `gralloc_alloc`: the size that it asks for, before it is rounded to pages, and the stride that it
  returns.
-/
def grallocAlloc (w h : Nat) : PixelFormat → Option (Nat × Nat)
| .yCbCr420Sp =>
  let alignedw := alignTo 2 w
  some (alignedw * h * 2 % sizeLimit, alignedw)
| .yCbCr422Sp =>
  let alignedw := alignTo 2 w
  let alignedh := alignTo 2 h
  some ((alignedw * alignedh + w / 2 * h / 2 * 2) % sizeLimit, alignedw)
| format =>
  let alignedw := alignTo 32 w
  let alignedh := alignTo 32 h
  format.bpp.map fun bpp => (alignedw * alignedh * bpp % sizeLimit, alignedw)

/- The bytes of an image with rows of the given stride. -/
def imageBytes (stride h : Nat) : PixelFormat → Nat
| .yCbCr420Sp => stride * h + stride * ((h + 1) / 2)
| .yCbCr422Sp => stride * h + stride * h
| format => stride * h * format.bpp.getD 0

/- There is room for the image if the format is accepted. -/
def Reserves (w h : Nat) (format : PixelFormat) : Prop :=
  ∀ size stride, grallocAlloc w h format = some (size, stride) → imageBytes stride h format ≤ size

------
-- Which Images Fit
------

theorem le_alignTo {a : Nat} (hA : 0 < a) (n : Nat) : n ≤ alignTo a n := by
  have hMod := Nat.mod_lt (n + a - 1) hA
  have hDiv := Nat.div_add_mod' (n + a - 1) a
  unfold alignTo
  omega

theorem alignTo_mul_lt {a w b h : Nat} (hW : alignTo a w ≤ 4096) (hH : b ≤ 4096) (hBpp : h ≤ 4) :
    alignTo a w * b * h < sizeLimit := by
  calc
    alignTo a w * b * h ≤ 4096 * 4096 * 4 := Nat.mul_le_mul (Nat.mul_le_mul hW hH) hBpp
    _ < sizeLimit := by decide

section

variable {w h : Nat} (hW : 1 ≤ w ∧ w ≤ 4096) (hH : 1 ≤ h ∧ h ≤ 4096)

include hW hH

/- One plane has whole blocks of 32 rows. -/
theorem reserves_of_bpp {format : PixelFormat} {bpp : Nat}
    (hBpp : format.bpp = some bpp) (hSmall : bpp ≤ 4) : Reserves w h format := by
  intro size stride hAlloc
  have hWide : alignTo 32 w ≤ 4096 := by
    unfold alignTo
    omega
  have hHigh : alignTo 32 h ≤ 4096 := by
    unfold alignTo
    omega
  have hEq : size = alignTo 32 w * alignTo 32 h * bpp ∧ stride = alignTo 32 w := by
    cases format <;> cases hBpp <;> cases hAlloc <;>
      exact ⟨Nat.mod_eq_of_lt (alignTo_mul_lt hWide hHigh hSmall), rfl⟩
  have hBytes : imageBytes stride h format = stride * h * bpp := by
    cases format <;> cases hBpp <;> rfl
  rw [hBytes, hEq.1, hEq.2]
  gcongr
  exact le_alignTo (by decide) h

theorem reserves_420 : Reserves w h .yCbCr420Sp := by
  intro size stride hAlloc
  cases hAlloc
  have hWide : alignTo 2 w ≤ 4096 := by
    unfold alignTo
    omega
  rw [Nat.mod_eq_of_lt (alignTo_mul_lt hWide hH.2 (by decide)), imageBytes, Nat.mul_two]
  exact Nat.add_le_add_left (Nat.mul_le_mul_left _ (by omega)) _

/- The second plane has half of the bytes it needs. -/
theorem reserves_422_iff : Reserves w h .yCbCr422Sp ↔ h = 1 := by
  have hWide : alignTo 2 w = (w + 1) / 2 * 2 := rfl
  have hHigh : alignTo 2 h = (h + 1) / 2 * 2 := rfl
  have hHalf : w / 2 * h / 2 * 2 ≤ (w + 1) / 2 * h := by
    have hLe : w / 2 * h ≤ (w + 1) / 2 * h := Nat.mul_le_mul_right h (by omega)
    omega
  have hSmall : alignTo 2 w * alignTo 2 h + w / 2 * h / 2 * 2 < sizeLimit := by
    have hPlane : alignTo 2 w * alignTo 2 h ≤ 4096 * 4096 := Nat.mul_le_mul (by omega) (by omega)
    have hOther : (w + 1) / 2 * h ≤ 4096 * 4096 := Nat.mul_le_mul (by omega) (by omega)
    unfold sizeLimit
    omega
  have hReserves : Reserves w h .yCbCr422Sp ↔ alignTo 2 w * h + alignTo 2 w * h ≤
      alignTo 2 w * alignTo 2 h + w / 2 * h / 2 * 2 := by
    simp [Reserves, grallocAlloc, imageBytes, Nat.mod_eq_of_lt hSmall]
  rw [hReserves]
  constructor
  · intro hLe
    by_contra hMore
    have hRows : 4 * ((h + 1) / 2) + h < 4 * h := by omega
    have hLess : (w + 1) / 2 * (4 * ((h + 1) / 2) + h) < (w + 1) / 2 * (4 * h) :=
      mul_lt_mul_of_pos_left hRows (by omega)
    rw [hWide, hHigh] at hLe
    linarith
  · intro hOne
    have hTwo : alignTo 2 1 = 2 := rfl
    rw [hOne, hWide, hTwo]
    omega

/-
  Up to 4096 pixels in both directions, the size is enough for every image except those with a
  full-height colour plane and more than one row.
-/
theorem gralloc_alloc_reserves_iff (format : PixelFormat) :
    Reserves w h format ↔ (format = .yCbCr422Sp → h = 1) := by
  cases format with
  | yCbCr420Sp => exact iff_of_true (reserves_420 hW hH) nofun
  | yCbCr422Sp =>
    rw [reserves_422_iff hW hH]
    simp
  | other code => exact iff_of_true nofun nofun
  | _ => exact iff_of_true (reserves_of_bpp hW hH rfl (by decide)) nofun

end

theorem gralloc_alloc_reserves_screen :
    Reserves 1024 768 .rgb565 ↔ (PixelFormat.rgb565 = .yCbCr422Sp → 768 = 1) :=
  gralloc_alloc_reserves_iff (by decide) (by decide) .rgb565

/- Two rows of two pixels need 8 bytes. -/
theorem gralloc_alloc_short_for_422 :
    grallocAlloc 2 2 .yCbCr422Sp = some (6, 2) ∧ imageBytes 2 2 .yCbCr422Sp = 8 :=
  ⟨rfl, rfl⟩

------
-- Heaps
------

variable {chunks : List Chunk}

/- Two neighbours are not both free. -/
def Apart (c d : Chunk) : Prop :=
  c.free = true → d.free = false

/- The chunks tile a heap of that many units. -/
structure Heap (units : Nat) (chunks : List Chunk) : Prop where
  tiles : Tiles Chunk.start Chunk.size 0 chunks units
  nonempty : ∀ c ∈ chunks, 0 < c.size
  spaced : chunks.IsChain Apart
  aligned : ∀ c ∈ chunks, c.free = false → c.start % (pagesize / kMemoryAlign) = 0

/- The chunks that are not free. -/
def allocated (chunks : List Chunk) : List Chunk :=
  chunks.filter fun c => !c.free

@[simp] theorem mem_allocated {c : Chunk} : c ∈ allocated chunks ↔ c ∈ chunks ∧ c.free = false := by
  simp [allocated]

@[simp] theorem allocated_append (chunks more : List Chunk) :
    allocated (chunks ++ more) = allocated chunks ++ allocated more :=
  filter_append ..

namespace Heap

variable {units : Nat} {before old new after : List Chunk}

theorem pairwise_start (h : Heap units chunks) :
    chunks.Pairwise (fun c d => c.start < d.start) := by
  apply h.tiles.pairwise.imp_of_mem
  intro c d hc _ hEnd
  have hSize := h.nonempty c hc
  omega

/- Chunks may be replaced by others of the same extent that fit between their neighbours. -/
theorem replace (h : Heap units (before ++ old ++ after)) (hTiles :
      ∀ m n, Tiles Chunk.start Chunk.size m old n → Tiles Chunk.start Chunk.size m new n)
    (hNonempty : ∀ c ∈ new, 0 < c.size) (hSpaced : new.IsChain Apart)
    (hAligned : ∀ c ∈ new, c.free = false →
      c.start % (pagesize / kMemoryAlign) = 0) (hNew : new ≠ [])
    (hLeft : ∀ c ∈ before.getLast?, ∀ d ∈ new.head?, Apart c d)
    (hRight : ∀ c ∈ new.getLast?, ∀ d ∈ after.head?, Apart c d) :
    Heap units (before ++ new ++ after) where
  tiles := h.tiles.replace hTiles
  nonempty := by
    intro c hc
    simp only [mem_append] at hc
    rcases hc with (hBefore | hMiddle) | hAfter
    · exact h.nonempty c (by simp [hBefore])
    · exact hNonempty c hMiddle
    · exact h.nonempty c (by simp [hAfter])
  spaced := by
    have hFront := isChain_append.mp h.spaced
    have hBefore := (isChain_append.mp hFront.1).1
    apply isChain_append.mpr
    refine ⟨?_, hFront.2.1, ?_⟩
    · exact isChain_append.mpr ⟨hBefore, hSpaced, hLeft⟩
    · intro c hc d hd
      rw [getLast?_append_of_ne_nil _ hNew] at hc
      exact hRight c hc d hd
  aligned := by
    intro c hc hFree
    simp only [mem_append] at hc
    rcases hc with (hBefore | hMiddle) | hAfter
    · exact h.aligned c (by simp [hBefore]) hFree
    · exact hAligned c hMiddle hFree
    · exact h.aligned c (by simp [hAfter]) hFree

/- The neighbours of a free chunk are not free. -/
theorem neighbours {c : Chunk} (h : Heap units (before ++ [c] ++ after)) (hFree : c.free = true) :
    (∀ b ∈ before.getLast?, b.free = false) ∧ ∀ d ∈ after.head?, d.free = false := by
  have hFront := isChain_append.mp h.spaced
  have hBefore := isChain_append.mp hFront.1
  constructor
  · intro b hb
    have hApart := hBefore.2.2 b hb c (by simp)
    cases hCase : b.free with
    | false => rfl
    | true =>
      have hNot := hApart hCase
      rw [hFree] at hNot
      cases hNot
  · intro d hd
    exact hFront.2.2 c (by simp) d hd hFree

end Heap

------
-- Allocation
------

variable {size : Nat} {c : Chunk}

theorem aligned_carveStart (hFits : FreeFits size c) :
    carveStart size c % (pagesize / kMemoryAlign) = 0 := by
  have hBoundary : (c.start + extraUnits c.start) % (pagesize / kMemoryAlign) = 0 := by
    change (c.start + (128 - c.start % 128) % 128) % 128 = 0
    omega
  have hSize := hFits.2
  unfold carveStart
  split
  next => exact hBoundary
  next hExact =>
    have hExtra : extraUnits c.start = 0 := by omega
    rwa [hExtra, add_zero] at hBoundary

theorem splitOff_tiles (start size : Nat) :
    Tiles Chunk.start Chunk.size start (splitOff start size) (start + size) := by
  unfold splitOff
  split
  next hEmpty => simp [Tiles, hEmpty]
  next => simp [Tiles]

theorem mem_splitOff {start size : Nat} {d : Chunk}
    (hMem : d ∈ splitOff start size) : d.free = true ∧ 0 < d.size := by
  unfold splitOff at hMem
  split at hMem
  next => cases hMem
  next hSize =>
    rw [mem_singleton] at hMem
    subst hMem
    exact ⟨rfl, by simpa using Nat.pos_of_ne_zero hSize⟩

@[simp] theorem allocated_splitOff (start size : Nat) : allocated (splitOff start size) = [] := by
  apply filter_eq_nil_iff.mpr
  intro d hMem
  simp [(mem_splitOff hMem).1]

/- The carved chunks have the extent of the old one. -/
theorem carve_tiles (hFits : FreeFits size c) {m n : Nat}
    (hTiles : Tiles Chunk.start Chunk.size m [c] n) :
    Tiles Chunk.start Chunk.size m (carve size c) n := by
  rcases hTiles with ⟨hStart, hEnd⟩
  have hSize := hFits.2
  simp only [Tiles] at hEnd
  subst hStart
  unfold carve
  split
  next =>
    have hFront := splitOff_tiles c.start (extraUnits c.start)
    have hBack := splitOff_tiles (c.start + extraUnits c.start + size)
        (c.size - (size + extraUnits c.start))
    have hLast : c.start + extraUnits c.start + size +
        (c.size - (size + extraUnits c.start)) = n := by
      omega
    rw [hLast] at hBack
    exact tiles_append.mpr ⟨_, tiles_append.mpr ⟨_, hFront, rfl, rfl⟩, hBack⟩
  next =>
    refine ⟨rfl, ?_⟩
    simp only [Tiles]
    omega

theorem allocated_carve (size : Nat) (c : Chunk) :
    allocated (carve size c) = [⟨carveStart size c, size, false⟩] := by
  unfold carve carveStart
  split
  next =>
    rw [allocated_append, allocated_append, allocated_splitOff, allocated_splitOff]
    rfl
  next => rfl

/- What is not allocated stays free. -/
theorem carve_parts (size : Nat) (c : Chunk) : ∃ front back, carve size c =
    front ++ ⟨carveStart size c, size, false⟩ :: back ∧ ∀ d ∈ front ++ back, d.free = true := by
  unfold carve carveStart
  split
  next =>
    refine ⟨_, _, append_assoc _ _ _, ?_⟩
    intro d hMem
    rcases mem_append.mp hMem with hFront | hBack
    · exact (mem_splitOff hFront).1
    · exact (mem_splitOff hBack).1
  next => exact ⟨[], [], rfl, by simp⟩

/-
  The answer is that there is no memory exactly if no chunk fits. Otherwise the block lies on a page
  boundary in a smallest chunk that fits, and the rest of that chunk stays free.
-/
structure BestFit (a : Allocator) (size : Nat) (result : Except Errno Nat × Allocator) : Prop where
  complete : result.1 = .error .enomem ↔ ∀ c ∈ a.mList, ¬ FreeFits (unitsOf size) c
  carved : (∃ c ∈ a.mList, FreeFits (unitsOf size) c) →
      ∃ before c after front block back, a.mList = before ++ c :: after ∧
        FreeFits (unitsOf size) c ∧ (∀ d ∈ a.mList, FreeFits (unitsOf size) d → c.size ≤ d.size) ∧
        result = (.ok (block.start * kMemoryAlign),
          { a with mList := before ++ (front ++ block :: back) ++ after }) ∧
        block.size = unitsOf size ∧ block.free = false ∧
        block.start % (pagesize / kMemoryAlign) = 0 ∧
        Tiles Chunk.start Chunk.size c.start (front ++ block :: back) (c.start + c.size) ∧
        ∀ d ∈ front ++ back, d.free = true

/-
  For every state with a heap and every size that does not wrap, `allocate` is complete best fit.
  Without a heap it has an answer of its own.
-/
theorem allocate_best_fit (a : Allocator) (size : Nat) :
    (a.mHeapSize = 0 → a.allocate size = (.error .einval, a)) ∧
      (a.mHeapSize ≠ 0 → Requestable size → BestFit a size (a.allocate size)) := by
  refine ⟨fun hNone => if_pos hNone, ?_⟩
  intro hHeap hSize
  rw [Allocator.allocate, if_neg hHeap]
  rcases alloc_cases a hSize with ⟨hRun, hNone⟩ | ⟨before, c, after, hList, hFits, hLeast, hRun⟩
  · rw [hRun]
    refine ⟨iff_of_true rfl hNone, ?_⟩
    rintro ⟨c, hMem, hFits⟩
    exact absurd hFits (hNone c hMem)
  · rw [hRun]
    refine ⟨iff_of_false (by simp) ?_, fun _ => ?_⟩
    · intro hNone
      exact hNone c (by simp [hList]) hFits
    · rcases carve_parts (unitsOf size) c with ⟨front, back, hCarve, hFree⟩
      have hTiles := carve_tiles hFits (m := c.start) ⟨rfl, rfl⟩
      rw [hCarve] at hTiles ⊢
      exact ⟨before, c, after, front, ⟨carveStart (unitsOf size) c, unitsOf size, false⟩, back,
        hList, hFits, hLeast, rfl, rfl, rfl, aligned_carveStart hFits, hTiles, hFree⟩

/- The first page of a heap of two. -/
theorem allocate_best_fit_page :
    BestFit (World.ofSize 8192).allocator 4096 ((World.ofSize 8192).allocator.allocate 4096) :=
  (allocate_best_fit _ 4096).2 (by decide) (by decide)

/- An allocator without a heap has another answer. -/
theorem allocate_without_heap :
    (∀ c ∈ Allocator.init.mList, ¬ FreeFits (unitsOf 32) c) ∧
      (Allocator.init.allocate 32).1 ≠ .error .enomem :=
  ⟨nofun, by decide⟩

/- No carved chunk is empty. -/
theorem carve_nonempty (hSize : 0 < size) {d : Chunk} (hMem : d ∈ carve size c) : 0 < d.size := by
  unfold carve at hMem
  split at hMem
  next =>
    simp only [mem_append, mem_singleton] at hMem
    rcases hMem with (hFront | rfl) | hBack
    · exact (mem_splitOff hFront).2
    · exact hSize
    · exact (mem_splitOff hBack).2
  next =>
    rw [mem_singleton] at hMem
    subst hMem
    exact hSize

/- The carved chunks that are free are apart. -/
theorem carve_spaced (size : Nat) (c : Chunk) : (carve size c).IsChain Apart := by
  have hPart : ∀ start size, (splitOff start size).IsChain Apart := by
    intro start size
    unfold splitOff
    split
    next => exact List.IsChain.nil
    next => exact List.IsChain.singleton _
  unfold carve
  split
  next =>
    apply isChain_append.mpr
    refine ⟨?_, hPart _ _, ?_⟩
    · apply isChain_append.mpr
      refine ⟨hPart _ _, List.IsChain.singleton _, ?_⟩
      intro a _ b hb _
      have hEq := Option.mem_some_iff.mp hb
      subst hEq
      rfl
    · intro a ha b _ hFree
      rw [getLast?_append_of_ne_nil _ (by simp)] at ha
      have hEq := Option.mem_some_iff.mp ha
      subst hEq
      cases hFree
  next => exact List.IsChain.singleton _

/- Allocation keeps the heap. -/
theorem Heap.carve {units : Nat} {before after : List Chunk}
    (h : Heap units (before ++ [c] ++ after)) (hSize : 0 < size) (hFits : FreeFits size c) :
    Heap units (before ++ Gralloc.carve size c ++ after) := by
  have hNear := h.neighbours hFits.1
  apply h.replace
  · intro m n hTiles
    exact carve_tiles hFits hTiles
  · intro d hMem
    exact carve_nonempty hSize hMem
  · exact carve_spaced size c
  · intro d hMem hTaken
    have hOnly : d ∈ allocated (Gralloc.carve size c) := mem_allocated.mpr ⟨hMem, hTaken⟩
    rw [allocated_carve, mem_singleton] at hOnly
    subst hOnly
    exact aligned_carveStart hFits
  · intro hNil
    have hOnly := allocated_carve size c
    rw [hNil] at hOnly
    cases hOnly
  · intro b hb d _ hFree
    have hTaken := hNear.1 b hb
    rw [hFree] at hTaken
    cases hTaken
  · intro b _ d hd _
    exact hNear.2 d hd

------
-- Deallocation
------

/- A chunk that absorbs another one behind it. -/
def Chunk.join (c d : Chunk) : Chunk :=
  { c with size := c.size + d.size }

variable {after lead before : List Chunk}

theorem mergeLoop_stop (freed : Bool) (before : List Chunk)
    (cur : Chunk) (hAfter : ∀ d ∈ after.head?, d.free = false) :
    mergeLoop freed before cur after = (freedFree freed cur before,
      (absorb cur before).reverse ++ after) := by
  cases after with
  | nil => simp [mergeLoop]
  | cons n after =>
    have hTaken := hAfter n (by simp)
    simp [mergeLoop, hTaken]

/-
  How a free chunk `cur` is merged into the chunks in front of it: the chunks `left`, which are
  free, and `cur` become the chunk `m`.
-/
structure Absorbs (lead left : List Chunk) (cur m : Chunk) : Prop where
  free : m.free = true
  nonempty : 0 < m.size
  left_free : ∀ d ∈ left, d.free = true
  lead_taken : ∀ d ∈ lead.getLast?, d.free = false
  tiles : ∀ s e, Tiles Chunk.start Chunk.size s (left ++ [cur]) e →
      Tiles Chunk.start Chunk.size s [m] e
  absorb : absorb cur (lead ++ left).reverse = (lead ++ [m]).reverse
  freed : freedFree true cur (lead ++ left).reverse = true

variable {cur : Chunk}

/- A free chunk is merged with a free one in front of it. -/
theorem Absorbs.join {p : Chunk} (hFree : p.free = true)
    (hLead : ∀ d ∈ lead.getLast?, d.free = false) (hSize : 0 < cur.size) :
    Absorbs lead [p] cur (p.join cur) where
  free := hFree
  nonempty := by
    simp only [Chunk.join]
    omega
  left_free := by simpa using hFree
  lead_taken := hLead
  tiles := by
    intro s e hTiles
    rcases hTiles with ⟨hStart, _, hEnd⟩
    refine ⟨hStart, ?_⟩
    simp only [Chunk.join, Tiles] at hEnd ⊢
    omega
  absorb := by simp [Gralloc.absorb, hFree, Chunk.join]
  freed := by simp [freedFree, hFree]

/- It stays apart from a chunk that is not free. -/
theorem Absorbs.keep (hFree : cur.free = true)
    (hLead : ∀ d ∈ lead.getLast?, d.free = false) (hSize : 0 < cur.size) :
    Absorbs lead [] cur cur where
  free := hFree
  nonempty := hSize
  left_free := by simp
  lead_taken := hLead
  tiles := by
    intro s e hTiles
    exact hTiles
  absorb := by
    cases hCase : lead.reverse with
    | nil => simp [Gralloc.absorb, hCase]
    | cons p before =>
      have hTaken := hLead p (by
        rw [getLast?_eq_head?_reverse, hCase]
        rfl)
      have hPositive : cur.size ≠ 0 := by omega
      simp [Gralloc.absorb, hCase, hTaken, hPositive]
  freed := by
    cases hCase : lead.reverse with
    | nil => simp [freedFree, hCase]
    | cons p before =>
      simp only [append_nil, hCase, freedFree]
      split
      next hEither =>
        rcases hEither with hp | hZero
        · exact hp
        · omega
      next => rfl

/- One of the two happens to a free chunk. -/
theorem exists_absorbs (hSpaced : before.IsChain Apart)
    (hFree : cur.free = true) (hSize : 0 < cur.size) :
    ∃ lead left m, before = lead ++ left ∧ Absorbs lead left cur m := by
  rcases eq_nil_or_concat before with rfl | ⟨lead, p, rfl⟩
  · refine ⟨[], [], cur, rfl, ?_⟩
    exact Absorbs.keep hFree (by simp) hSize
  · rw [concat_eq_append] at hSpaced ⊢
    cases hp : p.free with
    | true =>
      refine ⟨lead, [p], p.join cur, rfl, ?_⟩
      apply Absorbs.join hp ?_ hSize
      intro d hd
      have hApart := (isChain_append.mp hSpaced).2.2 d hd p (by simp)
      cases hTaken : d.free with
      | false => rfl
      | true =>
        rw [hApart hTaken] at hp
        cases hp
    | false =>
      refine ⟨lead ++ [p], [], cur, by simp, ?_⟩
      exact Absorbs.keep hFree (by simpa using hp) hSize

/-
  What deallocation makes of the chunks around the freed one: `left`, `cur` and `right` become the
  chunk `m`.
-/
structure Merges (lead left : List Chunk) (cur : Chunk)
    (right trail : List Chunk) (m : Chunk) : Prop where
  free : m.free = true
  nonempty : 0 < m.size
  left_free : ∀ d ∈ left, d.free = true
  right_free : ∀ d ∈ right, d.free = true
  lead_taken : ∀ d ∈ lead.getLast?, d.free = false
  trail_taken : ∀ d ∈ trail.head?, d.free = false
  tiles : ∀ s e, Tiles Chunk.start Chunk.size s (left ++ [cur] ++ right) e →
      Tiles Chunk.start Chunk.size s [m] e
  merge : mergeFreed (lead ++ left).reverse cur (right ++ trail) = .ok (lead ++ [m] ++ trail)

/- The loop ends after the first pass. -/
theorem Absorbs.merges {left trail : List Chunk} {m : Chunk} (h : Absorbs lead left cur m)
    (hTrail : ∀ d ∈ trail.head?, d.free = false) : Merges lead left cur [] trail m where
  free := h.free
  nonempty := h.nonempty
  left_free := h.left_free
  right_free := by simp
  lead_taken := h.lead_taken
  trail_taken := hTrail
  tiles := by
    intro s e hTiles
    rw [append_nil] at hTiles
    exact h.tiles s e hTiles
  merge := by
    simp only [mergeFreed, nil_append, mergeLoop_stop true _ cur hTrail, h.absorb, h.freed,
      reverse_reverse, if_true]

/- The loop takes a second pass for a free chunk behind. -/
theorem Absorbs.merges_next {left trail : List Chunk} {m n : Chunk}
    (h : Absorbs lead left cur m) (hFree : n.free = true)
    (hSize : 0 < n.size) (hTrail : ∀ d ∈ trail.head?, d.free = false) :
    Merges lead left cur [n] trail (m.join n) := by
  have hNext := Absorbs.join h.free h.lead_taken hSize
  exact {
    free := h.free
    nonempty := hNext.nonempty
    left_free := h.left_free
    right_free := by simpa using hFree
    lead_taken := h.lead_taken
    trail_taken := hTrail
    tiles := by
      intro s e hTiles
      rcases tiles_append.mp hTiles with ⟨middle, hFront, hBack⟩
      apply hNext.tiles
      exact tiles_append.mpr ⟨middle, h.tiles s middle hFront, hBack⟩
    merge := by
      simp only [mergeFreed, singleton_append, mergeLoop, hFree, if_true, h.freed, h.absorb,
        mergeLoop_stop true _ n hTrail, hNext.absorb, hNext.freed, reverse_reverse] }

/- Every freed chunk of a heap is merged this way. -/
theorem exists_merges (cur : Chunk) (hBefore : before.IsChain Apart) (hAfter : after.IsChain Apart)
    (hSizes : ∀ d ∈ after, 0 < d.size) (hFree : cur.free = true) (hSize : 0 < cur.size) :
    ∃ lead left right trail m, before = lead ++ left ∧ after = right ++ trail ∧
      Merges lead left cur right trail m := by
  rcases exists_absorbs hBefore hFree hSize with ⟨lead, left, m, rfl, hAbsorbs⟩
  cases after with
  | nil => exact ⟨lead, left, [], [], m, rfl, rfl, hAbsorbs.merges (by simp)⟩
  | cons n trail =>
    cases hn : n.free with
    | false => exact ⟨lead, left, [], n :: trail, m, rfl, rfl, hAbsorbs.merges (by simpa using hn)⟩
    | true =>
      refine ⟨lead, left, [n], trail, _, rfl, rfl, hAbsorbs.merges_next hn (hSizes n (by simp)) ?_⟩
      intro d hd
      have hApart := isChain_append.mp (show ([n] ++ trail).IsChain Apart from hAfter)
      exact hApart.2.2 n (by simp) d hd hn

@[simp] theorem allocated_eq_nil : allocated chunks = [] ↔ ∀ c ∈ chunks, c.free = true := by
  simp [allocated]

/- Merging keeps the heap and all other allocations. -/
theorem Heap.merge {units : Nat} (h : Heap units (before ++ [c] ++ after)) :
    ∃ chunks, mergeFreed before.reverse { c with free := true } after = .ok chunks ∧
        Heap units chunks ∧ allocated chunks = allocated before ++ allocated after := by
  have hFront := isChain_append.mp h.spaced
  have hBefore := (isChain_append.mp hFront.1).1
  rcases exists_merges { c with free := true } hBefore hFront.2.1
      (fun d hd => h.nonempty d (by simp [hd])) rfl
      (h.nonempty c (by simp)) with ⟨lead, left, right, trail, m, rfl, rfl, hMerges⟩
  have hNoLeft := allocated_eq_nil.mpr hMerges.left_free
  have hNoRight := allocated_eq_nil.mpr hMerges.right_free
  refine ⟨_, hMerges.merge, ?_, ?_⟩
  · have hGrouped : Heap units (lead ++ (left ++ [c] ++ right) ++ trail) := by
      simpa only [append_assoc] using h
    apply hGrouped.replace
    · intro s e hTiles
      apply hMerges.tiles s e
      -- The extent does not depend on the `free` flag.
      rcases tiles_append.mp hTiles with ⟨n, hLeftPart, hRightPart⟩
      rcases tiles_append.mp hLeftPart with ⟨m', hLeft, hMiddle⟩
      exact tiles_append.mpr ⟨n, tiles_append.mpr ⟨m', hLeft, hMiddle⟩, hRightPart⟩
    · simpa using hMerges.nonempty
    · exact List.IsChain.singleton m
    · intro d hd hTaken
      rw [mem_singleton] at hd
      subst hd
      rw [hMerges.free] at hTaken
      cases hTaken
    · simp
    · intro d hd _ _ hFree
      rw [hMerges.lead_taken d hd] at hFree
      cases hFree
    · intro _ _ d hd _
      exact hMerges.trail_taken d hd
  · have hOne : allocated [m] = [] := by simpa using hMerges.free
    simp only [allocated_append, hOne, hNoLeft, hNoRight, append_nil, nil_append]

/- `dealloc` finds the chunk with the given start. -/
theorem deallocFrom_eq (hTaken : c.free = false) {pre : List Chunk}
    (hPre : ∀ d ∈ pre, d.start ≠ c.start) (before post : List Chunk) :
    deallocFrom c.start before (pre ++ [c] ++ post) = (do
      let chunks ← mergeFreed (pre.reverse ++ before)
        { c with free := true } post
      return some chunks) := by
  induction pre generalizing before with
  | nil => simp [deallocFrom, hTaken]
  | cons d pre ih =>
    have hOther := hPre d (by simp)
    have hRest := ih (fun d' hd' => hPre d' (by simp [hd'])) (d :: before)
    simpa [deallocFrom, hOther] using hRest

/- Freeing an allocated chunk keeps the heap. -/
theorem Heap.dealloc {units : Nat} (h : Heap units chunks) (hMem : c ∈ allocated chunks) :
    ∃ next, deallocFrom c.start [] chunks = .ok (some next) ∧ Heap units next ∧
      (c :: allocated next).Perm (allocated chunks) := by
  rcases mem_allocated.mp hMem with ⟨hIn, hTaken⟩
  rcases append_of_mem hIn with ⟨pre, post, rfl⟩
  have hSplit : pre ++ c :: post = pre ++ [c] ++ post := by simp
  rw [hSplit] at h ⊢
  have hPre : ∀ d ∈ pre, d.start ≠ c.start := by
    intro d hd
    have hFront := pairwise_append.mp h.pairwise_start
    have hLess := (pairwise_append.mp hFront.1).2.2 d hd c (by simp)
    omega
  rcases h.merge with ⟨next, hMerge, hHeap, hSame⟩
  refine ⟨next, ?_, hHeap, ?_⟩
  · rw [deallocFrom_eq hTaken hPre, append_nil, hMerge]
    rfl
  · have hOne : allocated [c] = [c] := by simp [allocated, hTaken]
    rw [hSame, allocated_append, allocated_append, hOne, append_assoc]
    exact perm_middle.symm

------
-- The Allocator And Its User
------

variable {units : Nat}

/- The chunk holds the memory of the allocation. -/
def Backs (c : Chunk) (a : Allocation) : Prop :=
  a.offset = c.start * kMemoryAlign ∧ a.requested ≤ c.size * kMemoryAlign

/- The allocated chunks are those of the live allocations, one for each. -/
def Backed (chunks : List Chunk) (live : List Allocation) : Prop :=
  ∃ owners : List (Chunk × Allocation), (allocated chunks).Perm (owners.map Prod.fst) ∧
      owners.map Prod.snd = live ∧ ∀ o ∈ owners, Backs o.1 o.2

/- The invariant of an allocator in use. -/
structure Tiled (w : World) : Prop where
  units : 0 < w.allocator.mHeapSize / kMemoryAlign
  heap : Heap (w.allocator.mHeapSize / kMemoryAlign) w.allocator.mList
  backed : Backed w.allocator.mList w.live

/- What `alloc` does: it fails and changes nothing, or one more chunk is allocated. -/
theorem Heap.alloc {a : Allocator}
    (h : Heap units a.mList) {size : Nat} (hSize : Requestable size) :
    (∃ e, a.alloc size = (.error e, a)) ∨ ∃ c next, a.alloc size =
      (.ok (c.start * kMemoryAlign), { a with mList := next }) ∧ Heap units next ∧
          (allocated next).Perm (c :: allocated a.mList) ∧ size ≤ c.size * kMemoryAlign := by
  have hUnits : 0 < unitsOf size ∧ size ≤ unitsOf size * kMemoryAlign := by
    have hPositive := hSize.1
    simp only [unitsOf, kMemoryAlign]
    omega
  rcases alloc_cases a hSize with ⟨hRun, _⟩ | ⟨before, c, after, hList, hFits, _, hRun⟩
  · exact .inl ⟨.enomem, hRun⟩
  · refine .inr ⟨⟨carveStart (unitsOf size) c, unitsOf size, false⟩, _, hRun, ?_, ?_, hUnits.2⟩
    · rw [hList, append_cons] at h
      exact h.carve hUnits.1 hFits
    · have hOld : allocated a.mList = allocated before ++ allocated after := by
        have hFree : allocated [c] = [] := by simpa using hFits.1
        rw [hList, append_cons, allocated_append, allocated_append, hFree, append_nil]
      rw [hOld, allocated_append, allocated_append, allocated_carve, append_assoc]
      exact perm_middle

namespace Tiled

variable {w : World}

theorem heapSize (h : Tiled w) : w.allocator.mHeapSize ≠ 0 := by
  intro hZero
  have hUnits := h.units
  rw [hZero] at hUnits
  cases hUnits

/- An allocation keeps the invariant. -/
theorem allocate (h : Tiled w) (size : Nat) :
    ∃ next, step w (.allocate size) = .ok next ∧ Tiled next := by
  unfold Gralloc.step
  simp only
  split
  next hSize =>
    unfold Allocator.allocate
    rw [if_neg h.heapSize]
    rcases h.heap.alloc hSize with ⟨e, hFails⟩ | ⟨c, next, hAlloc, hHeap, hMore, hLarge⟩
    · rw [hFails]
      exact ⟨w, rfl, h⟩
    · rw [hAlloc]
      refine ⟨_, rfl, h.units, hHeap, ?_⟩
      rcases h.backed with ⟨owners, hChunks, hLive, hBacks⟩
      refine ⟨(c, ⟨c.start * kMemoryAlign, size⟩) :: owners, ?_, ?_, ?_⟩
      · exact hMore.trans (hChunks.cons c)
      · simp [hLive]
      · intro o ho
        rcases mem_cons.mp ho with rfl | hOld
        · exact ⟨rfl, hLarge⟩
        · exact hBacks o hOld
  next => exact ⟨w, rfl, h⟩

/- So does giving an allocation back. -/
theorem deallocate (h : Tiled w) (i : Nat) :
    ∃ next, step w (.deallocate i) = .ok next ∧ Tiled next := by
  rcases h.backed with ⟨owners, hChunks, hLive, hBacks⟩
  unfold Gralloc.step
  simp only
  rw [← hLive, getElem?_map]
  cases hOwner : owners[i]? with
  | none => exact ⟨w, rfl, h⟩
  | some o =>
    have hIn := mem_of_getElem? hOwner
    have hTaken : o.1 ∈ allocated w.allocator.mList := hChunks.mem_iff.mpr (mem_map_of_mem hIn)
    rcases h.heap.dealloc hTaken with ⟨chunks, hDealloc, hHeap, hRest⟩
    have hStart : o.2.offset / kMemoryAlign = o.1.start := by
      rw [(hBacks o hIn).1]
      exact Nat.mul_div_cancel _ (by decide)
    have hFreed : w.allocator.deallocate o.2.offset = .ok (.ok 0,
        { w.allocator with mList := chunks }) := by
      simp only [Allocator.deallocate, if_neg h.heapSize, hStart, hDealloc]
      rfl
    simp only [Option.map_some, hFreed, ok_bind]
    refine ⟨_, rfl, h.units, hHeap, owners.eraseIdx i, ?_, ?_, ?_⟩
    · rcases List.getElem?_eq_some_iff.mp hOwner with ⟨hLess, hAt⟩
      have hOwners := (getElem_cons_eraseIdx_perm hLess).map Prod.fst
      rw [map_cons, hAt] at hOwners
      exact (hRest.trans (hChunks.trans hOwners.symm)).cons_inv
    · exact (eraseIdx_map ..).symm
    · intro o' ho'
      exact hBacks o' (mem_of_mem_eraseIdx ho')

theorem step (h : Tiled w) (action : Action) :
    ∃ next, Gralloc.step w action = .ok next ∧ Tiled next := by
  cases action with
  | allocate size => exact h.allocate size
  | deallocate i => exact h.deallocate i

end Tiled

------
-- Every Sequence Of Operations
------

/- Two allocations that share no byte. -/
def Disjoint (a b : Allocation) : Prop :=
  a.offset + a.requested ≤ b.offset ∨ b.offset + b.requested ≤ a.offset

/-
  A well tiled heap: the chunks partition it, every allocated chunk belongs to a live allocation and
  every live allocation to an allocated chunk that is as long as requested, no two live allocations
  overlap, and without any the heap is one free chunk.
-/
structure WellTiled (w : World) : Prop where
  heap : Heap (w.allocator.mHeapSize / kMemoryAlign) w.allocator.mList
  chunk_live : ∀ c ∈ w.allocator.mList, c.free = false → ∃ a ∈ w.live, Backs c a
  live_chunk : ∀ a ∈ w.live, ∃ c ∈ w.allocator.mList, c.free = false ∧ Backs c a
  disjoint : w.live.Pairwise Disjoint
  freed : w.live = [] → w.allocator.mList = [⟨0, w.allocator.mHeapSize / kMemoryAlign, true⟩]

/- A heap without allocated chunks is one free chunk. -/
theorem Heap.eq_one_free {chunks : List Chunk}
    (h : Heap units chunks) (hUnits : 0 < units) (hFree : ∀ c ∈ chunks, c.free = true) :
    chunks = [⟨0, units, true⟩] := by
  rcases h with ⟨hTiles, _, hSpaced, _⟩
  cases chunks with
  | nil =>
    simp only [Tiles] at hTiles
    omega
  | cons c rest =>
    have hc := hFree c (by simp)
    cases rest with
    | nil =>
      rcases c with ⟨start, size, free⟩
      simp only [Tiles] at hTiles hc
      rcases hTiles with ⟨rfl, hEnd⟩
      rw [zero_add] at hEnd
      rw [hc, hEnd]
    | cons d rest =>
      have hApart := (isChain_cons_cons.mp hSpaced).1
      have hd := hFree d (by simp)
      rw [hApart hc] at hd
      cases hd

/- The invariant says that the heap is well tiled. -/
theorem Tiled.wellTiled {w : World} (h : Tiled w) : WellTiled w := by
  rcases h.backed with ⟨owners, hChunks, hLive, hBacks⟩
  refine ⟨h.heap, ?_, ?_, ?_, ?_⟩
  · intro c hc hTaken
    have hOwned := hChunks.mem_iff.mp (mem_allocated.mpr ⟨hc, hTaken⟩)
    rcases mem_map.mp hOwned with ⟨o, ho, rfl⟩
    refine ⟨o.2, ?_, hBacks o ho⟩
    rw [← hLive]
    exact mem_map_of_mem ho
  · intro a ha
    rw [← hLive] at ha
    rcases mem_map.mp ha with ⟨o, ho, rfl⟩
    have hTaken := hChunks.mem_iff.mpr (mem_map_of_mem ho)
    rcases mem_allocated.mp hTaken with ⟨hc, hFree⟩
    exact ⟨o.1, hc, hFree, hBacks o ho⟩
  · have hApart : (allocated w.allocator.mList).Pairwise (fun c d =>
            c.start + c.size ≤ d.start ∨ d.start + d.size ≤ c.start) :=
      (h.heap.tiles.pairwise.filter _).imp Or.inl
    have hOwners := (hChunks.pairwise_iff (fun hOr => hOr.symm)).mp hApart
    rw [← hLive]
    apply pairwise_map.mpr
    apply (pairwise_map.mp hOwners).imp_of_mem
    intro o o' ho ho' hEither
    rcases hBacks o ho with ⟨hOffset, hSize⟩
    rcases hBacks o' ho' with ⟨hOffset', hSize'⟩
    simp only [Disjoint, kMemoryAlign] at *
    omega
  · intro hEmpty
    rw [hEmpty, map_eq_nil_iff] at hLive
    rw [hLive] at hChunks
    have hNone := perm_nil.mp hChunks
    exact h.heap.eq_one_free h.units (allocated_eq_nil.mp hNone)

theorem heapSize_ofSize (size : Nat) :
    (World.ofSize size).allocator =
      { mHeapSize := (size + pagesize - 1) % sizeLimit / pagesize *
          pagesize
        mList := [⟨0, (size + pagesize - 1) % sizeLimit / pagesize *
            pagesize / kMemoryAlign, true⟩] } :=
  rfl

/- A new heap of at least a page is tiled. -/
theorem Tiled.ofSize {size : Nat} (hPositive : 0 < size)
    (hSize : size ≤ sizeLimit - pagesize) : Tiled (World.ofSize size) := by
  have hUnits : 0 < (World.ofSize size).allocator.mHeapSize / kMemoryAlign := by
    simp only [heapSize_ofSize, sizeLimit, pagesize, kMemoryAlign] at *
    omega
  refine ⟨hUnits, ?_, ⟨[], List.Perm.refl _, rfl, by simp⟩⟩
  constructor
  · exact ⟨rfl, zero_add _⟩
  · intro c hc
    rw [mem_singleton.mp hc]
    exact hUnits
  · exact List.IsChain.singleton _
  · intro c hc hTaken
    rw [mem_singleton.mp hc] at hTaken
    cases hTaken

/-
  After `setSize` of a positive size, the heap stays well tiled under every sequence of operations,
  unless the size is so close to `2 ^ 32` that rounding it up to a page wraps around. Then the list
  is one empty chunk.
-/
theorem allocator_keeps_tiling_iff (size : Nat) (hPositive : 0 < size) (hSize : size < sizeLimit) :
    (∀ actions, ∃ w, run step (World.ofSize size) actions = .ok w ∧ WellTiled w) ↔
      size ≤ sizeLimit - pagesize := by
  constructor
  · intro hAll
    by_contra hLarge
    rcases hAll [] with ⟨w, hRun, hTiled⟩
    cases hRun
    have hWraps : (size + pagesize - 1) % sizeLimit / pagesize = 0 := by
      simp only [sizeLimit, pagesize] at *
      omega
    have hEmpty : (⟨0, 0, true⟩ : Chunk) ∈ (World.ofSize size).allocator.mList := by
      simp [heapSize_ofSize, hWraps]
    exact absurd (hTiled.heap.nonempty _ hEmpty) (by simp)
  · intro hFits actions
    have hAny : Along step (fun _ _ => True) (World.ofSize size) actions :=
      .of_actions (fun _ _ => trivial) _
    rcases run_preserves (fun w action h _ => h.step action)
        (Tiled.ofSize hPositive hFits) hAny with ⟨w, hRun, hTiled⟩
    exact ⟨w, hRun, hTiled.wellTiled⟩

/- A heap of two pages, and three operations on it. -/
theorem allocator_keeps_tiling_iff_two_pages :
    ∃ w, run step (World.ofSize 8192) [.allocate 100, .allocate 4096, .deallocate 1] = .ok w ∧
      WellTiled w :=
  (allocator_keeps_tiling_iff 8192 (by decide) (by decide)).mpr (by decide) _

/- `setSize(0xFFFFFFFF)` leaves an empty chunk. -/
theorem allocator_wraps_heap_size :
    run step (World.ofSize (2 ^ 32 - 1)) [] = .ok
      { allocator := { mHeapSize := 0, mList := [⟨0, 0, true⟩] }
        live := [] } ∧
      ∀ w, run step (World.ofSize (2 ^ 32 - 1)) [] = .ok w → ¬ WellTiled w := by
  have hEmpty : run step (World.ofSize (2 ^ 32 - 1)) [] = .ok
      { allocator := { mHeapSize := 0, mList := [⟨0, 0, true⟩] }
        live := [] } := by
    decide
  refine ⟨hEmpty, ?_⟩
  intro w hRun hTiled
  rw [hEmpty] at hRun
  cases hRun
  exact absurd (hTiled.heap.nonempty ⟨0, 0, true⟩ (by decide)) (by decide)

end OpenIvi.Gralloc
