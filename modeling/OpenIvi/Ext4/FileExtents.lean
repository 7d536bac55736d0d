import Mathlib.Algebra.BigOperators.Group.List.Basic
import OpenIvi.Ext4.ExtentBlock
import OpenIvi.Lib.Tiling

/-
  Which files make_ext4fs maps.

  A file is mapped completely if its extents, one after the other, are as long as the file and have
  blocks of their own. The allocator always finds such blocks; but the extents do not name them all
  if the first of the regions has one block only, if a region is too long for its extent or if there
  are too many regions for the block of the extents.

  A link is lost if its target does not fit in the inode.

  Main declarations:
    * `Reachable`
    * `MapsFile`
    * `mapped_iff`
    * `file_mapped_iff_fits`
-/

------
-- Runs Of The Allocator
------

namespace OpenIvi.Ext4

open Lib List Function

/- The allocator, and the blocks of the allocations so far. -/
structure State where
  fs : Fs
  owned : List Nat

/- What make_ext4fs asks the allocator for. -/
inductive Request
| block
| blocks (len : Nat)
| extents (len : Nat)

/- The blocks of the regions from a pointer on. -/
def blocksFrom (fs : Fs) : Nat → Option Nat → List Nat
| _, none => []
| 0, some _ => []
| fuel + 1, some p =>
  match fs.heap p with
  | none => []
  | some r => range' r.block r.len ++ blocksFrom fs fuel r.next

def BlockAllocation.blocks (fs : Fs) (alloc : BlockAllocation) : List Nat :=
  blocksFrom fs fs.brk alloc.list.first ++ blocksFrom fs fs.brk alloc.oobList.first

def step (geo : Geometry) (s : State) : Request → Except Fault State
| .block => do
    let (fs, block) ← allocateBlock s.fs (range geo.groups)
    return ⟨fs, s.owned ++ block.toList⟩
| .blocks len => do
    let (fs, alloc) ← allocateBlocks geo s.fs len
    return ⟨fs, s.owned ++ alloc.toList.flatMap (BlockAllocation.blocks fs)⟩
| .extents len => do
    let (fs, result) ← doInodeAllocateExtents geo s.fs len
    return ⟨fs, s.owned ++ result.toList.flatMap fun result => BlockAllocation.blocks fs result.2⟩

/- A state after `block_allocator_init` and some requests. -/
def Reachable (geo : Geometry) (s : State) : Prop :=
  ∃ fs requests, blockAllocatorInit geo = .ok fs ∧ run (step geo) ⟨fs, []⟩ requests = .ok s

structure StateOk (geo : Geometry) (s : State) : Prop where
  fs : FsOk geo s.fs
  owned : ∀ b ∈ s.owned, Taken geo s.fs b

variable {geo : Geometry} {fs fs₀ : Fs}

theorem blockAllocatorInit_ok (geo : Geometry) : Ensures (blockAllocatorInit geo) (FsOk geo) := by
  intro fs hRun
  rcases bind_eq_ok.mp hRun with ⟨bgs, hBgs, hFs⟩
  cases hFs
  exact ⟨initGroups_ok geo geo.groups bgs hBgs, fun _ _ => rfl, fun p r hR => by cases hR⟩

/- The regions of an allocation have blocks that are taken. -/
theorem FsOk.blocksFrom (hOk : FsOk geo fs) {fuel : Nat} {p : Option Nat} :
    ∀ b ∈ blocksFrom fs fuel p, Taken geo fs b := by
  induction fuel generalizing p with
  | zero =>
    cases p with
    | none | some p => simp [Ext4.blocksFrom]
  | succ fuel ih =>
    cases p with
    | none => simp [Ext4.blocksFrom]
    | some p =>
      intro b hB
      rw [Ext4.blocksFrom] at hB
      cases hR : fs.heap p with
      | none => simp [hR] at hB
      | some r =>
        simp only [hR] at hB
        rcases mem_append.mp hB with hHere | hLater
        · exact (hOk.regions p r hR).2 b hHere
        · exact ih b hLater

theorem FsOk.blocks (hOk : FsOk geo fs) (alloc : BlockAllocation) :
    ∀ b ∈ alloc.blocks fs, Taken geo fs b := by
  intro b hB
  rcases mem_append.mp hB with hList | hOob
  · exact hOk.blocksFrom b hList
  · exact hOk.blocksFrom b hOob

/- The groups stay in order, and no block becomes free. -/
structure Grows (geo : Geometry) (fs₀ fs : Fs) : Prop where
  ok : FsOk geo fs
  mono : ∀ b, Taken geo fs₀ b → Taken geo fs b

theorem allocateBlock_spec (hOk : FsOk geo fs) (groups : List Nat)
    (hGroups : ∀ i ∈ groups, i < geo.groups) :
    Ensures (allocateBlock fs groups) (fun result => Grows geo fs result.1 ∧
      ∀ b ∈ result.2, Taken geo result.1 b) := by
  induction groups with
  | nil => exact .ok ⟨⟨hOk, fun _ h => h⟩, by simp⟩
  | cons i groups ih =>
    unfold allocateBlock
    rcases allocateBlocksFromBlockGroup_spec hOk (hGroups i (by simp)) 1 with
      ⟨_, hRun⟩ | ⟨fs₁, block, hRun, hGrab⟩
    · rw [hRun, ok_bind]
      exact ih fun j hJ => hGroups j (by simp [hJ])
    · rw [hRun, ok_bind]
      have hGains := hGrab.gains hOk
      apply Ensures.ok
      refine ⟨⟨hGrab.fsOk hOk, hGains.mono⟩, ?_⟩
      intro b hB
      cases hB
      exact hGains.taken block (by simp)

theorem Outcome.grows {len : Nat} {result : Fs × Option Nat}
    (hOk : FsOk geo fs₀) (hOutcome : Outcome geo fs₀ len (.ok result)) :
    Grows geo fs₀ result.1 := by
  cases hOutcome with
  | failed hOk' hMono _ => exact ⟨hOk', hMono⟩
  | empty c hAdded hEmpty hLen _ => exact ⟨hAdded.fsOk hOk, (hAdded.gains hOk).mono⟩
  | got c cs hCs hSum _ => exact ⟨hCs.ok, hCs.gains.mono⟩

------
-- The Extents Of Regions
------

/- The extents that are written for regions. -/
def pieceExtents : Nat → List Piece → List Extent
| _, [] => []
| fileBlock, c :: cs =>
  ⟨fileBlock, c.len % 2 ^ 16, 0, c.block⟩ :: pieceExtents (fileBlock + c.len) cs

theorem extentsOf_eq {regions : List Region} {cs : List Piece}
    (hSame : regions.map Region.extent = cs.map Piece.extent) (fileBlock : Nat) :
    extentsOf fileBlock 0 regions = pieceExtents fileBlock cs := by
  induction regions generalizing cs fileBlock with
  | nil =>
    cases cs with
    | nil => rfl
    | cons c cs => cases hSame
  | cons r regions ih =>
    cases cs with
    | nil => cases hSame
    | cons c cs =>
      injection hSame with hHead hTail
      injection hHead with hBlock hLen
      rw [extentsOf, pieceExtents, hBlock, hLen, ih hTail]
      rfl

/- The blocks that an extent names. -/
def Extent.blocks (e : Extent) : List Nat :=
  range' (e.eeStartHi * 2 ^ 32 + e.eeStartLo) e.eeLen

theorem pieceExtents_lens (fileBlock : Nat) (cs : List Piece) :
    (pieceExtents fileBlock cs).map Extent.eeLen = (cs.map Piece.len).map (· % 2 ^ 16) := by
  induction cs generalizing fileBlock with
  | nil => rfl
  | cons c cs ih =>
    rw [pieceExtents, map_cons, ih]
    rfl

theorem pieceExtents_length (fileBlock : Nat) (cs : List Piece) :
    (pieceExtents fileBlock cs).length = cs.length := by
  have hLens := congrArg length (pieceExtents_lens fileBlock cs)
  simpa using hLens

section

variable {cs : List Piece} (hShort : ∀ c ∈ cs, c.len < 2 ^ 16) (fileBlock : Nat)

include hShort

theorem pieceExtents_tiles :
    Tiles Extent.eeBlock Extent.eeLen fileBlock (pieceExtents fileBlock cs)
      (fileBlock + (cs.map Piece.len).sum) := by
  induction cs generalizing fileBlock with
  | nil => rfl
  | cons c cs ih =>
    have hLen := Nat.mod_eq_of_lt (hShort c (by simp))
    refine ⟨rfl, ?_⟩
    rw [map_cons, sum_cons, ← Nat.add_assoc]
    rw [hLen]
    exact ih (fun d hD => hShort d (by simp [hD])) _

theorem pieceExtents_blocks :
    (pieceExtents fileBlock cs).flatMap Extent.blocks = cs.flatMap Piece.blocks := by
  induction cs generalizing fileBlock with
  | nil => rfl
  | cons c cs ih =>
    have hLen := Nat.mod_eq_of_lt (hShort c (by simp))
    rw [pieceExtents, flatMap_cons, flatMap_cons, ih (fun d hD => hShort d (by simp [hD]))]
    unfold Extent.blocks
    rw [hLen, Nat.zero_mul, Nat.zero_add]
    rfl

end

theorem take_mod_sum_le (m k : Nat) (ls : List Nat) : ((ls.map (· % m)).take k).sum ≤ ls.sum := by
  induction ls generalizing k with
  | nil => simp
  | cons l ls ih =>
    cases k with
    | zero => simp
    | succ k =>
      have hMod := Nat.mod_le l m
      have hRest := ih k
      rw [map_cons, take_succ_cons, sum_cons, sum_cons]
      omega

/- If nothing is lost, none was cut and none left out. -/
theorem of_take_mod_sum {m : Nat} (hM : 0 < m) {k : Nat}
    {ls : List Nat} (hPositive : ∀ l ∈ ls, 0 < l) (hSum : ls.sum ≤ ((ls.map (· % m)).take k).sum) :
    ls.length ≤ k ∧ ∀ l ∈ ls, l < m := by
  induction ls generalizing k with
  | nil => simp
  | cons l ls ih =>
    have hL := hPositive l (by simp)
    cases k with
    | zero =>
      rw [take_zero, sum_cons, sum_nil] at hSum
      omega
    | succ k =>
      rw [map_cons, take_succ_cons, sum_cons, sum_cons] at hSum
      have hMod := Nat.mod_le l m
      have hRest := take_mod_sum_le m k ls
      rcases ih (fun d hD => hPositive d (by simp [hD]))
        (by omega : ls.sum ≤ ((ls.map (· % m)).take k).sum) with ⟨hLength, hLess⟩
      have hHead : l < m := by
        have hBound := Nat.mod_lt l hM
        omega
      refine ⟨Nat.succ_le_succ hLength, ?_⟩
      intro d hD
      rcases mem_cons.mp hD with hEq | hTail
      · rw [hEq]
        exact hHead
      · exact hLess d hTail

------
-- Files That Are Mapped
------

/- The extents in use, in the inode or in its leaf. -/
def entries (extents : ExtentNode × Option Leaf) : List Extent :=
  match extents.2 with
  | none => extents.1.slots.take extents.1.header.ehEntries
  | some leaf => leaf.node.slots.take leaf.node.header.ehEntries

def Inode.extents (inode : Inode) : List Extent :=
  entries (inode.root, inode.leaf)

/- The number of blocks that a file has. -/
def fileBlocks (geo : Geometry) (len : Nat) : Nat :=
  (len + geo.blockSize - 1) / geo.blockSize

/- The extents map the file completely. -/
structure MapsFile (geo : Geometry) (fs : Fs) (owned : List Nat) (len : Nat)
    (extents : List Extent) : Prop where
  nonempty : ∀ e ∈ extents, 0 < e.eeLen
  covers : Tiles Extent.eeBlock Extent.eeLen 0 extents (fileBlocks geo len)
  distinct : (extents.flatMap Extent.blocks).Nodup
  marked : ∀ b ∈ extents.flatMap Extent.blocks, Marked geo fs b
  own : ∀ b ∈ extents.flatMap Extent.blocks, b ∉ owned

/-
  If `do_inode_allocate_extents` succeeds, the file is mapped. It may return NULL, or not return,
  but it uses no memory that is not its own.
-/
def MapsFiles (geo : Geometry) (s : State) (len : Nat) : Prop :=
  match doInodeAllocateExtents geo s.fs len with
  | .ok (fs, some (inode, _)) => MapsFile geo fs s.owned len inode.extents
  | .ok (_, none) => True
  | .error fault => fault = .outOfFuel

/- The lengths of regions that the extents can name. -/
def FitsExtents (geo : Geometry) (len : Nat) (regions : List Nat) : Prop :=
  fileBlocks geo len + 1 < 2 ^ 32 ∧ (∀ first ∈ regions.head?, 1 < first ∧ first ≤ 2 ^ 16) ∧
    (∀ l ∈ regions.tail, l < 2 ^ 16) ∧
    (3 < regions.length → regions.length ≤ (geo.blockSize - 12) / 12 ∧ regions.length < 2 ^ 16)

/-
  The regions that the counters of the groups give for the file are refused since there are too many
  of them, or the extents can name them.
-/
def Fits (geo : Geometry) (fs : Fs) (len : Nat) : Prop :=
  ∀ regions ∈ regionLens geo fs ((blockLenOf geo len + 1) % 2 ^ 32),
    (3 < regions.length ∧ geo.blockSize - 1 < regions.length) ∨ FitsExtents geo len regions

variable {owned : List Nat} {len : Nat}

theorem MapsFile.sum {extents : List Extent} (hMaps : MapsFile geo fs owned len extents) :
    (extents.map Extent.eeLen).sum = fileBlocks geo len := by
  have hSum := hMaps.covers.sum
  rwa [Nat.zero_add] at hSum

/- `block_len` is the number of blocks, if that is small. -/
theorem blockLenOf_eq (hSmall : fileBlocks geo len + 1 < 2 ^ 32) :
    blockLenOf geo len = fileBlocks geo len := by
  have hMin := geo.blockSize_min
  have hMax := geo.blockSize_max
  have hBelow : len + geo.blockSize - 1 < (fileBlocks geo len + 1) * geo.blockSize :=
    (Nat.div_lt_iff_lt_mul (by omega)).mp (Nat.lt_succ_self _)
  have hBound : (fileBlocks geo len + 1) * geo.blockSize ≤ 2 ^ 32 * 2 ^ 31 :=
    Nat.mul_le_mul (Nat.le_of_lt hSmall) (Nat.le_of_lt hMax)
  have hFits : len + geo.blockSize - 1 < 2 ^ 64 := by omega
  unfold blockLenOf
  rw [Nat.mod_eq_of_lt hFits]
  change fileBlocks geo len % 2 ^ 32 = _
  exact Nat.mod_eq_of_lt (by omega)

/-
  What the extents in use say if a slot is used for every region: the file is mapped if none of them
  was cut.
-/
theorem mapped_iff {cs : List Piece} (hKept : Kept geo fs₀ fs cs) (hPositive : ∀ c ∈ cs, 0 < c.len)
    (hOwned : ∀ b ∈ owned, Taken geo fs₀ b) (hSum : (cs.map Piece.len).sum = blockLenOf geo len)
    (hSmall : blockLenOf geo len + 1 < 2 ^ 32) (unused : Nat) :
    MapsFile geo fs owned len ((pieceExtents 0 cs ++ zeroSlots unused).take (cs.length % 2 ^ 16)) ↔
      fileBlocks geo len + 1 < 2 ^ 32 ∧ (∀ c ∈ cs, c.len < 2 ^ 16) ∧ cs.length < 2 ^ 16 := by
  have hLength := pieceExtents_length 0 cs
  rw [take_append_of_le_length (by omega)]
  constructor
  · intro hMaps
    have hFile := hMaps.sum
    rw [map_take, pieceExtents_lens] at hFile
    have hLe := take_mod_sum_le (2 ^ 16) (cs.length % 2 ^ 16) (cs.map Piece.len)
    have hBlocks : fileBlocks geo len + 1 < 2 ^ 32 := by omega
    have hEq := blockLenOf_eq hBlocks
    rcases of_take_mod_sum (by decide) (by simpa using hPositive)
      (by omega : (cs.map Piece.len).sum ≤ (((cs.map Piece.len).map (· % 2 ^ 16)).take
          (cs.length % 2 ^ 16)).sum) with ⟨hAll, hShort⟩
    rw [length_map] at hAll
    refine ⟨hBlocks, ?_, by omega⟩
    intro c hC
    exact hShort c.len (mem_map_of_mem hC)
  · rintro ⟨hBlocks, hShort, hFew⟩
    rw [Nat.mod_eq_of_lt hFew, take_of_length_le (by omega)]
    have hCover := pieceExtents_tiles hShort 0
    rw [Nat.zero_add, hSum, blockLenOf_eq hBlocks] at hCover
    refine ⟨?_, hCover, ?_, ?_, ?_⟩
    · intro e hE
      have hLen : e.eeLen ∈ (cs.map Piece.len).map (· % 2 ^ 16) := by
        rw [← pieceExtents_lens 0 cs]
        exact mem_map_of_mem hE
      rcases mem_map.mp hLen with ⟨l, hL, hMap⟩
      rcases mem_map.mp hL with ⟨c, hC, hCLen⟩
      rw [← hMap, ← hCLen, Nat.mod_eq_of_lt (hShort c hC)]
      exact hPositive c hC
    · rw [pieceExtents_blocks hShort]
      exact hKept.gains.nodup
    · rw [pieceExtents_blocks hShort]
      intro b hB
      exact hKept.ok.marked (hKept.gains.taken b hB)
    · rw [pieceExtents_blocks hShort]
      intro b hB hMember
      exact hKept.gains.free b hB (hOwned b hMember)

------
-- Writing The Extents
------

variable {fs' : Fs} {n : Nat} {extents : List Extent}

theorem putExtents_zeroSlots {slots : Nat} (hRoom : extents.length ≤ slots) :
    putExtents (zeroSlots slots) extents = .ok (extents ++ zeroSlots (slots - extents.length)) := by
  unfold putExtents zeroSlots
  rw [length_replicate, if_pos hRoom, drop_replicate]

theorem extentsInInode_spec (hRoom : extents.length ≤ 4) (n : Nat) :
    ∃ result, extentsInInode extents n = .ok result ∧ entries result =
      (extents ++ zeroSlots (4 - extents.length)).take (n % 2 ^ 16) := by
  unfold extentsInInode
  rw [putExtents_zeroSlots hRoom, ok_bind]
  exact ⟨_, rfl, rfl⟩

theorem extentsInLeaf_refused (hMany : geo.blockSize - 1 < n) (extentBlock : Nat) :
    extentsInLeaf geo extents n extentBlock = .ok none :=
  if_pos hMany

theorem extentsInLeaf_spec (hFew : n ≤ geo.blockSize - 1)
    (hRoom : extents.length ≤ (geo.blockSize - 12) / 12) (extentBlock : Nat) :
    ∃ result, extentsInLeaf geo extents n extentBlock = .ok (some result) ∧
      entries result = (extents ++ zeroSlots ((geo.blockSize - 12) / 12 - extents.length)).take
        (n % 2 ^ 16) := by
  unfold extentsInLeaf
  rw [if_neg (Nat.not_lt_of_le hFew)]
  simp only [putExtents_zeroSlots hRoom, ok_bind]
  exact ⟨_, rfl, rfl⟩

theorem extentsInLeaf_overflows (hFew : n ≤ geo.blockSize - 1)
    (hLarge : (geo.blockSize - 12) / 12 < extents.length) (extentBlock : Nat) :
    extentsInLeaf geo extents n extentBlock = .error .outOfBounds := by
  have hPut : putExtents (zeroSlots ((geo.blockSize - 12) / 12)) extents = .error .outOfBounds := by
    unfold putExtents zeroSlots
    rw [length_replicate, if_neg (Nat.not_le_of_lt hLarge)]
  unfold extentsInLeaf
  rw [if_neg (Nat.not_lt_of_le hFew)]
  simp only [hPut]
  rfl

/- The result of `attachExtents` maps the file. -/
def MapsAttached (geo : Geometry) (fs : Fs) (owned : List Nat) (len : Nat) :
    Except Fault (Option (ExtentNode × Option Leaf)) → Prop
| .ok (some extents) =>
  MapsFile geo fs owned len (entries extents)
| .ok none => True
| .error fault => fault = .outOfFuel

variable {extentBlock : Nat} {alloc : BlockAllocation}

section

variable {p : Nat} {fs₁ fs₂ : Fs}
variable (hRun : doAllocate geo fs ((blockLenOf geo len + 1) % 2 ^ 32) = .ok (fs₁, some p))
variable (hNum : blockAllocationNumRegions fs₁ (freshAllocation p) = .ok n)
variable (hTake : takeExtentBlock fs₁ (freshAllocation p) n = .ok (fs₂, alloc, extentBlock))

include hRun hNum hTake

theorem doInodeAllocateExtents_eq :
    doInodeAllocateExtents geo fs len = (attachExtents geo fs₂ alloc n extentBlock).map
      (fun extents => (fs₂, extents.map fun extents =>
        (finishInode geo len extentBlock extents, rewindAlloc alloc))) := by
  unfold doInodeAllocateExtents allocateBlocks
  rw [hRun]
  change (blockAllocationNumRegions fs₁ (freshAllocation p) >>= _) = _
  rw [hNum, ok_bind]
  change (takeExtentBlock fs₁ (freshAllocation p) n >>= _) = _
  rw [hTake, ok_bind]
  change (attachExtents geo fs₂ alloc n extentBlock >>= _) = _
  cases attachExtents geo fs₂ alloc n extentBlock with
  | error fault | ok extents => rfl

theorem mapsFiles_iff_attached {owned : List Nat} :
    MapsFiles geo ⟨fs, owned⟩ len ↔ MapsAttached geo fs₂ owned len
      (attachExtents geo fs₂ alloc n extentBlock) := by
  unfold MapsFiles
  rw [doInodeAllocateExtents_eq hRun hNum hTake]
  rcases attachExtents geo fs₂ alloc n extentBlock with fault | (_ | extents)
  · rfl
  · rfl
  · rfl

end

/- Extents for regions from a pointer on. -/
theorem attachExtents_eq {cs : List Piece} (hChain : Chain fs cs)
    (hCount : cs.length ≤ fs.brk) (hIter : alloc.list.iter = headPtr cs)
    (hPartial : alloc.list.partialIter = 0) (n extentBlock : Nat) :
    attachExtents geo fs alloc n extentBlock = if extentBlock = 0 then
      (extentsInInode (pieceExtents 0 cs) n).map some
      else
        extentsInLeaf geo (pieceExtents 0 cs) n
          extentBlock := by
  rcases regionsFrom_chain hChain hCount with ⟨regions, hRun, hSame⟩
  unfold attachExtents
  rw [hIter, hRun, ok_bind, hPartial, extentsOf_eq hSame]
  by_cases hBlock : extentBlock = 0
  · simp only [if_pos hBlock]
    cases extentsInInode (pieceExtents 0 cs) n with
    | error fault | ok extents => rfl
  · simp only [if_neg hBlock]

theorem not_mapsFile_of_unused (extents : List Extent)
    (unused : Nat) (hUsed : extents.length < n) (hSlot : 0 < unused) :
    ¬ MapsFile geo fs owned len ((extents ++ zeroSlots unused).take n) := by
  intro hMaps
  have hMember : (⟨0, 0, 0, 0⟩ : Extent) ∈ (extents ++ zeroSlots unused).take n := by
    rw [take_append]
    apply mem_append_right
    unfold zeroSlots
    rw [take_replicate]
    apply mem_replicate.mpr
    exact ⟨by omega, rfl⟩
  exact Nat.lt_irrefl 0 (hMaps.nonempty _ hMember)

theorem not_mapsAttached_dropped (hSome : 0 < n) (hFew : n ≤ 3) :
    ¬ MapsAttached geo fs owned len (attachExtents geo fs ⟨emptyList, emptyList⟩ n 0) := by
  have hNil : Chain fs [] := trivial
  rw [attachExtents_eq hNil (Nat.zero_le _) rfl rfl, if_pos rfl]
  have hRoom : (pieceExtents 0 []).length ≤ 4 := by decide
  rcases extentsInInode_spec hRoom n with ⟨result, hRun, hEntries⟩
  rw [hRun]
  change ¬ MapsFile geo fs owned len (entries result)
  rw [hEntries, Nat.mod_eq_of_lt (by omega)]
  exact not_mapsFile_of_unused _ _ hSome (by decide)

/- All regions but the first were moved away: the one block of the first does not cover the file. -/
theorem not_mapsFile_moved {c : Piece} (hShort : c.len = 1)
    (hLong : 1 < blockLenOf geo len) (unused : Nat) :
    ¬ MapsFile geo fs owned len ((pieceExtents 0 [c] ++ zeroSlots unused).take n) := by
  intro hMaps
  have hSum := hMaps.sum
  have hLens : (pieceExtents 0 [c] ++ zeroSlots unused).map Extent.eeLen =
      ([1] ++ replicate unused 0).map (· % 2 ^ 16) := by
    rw [map_append, map_append, pieceExtents_lens]
    simp [zeroSlots, hShort]
  rw [map_take, hLens] at hSum
  have hLe := take_mod_sum_le (2 ^ 16) n ([1] ++ replicate unused 0)
  have hOne : ([1] ++ replicate unused 0).sum = 1 := by simp
  have hEq := blockLenOf_eq (by omega : fileBlocks geo len + 1 < 2 ^ 32)
  omega

theorem mapsAttached_moved_iff {c : Piece} {oobList : RegionList}
    (hChain : DChain fs none [c]) (hBrk : 1 ≤ fs.brk)
    (hShort : c.len = 1) (hLong : 1 < blockLenOf geo len) (hBlock : extentBlock ≠ 0) :
    MapsAttached geo fs owned len (attachExtents geo fs ⟨(freshAllocation c.ptr).list, oobList⟩ n
      extentBlock) ↔ geo.blockSize - 1 < n := by
  rw [attachExtents_eq hChain.chain hBrk rfl rfl, if_neg hBlock]
  by_cases hMany : geo.blockSize - 1 < n
  · rw [extentsInLeaf_refused hMany]
    exact iff_of_true trivial hMany
  · have hMin := geo.blockSize_min
    have hRoom : (pieceExtents 0 [c]).length ≤ (geo.blockSize - 12) / 12 := by
      rw [pieceExtents_length, length_singleton]
      omega
    rcases extentsInLeaf_spec (Nat.le_of_not_lt hMany) hRoom
      extentBlock with ⟨result, hRun, hEntries⟩
    rw [hRun]
    change MapsFile geo fs owned len (entries result) ↔ _
    rw [hEntries]
    exact iff_of_false (not_mapsFile_moved hShort hLong _) hMany

/- The regions for the file are all there. -/
theorem mapsAttached_mapped_iff {cs : List Piece}
    (hKept : Kept geo fs₀ fs cs) (hPositive : ∀ c ∈ cs, 0 < c.len)
    (hOwned : ∀ b ∈ owned, Taken geo fs₀ b) (hSum : (cs.map Piece.len).sum = blockLenOf geo len)
    (hSmall : blockLenOf geo len + 1 < 2 ^ 32) (hIter : alloc.list.iter = headPtr cs)
    (hPartial : alloc.list.partialIter = 0) (hBlock : extentBlock = 0 ↔ cs.length ≤ 3) :
    MapsAttached geo fs owned len (attachExtents geo fs alloc cs.length extentBlock) ↔
      (3 < cs.length ∧ geo.blockSize - 1 < cs.length) ∨
        (fileBlocks geo len + 1 < 2 ^ 32 ∧ (∀ c ∈ cs, c.len < 2 ^ 16) ∧
          (3 < cs.length → cs.length ≤ (geo.blockSize - 12) / 12 ∧ cs.length < 2 ^ 16)) := by
  have hMapped := mapped_iff hKept hPositive hOwned hSum hSmall
  have hLength := pieceExtents_length 0 cs
  rw [attachExtents_eq hKept.chain hKept.count hIter hPartial]
  by_cases hFew : cs.length ≤ 3
  · -- The extents are in the inode.
    have hRoom : (pieceExtents 0 cs).length ≤ 4 := by omega
    rcases extentsInInode_spec hRoom cs.length with ⟨result, hRun, hEntries⟩
    rw [if_pos (hBlock.mpr hFew), hRun]
    change MapsFile geo fs owned len (entries result) ↔ _
    rw [hEntries, hMapped]
    constructor
    · rintro ⟨hBlocks, hShort, _⟩
      exact .inr ⟨hBlocks, hShort, by omega⟩
    · rintro (hRefused | ⟨hBlocks, hShort, _⟩)
      · omega
      · exact ⟨hBlocks, hShort, by omega⟩
  · rw [if_neg (fun hZero => hFew (hBlock.mp hZero))]
    by_cases hMany : geo.blockSize - 1 < cs.length
    · rw [extentsInLeaf_refused hMany]
      exact iff_of_true trivial (.inl ⟨by omega, hMany⟩)
    · by_cases hRoom : cs.length ≤ (geo.blockSize - 12) / 12
      · -- The extents are in the leaf.
        rcases extentsInLeaf_spec (Nat.le_of_not_lt hMany)
          (by omega : (pieceExtents 0 cs).length ≤ _)
          extentBlock with ⟨result, hRun, hEntries⟩
        rw [hRun]
        change MapsFile geo fs owned len (entries result) ↔ _
        rw [hEntries, hMapped]
        constructor
        · rintro ⟨hBlocks, hShort, hLess⟩
          exact .inr ⟨hBlocks, hShort, fun _ => ⟨hRoom, hLess⟩⟩
        · rintro (hRefused | ⟨hBlocks, hShort, hLess⟩)
          · exact absurd hRefused.2 hMany
          · exact ⟨hBlocks, hShort, (hLess (by omega)).2⟩
      · rw [extentsInLeaf_overflows (Nat.le_of_not_lt hMany) (by omega)]
        apply iff_of_false
        · intro hEq
          cases hEq
        · omega

------
-- All Outcomes
------

variable {s : State} {c : Piece} {cs : List Piece}

theorem reduceAllocation_empty (hHeap : fs.heap c.ptr = some ⟨c.block, 0, c.bg, none, none⟩) :
    reduceAllocation fs (freshAllocation c.ptr) 1 = .error .nullPointer := by
  have hFirst : ∃ fs', reduceBody ⟨fs, freshAllocation c.ptr, 1⟩ =
      .ok (.again ⟨fs', ⟨emptyList, emptyList⟩, 1⟩) := by
    unfold reduceBody
    simp only [one_ne_zero, if_false, freshAllocation, get_region_eq hHeap, ok_bind, gt_iff_lt,
      dropLast, Option.getD_some]
    exact ⟨_, rfl⟩
  rcases hFirst with ⟨fs', hFirst⟩
  unfold reduceAllocation
  simp only [loop, hFirst]
  rfl

section

variable {fs₁ : Fs}
variable (hRun : doAllocate geo fs ((blockLenOf geo len + 1) % 2 ^ 32) = .ok (fs₁, some c.ptr))

include hRun

theorem doInodeAllocateExtents_empty (hBrk : 0 < fs₁.brk)
    (hHeap : fs₁.heap c.ptr = some ⟨c.block, 0, c.bg, none, none⟩) :
    doInodeAllocateExtents geo fs len = .error .nullPointer := by
  have hOne : Chain fs₁ [⟨c.ptr, c.block, 0, c.bg⟩] := ⟨⟨none, hHeap⟩, trivial⟩
  rcases regionsFrom_chain hOne hBrk with ⟨regions, hRegions, hSame⟩
  have hLength := congrArg length hSame
  rw [length_map, length_map] at hLength
  have hNum : blockAllocationNumRegions fs₁ (freshAllocation c.ptr) = .ok 1 := by
    change (regionsFrom fs₁ fs₁.brk (some c.ptr) >>= _) = _
    change regionsFrom fs₁ fs₁.brk (some c.ptr) = _ at hRegions
    rw [hRegions, ok_bind, hLength]
    rfl
  have hTake : takeExtentBlock fs₁ (freshAllocation c.ptr) 1 = .error .nullPointer := by
    unfold takeExtentBlock
    rw [if_pos (by decide), reduceAllocation_empty hHeap]
    rfl
  unfold doInodeAllocateExtents allocateBlocks
  rw [hRun]
  change (blockAllocationNumRegions fs₁ (freshAllocation c.ptr) >>= _) = _
  rw [hNum, ok_bind]
  change (takeExtentBlock fs₁ (freshAllocation c.ptr) 1 >>= _) = _
  rw [hTake]
  rfl

end

theorem fits_iff {regions : List Nat}
    (hLens : regionLens geo fs ((blockLenOf geo len + 1) % 2 ^ 32) = some regions) :
    Fits geo fs len ↔ (3 < regions.length ∧ geo.blockSize - 1 < regions.length) ∨
      FitsExtents geo len regions := by
  simp only [Fits, hLens, Option.mem_some, forall_eq']

theorem fits_of_none (hLens : regionLens geo fs ((blockLenOf geo len + 1) % 2 ^ 32) = none) :
    Fits geo fs len := by
  simp only [Fits, hLens, Option.mem_def, reduceCtorEq, false_implies, implies_true]

theorem Trimmed.grows {result : Fs × BlockAllocation × Nat}
    (hTrimmed : Trimmed geo fs₀ c cs result) : Grows geo fs₀ result.1 := by
  cases hTrimmed with
  | mapped first hLong hLen hKept hIter hPartial hBlock => exact ⟨hKept.ok, hKept.gains.mono⟩
  | dropped hShort hFew hOk hMono => exact ⟨hOk, hMono⟩
  | moved hShort hMany hOk hMono hChain hBrk hBlock => exact ⟨hOk, hMono⟩

theorem Added.live (hAdded : Added geo fs₀ fs c) (hEmpty : c.len = 0) :
    fs.heap c.ptr = some ⟨c.block, 0, c.bg, none, none⟩ := by
  rw [hAdded.heap, update_self, hEmpty]

theorem doInodeAllocateExtents_grows (hOk : FsOk geo fs) (len : Nat) :
    Ensures (doInodeAllocateExtents geo fs len) (fun result => Grows geo fs result.1) := by
  have hOutcome := doAllocate_spec hOk ((blockLenOf geo len + 1) % 2 ^ 32)
  generalize hRun : doAllocate geo fs ((blockLenOf geo len + 1) % 2 ^ 32) = result at hOutcome
  cases hOutcome with
  | failed hOk' hMono _ =>
    unfold doInodeAllocateExtents allocateBlocks
    rw [hRun]
    exact .ok ⟨hOk', hMono⟩
  | endless _ =>
    unfold doInodeAllocateExtents allocateBlocks
    rw [hRun]
    exact .error
  | empty c hAdded hEmpty hLen _ =>
    rw [doInodeAllocateExtents_empty hRun (by rw [hAdded.brk]; omega) (hAdded.live hEmpty)]
    exact .error
  | got c cs hCs hSum _ =>
    rcases takeExtentBlock_spec hOk hCs with ⟨⟨fs₂, alloc, extentBlock⟩, hTake, hTrimmed⟩
    rw [doInodeAllocateExtents_eq hRun (numRegions_eq hCs) hTake]
    cases attachExtents geo fs₂ alloc (cs.length + 1) extentBlock with
    | error fault => exact .error
    | ok extents => exact .ok hTrimmed.grows

theorem StateOk.grow (hState : StateOk geo s) (hGrows : Grows geo s.fs fs) {new : List Nat}
    (hNew : ∀ b ∈ new, Taken geo fs b) : StateOk geo ⟨fs, s.owned ++ new⟩ where
  fs := hGrows.ok
  owned := by
    intro b hB
    rcases mem_append.mp hB with hOld | hLast
    · exact hGrows.mono b (hState.owned b hOld)
    · exact hNew b hLast

theorem step_ok (s : State) (request : Request) (next : State)
    (hState : StateOk geo s) (hStep : step geo s request = .ok next) : StateOk geo next := by
  cases request with
  | block =>
    rcases bind_eq_ok.mp hStep with ⟨⟨fs, block⟩, hRun, hNext⟩
    cases hNext
    rcases allocateBlock_spec hState.fs (range geo.groups) (by simp) _ hRun with ⟨hGrows, hTaken⟩
    apply hState.grow hGrows
    intro b hB
    exact hTaken b (Option.mem_toList.mp hB)
  | blocks len =>
    rcases bind_eq_ok.mp hStep with ⟨⟨fs, alloc⟩, hRun, hNext⟩
    cases hNext
    rcases bind_eq_ok.mp hRun with ⟨⟨fs₁, p⟩, hGot, hRest⟩
    have hOutcome := doAllocate_spec hState.fs len
    rw [hGot] at hOutcome
    have hGrows := hOutcome.grows hState.fs
    have hSame : fs₁ = fs := by
      cases p with
      | none | some p =>
        cases hRest
        rfl
    rw [hSame] at hGrows
    apply hState.grow hGrows
    intro b hB
    rcases mem_flatMap.mp hB with ⟨a, _, hIn⟩
    exact hGrows.ok.blocks a b hIn
  | extents len =>
    rcases bind_eq_ok.mp hStep with ⟨⟨fs, result⟩, hRun, hNext⟩
    cases hNext
    have hGrows := doInodeAllocateExtents_grows hState.fs len _ hRun
    apply hState.grow hGrows
    intro b hB
    rcases mem_flatMap.mp hB with ⟨a, _, hIn⟩
    exact hGrows.ok.blocks a.2 b hIn

theorem Reachable.ok (hReach : Reachable geo s) : StateOk geo s := by
  rcases hReach with ⟨fs, requests, hInit, hRun⟩
  have hFs := blockAllocatorInit_ok geo fs hInit
  have hStart : StateOk geo ⟨fs, []⟩ := ⟨hFs, by simp⟩
  exact run_invariant step_ok hStart hRun

theorem not_fitsExtents_short (hShort : c.len = 1) :
    ¬ FitsExtents geo len ((c :: cs).map Piece.len) := by
  rintro ⟨_, hFirst, _⟩
  have hLong := (hFirst c.len rfl).1
  omega

theorem fitsExtents_iff {first : Piece} (hLong : 1 < c.len) (hLen : first.len = c.len - 1) :
    FitsExtents geo len ((c :: cs).map Piece.len) ↔ fileBlocks geo len + 1 < 2 ^ 32 ∧
      (∀ d ∈ first :: cs, d.len < 2 ^ 16) ∧
      (3 < (first :: cs).length → (first :: cs).length ≤ (geo.blockSize - 12) / 12 ∧
        (first :: cs).length < 2 ^ 16) := by
  have hHead : (∀ l ∈ ((c :: cs).map Piece.len).head?, 1 < l ∧ l ≤ 2 ^ 16) ↔
      first.len < 2 ^ 16 := by
    constructor
    · intro hFirst
      have hMost := (hFirst c.len rfl).2
      omega
    · intro hFirst l hL
      cases hL
      omega
  unfold FitsExtents
  rw [hHead, forall_mem_cons, and_assoc, length_map]
  simp only [map_cons, tail_cons, forall_mem_map, length_cons]

/-
  A file is mapped completely if and only if the regions that the allocator finds for it are refused
  or can be named.
-/
theorem file_mapped_iff_fits (geo : Geometry) {s : State} (hReach : Reachable geo s) (len : Nat) :
    MapsFiles geo s len ↔ Fits geo s.fs len := by
  have hState := hReach.ok
  have hOutcome := doAllocate_spec hState.fs ((blockLenOf geo len + 1) % 2 ^ 32)
  generalize hRun : doAllocate geo s.fs ((blockLenOf geo len + 1) % 2 ^ 32) = result at hOutcome
  have hWord : blockLenOf geo len < 2 ^ 32 := Nat.mod_lt _ (by decide)
  cases hOutcome with
  | failed hOk' hMono hLens =>
    apply iff_of_true
    · unfold MapsFiles doInodeAllocateExtents allocateBlocks
      rw [hRun]
      exact trivial
    · exact fits_of_none hLens
  | endless hLens =>
    apply iff_of_true
    · unfold MapsFiles doInodeAllocateExtents allocateBlocks
      rw [hRun]
      rfl
    · exact fits_of_none hLens
  | empty c hAdded hEmpty hLen hLens =>
    -- The number of blocks was 2 ^ 32 - 1.
    have hHeap := hAdded.live hEmpty
    have hBrk := hAdded.brk
    apply iff_of_false
    · unfold MapsFiles
      rw [doInodeAllocateExtents_empty hRun (by omega) hHeap]
      intro hEq
      cases hEq
    · rw [fits_iff hLens]
      rintro (⟨hMany, _⟩ | ⟨hSmall, _⟩)
      · simp at hMany
      · have hEq := blockLenOf_eq hSmall
        omega
  | got c cs hCs hSum hLens =>
    have hPositive := hCs.positive
    have hCount := hCs.count
    have hLength := length_le_sum_of_one_le ((c :: cs).map Piece.len) (forall_mem_map.mpr hPositive)
    rw [length_map, length_cons] at hLength
    have hSmall : blockLenOf geo len + 1 < 2 ^ 32 := by omega
    rw [fits_iff hLens, length_map, length_cons]
    rcases takeExtentBlock_spec hState.fs hCs with ⟨⟨fs₂, alloc, extentBlock⟩, hTake, hTrimmed⟩
    rw [mapsFiles_iff_attached hRun (numRegions_eq hCs) hTake]
    cases hTrimmed with
    | mapped first hLong hLen hKept hIter hPartial hBlock =>
      have hFile : ((first :: cs).map Piece.len).sum = blockLenOf geo len := by
        rw [map_cons, sum_cons] at hSum ⊢
        omega
      have hKeptPositive : ∀ d ∈ first :: cs, 0 < d.len := by
        rw [forall_mem_cons] at hPositive ⊢
        exact ⟨by omega, hPositive.2⟩
      rw [fitsExtents_iff hLong hLen]
      exact mapsAttached_mapped_iff hKept hKeptPositive
        hState.owned hFile hSmall hIter hPartial hBlock
    | dropped hShort hFew hOk hMono =>
      apply iff_of_false
      · exact not_mapsAttached_dropped (by omega) hFew
      · rintro (⟨hMany, _⟩ | hFits)
        · omega
        · exact not_fitsExtents_short hShort hFits
    | moved hShort hMany hOk hMono hChain hBrk hBlock =>
      rw [mapsAttached_moved_iff hChain hBrk hShort (by omega) hBlock]
      constructor
      · intro hRefused
        exact .inl ⟨hMany, hRefused⟩
      · rintro (⟨_, hRefused⟩ | hFits)
        · exact hRefused
        · exact absurd hFits (not_fitsExtents_short hShort)

/-
  Three groups of 64 blocks, of which 1, 1 and 26 are free: `make_ext4fs -l 786432 -b 4096 -g 64 -i
  1728`.
-/
def smallImage : Geometry where
  blockSize := 4096
  blocksPerGroup := 64
  groups := 3
  firstDataBlock := 0
  lenBlocks := 192
  inodeTableBlocks := 36
  bgDescBlocks := 1
  bgDescReserveBlocks := 23
  hasSuperBlock := fun i => i ≤ 1
  blockSize_min := by decide
  blockSize_max := by decide
  bitmap_fits := by decide
  addressable := by decide

theorem Reachable.start {fs : Fs}
    (hInit : blockAllocatorInit geo = .ok fs) : Reachable geo ⟨fs, []⟩ :=
  ⟨fs, [], hInit, rfl⟩

/- A file of three blocks is mapped. -/
theorem file_mapped_iff_fits_three :
    ∃ s, Reachable smallImage s ∧ MapsFiles smallImage s (3 * 4096) := by
  have hLens : (blockAllocatorInit smallImage).map (regionLens smallImage · 4) =
      .ok (some [4]) := by
    decide +kernel
  cases hInit : blockAllocatorInit smallImage with
  | error fault =>
    rw [hInit] at hLens
    cases hLens
  | ok fs =>
    rw [hInit] at hLens
    have hReach := Reachable.start hInit
    refine ⟨_, hReach, ?_⟩
    apply (file_mapped_iff_fits smallImage hReach _).mpr
    have hFour : regionLens smallImage fs ((blockLenOf smallImage (3 * 4096) + 1) % 2 ^ 32) =
      some [4] := Except.ok.inj hLens
    rw [fits_iff hFour]
    right
    refine ⟨by decide, ?_, by simp, by simp⟩
    intro first hFirst
    cases hFirst
    decide

/-
  After every sequence of requests the counters of each group agree with its bitmap, and all blocks
  that were handed out are marked there.
-/
theorem bitmaps_account (geo : Geometry) {s : State} (hReach : Reachable geo s) :
    (∀ i < geo.groups, GroupOk geo i (s.fs.bgs i)) ∧ ∀ b ∈ s.owned, Marked geo s.fs b := by
  have hState := hReach.ok
  exact ⟨hState.fs.groups, fun b hB => hState.fs.marked (hState.owned b hB)⟩

/- The blocks that are handed out for some requests. -/
def handedOut (geo : Geometry) (requests : List Request) : Except Fault (List Nat) := do
  let fs ← blockAllocatorInit geo
  let s ← run (step geo) ⟨fs, []⟩ requests
  return s.owned

/- A file of three blocks, then a single block. -/
theorem bitmaps_account_file :
    ∃ s, Reachable smallImage s ∧ s.owned = [166, 167, 168, 63] ∧
      GroupOk smallImage 2 (s.fs.bgs 2) ∧ ∀ b ∈ s.owned, Marked smallImage s.fs b := by
  have hOut : handedOut smallImage [.extents (3 * 4096), .block] = .ok [166, 167, 168, 63] := by
    decide +kernel
  rcases bind_eq_ok.mp hOut with ⟨fs, hInit, hRest⟩
  rcases bind_eq_ok.mp hRest with ⟨s, hRun, hOwned⟩
  have hReach : Reachable smallImage s := ⟨fs, _, hInit, hRun⟩
  rcases bitmaps_account smallImage hReach with ⟨hGroups, hMarked⟩
  exact ⟨s, hReach, Except.ok.inj hOwned, hGroups 2 (by decide), hMarked⟩

/- The extents of the first file in an image. -/
def firstFile (geo : Geometry) (len : Nat) : Option (List Extent) :=
  match blockAllocatorInit geo with
  | .error _ => none
  | .ok fs =>
    match doInodeAllocateExtents geo fs len with
    | .ok (_, some (inode, _)) => some inode.extents
    | _ => none

/-
  A file of 27 blocks gets regions of 1, 1 and 26 blocks, with the one that is too much. The list of
  them is lost, and the inode has three extents of no blocks.
-/
theorem first_region_of_one_block_loses_file :
    ∃ s, Reachable smallImage s ∧ ¬ MapsFiles smallImage s (27 * 4096) := by
  have hFile : firstFile smallImage (27 * 4096) = some (zeroSlots 3) := by decide +kernel
  unfold firstFile at hFile
  cases hInit : blockAllocatorInit smallImage with
  | error fault =>
    rw [hInit] at hFile
    cases hFile
  | ok fs =>
    refine ⟨_, Reachable.start hInit, ?_⟩
    unfold MapsFiles
    simp only [hInit] at hFile
    rcases hRun : doInodeAllocateExtents smallImage fs (27 * 4096) with
      fault | ⟨fs', _ | ⟨inode, alloc⟩⟩
    · simp only [hRun] at hFile
      cases hFile
    · simp only [hRun] at hFile
      cases hFile
    · simp only [hRun] at hFile
      intro hMaps
      change MapsFile _ _ _ _ inode.extents at hMaps
      rw [Option.some.inj hFile] at hMaps
      have hLength := hMaps.nonempty ⟨0, 0, 0, 0⟩ (by decide)
      exact lt_irrefl 0 hLength

------
-- Symbolic Links
------

/- The levels of indirect blocks for `len` blocks; a request for more than all of them exits. -/
def indirectBlocks : List Nat → Nat → Except Fault Nat
| [], _ => .error .aborted
| perBlock :: levels, len => do
  let needed := (len + perBlock - 1) / perBlock
  if len ≤ perBlock then return needed
  return needed + (← indirectBlocks levels (len - perBlock))

def indirectBlocksNeeded (perInd len : Nat) : Except Fault Nat :=
  let perDind := perInd * perInd
  if len ≤ 12 then .ok 0 else indirectBlocks [perInd, perDind, perDind * perDind] (len - 12)

/- What `allocate_blocks` gives for a number of blocks. -/
abbrev BlockSource := (len : Nat) → Option { blocks : List Nat // blocks.length = len }

theorem length_blocksFrom (hChain : Chain fs cs) {fuel : Nat} (hFuel : cs.length ≤ fuel) :
    (blocksFrom fs fuel (headPtr cs)).length = (cs.map Piece.len).sum := by
  induction cs generalizing fuel with
  | nil =>
    cases fuel with
    | zero | succ fuel => rfl
  | cons c cs ih =>
    cases fuel with
    | zero => simp at hFuel
    | succ fuel =>
      rcases hChain with ⟨⟨prev, hHeap⟩, hRest⟩
      change (blocksFrom fs (fuel + 1) (some c.ptr)).length = _
      simp [blocksFrom, hHeap, ih hRest (by simpa using hFuel)]

theorem allocateBlocks_length (hOk : FsOk geo fs) {alloc : BlockAllocation}
    (hRun : allocateBlocks geo fs len = .ok (fs₁, some alloc)) :
    (alloc.blocks fs₁).length = len := by
  rcases bind_eq_ok.mp hRun with ⟨⟨_, _ | p⟩, hGot, hRest⟩
  · cases hRest
  cases hRest
  have hOob : blocksFrom fs₁ fs₁.brk none = [] := by simp [blocksFrom]
  have hOutcome := doAllocate_spec hOk len
  rw [hGot] at hOutcome
  rw [BlockAllocation.blocks, length_append, emptyList, hOob, length_nil, add_zero]
  cases hOutcome with
  | empty c hAdded hEmpty hLen _ =>
    have hOne : Chain fs₁ [c] := ⟨⟨none, hAdded.heap ▸ update_self ..⟩, trivial⟩
    have hBrk : [c].length ≤ fs₁.brk := hAdded.brk ▸ Nat.le_add_left ..
    rw [hLen, ← hEmpty]
    exact length_blocksFrom hOne hBrk
  | got c cs hCs hSum _ =>
    have hBrk : (c :: cs).length ≤ fs₁.brk := hCs.count ▸ Nat.le_add_left ..
    rw [← hSum]
    exact length_blocksFrom hCs.chain.chain hBrk

/- `allocate_blocks` is such a source in every state of the allocator. -/
def allocatorSource (hOk : FsOk geo fs) : BlockSource := fun len =>
  match hRun : allocateBlocks geo fs len with
  | .ok (fs', some alloc) => some ⟨alloc.blocks fs', allocateBlocks_length hOk hRun⟩
  | _ => none

theorem allocatorSource_eq (hOk : FsOk geo fs) {alloc : Option BlockAllocation}
    (hRun : allocateBlocks geo fs len = .ok (fs₁, alloc)) :
    (allocatorSource hOk len).map Subtype.val = alloc.map (BlockAllocation.blocks fs₁) := by
  unfold allocatorSource
  split
  next fs' got hGot =>
    rw [hRun] at hGot
    cases hGot
    rfl
  next hNot =>
    cases alloc with
    | none => rfl
    | some got => exact absurd hRun (hNot fs₁ got)

/- The fields of the inode that tell the target, the blocks it has, and the data queued for them. -/
structure LinkInode where
  iSizeLo : Nat
  iBlock : Buffer
  blocks : List Nat
  queued : List (Nat × Buffer)

/- The number of bytes is taken for the number of blocks, and the blocks are not attached. -/
def inodeAllocateDataIndirect (source : BlockSource) (blockSize len : Nat) :
    Except Fault (Option (List Nat)) := do
  let indirectLen ← indirectBlocksNeeded (blockSize / 4) len
  return (source (len + indirectLen)).map Subtype.val

/- The part of `make_link` behind `get_inode`; the data is queued for the first block. -/
def makeLink (source : BlockSource) (blockSize : Nat) (link : Str) : Except Fault LinkInode := do
  let iBlock : Buffer := replicate 60 0
  let len := link.length
  if len + 1 ≤ iBlock.length then return ⟨len, ← iBlock.memcpy 0 link 0 len, [], []⟩
  match ← inodeAllocateDataIndirect source blockSize blockSize with
  | none => .error .nullPointer
  | some blocks =>
    let data ← Buffer.memcpy (replicate blockSize 0) 0 link 0 len
    return ⟨len, iBlock, blocks, (blocks.take 1).map (·, data)⟩

/- The target is in the inode, or in the one block that the inode names. -/
def Retrievable (link : Str) (inode : LinkInode) : Prop :=
  inode.iSizeLo = link.length ∧ (inode.iBlock.take link.length = link ∧ inode.blocks = [] ∨
    ∃ b data, LittleEndian.ofBytes (inode.iBlock.take 4) = b ∧ inode.blocks = [b] ∧
      (b, data) ∈ inode.queued ∧ link <+: data)

/- A link that is not in the inode takes at least as many blocks as it has bytes. -/
theorem makeLink_blocks {source : BlockSource} {blockSize : Nat} {link : Str} {inode : LinkInode}
    (hLong : 60 ≤ link.length) (hMade : makeLink source blockSize link = .ok inode) :
    link.length ≤ inode.blocks.length := by
  have hNot : ¬ link.length + 1 ≤ 60 := by omega
  simp only [makeLink, length_replicate, if_neg hNot] at hMade
  rcases bind_eq_ok.mp hMade with ⟨_ | blocks, hAlloc, hMade⟩
  · cases hMade
  · rcases bind_eq_ok.mp hMade with ⟨data, hCopy, hInode⟩
    cases hInode
    rcases bind_eq_ok.mp hAlloc with ⟨indirectLen, _, hBlocks⟩
    rcases Option.map_eq_some_iff.mp (Except.ok.inj hBlocks) with ⟨taken, _, hEq⟩
    have hFits : link.length ≤ blockSize := by
      by_contra hPast
      simp [Buffer.memcpy, hPast] at hCopy
    rw [← hEq, taken.property]
    exact Nat.le_add_right_of_le hFits

/- A link is stored if and only if its target is in the inode. -/
theorem link_retrievable_iff (source : BlockSource) (blockSize : Nat) (link : Str) :
    (∃ inode, makeLink source blockSize link = .ok inode ∧ Retrievable link inode) ↔
      link.length < 60 := by
  constructor
  · rintro ⟨inode, hMade, _, hPlace⟩
    by_contra hLong
    have hBlocks := makeLink_blocks (Nat.le_of_not_lt hLong) hMade
    rcases hPlace with ⟨_, hNone⟩ | ⟨b, data, _, hOne, _⟩
    · rw [hNone, length_nil] at hBlocks
      omega
    · rw [hOne, length_singleton] at hBlocks
      omega
  · intro hShort
    refine ⟨⟨_, Buffer.splice (replicate 60 0) 0 link, [], []⟩, ?_, rfl, .inl ⟨take_left, rfl⟩⟩
    simp [makeLink, Buffer.memcpy, Nat.succ_le_of_lt hShort, hShort.le]

/- A target of 60 bytes takes 1029 blocks of 1024 bytes, and the inode names none of them. -/
theorem long_link_lost :
    (makeLink (fun len => some ⟨range' 9 len, length_range'⟩) 1024 (replicate 60 0x61)).map
      (fun inode => (inode.iBlock, inode.blocks.length)) = .ok (replicate 60 0, 1029) := by
  decide +kernel

end OpenIvi.Ext4
