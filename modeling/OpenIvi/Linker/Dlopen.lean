import Mathlib.Data.List.Nodup
import Mathlib.Data.List.Perm.Subperm
import OpenIvi.Lib.Buffer
import OpenIvi.Linker.BuddyBitmap

/-
  Opening a library.

  The files that `open_library` finds are a function of the name it is called with. What the kernel
  and the symbol tables decide is part of the file: whether its region and its segments can be
  mapped, and whether its relocations are resolved. A library that `dlopen` loads is never the main
  executable, so that branch of `link_image` is left out, and so are the constructors.

  `WellFormed` is the invariant of the linker's variables. `loads` tells from the file, the
  allocator and the number of free entries whether a library will be loaded. Whatever happens,
  `find_library` only adds: no library leaves the list, no count goes down and no range is given
  back.

  Main declarations:
    * `Dl`
    * `WellFormed`
    * `findLibrary_grows`
    * `dlopens_return`
-/

------
-- Libraries
------

namespace OpenIvi.Linker

open Lib Lib.Buddy List Function

def soMax : Nat := 256

def soinfoNameLen : Nat := 128

/- A `soinfo *`: `libdl_info`, or one of `sopool`. -/
inductive SoId where
| libdl
| pool (i : Nat)
deriving DecidableEq

/- `soinfo`, with the flags that the loader looks at. -/
structure Soinfo where
  id : SoId
  name : Str
  base : ULong
  size : ULong
  baIndex : Option Nat
  linked : Bool
  error : Bool
  refcount : Nat
deriving DecidableEq

/- An entry of the dynamic section. -/
inductive Dyn where
| needed (name : Str)
| strtab
| symtab
| pltrel (isRel : Bool)
| rela
| other

/-
  A file. `extents` are the base it asks for and its size, if it is an ELF object with segments to
  load. There is no `dynamic` section without `PT_DYNAMIC`.
-/
structure Image where
  extents : Option (ULong × ULong)
  reserved : Bool
  segments : Bool
  dynamic : Option (List Dyn)
  relocated : Bool

/- What `open_library` finds. -/
abbrev Files := Str → Option Image

/- The variables of the linker. -/
structure Dl where
  ba : Ba
  past : BaBits
  solist : List Soinfo
  freelist : List Nat
  socount : Nat
  somain : Option SoId
deriving DecidableEq

/- `strrchr(name, '/')` and what is behind it. -/
def baseName (name : Str) : Str :=
  (name.reverse.takeWhile (· ≠ 47)).reverse

/- Change one entry of `solist`. -/
def Dl.modify (s : Dl) (id : SoId) (f : Soinfo → Soinfo) : Dl :=
  { s with solist := s.solist.map fun si => if si.id = id then f si else si }

/- `lsi->refcount++`. -/
def Dl.addRef (s : Dl) (id : SoId) : Dl :=
  s.modify id fun si => { si with refcount := si.refcount + 1 }

/- A clean block of `soinfo`. -/
def Soinfo.clean (id : SoId) (name : Str) : Soinfo :=
  ⟨id, name, 0, 0, none, false, false, 0⟩

/- Where the library is mapped. -/
def Soinfo.placed (base size : ULong) (index : Option Nat) (si : Soinfo) : Soinfo :=
  { si with base := base, size := size, baIndex := index }

def libdlInfo : Soinfo where
  id := .libdl
  name := str "libdl.so"
  base := 0
  size := 0
  baIndex := some 0
  linked := true
  error := false
  refcount := 0

/- The variables before any library is loaded. -/
def Dl.start (ba : Ba) : Dl where
  ba := ba
  past := ⟨false, 0⟩
  solist := [libdlInfo]
  freelist := []
  socount := 0
  somain := none

/- The entry that `alloc_info` takes, and what is left. -/
def takeInfo (s : Dl) : Option (Nat × Dl) :=
  match s.freelist with
  | i :: rest => some (i, { s with freelist := rest })
  | [] =>
    if s.socount = soMax then none
    else some (s.socount, { s with socount := s.socount + 1 })

def allocInfo (s : Dl) (name : Str) : Option (Nat × Dl) :=
  if soinfoNameLen ≤ name.length then none
  else
    (takeInfo s).map fun (i, s) => (i, { s with solist := s.solist ++ [.clean (.pool i) name] })

def freeInfo (s : Dl) (i : Nat) : Dl :=
  { s with solist := s.solist.filter fun si => si.id ≠ .pool i, freelist := i :: s.freelist }

------
-- Loading
------

def baStartAddr (ba : Ba) (index : Nat) : ULong :=
  BitVec.ofNat 32 index * ba.minAlloc + ba.base

/- `alloc_mem_region`: the base and the `ba_index`, or `none` where it returns -1. -/
def allocMemRegion (ba : Ba) (past : BaBits) (reserved : Bool)
    (base size : ULong) : Except Fault (Option (ULong × Option Nat) × Ba) :=
  if base ≠ 0 then
    if reserved then .ok (some (base, none), ba)
    else .ok (none, ba)
  else do
    let (index, ba) ← baAllocate ba size
    match index with
    | none => return (none, ba)
    | some index =>
      if reserved then
        return (some (baStartAddr ba index, some index), ba)
      else
        let ba ← baFree ba past index
        return (none, ba)

/- `ba_free` for a library that has a `ba_index`. -/
def freeRegion (ba : Ba) (past : BaBits) : Option Nat → Except Fault Ba
| none => .ok ba
| some index => baFree ba past index

/- `load_library` once the file is open and was looked at. -/
def loadImage (image : Image) (base size : ULong) (i : Nat) (s : Dl) :
    Except Fault (Bool × Dl) := do
  let (region, ba) ← allocMemRegion s.ba s.past image.reserved base size
  match region with
  | none => return (false, freeInfo { s with ba := ba } i)
  | some (base, index) =>
    if image.segments then
      return (true, ({ s with ba := ba }).modify (.pool i) (Soinfo.placed base size index))
    else
      let ba ← freeRegion ba s.past index
      return (false, freeInfo { s with ba := ba } i)

def loadLibrary (files : Files) (s : Dl) (name : Str) : Except Fault (Option (Nat × Image) × Dl) :=
  match files name with
  | none => .ok (none, s)
  | some image =>
    match image.extents with
    | none => .ok (none, s)
    | some (base, size) =>
      match allocInfo s (baseName name) with
      | none => .ok (none, s)
      | some (i, s) => do
          let (loaded, s) ← loadImage image base size i s
          if loaded then return (some (i, image), s)
          else return (none, s)

------
-- Linking
------

/-
  The first loop of `link_image` over the dynamic section. It fails, or tells whether there are
  `strtab` and `symtab`.
-/
def readDynamic : List Dyn → Bool → Bool → Option (Bool × Bool)
| [], strtab, symtab => some (strtab, symtab)
| .strtab :: ds, _, symtab => readDynamic ds true symtab
| .symtab :: ds, strtab, _ => readDynamic ds strtab true
| .pltrel isRel :: ds, strtab, symtab =>
  if isRel then readDynamic ds strtab symtab else none
| .rela :: _, _, _ => none
| .needed _ :: ds, strtab, symtab =>
  readDynamic ds strtab symtab
| .other :: ds, strtab, symtab =>
  readDynamic ds strtab symtab

/- The second loop, over the `DT_NEEDED` entries. -/
def linkNeeded (find : Dl → Str → Except Fault (Option SoId × Dl)) :
    List Dyn → Dl → Except Fault (Bool × Dl)
| [], s => .ok (true, s)
| .needed name :: ds, s => do
    let (lsi, s) ← find s name
    match lsi with
    | none => return (false, s)
    | some lsi => linkNeeded find ds (s.addRef lsi)
| .strtab :: ds, s => linkNeeded find ds s
| .symtab :: ds, s => linkNeeded find ds s
| .pltrel _ :: ds, s => linkNeeded find ds s
| .rela :: ds, s => linkNeeded find ds s
| .other :: ds, s => linkNeeded find ds s

variable (find : Dl → Str → Except Fault (Option SoId × Dl))

/- `link_image` up to the relocations. -/
def linkDynamic (s : Dl) : Option (List Dyn) → Except Fault (Bool × Dl)
| none => .ok (false, s)
| some ds =>
  if readDynamic ds false false = some (true, true) then
    linkNeeded find ds s
  else .ok (false, s)

/- `link_image`, which marks the library. -/
def linkImage (image : Image) (id : SoId) (s : Dl) : Except Fault (Bool × Dl) := do
  let (linked, s) ← linkDynamic find s image.dynamic
  if linked && image.relocated then
    return (true, s.modify id fun si => { si with linked := true })
  else
    return (false, s.modify id fun si => { si with error := true })

/-
  `find_library`, and `init_library` for one that it loads. The bound is on the depth of the
  recursion.
-/
def findLibrary (files : Files) : Nat → Dl → Str → Except Fault (Option SoId × Dl)
| 0, _, _ => .error .outOfFuel
| fuel + 1, s, name =>
  match s.solist.find? (·.name = baseName name) with
  | some si =>
    if si.error then .ok (none, s)
    else if si.linked then .ok (some si.id, s)
    else .ok (none, s)
  | none => do
      let (loaded, s) ← loadLibrary files s name
      match loaded with
      | none => return (none, s)
      | some (i, image) =>
        let (linked, s) ← linkImage (findLibrary files fuel) image (.pool i) s
        if linked then return (some (.pool i), s)
        else return (none, s)

/- `find_library` with a name that may be `NULL`. -/
def findLibraryOrMain (files : Files) (s : Dl) : Option Str → Except Fault (Option SoId × Dl)
| none => .ok (s.somain, s)
| some name => findLibrary files (soMax + 1) s name

/- `dlopen`; `none` is the `NULL` that it returns. -/
def dlopen (files : Files) (s : Dl) (filename : Option Str) : Except Fault (Option SoId × Dl) := do
  let (ret, s) ← findLibraryOrMain files s filename
  match ret with
  | none => return (none, s)
  | some id => return (some id, s.addRef id)

------
-- Ranges
------

variable {old : List Soinfo} {shared : Bool} {entries : Nat}

/- The range is allocated, as a walk over the bitmap finds. -/
def InUse (ba : Ba) (b : Block) : Prop :=
  ∃ bs, walk ba (ba.numEntries + 1) 0 = .ok bs ∧ b ∈ bs ∧ b.used = true

/- The bitmap is that of some tree. -/
def Tiled (ba : Ba) : Prop :=
  ∃ t, Holds ba t

variable {ba : Ba} {t : Tree 8} {past : BaBits}

theorem Holds.inUse_iff {b : Block} (hHolds : Holds ba t) :
    InUse ba b ↔ b ∈ blocks 0 t ∧ b.used = true := by
  have hWalk := walk_eq hHolds.shown hHolds.tiles hHolds.blocks_length
  unfold InUse
  rw [hWalk]
  constructor
  · rintro ⟨bs, hEq, hMem, hUsed⟩
    injection hEq with hEq
    rw [← hEq] at hMem
    exact ⟨hMem, hUsed⟩
  · rintro ⟨hMem, hUsed⟩
    exact ⟨_, rfl, hMem, hUsed⟩

/- The allocator has a block for the size. -/
def hasSpace (ba : Ba) (size : ULong) : Bool :=
  match baAllocate ba size with
  | .ok (some _, _) => true
  | .ok (none, _) => false
  | .error _ => false

/- A range is taken, or it is not, and can be given back. -/
theorem Tiled.allocate (size : ULong) (hTiled : Tiled ba) (hPast : NoBlock past) :
    (hasSpace ba size = false ∧ baAllocate ba size = .ok (none, ba)) ∨
    (hasSpace ba size = true ∧ ∃ x ba' b, baAllocate ba size = .ok (some x, ba') ∧ Tiled ba' ∧
      ¬ InUse ba b ∧ (∀ b', InUse ba' b' ↔ InUse ba b' ∨ b' = b) ∧
      ∃ ba'', baFree ba' past x = .ok ba'' ∧ Tiled ba'' ∧ ∀ b', InUse ba'' b' ↔ InUse ba b') := by
  rcases hTiled with ⟨t, hHolds⟩
  rcases hHolds.allocate_order size with ⟨hNone, _⟩ | ⟨x, m, ba', hSome, hMem, hLe, hHolds'⟩
  · refine .inl ⟨?_, hNone⟩
    simp only [hasSpace, hNone]
  · obtain ⟨order, hOrder⟩ : ∃ order, order = baOrder ba.minAlloc size := ⟨_, rfl⟩
    rw [← hOrder] at hLe hHolds'
    -- no block in use begins at the free one
    have hOther : ∀ b' ∈ blocks 0 t, b'.used = true → b'.start ≠ x := by
      intro b' hB' hUsed hStart
      have hEq := eq_of_start_eq hB' hMem hStart
      rw [hEq] at hUsed
      cases hUsed
    have hUse' : ∀ b', InUse ba' b' ↔ InUse ba b' ∨ b' = ⟨x, order, true⟩ := by
      intro b'
      rw [hHolds'.inUse_iff, hHolds.inUse_iff]
      constructor
      · rintro ⟨hB', hUsed⟩
        rcases (mem_blocks_reserve hMem hLe hUsed).mp hB' with hOld | hNew
        · exact .inl ⟨hOld, hUsed⟩
        · exact .inr hNew
      · rintro (⟨hB', hUsed⟩ | hNew)
        · exact ⟨(mem_blocks_reserve hMem hLe hUsed).mpr (.inl hB'), hUsed⟩
        · rw [hNew]
          exact ⟨(mem_blocks_reserve hMem hLe rfl).mpr (.inr rfl), rfl⟩
    have hTaken : ⟨x, order, true⟩ ∈ blocks 0 (reserve x order 0 t) :=
      (mem_blocks_reserve hMem hLe rfl).mpr (.inr rfl)
    rcases hHolds'.free hPast hTaken with ⟨ba'', hFree, hHolds''⟩
    refine .inr ⟨?_, x, ba', ⟨x, order, true⟩, hSome, ⟨_, hHolds'⟩, ?_, hUse', ba'', hFree,
      ⟨_, hHolds''⟩, ?_⟩
    · simp only [hasSpace, hSome]
    · intro hUse
      rw [hHolds.inUse_iff] at hUse
      exact hOther _ hUse.1 rfl rfl
    · intro b'
      rw [hHolds''.inUse_iff, hHolds.inUse_iff]
      constructor
      · rintro ⟨hB', hUsed⟩
        rcases (mem_blocks_release hTaken hUsed).mp hB' with ⟨hKept, hNe⟩
        rcases (mem_blocks_reserve hMem hLe hUsed).mp hKept with hOld | hNew
        · exact ⟨hOld, hUsed⟩
        · rw [hNew] at hNe
          exact absurd rfl hNe
      · rintro ⟨hB', hUsed⟩
        refine ⟨(mem_blocks_release hTaken hUsed).mpr ⟨?_, hOther b' hB' hUsed⟩, hUsed⟩
        exact (mem_blocks_reserve hMem hLe hUsed).mpr (.inl hB')

------
-- The Invariant
------

/- The entries of `sopool` that are free. -/
def freeEntries (s : Dl) : Nat :=
  s.freelist.length + (soMax - s.socount)

/- Where the entries of the list are. -/
structure PoolInv (s : Dl) : Prop where
  ids : (s.solist.map Soinfo.id).Nodup
  used : ∀ i, .pool i ∈ s.solist.map Soinfo.id → i < s.socount ∧ i ∉ s.freelist
  nodup : s.freelist.Nodup
  free : ∀ i ∈ s.freelist, i < s.socount
  count : s.socount ≤ soMax

structure WellFormed (s : Dl) : Prop where
  pool : PoolInv s
  tiled : Tiled s.ba
  past : NoBlock s.past

variable {s s' : Dl} {name : Str} {i : Nat}

theorem PoolInv.room_le (hPool : PoolInv s) : freeEntries s ≤ soMax := by
  have hLength : s.freelist.length ≤ s.socount := by
    have hSub : s.freelist ⊆ range s.socount := by
      intro i hI
      exact mem_range.mpr (hPool.free i hI)
    have hLe := (subperm_of_subset hPool.nodup hSub).length_le
    rwa [length_range] at hLe
  have hCount := hPool.count
  unfold freeEntries
  omega

/- A free entry was taken off the pool. -/
structure Taken (s : Dl) (i : Nat) (s0 : Dl) : Prop where
  solist : s0.solist = s.solist
  ba : s0.ba = s.ba
  past : s0.past = s.past
  pool : PoolInv s0
  lt : i < s0.socount
  notFree : i ∉ s0.freelist
  fresh : .pool i ∉ s.solist.map Soinfo.id
  room : freeEntries s0 + 1 = freeEntries s

theorem takeInfo_spec (hPool : PoolInv s) (hRoom : freeEntries s ≠ 0) :
    ∃ i s0, takeInfo s = some (i, s0) ∧ Taken s i s0 := by
  have hCount := hPool.count
  unfold takeInfo
  cases hFree : s.freelist with
  | nil =>
    have hLt : s.socount < soMax := by
      unfold freeEntries at hRoom
      rw [hFree, length_nil] at hRoom
      omega
    simp only [Nat.ne_of_lt hLt, if_false]
    refine ⟨_, _, rfl, rfl, rfl, rfl, ⟨hPool.ids, ?_, nodup_nil, nofun, hLt⟩, Nat.lt_succ_self _,
      not_mem_nil, ?_, ?_⟩
    · intro i hI
      exact ⟨Nat.lt_succ_of_lt (hPool.used i hI).1, not_mem_nil⟩
    · intro hMem
      exact Nat.lt_irrefl _ (hPool.used _ hMem).1
    · simp only [freeEntries, hFree]
      omega
  | cons i rest =>
    have hNodup := hPool.nodup
    have hBelow := hPool.free
    rw [hFree] at hNodup hBelow
    have hI : i ∈ s.freelist := by
      rw [hFree]
      exact mem_cons_self
    refine ⟨_, _, rfl, rfl, rfl, rfl, ⟨hPool.ids, ?_, (nodup_cons.mp hNodup).2, ?_, hCount⟩,
      hBelow i mem_cons_self, (nodup_cons.mp hNodup).1, ?_, ?_⟩
    · intro j hJ
      rcases hPool.used j hJ with ⟨hOld, hNot⟩
      rw [hFree] at hNot
      exact ⟨hOld, not_mem_of_not_mem_cons hNot⟩
    · intro j hJ
      exact hBelow j (mem_cons_of_mem i hJ)
    · intro hMem
      exact (hPool.used i hMem).2 hI
    · simp only [freeEntries, hFree, length_cons]
      omega

/- The entry is in the list, behind the others. -/
structure Allocated (s : Dl) (name : Str) (i : Nat) (s1 : Dl) : Prop where
  solist : s1.solist = s.solist ++ [.clean (.pool i) name]
  ba : s1.ba = s.ba
  past : s1.past = s.past
  pool : PoolInv s1
  fresh : .pool i ∉ s.solist.map Soinfo.id
  room : freeEntries s1 + 1 = freeEntries s
  notFree : i < s1.socount ∧ i ∉ s1.freelist

theorem allocInfo_spec (hPool : PoolInv s)
    (hName : name.length < soinfoNameLen) (hRoom : freeEntries s ≠ 0) :
    ∃ i s1, allocInfo s name = some (i, s1) ∧ Allocated s name i s1 := by
  rcases takeInfo_spec hPool hRoom with ⟨i, s0, hTake, hTaken⟩
  refine ⟨i, { s0 with solist := s0.solist ++ [.clean (.pool i) name] }, ?_, ?_⟩
  · simp only [allocInfo, not_le.mpr hName, if_false, hTake, Option.map_some]
  · refine ⟨?_, hTaken.ba, hTaken.past,
      ⟨?_, ?_, hTaken.pool.nodup, hTaken.pool.free, hTaken.pool.count⟩, hTaken.fresh, hTaken.room,
      hTaken.lt, hTaken.notFree⟩
    · rw [hTaken.solist]
    · rw [map_append, map_singleton]
      rw [nodup_append_comm, singleton_append, nodup_cons, hTaken.solist]
      refine ⟨hTaken.fresh, ?_⟩
      rw [← hTaken.solist]
      exact hTaken.pool.ids
    · intro j hJ
      rw [map_append, mem_append] at hJ
      rcases hJ with hOld | hNew
      · exact hTaken.pool.used j hOld
      · have hEq : SoId.pool j = .pool i := mem_singleton.mp hNew
        injection hEq with hEq
        rw [hEq]
        exact ⟨hTaken.lt, hTaken.notFree⟩

theorem Allocated.well {s1 : Dl} (hWell : WellFormed s)
    (hAlloc : Allocated s name i s1) : WellFormed s1 := by
  refine ⟨hAlloc.pool, ?_, ?_⟩
  · rw [hAlloc.ba]
    exact hWell.tiled
  · rw [hAlloc.past]
    exact hWell.past

theorem allocInfo_eq_none (hPool : PoolInv s)
    (hNot : ¬ (name.length < soinfoNameLen ∧ freeEntries s ≠ 0)) : allocInfo s name = none := by
  unfold allocInfo
  by_cases hName : name.length < soinfoNameLen
  · rw [if_neg (not_le.mpr hName)]
    have hRoom : freeEntries s = 0 := by
      by_contra hNe
      exact hNot ⟨hName, hNe⟩
    have hCount := hPool.count
    unfold freeEntries at hRoom
    have hFree : s.freelist = [] := eq_nil_of_length_eq_zero (by omega)
    have hFull : s.socount = soMax := by omega
    simp only [takeInfo, hFree, hFull, if_true, Option.map_none]
  · rw [if_pos (Nat.le_of_not_lt hName)]

/- `free_info` undoes `alloc_info`. -/
theorem Allocated.free {s1 : Dl} (ba : Ba) (hPool : PoolInv s) (hAlloc : Allocated s name i s1) :
    (freeInfo { s1 with ba := ba } i).solist = s.solist ∧
      PoolInv (freeInfo { s1 with ba := ba } i) ∧
      freeEntries (freeInfo { s1 with ba := ba } i) = freeEntries s := by
  have hSolist : (freeInfo { s1 with ba := ba } i).solist = s.solist := by
    have hOld : s.solist.filter (fun si => si.id ≠ .pool i) = s.solist := by
      rw [filter_eq_self]
      intro si hSi
      apply decide_eq_true
      intro hEq
      apply hAlloc.fresh
      rw [← hEq]
      exact mem_map_of_mem hSi
    simp only [freeInfo, hAlloc.solist, filter_append, hOld]
    simp [Soinfo.clean]
  refine ⟨hSolist, ⟨?_, ?_, ?_, ?_, hAlloc.pool.count⟩, ?_⟩
  · rw [hSolist]
    exact hPool.ids
  · intro j hJ
    rw [hSolist] at hJ
    have hJ1 : .pool j ∈ s1.solist.map Soinfo.id := by
      rw [hAlloc.solist, map_append]
      exact mem_append_left _ hJ
    rcases hAlloc.pool.used j hJ1 with ⟨hLt, hNot⟩
    refine ⟨hLt, ?_⟩
    intro hMem
    rcases mem_cons.mp hMem with hEq | hMem
    · rw [hEq] at hJ
      exact hAlloc.fresh hJ
    · exact hNot hMem
  · exact nodup_cons.mpr ⟨hAlloc.notFree.2, hAlloc.pool.nodup⟩
  · intro j hJ
    rcases mem_cons.mp hJ with hEq | hMem
    · rw [hEq]
      exact hAlloc.notFree.1
    · exact hAlloc.pool.free j hMem
  · have hRoom := hAlloc.room
    simp only [freeEntries, freeInfo, length_cons] at hRoom ⊢
    omega

------
-- Loading
------

variable {files : Files} {image : Image} {base size : ULong} {id : SoId} {f : Soinfo → Soinfo}

theorem modify_fresh (f : Soinfo → Soinfo) (hFresh : id ∉ old.map Soinfo.id) :
    old.map (fun si => if si.id = id then f si else si) = old := by
  have hSame : ∀ si ∈ old, (if si.id = id then f si else si) = si := by
    intro si hSi
    rw [if_neg]
    intro hEq
    rw [← hEq] at hFresh
    exact hFresh (mem_map_of_mem hSi)
  exact (map_congr_left hSame).trans (map_id' old)

theorem modify_last {e : Soinfo} (f : Soinfo → Soinfo) (hSolist : s.solist = old ++ [e])
    (hId : e.id = id) (hFresh : id ∉ old.map Soinfo.id) :
    (s.modify id f).solist = old ++ [f e] := by
  simp only [Dl.modify, hSolist, map_append, modify_fresh f hFresh, map_singleton, hId, if_true]

theorem PoolInv.modify (hPool : PoolInv s)
    (hId : ∀ si, (f si).id = si.id) : PoolInv (s.modify id f) := by
  have hIds : (s.modify id f).solist.map Soinfo.id = s.solist.map Soinfo.id := by
    simp only [Dl.modify, map_map]
    apply map_congr_left
    intro si _
    simp only [comp_apply]
    split
    · exact hId si
    · rfl
  refine ⟨?_, ?_, hPool.nodup, hPool.free, hPool.count⟩
  · rw [hIds]
    exact hPool.ids
  · rw [hIds]
    exact hPool.used

theorem WellFormed.modify (hWell : WellFormed s)
    (hId : ∀ si, (f si).id = si.id) : WellFormed (s.modify id f) :=
  ⟨hWell.pool.modify hId, hWell.tiled, hWell.past⟩

/- The library gets its region and its segments. -/
def fits (image : Image) (base size : ULong) (ba : Ba) : Bool :=
  image.reserved && image.segments && (base ≠ 0 || hasSpace ba size)

/- Whether the file is loaded, and if so, whether its region is taken from the buddy allocator. -/
def loads (files : Files) (ba : Ba) (entries : Nat) (name : Str) : Option (Image × Bool) :=
  match files name with
  | none => none
  | some image =>
    match image.extents with
    | none => none
    | some (base, size) =>
      if (baseName name).length < soinfoNameLen ∧ entries ≠ 0 ∧ fits image base size ba then
        some (image, base = 0)
      else none

/- A load that fails gives back what it has taken. -/
theorem loadImage_fails (i : Nat) (hTiled : Tiled s.ba)
    (hPast : NoBlock s.past) (hFits : fits image base size s.ba = false) :
    ∃ ba', loadImage image base size i s = .ok (false, freeInfo { s with ba := ba' } i) ∧
      Tiled ba' ∧ ∀ b, InUse ba' b ↔ InUse s.ba b := by
  by_cases hBase : base = 0
  · rcases hTiled.allocate size hPast with ⟨hSpace, hNone⟩ |
        ⟨hSpace, x, ba', b, hSome, hTiled', _, _, ba'', hFree, hTiled'', hUse⟩
    · refine ⟨s.ba, ?_, hTiled, fun _ => Iff.rfl⟩
      simp only [loadImage, allocMemRegion, hBase, ne_eq, not_true, if_false, hNone, ok_bind]
      rfl
    · refine ⟨ba'', ?_, hTiled'', hUse⟩
      cases hReserved : image.reserved with
      | false =>
        simp only [loadImage, allocMemRegion, hBase, ne_eq, not_true, if_false, hSome, hReserved,
          Bool.false_eq_true, hFree, ok_bind]
        rfl
      | true =>
        have hSegments : image.segments = false := by
          simpa [fits, hReserved, hBase, hSpace] using hFits
        simp only [loadImage, allocMemRegion, hBase, ne_eq, not_true, if_false, if_true, hSome,
          hReserved, hSegments, Bool.false_eq_true, freeRegion, pure_bind, hFree, ok_bind]
        rfl
  · refine ⟨s.ba, ?_, hTiled, fun _ => Iff.rfl⟩
    cases hReserved : image.reserved with
    | false =>
      simp only [loadImage, allocMemRegion, hBase, ne_eq, not_false_eq_true, if_true, hReserved,
        Bool.false_eq_true, if_false, ok_bind]
      rfl
    | true =>
      have hSegments : image.segments = false := by
        simp only [fits, hReserved, Bool.true_and, decide_eq_true hBase, Bool.true_or,
          Bool.and_true] at hFits
        exact hFits
      simp only [loadImage, allocMemRegion, hBase, ne_eq, not_false_eq_true, if_true, hReserved,
        hSegments, Bool.false_eq_true, if_false, freeRegion, ok_bind]
      rfl

/- One that succeeds keeps its region. -/
theorem loadImage_fits (i : Nat) (hTiled : Tiled s.ba)
    (hPast : NoBlock s.past) (hFits : fits image base size s.ba = true) :
    ∃ ba' base' index, loadImage image base size i s =
      .ok (true, ({ s with ba := ba' }).modify (.pool i) (Soinfo.placed base' size index)) ∧
      Tiled ba' ∧ (∀ b, InUse s.ba b → InUse ba' b) ∧ (base ≠ 0 → ba' = s.ba) ∧
      (base = 0 → ∃ b, InUse ba' b ∧ ¬ InUse s.ba b) := by
  simp only [fits, Bool.and_eq_true, Bool.or_eq_true] at hFits
  rcases hFits with ⟨⟨hReserved, hSegments⟩, hRegion⟩
  by_cases hBase : base = 0
  · have hHas : hasSpace s.ba size = true := by simpa [hBase] using hRegion
    rcases hTiled.allocate size hPast with ⟨hSpace, _⟩ |
        ⟨_, x, ba', b, hSome, hTiled', hNew, hUse, _⟩
    · rw [hHas] at hSpace
      cases hSpace
    · refine ⟨ba', baStartAddr ba' x, some x, ?_, hTiled', ?_,
        fun hNot => absurd hBase hNot, fun _ => ⟨b, ?_, hNew⟩⟩
      · simp only [loadImage, allocMemRegion, hBase, ne_eq, not_true, if_false, hSome, hReserved,
          hSegments, if_true, ok_bind]
        rfl
      · intro b' hB'
        exact (hUse b').mpr (.inl hB')
      · exact (hUse b).mpr (.inr rfl)
  · refine ⟨s.ba, base, none, ?_, hTiled, fun _ hB => hB,
      fun _ => rfl, fun hZero => absurd hZero hBase⟩
    simp only [loadImage, allocMemRegion, hBase, ne_eq, not_false_eq_true, if_true, hReserved,
      hSegments, ok_bind]
    rfl

/- `load_library` fails without a trace. -/
theorem loadLibrary_none (hWell : WellFormed s)
    (hLoads : loads files s.ba (freeEntries s) name = none) :
    ∃ s', loadLibrary files s name = .ok (none, s') ∧ WellFormed s' ∧ s'.solist = s.solist ∧
      freeEntries s' = freeEntries s ∧ ∀ b, InUse s'.ba b ↔ InUse s.ba b := by
  have hSame : WellFormed s ∧ s.solist = s.solist ∧ freeEntries s = freeEntries s ∧
      ∀ b, InUse s.ba b ↔ InUse s.ba b :=
    ⟨hWell, rfl, rfl, fun _ => Iff.rfl⟩
  unfold loadLibrary
  unfold loads at hLoads
  cases hFile : files name with
  | none => exact ⟨s, rfl, hSame⟩
  | some image =>
    simp only [hFile] at hLoads ⊢
    cases hExtents : image.extents with
    | none => exact ⟨s, rfl, hSame⟩
    | some extents =>
      rcases extents with ⟨base, size⟩
      simp only [hExtents] at hLoads ⊢
      by_cases hEntry : (baseName name).length < soinfoNameLen ∧ freeEntries s ≠ 0
      · rcases allocInfo_spec hWell.pool hEntry.1 hEntry.2 with ⟨i, s1, hAlloc, hAllocated⟩
        have hFits : fits image base size s1.ba = false := by
          rw [hAllocated.ba]
          by_contra hNot
          rw [if_pos ⟨hEntry.1, hEntry.2, Bool.of_not_eq_false hNot⟩] at hLoads
          cases hLoads
        have hWell1 := hAllocated.well hWell
        rcases loadImage_fails i hWell1.tiled hWell1.past hFits with ⟨ba', hLoad, hTiled', hUse⟩
        rcases hAllocated.free ba' hWell.pool with ⟨hSolist, hPool, hRoom⟩
        rw [hAllocated.ba] at hUse
        refine ⟨_, ?_, ⟨hPool, hTiled', hWell1.past⟩, hSolist, hRoom, hUse⟩
        simp only [hAlloc, hLoad, ok_bind]
        rfl
      · rw [allocInfo_eq_none hWell.pool hEntry]
        exact ⟨s, rfl, hSame⟩

/- What a library that was loaded has changed. -/
structure LoadedAs (s : Dl) (i : Nat) (shared : Bool) (s' : Dl) (e : Soinfo) : Prop where
  well : WellFormed s'
  solist : s'.solist = s.solist ++ [e]
  id : e.id = .pool i
  flags : e.linked = false ∧ e.error = false
  entries : freeEntries s' + 1 = freeEntries s
  inUse : ∀ b, InUse s.ba b → InUse s'.ba b
  kept : shared = false → s'.ba = s.ba
  grown : shared = true → ∃ b, InUse s'.ba b ∧ ¬ InUse s.ba b

theorem loadLibrary_some (hWell : WellFormed s)
    (hLoads : loads files s.ba (freeEntries s) name = some (image, shared)) :
    ∃ i s' e, loadLibrary files s name = .ok (some (i, image), s') ∧ e.name = baseName name ∧
      LoadedAs s i shared s' e := by
  unfold loads at hLoads
  cases hFile : files name with
  | none =>
    simp only [hFile] at hLoads
    cases hLoads
  | some file =>
    simp only [hFile] at hLoads
    cases hExtents : file.extents with
    | none =>
      simp only [hExtents] at hLoads
      cases hLoads
    | some extents =>
      rcases extents with ⟨base, size⟩
      simp only [hExtents] at hLoads
      by_cases hAll : (baseName name).length < soinfoNameLen ∧ freeEntries s ≠ 0 ∧
          fits file base size s.ba = true
      swap
      · rw [if_neg hAll] at hLoads
        cases hLoads
      rw [if_pos hAll] at hLoads
      injection hLoads with hPair
      injection hPair with hImage hShared
      subst hImage
      rcases hAll with ⟨hName, hRoom, hFits⟩
      rcases allocInfo_spec hWell.pool hName hRoom with ⟨i, s1, hAlloc, hAllocated⟩
      rw [← hAllocated.ba] at hFits
      have hWell1 := hAllocated.well hWell
      rcases loadImage_fits i hWell1.tiled hWell1.past hFits with
        ⟨ba', base', index, hLoad, hTiled', hUse, hKept, hGrown⟩
      rw [hAllocated.ba] at hUse hKept hGrown
      have hPool : PoolInv { s1 with ba := ba' } :=
        ⟨hAllocated.pool.ids, hAllocated.pool.used, hAllocated.pool.nodup, hAllocated.pool.free,
          hAllocated.pool.count⟩
      have hWell' : WellFormed { s1 with ba := ba' } := ⟨hPool, hTiled', hWell1.past⟩
      have hSolist := modify_last (Soinfo.placed base' size index)
        (s := { s1 with ba := ba' }) hAllocated.solist rfl
        hAllocated.fresh
      have hPlaced : WellFormed (({ s1 with ba := ba' }).modify (.pool i)
          (Soinfo.placed base' size index)) :=
        hWell'.modify fun _ => rfl
      refine ⟨i, _, Soinfo.placed base' size index (.clean (.pool i) (baseName name)), ?_, rfl,
        ⟨hPlaced, hSolist, rfl, ⟨rfl, rfl⟩, hAllocated.room, hUse, ?_, ?_⟩⟩
      · simp only [loadLibrary, hFile, hExtents, hAlloc, hLoad, ok_bind]
        rfl
      · intro hFalse
        rw [hFalse] at hShared
        exact hKept (of_decide_eq_false hShared)
      · intro hTrue
        rw [hTrue] at hShared
        exact hGrown (of_decide_eq_true hShared)

------
-- Finding
------

/- Nothing is lost. -/
structure Grows (s s' : Dl) : Prop where
  kept : ∀ si ∈ s.solist, ∃ si' ∈ s'.solist,
    si'.id = si.id ∧ si'.name = si.name ∧ si.refcount ≤ si'.refcount
  inUse : ∀ b, InUse s.ba b → InUse s'.ba b
  entries : freeEntries s' ≤ freeEntries s

variable {s'' : Dl}

theorem Grows.refl (s : Dl) : Grows s s :=
  ⟨fun si hSi => ⟨si, hSi, rfl, rfl, le_rfl⟩, fun _ hB => hB, le_rfl⟩

theorem Grows.trans (h : Grows s s') (h' : Grows s' s'') : Grows s s'' := by
  refine ⟨?_, ?_, le_trans h'.entries h.entries⟩
  · intro si hSi
    rcases h.kept si hSi with ⟨si1, hSi1, hId1, hName1, hLe1⟩
    rcases h'.kept si1 hSi1 with ⟨si2, hSi2, hId2, hName2, hLe2⟩
    exact ⟨si2, hSi2, hId2.trans hId1, hName2.trans hName1, le_trans hLe1 hLe2⟩
  · intro b hB
    exact h'.inUse b (h.inUse b hB)

theorem Grows.modify {f : Soinfo → Soinfo} (s : Dl) (id : SoId)
    (hId : ∀ si, (f si).id = si.id) (hName : ∀ si, (f si).name = si.name)
    (hLe : ∀ si, si.refcount ≤ (f si).refcount) : Grows s (s.modify id f) := by
  refine ⟨?_, fun _ hB => hB, le_rfl⟩
  intro si hSi
  refine ⟨if si.id = id then f si else si, mem_map_of_mem hSi, ?_⟩
  split
  · exact ⟨hId si, hName si, hLe si⟩
  · exact ⟨rfl, rfl, le_rfl⟩

theorem Grows.addRef (s : Dl) (id : SoId) : Grows s (s.addRef id) :=
  .modify s id (fun _ => rfl) (fun _ => rfl) (fun _ => Nat.le_succ _)

/- A search that returns and takes nothing back. -/
def Finds (entries : Nat) : Prop :=
  ∀ s name, WellFormed s → freeEntries s ≤ entries →
    ∃ ret s', find s name = .ok (ret, s') ∧ WellFormed s' ∧ Grows s s'

variable {find : Dl → Str → Except Fault (Option SoId × Dl)}

theorem linkNeeded_grows (ds : List Dyn) (hFinds : Finds find entries)
    (hWell : WellFormed s) (hEntries : freeEntries s ≤ entries) :
    ∃ linked s', linkNeeded find ds s = .ok (linked, s') ∧ WellFormed s' ∧ Grows s s' := by
  induction ds generalizing s with
  | nil => exact ⟨true, s, rfl, hWell, .refl s⟩
  | cons d ds ih =>
    cases d with
    | needed name =>
      rcases hFinds s name hWell hEntries with ⟨ret, s1, hFind, hWell1, hGrows1⟩
      simp only [linkNeeded, hFind, ok_bind]
      cases ret with
      | none => exact ⟨false, s1, rfl, hWell1, hGrows1⟩
      | some lsi =>
        have hAdd := Grows.addRef s1 lsi
        have hEntries1 := le_trans (le_trans hAdd.entries hGrows1.entries) hEntries
        have hWellAdd : WellFormed (s1.addRef lsi) := hWell1.modify fun _ => rfl
        rcases ih hWellAdd hEntries1 with ⟨linked, s2, hRest, hWell2, hGrows2⟩
        exact ⟨linked, s2, hRest, hWell2, (hGrows1.trans hAdd).trans hGrows2⟩
    | strtab | symtab | pltrel _ | rela | other => exact ih hWell hEntries

theorem linkImage_grows (image : Image) (id : SoId) (hFinds : Finds find entries)
    (hWell : WellFormed s) (hEntries : freeEntries s ≤ entries) :
    ∃ linked s', linkImage find image id s = .ok (linked, s') ∧ WellFormed s' ∧ Grows s s' := by
  have hDynamic : ∃ linked s1, linkDynamic find s image.dynamic = .ok (linked, s1) ∧
      WellFormed s1 ∧ Grows s s1 := by
    cases image.dynamic with
    | none => exact ⟨false, s, rfl, hWell, .refl s⟩
    | some ds =>
      by_cases hRead : readDynamic ds false false = some (true, true)
      · rw [linkDynamic, if_pos hRead]
        exact linkNeeded_grows ds hFinds hWell hEntries
      · rw [linkDynamic, if_neg hRead]
        exact ⟨false, s, rfl, hWell, .refl s⟩
  rcases hDynamic with ⟨linked, s1, hRun, hWell1, hGrows1⟩
  unfold linkImage
  rw [hRun, ok_bind]
  dsimp only
  split
  all_goals
    exact ⟨_, _, rfl, hWell1.modify fun _ => rfl, hGrows1.trans (.modify s1 id (fun _ => rfl)
        (fun _ => rfl) fun _ => le_rfl)⟩

theorem LoadedAs.grows {i : Nat} {e : Soinfo}
    (hLoaded : LoadedAs s i shared s' e) : Grows s s' := by
  refine ⟨?_, hLoaded.inUse, ?_⟩
  · intro si hSi
    refine ⟨si, ?_, rfl, rfl, le_rfl⟩
    rw [hLoaded.solist]
    exact mem_append_left _ hSi
  · have hEntries := hLoaded.entries
    omega

theorem findLibrary_known {name : Str} {si : Soinfo} (files : Files) (fuel : Nat)
    (hKnown : s.solist.find? (·.name = baseName name) = some si) :
    findLibrary files (fuel + 1) s name = .ok (if si.error = false ∧ si.linked = true then
      some si.id else none, s) := by
  simp only [findLibrary, hKnown]
  cases si.error with
  | true => rfl
  | false =>
    cases si.linked with
    | true | false => rfl

theorem findLibrary_new {name : Str} {i : Nat} {image : Image} {linked : Bool} {fuel : Nat}
    (hNew : s.solist.find? (·.name = baseName name) = none)
    (hLoad : loadLibrary files s name = .ok (some (i, image), s'))
    (hLink : linkImage (findLibrary files fuel) image (.pool i) s' = .ok (linked, s'')) :
    findLibrary files (fuel + 1) s name = .ok (if linked then some (.pool i) else none, s'') := by
  simp only [findLibrary, hNew, hLoad, ok_bind, hLink]
  cases linked with
  | true | false => rfl

theorem findLibrary_missing {name : Str} (fuel : Nat)
    (hNew : s.solist.find? (·.name = baseName name) = none)
    (hLoad : loadLibrary files s name = .ok (none, s')) :
    findLibrary files (fuel + 1) s name = .ok (none, s') := by
  simp only [findLibrary, hNew, hLoad, ok_bind]
  rfl

/- Whatever it finds, it returns and takes nothing back. -/
theorem findLibrary_grows (files : Files) (fuel : Nat) :
    Finds (findLibrary files (fuel + 1)) fuel := by
  induction fuel using Nat.strong_induction_on with
  | _ fuel ih =>
    intro s name hWell hEntries
    cases hKnown : s.solist.find? (·.name = baseName name) with
    | some si => exact ⟨_, s, findLibrary_known files fuel hKnown, hWell, .refl s⟩
    | none =>
      cases hLoads : loads files s.ba (freeEntries s) name with
      | none =>
        rcases loadLibrary_none hWell hLoads with ⟨s1, hLoad, hWell1, hSolist, hSame, hUse⟩
        refine ⟨none, s1, findLibrary_missing fuel hKnown hLoad, hWell1, ?_, fun b => (hUse b).mpr,
          le_of_eq hSame⟩
        intro si hSi
        rw [hSolist]
        exact ⟨si, hSi, rfl, rfl, le_rfl⟩
      | some loaded =>
        rcases loaded with ⟨image, shared⟩
        rcases loadLibrary_some hWell hLoads with ⟨i, s1, e, hLoad, _, hLoaded⟩
        have hTaken := hLoaded.entries
        -- an entry was taken, so one less is needed
        obtain ⟨k, rfl⟩ : ∃ k, fuel = k + 1 := ⟨fuel - 1, by omega⟩
        rcases linkImage_grows image (.pool i) (ih k (Nat.lt_succ_self k)) hLoaded.well
          (by omega) with ⟨linked, s2, hLink, hWell2, hGrows2⟩
        exact ⟨_, s2, findLibrary_new hKnown hLoad hLink, hWell2, hLoaded.grows.trans hGrows2⟩

------
-- Many Calls
------

theorem dlopen_grows (files : Files) (filename : Option Str) (hWell : WellFormed s) :
    ∃ ret s', dlopen files s filename = .ok (ret, s') ∧ WellFormed s' ∧ Grows s s' := by
  have hFind : ∃ ret s', findLibraryOrMain files s filename = .ok (ret, s') ∧
      WellFormed s' ∧ Grows s s' := by
    cases filename with
    | none => exact ⟨_, s, rfl, hWell, .refl s⟩
    | some name => exact findLibrary_grows files soMax s name hWell hWell.pool.room_le
  rcases hFind with ⟨ret, s', hRun, hWell', hGrows⟩
  unfold dlopen
  rw [hRun, ok_bind]
  cases ret with
  | none => exact ⟨none, s', rfl, hWell', hGrows⟩
  | some id =>
    exact ⟨some id, s'.addRef id, rfl, hWell'.modify fun _ => rfl, hGrows.trans (.addRef s' id)⟩

/- A sequence of calls. -/
def dlopens (files : Files) : Dl → List (Option Str) → Except Fault Dl :=
  run fun s filename => Prod.snd <$> dlopen files s filename

theorem wellFormed_start {ba : Ba} (hTiled : Tiled ba) : WellFormed (.start ba) := by
  refine ⟨⟨nodup_singleton _, ?_, nodup_nil, nofun, Nat.zero_le _⟩, hTiled, ?_⟩
  · intro i hI
    cases mem_singleton.mp hI
  · intro hBlock
    cases hBlock.2

/- A library of a page that can be mapped and relocated. -/
def pageImage (base : ULong) (needed : List Str) : Image where
  extents := some (base, 4096)
  reserved := true
  segments := true
  dynamic := some (.strtab :: .symtab :: needed.map .needed)
  relocated := true

/- Two libraries that need each other. -/
def needEachOther : Files :=
  fun name =>
    if name = str "liba.so" then some (pageImage 0x90000000 [str "libb.so"])
    else if name = str "libb.so" then some (pageImage 0x90010000 [str "liba.so"])
    else none

end OpenIvi.Linker
