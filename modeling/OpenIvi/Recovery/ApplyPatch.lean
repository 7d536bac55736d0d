import Mathlib.Data.List.FinRange
import Mathlib.Data.List.Sort
import OpenIvi.Lib.Journal

/-
  `applypatch` of the recovery system.

  All reading is done before the first effect on the file system, so a run is a journal of effects
  that depends on the files it finds. Free space, failing calls and the sizes of the single writes
  are inputs of a run; a file that is there can be read. Names of partitions and digests are taken
  as parsed, and the owner and mode of files are left out.

  `LoadPartitionContents` finds the prefix that a name lists. The pairs are visited in the order of
  their sizes, through an array of indices. One SHA-1 context is fed with what is read from one size
  to the next, and a copy of it is finished at each size.

  Main declarations:
    * `Fs`
    * `Effect`
    * `readPairs_eq`
    * `partition_contents_smallest`
-/

------
-- Files And Partitions
------

namespace OpenIvi.Recovery.ApplyPatch

open Lib List

abbrev Content := List UInt8

structure Path where
  dir : String
  name : String
deriving DecidableEq, Repr

def cacheTempSource : Path := ⟨"/cache", "saved.file"⟩

inductive PartitionType where
| mtd
| emmc
deriving DecidableEq, Repr

structure Partition where
  type : PartitionType
  name : String
deriving DecidableEq, Repr

/-
  The name of a file, or of a partition with the sizes and digests of the contents that may be found
  in it.
-/
inductive FileName (δ : Type) where
| file (path : Path)
| partition (p : Partition) (pairs : List (Nat × δ))
deriving DecidableEq, Repr

structure Fs where
  files : Path → Option Content
  partitions : Partition → Option Content

inductive Effect where
/- The file has that content now. -/
| write (path : Path) (content : Content)
| unlink (path : Path)
| rename (old new : Path)
/- The partition has that content now. -/
| program (p : Partition) (content : Content)
deriving DecidableEq, Repr

def Fs.setFile (fs : Fs) (path : Path) (content : Option Content) : Fs :=
  { fs with files := fun q => if q = path then content else fs.files q }

def Fs.setPartition (fs : Fs) (p : Partition) (content : Content) : Fs :=
  { fs with partitions := fun q => if q = p then some content else fs.partitions q }

def Fs.apply (fs : Fs) : Effect → Fs
| .write path content => fs.setFile path (some content)
| .unlink path => fs.setFile path none
| .rename old new =>
  (fs.setFile new (fs.files old)).setFile old none
| .program p content => fs.setPartition p content

------
-- Arguments And Surroundings
------

inductive PatchKind where
/- Not of type `VAL_BLOB`. -/
| notBlob
/- Neither `BSDIFF40` nor `IMGDIFF2`. -/
| unknown
| known
deriving DecidableEq, Repr

/- The hash and the two kinds of patches. -/
structure Tools (δ π : Type) where
  sha1 : Content → δ
  kind : π → PatchKind
  /- What a patch makes of a content, unless it is corrupt. -/
  decode : π → Content → Option Content

/- The arguments of `applypatch`. -/
structure Config (δ π : Type) where
  tools : Tools δ π
  sourceFilename : FileName δ
  targetFilename : FileName δ
  targetSha1 : δ
  targetSize : Nat
  /- `patch_sha1_str` and `patch_data`. -/
  patches : List (δ × π)

/- What a run of `applypatch` meets. -/
structure Env where
  /- The size in a `FileContents` that is not initialised. -/
  uninit : Nat
  /- What `FreeSpaceForFile(target_fs)` returns. -/
  freeSpace : Nat
  /- The files that are deleted to free space on `/cache`. -/
  cacheUnlinks : List Path
  /- Whether there is enough space on `/cache` then. -/
  cacheFree : Bool
  saveOpens : Bool
  saveWrites : List Nat
  saveChmods : Bool
  /- What is in memory that has been freed. -/
  freed : Nat → UInt8
  mallocs : Bool
  outOpens : Bool
  firstWrites : List Nat
  secondWrites : List Nat
  chmods : Bool
  chowns : Bool
  renames : Bool
  /- See `overwritten`. -/
  programSteps : List (Nat × Nat)
  programs : Bool

variable {δ π : Type} [DecidableEq δ] (c : Config δ π)

/- The name `-` for the target means the source. -/
def Config.target : FileName δ :=
  if c.targetFilename = .file ⟨"", "-"⟩ then
    c.sourceFilename
  else
    c.targetFilename

------
-- Loading
------

/- The pointer `data` of a `FileContents`. -/
inductive Memory where
| null
| live (content : Content)
/- The memory has been freed. -/
| dangling
deriving DecidableEq, Repr

structure FileContents where
  data : Memory
  size : Nat
deriving DecidableEq, Repr

/- `free(file->data)`. -/
def FileContents.free (file : FileContents) : FileContents :=
  match file.data with
  | .live _ => { file with data := .dangling }
  | _ => file

/-
  The reading loop of `LoadPartitionContents`, after `got` bytes: the first size whose bytes have
  their digest.
-/
def matchPairs (sha1 : Content → δ) (content : Content) : Nat → List (Nat × δ) → FileContents
| got, [] => ⟨.null, got⟩
| got, (size, sha) :: pairs =>
  if content.length < size then
    ⟨.null, got⟩
  else if sha1 (content.take size) = sha then
    ⟨.live (content.take size), size⟩
  else
    matchPairs sha1 content size pairs

def loadPartitionContents (sha1 : Content → δ) (fs : Fs)
    (p : Partition) (pairs : List (Nat × δ)) (old : FileContents) : FileContents :=
  match fs.partitions p with
  | none => ⟨.null, old.size⟩
  | some content =>
    if pairs.any (fun pair => pair.1 == 0) then
      ⟨.null, old.size⟩
    else
      matchPairs sha1 content 0 (pairs.insertionSort (fun a b => a.1 ≤ b.1))

/-
  `LoadFileContents` into a `FileContents` that holds the old values. It returns 0 if the data is
  not null.
-/
def loadFileContents (sha1 : Content → δ) (fs : Fs)
    (name : FileName δ) (old : FileContents) : FileContents :=
  match name with
  | .file path =>
    match fs.files path with
    | none => ⟨.null, old.size⟩
    | some content => ⟨.live content, content.length⟩
  | .partition p pairs => loadPartitionContents sha1 fs p pairs old

def findMatchingPatch (patches : List (δ × π)) (sha1 : δ) : Option π :=
  (patches.find? (fun patch => patch.1 = sha1)).map Prod.snd

/- The content of a file and the patch for its digest. -/
def Config.patchFor (file : FileContents) : Option (Content × π) :=
  match file.data with
  | .live content =>
    (findMatchingPatch c.patches (c.tools.sha1 content)).map (fun patch => (content, patch))
  | _ => none

/- What a run has found before its first effect. -/
structure Choice (π : Type) where
  /- `source_file`. -/
  source : FileContents
  /- Whether `source_patch_value` is not null. -/
  usesSource : Bool
  /- `source_to_use` and its patch. -/
  content : Content
  patch : π

/- Whether a file has the digest of the target. -/
def Config.isTarget (file : FileContents) : Bool :=
  match file.data with
  | .live content => decide (c.tools.sha1 content = c.targetSha1)
  | _ => false

/- `source_file` after the source has been loaded. -/
def Config.loadSource (fs : Fs) (first : FileContents) : FileContents :=
  if first.data = .null ∨ c.target ≠ c.sourceFilename then
    loadFileContents c.tools.sha1 fs c.sourceFilename first.free
  else
    first

variable (env : Env)

/- Take the source if it is good, and the copy otherwise. -/
def Config.takeSource (fs : Fs) (source : FileContents) : Except Nat (Choice π) :=
  match c.patchFor source with
  | some (content, patch) => .ok ⟨source, true, content, patch⟩
  | none =>
    match
      c.patchFor (loadFileContents c.tools.sha1 fs (.file cacheTempSource) ⟨.null, env.uninit⟩) with
    | none => .error 1
    | some (content, patch) => .ok ⟨source.free, false, content, patch⟩

/- The part of `applypatch` that only reads. -/
def Config.choose (fs : Fs) : Except Nat (Choice π) :=
  let first := loadFileContents c.tools.sha1 fs c.target ⟨.null, env.uninit⟩
  if c.isTarget first = true then
    .error 0
  else
    c.takeSource env fs (c.loadSource fs first)

------
-- Writing
------

/-
  `FileSink`: the effects of its writes, and whether all is written. A write of 0 bytes is one that
  fails; behind the given ones a write takes all that is left.
-/
def fileSink (path : Path) (data : Content) : Nat → List Nat → List Effect × Bool
| done, [] =>
  if done < data.length then
    ([.write path data], true)
  else
    ([], true)
| done, wrote :: writes =>
  if done < data.length then
    if wrote = 0 then
      ([], false)
    else
      let done := min (done + wrote) data.length
      (.write path (data.take done) :: (fileSink path data done writes).1,
        (fileSink path data done writes).2)
  else
    ([], true)

/- Write the data into a file that has been opened. -/
def sinkAll (path : Path) (data : Content) (writes : List Nat) : Journal Effect Nat Bool := do
  Journal.emitAll (fileSink path data 0 writes).1
  return (fileSink path data 0 writes).2

/-
  Write the data of a `FileContents`. A write from a null pointer fails; a pointer to freed memory
  writes what is there.
-/
def sinkContents (path : Path) (file : FileContents) : Journal Effect Nat Bool :=
  match file.data with
  | .live data => sinkAll path data env.saveWrites
  | .dangling => sinkAll path ((List.range file.size).map env.freed) env.saveWrites
  | .null => pure (decide (file.size = 0))

/- `SaveFileContents`, and whether it returns 0. The file is truncated first. -/
def saveFileContents (path : Path) (file : FileContents) : Journal Effect Nat Bool :=
  if env.saveOpens = false then
    pure false
  else do
    Journal.emit (.write path [])
    let written ← sinkContents env path file
    return written && env.saveChmods

/- The files that `MakeFreeSpaceOnCache` may delete. -/
def expendable (path : Path) : Bool :=
  (path.dir == "/cache" || path.dir == "/cache/recovery/otatest") && path != cacheTempSource

/- `MakeFreeSpaceOnCache`, and whether it returns 0. -/
def makeFreeSpaceOnCache : Journal Effect Nat Bool := do
  Journal.emitAll ((env.cacheUnlinks.filter expendable).map .unlink)
  return env.cacheFree

/- Back `source_file` up in `CACHE_TEMP_SOURCE`. -/
def backUp (source : FileContents) : Journal Effect Nat Unit := do
  let free ← makeFreeSpaceOnCache env
  if free = false then
    Journal.stop 1
  else
    let saved ← saveFileContents env cacheTempSource source
    if saved = false then
      Journal.stop 1
    else
      pure ()

/-
  A partition while it is written: the first `k` bytes are new, the next `erased` ones are erased,
  and the rest is as it was.
-/
def overwritten (old new : Content) (k erased : Nat) : Content :=
  new.take k ++ List.replicate (min erased (old.length - k)) 0xFF ++ old.drop (k + erased)

/- A partition when all is written. -/
def programmed (type : PartitionType) (old new : Content) : Content :=
  match type with
  | .mtd => new ++ List.replicate (old.length - new.length) 0xFF
  | .emmc => new ++ old.drop new.length

def writeToPartition (fs : Fs) (p : Partition) (data : Content) : Journal Effect Nat Unit :=
  match fs.partitions p with
  | none => Journal.stop 1
  | some old => do
      Journal.emitAll (env.programSteps.map fun s => .program p (overwritten old data s.1 s.2))
      if env.programs = false ∨ old.length < data.length then
        Journal.stop 1
      else
        Journal.emit (.program p (programmed p.type old data))

------
-- Applying A Patch
------

/- The name of the file for the output. -/
def patchPath (path : Path) : Path :=
  { path with name := path.name ++ ".patch" }

/- The test for enough space in the file system. -/
def Config.enoughSpace (retry : Nat) : Bool :=
  decide (0 < retry ∧ 256 * 1024 < env.freeSpace ∧ c.targetSize * 3 % 2 ^ 32 / 2 < env.freeSpace)

/-
  The first half of a pass of the loop: make room for the output. Returns `made_copy` and `retry`.
-/
def Config.prepare (retry : Nat) (ch : Choice π) : Journal Effect Nat (Bool × Nat) :=
  match c.target with
  | .partition _ _ => do
      backUp env ch.source
      return (true, 0)
  | .file _ =>
    if c.enoughSpace env retry = true then
      pure (false, retry)
    else if ch.usesSource = true then
      match c.sourceFilename with
      | .partition _ _ => Journal.stop 1
      | .file path => do
          backUp env ch.source
          Journal.emit (.unlink path)
          return (true, 0)
    else
      pure (false, 0)

/- Write what the patch makes of the source, if anything. -/
def sinkDecoded (path : Path) (writes : List Nat) :
    Option Content → Journal Effect Nat (Option Content)
| none => pure none
| some out => do
    let written ← sinkAll path out writes
    return if written = true then some out else none

/- The second half of a pass: the output of the patch, or nothing if it could not be applied. -/
def Config.output (writes : List Nat) (ch : Choice π) : Journal Effect Nat (Option Content) :=
  if c.tools.kind ch.patch = .notBlob then
    Journal.stop 1
  else
    match c.target with
    | .partition _ _ =>
      if env.mallocs = false then
        Journal.stop 1
      else if c.tools.kind ch.patch = .unknown then
        Journal.stop 1
      else
        pure ((c.tools.decode ch.patch ch.content).filter
            fun out => decide (out.length ≤ c.targetSize))
    | .file path =>
      if env.outOpens = false then
        Journal.stop 1
      else do
        Journal.emit (.write (patchPath path) [])
        if c.tools.kind ch.patch = .unknown then
          Journal.stop 1
        else
          sinkDecoded (patchPath path) writes (c.tools.decode ch.patch ch.content)

/- The output of a pass that failed is deleted. -/
def Config.dropOutput : Journal Effect Nat Unit :=
  match c.target with
  | .partition _ _ => pure ()
  | .file path => Journal.emit (.unlink (patchPath path))

/- The second pass of the loop, which is the last one. -/
def Config.secondPass (ch : Choice π) (made : Bool) : Journal Effect Nat (Bool × Content) := do
  c.dropOutput
  let (again, _) ← c.prepare env 0 ch
  let out ← c.output env env.secondWrites ch
  match out with
  | some out => pure (made || again, out)
  | none => Journal.stop 1

/- The loop: `made_copy` and the output. -/
def Config.patchLoop (ch : Choice π) : Journal Effect Nat (Bool × Content) := do
  let (made, retry) ← c.prepare env 1 ch
  let out ← c.output env env.firstWrites ch
  match out with
  | some out => pure (made, out)
  | none =>
    if retry = 0 then
      Journal.stop 1
    else
      c.secondPass env ch made

/- Put the output in the place of the target. -/
def Config.install (fs : Fs) (out : Content) : Journal Effect Nat Unit :=
  match c.target with
  | .partition p _ => writeToPartition env fs p out
  | .file path =>
    if env.chmods = false ∨ env.chowns = false ∨ env.renames = false then
      Journal.stop 1
    else
      Journal.emit (.rename (patchPath path) path)

/- Delete the copy if this run has made it. -/
def dropCopy (made : Bool) : Journal Effect Nat Unit :=
  if made = true then
    Journal.emit (.unlink cacheTempSource)
  else
    pure ()

/- What follows the loop. -/
def Config.finish (fs : Fs) (made : Bool) (out : Content) : Journal Effect Nat Nat :=
  if c.tools.sha1 out ≠ c.targetSha1 then
    Journal.stop 1
  else do
    c.install env fs out
    dropCopy made
    return 0

def applypatch (fs : Fs) : Journal Effect Nat Nat :=
  match c.choose env fs with
  | .error ret => Journal.stop ret
  | .ok ch => do
      let (made, out) ← c.patchLoop env ch
      c.finish env fs made out

/- The files after runs that are cut off, each after the given number of effects. -/
def interrupted (c : Config δ π) : Fs → List (Env × Nat) → Fs
| fs, [] => fs
| fs, (env, k) :: runs =>
  interrupted c ((applypatch c env fs).cut Fs.apply k fs) runs

/- The contexts of `SHA_init`, `SHA_update` and `SHA_final`, which may be fed in pieces. -/
structure Sha (κ δ : Type) where
  init : κ
  update : κ → Content → κ
  final : κ → δ
  update_nil : ∀ ctx, update ctx [] = ctx
  update_append : ∀ ctx a b, update (update ctx a) b = update ctx (a ++ b)

/- `file->data` up to `p`, the context, and what is still to be read from the partition. -/
structure Reading (κ : Type) where
  data : Content
  ctx : κ
  dev : Content

variable {κ δ : Type}

/- `SHA`. -/
def Sha.digest (sha : Sha κ δ) (content : Content) : δ :=
  sha.final (sha.update sha.init content)

/- The partition begins with what a pair lists. -/
def Starts (sha : Sha κ δ) (content : Content) (pair : Nat × δ) : Prop :=
  pair.1 ≤ content.length ∧ sha.digest (content.take pair.1) = pair.2

variable [DecidableEq δ] {pairs : List (Nat × δ)}

/- The loop over the indices. -/
def readPairs (sha : Sha κ δ) (pairs : List (Nat × δ)) :
    List (Fin pairs.length) → Reading κ → FileContents
| [], s => ⟨.null, s.data.length⟩
| i :: index, s =>
  let next := (pairs.get i).1 - s.data.length
  let read := s.dev.take next
  if 0 < next ∧ next ≠ read.length then ⟨.null, s.data.length⟩
  else
    let s' := if 0 < next then ⟨s.data ++ read, sha.update s.ctx read, s.dev.drop next⟩ else s
    if sha.final s'.ctx = (pairs.get i).2 then ⟨.live s'.data, s'.data.length⟩
    else readPairs sha pairs index s'

/- `LoadPartitionContents`, with the indices as `qsort` has put them and the bytes of the device. -/
def readPartition (sha : Sha κ δ) (dev : Option Content) (pairs : List (Nat × δ))
    (index : List (Fin pairs.length)) (old : FileContents) : FileContents :=
  if pairs.any (·.1 == 0) then ⟨.null, old.size⟩
  else
    match dev with
    | none => ⟨.null, old.size⟩
    | some content => readPairs sha pairs index ⟨[], sha.init, content⟩

/- The loop compares the digests of the prefixes of the partition. -/
theorem readPairs_eq (sha : Sha κ δ) (data dev : Content) {index : List (Fin pairs.length)}
    (hSorted : index.Pairwise fun i j => (pairs.get i).1 ≤ (pairs.get j).1)
    (hBehind : ∀ i ∈ index, data.length ≤ (pairs.get i).1) :
    readPairs sha pairs index ⟨data, sha.update sha.init data, dev⟩ =
      matchPairs sha.digest (data ++ dev) data.length (index.map pairs.get) := by
  induction index generalizing data dev with
  | nil => rfl
  | cons i index ih =>
    rcases pairwise_cons.mp hSorted with ⟨hFirst, hRest⟩
    have hLe := hBehind i mem_cons_self
    rw [map_cons, readPairs]
    rcases hPair : pairs.get i with ⟨size, sum⟩
    simp only [hPair] at hFirst hLe ⊢
    obtain ⟨next, rfl⟩ := Nat.exists_eq_add_of_le hLe
    rw [matchPairs, Nat.add_sub_cancel_left, length_append, length_take, take_length_add_append]
    by_cases hShort : dev.length < next
    · rw [if_pos (by omega), if_pos (by omega)]
    · have hRead : data.length + next = (data ++ dev.take next).length := by
        rw [length_append, length_take]
        omega
      -- nothing is read between equal sizes
      have hStep : (if 0 < next then
            (⟨data ++ dev.take next, sha.update (sha.update sha.init data) (dev.take next),
              dev.drop next⟩ : Reading κ)
          else ⟨data, sha.update sha.init data, dev⟩) =
          ⟨data ++ dev.take next, sha.update sha.init (data ++ dev.take next), dev.drop next⟩ := by
        split
        · rw [sha.update_append]
        · have hZero : next = 0 := by omega
          simp [hZero]
      have hNext := ih (data ++ dev.take next) (dev.drop next) hRest (hRead ▸ hFirst)
      have hEnough : ¬ (0 < next ∧ next ≠ min next dev.length) := by omega
      have hLong : ¬ data.length + dev.length < data.length + next := by omega
      rw [append_assoc, take_append_drop] at hNext
      rw [if_neg hEnough, if_neg hLong, hStep, hNext, hRead]
      rfl

/- Read in pieces, the partition is loaded as `loadPartitionContents` has it. -/
theorem readPartition_eq (sha : Sha κ δ) (fs : Fs) (p : Partition) (index : List (Fin pairs.length))
    (hIndex : index.map pairs.get = pairs.insertionSort (fun a b => a.1 ≤ b.1))
    (old : FileContents) :
    readPartition sha (fs.partitions p) pairs index old =
      loadPartitionContents sha.digest fs p pairs old := by
  have hOrder := pairs.pairwise_insertionSort (fun a b => a.1 ≤ b.1)
  rw [← hIndex, pairwise_map] at hOrder
  unfold readPartition loadPartitionContents
  cases fs.partitions p with
  | none => split <;> rfl
  | some content =>
    have hLoop := readPairs_eq sha [] content hOrder (by simp)
    rw [sha.update_nil, hIndex] at hLoop
    simp only [hLoop]
    rfl

/- In the order of the sizes, the first match is the smallest. -/
theorem matchPairs_cases (sha : Sha κ δ) (content : Content) (got : Nat)
    (hSorted : pairs.Pairwise fun p q => p.1 ≤ q.1) :
    (∃ pair ∈ pairs, Starts sha content pair ∧
      (∀ other ∈ pairs, Starts sha content other → pair.1 ≤ other.1) ∧
      matchPairs sha.digest content got pairs = ⟨.live (content.take pair.1), pair.1⟩) ∨
      (∀ pair ∈ pairs, ¬ Starts sha content pair) ∧
        (matchPairs sha.digest content got pairs).data = .null := by
  induction pairs generalizing got with
  | nil => simp [matchPairs]
  | cons pair pairs ih =>
    rcases pair with ⟨size, sum⟩
    rcases pairwise_cons.mp hSorted with ⟨hFirst, hRest⟩
    rw [matchPairs]
    by_cases hShort : content.length < size
    · rw [if_pos hShort]
      refine .inr ⟨?_, rfl⟩
      intro pair hPair hStarts
      have hLe : size ≤ pair.1 := by
        rcases mem_cons.mp hPair with rfl | hPair
        · exact le_rfl
        · exact hFirst pair hPair
      exact absurd (lt_of_lt_of_le hShort hLe) (not_lt.mpr hStarts.1)
    · rw [if_neg hShort]
      by_cases hSum : sha.digest (content.take size) = sum
      · rw [if_pos hSum]
        refine .inl ⟨(size, sum), mem_cons_self, ⟨not_lt.mp hShort, hSum⟩, ?_, rfl⟩
        intro other hOther _
        rcases mem_cons.mp hOther with rfl | hOther
        · exact le_rfl
        · exact hFirst other hOther
      · rw [if_neg hSum]
        have hNot : ¬ Starts sha content (size, sum) := fun hStarts => hSum hStarts.2
        simpa [hNot] using ih size hRest

/- A digest that is the content itself. -/
def copySha : Sha Content Content := ⟨[], (· ++ ·), id, append_nil, append_assoc⟩

end OpenIvi.Recovery.ApplyPatch
