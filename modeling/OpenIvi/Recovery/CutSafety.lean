import OpenIvi.Recovery.ApplyPatch

/-
  Runs of `applypatch` that are cut off.

  Unless the target is the partition of the source, or the names of the files get in each other's
  way, there is at every cut a good source, a good copy of it or the finished target.

  A run that is not cut off and meets no error finishes the target from every state that runs which
  are cut off leave behind, unless the target is the partition of the source: then the second run
  destroys the copy.

  Main declarations:
    * `Safe`
    * `inv_interrupted`
    * `applypatch_restarts`
    * `applypatch_destroys_copy`
-/

------
-- Good Contents
------

namespace OpenIvi.Recovery.ApplyPatch

open Lib List

variable {source : FileContents} {writes : List Nat} {data out : Content} {e : Effect}

variable {δ π : Type} [DecidableEq δ]

section

variable (c : Config δ π)

/- A content with a patch that turns it into the target. -/
def Good (content : Content) : Prop :=
  ∃ patch out, findMatchingPatch c.patches (c.tools.sha1 content) = some patch ∧
      c.tools.kind patch = .known ∧ c.tools.decode patch content = some out ∧
      c.tools.sha1 out = c.targetSha1 ∧ out.length ≤ c.targetSize

/- Loading the name yields the content. -/
def Loads (fs : Fs) (name : FileName δ) (content : Content) : Prop :=
  ∀ old, (loadFileContents c.tools.sha1 fs name old).data = .live content

def SourceGood (fs : Fs) : Prop :=
  ∃ content, Loads c fs c.sourceFilename content ∧ Good c content

def CopyGood (fs : Fs) : Prop :=
  ∃ content, Loads c fs (.file cacheTempSource) content ∧ Good c content

/- The source is a file, and it is gone. -/
def SourceGone (fs : Fs) : Prop :=
  ∃ path, c.sourceFilename = .file path ∧ fs.files path = none

/- The target has the digest of the target: the whole file, or the first bytes of the partition. -/
def Finished (fs : Fs) : Prop :=
  match c.target with
  | .file path => ∃ content, fs.files path = some content ∧ c.tools.sha1 content = c.targetSha1
  | .partition p _ =>
    ∃ content n, fs.partitions p = some content ∧ n ≤ content.length ∧
      c.tools.sha1 (content.take n) = c.targetSha1

/- From such a state the target can be made. -/
def Safe (fs : Fs) : Prop :=
  SourceGood c fs ∨ CopyGood c fs ∨ Finished c fs

end

/-
  The source is not on the partition that is written, and the copy, the output and the files that
  are deleted to free space are none of the source and the target.
-/
structure Restartable (c : Config δ π) : Prop where
  targetApart : ∀ path, c.target = .file path → path ≠ cacheTempSource
  sourceApart : ∀ path, c.sourceFilename = .file path →
      path ≠ cacheTempSource ∧ expendable path = false ∧
        ∀ other, c.target = .file other → path ≠ patchPath other
  partitionApart : ∀ p ps q qs, c.sourceFilename = .partition p ps →
      c.target = .partition q qs → p ≠ q

/- The effect does not change what is under the name. -/
def Leaves (name : FileName δ) : Effect → Prop
| .write path _ => name ≠ .file path
| .unlink path => name ≠ .file path
| .rename old new => name ≠ .file old ∧ name ≠ .file new
| .program p _ => ∀ pairs, name ≠ .partition p pairs

variable {c : Config δ π} {fs : Fs} {name : FileName δ} {content : Content}

/- Files under other names are as before. -/
omit [DecidableEq δ] in
theorem files_apply {path : Path} (hLeaves : Leaves (.file path : FileName δ) e) :
    (fs.apply e).files path = fs.files path := by
  cases e with
  | write other content | unlink other =>
    have hOther : path ≠ other := by
      intro hEq
      exact hLeaves (by rw [hEq])
    simp [Fs.apply, Fs.setFile, hOther]
  | rename old new =>
    have hOld : path ≠ old := by
      intro hEq
      exact hLeaves.1 (by rw [hEq])
    have hNew : path ≠ new := by
      intro hEq
      exact hLeaves.2 (by rw [hEq])
    simp [Fs.apply, Fs.setFile, hOld, hNew]
  | program p content => rfl

/- So is what is loaded from them. -/
theorem Loads.apply (h : Loads c fs name content)
    (hLeaves : Leaves name e) : Loads c (fs.apply e) name content := by
  intro old
  rw [← h old]
  cases name with
  | file path => simp only [loadFileContents, files_apply hLeaves]
  | partition p pairs =>
    have hSame : (fs.apply e).partitions p = fs.partitions p := by
      cases e with
      | write path content | unlink path | rename old new => rfl
      | program q content =>
        have hOther : p ≠ q := by
          intro hEq
          exact hLeaves pairs (by rw [hEq])
        simp [Fs.apply, Fs.setPartition, hOther]
    simp only [loadFileContents, loadPartitionContents, hSame]

theorem loads_file {path : Path} (hFile : fs.files path = some content) :
    Loads c fs (.file path) content := by
  intro old
  simp [loadFileContents, hFile]

theorem Loads.files_eq {path : Path} (h : Loads c fs (.file path) content) :
    fs.files path = some content := by
  have hData := h ⟨.null, 0⟩
  simp only [loadFileContents] at hData
  cases hFile : fs.files path with
  | none =>
    rw [hFile] at hData
    cases hData
  | some found =>
    rw [hFile] at hData
    cases hData
    rfl

------
-- Saving And Backing Up
------

/- `FileSink` only writes to its file. -/
theorem mem_fileSink {path : Path} {done : Nat}
    (hMem : e ∈ (fileSink path data done writes).1) : ∃ content, e = .write path content := by
  induction writes generalizing done with
  | nil =>
    unfold fileSink at hMem
    split at hMem
    next => exact ⟨data, mem_singleton.mp hMem⟩
    next => cases hMem
  | cons wrote writes ih =>
    unfold fileSink at hMem
    split at hMem
    next =>
      split at hMem
      next => cases hMem
      next =>
        rcases mem_cons.mp hMem with rfl | hRest
        · exact ⟨_, rfl⟩
        · exact ih hRest
    next => cases hMem

/- If all is written, the file has the data. -/
theorem fileSink_final {path : Path} {done : Nat} {fs : Fs}
    (hDone : fs.files path = some (data.take done))
    (hAll : (fileSink path data done writes).2 = true) :
    ((fileSink path data done writes).1.foldl Fs.apply fs).files path = some data := by
  have hWhole : ¬ done < data.length → data.take done = data := by
    intro hNot
    exact take_of_length_le (by omega)
  induction writes generalizing done fs with
  | nil =>
    unfold fileSink
    split
    next => simp [Fs.apply, Fs.setFile]
    next hNot =>
      rw [hWhole hNot] at hDone
      exact hDone
  | cons wrote writes ih =>
    unfold fileSink at hAll ⊢
    split at hAll
    next hMore =>
      rw [if_pos hMore]
      split at hAll
      next => cases hAll
      next hWrote =>
        rw [if_neg hWrote]
        apply ih _ hAll
        · intro hNot
          exact take_of_length_le (by omega)
        · simp [Fs.apply, Fs.setFile]
    next hNot =>
      rw [if_neg hNot]
      rw [hWhole hNot] at hDone
      exact hDone

variable {P R : Fs → Prop} {path : Path}

section

variable (hCut : ∀ fs, R fs → P fs) (hStart : R fs)

include hCut hStart

/- Writing data into a file that is empty. -/
theorem sinkAll_safely (data : Content) (writes : List Nat)
    (hWrite : ∀ fs content, R fs → R (fs.apply (.write path content)))
    (hEmpty : fs.files path = some []) :
    Safely Fs.apply P (fun ok fs' =>
      R fs' ∧ (ok = true → fs'.files path = some data))
      fs (sinkAll path data writes) := by
  have hKeeps : ∀ t, ∀ e ∈ (fileSink path data 0 writes).1, R t → R (t.apply e) := by
    intro t e he ht
    rcases mem_fileSink he with ⟨content, rfl⟩
    exact hWrite t content ht
  apply Safely.bind (.emitAll hCut hKeeps hStart)
  rintro _ t ⟨ht, rfl⟩
  apply Safely.pure (hCut _ ht)
  refine ⟨ht, ?_⟩
  intro hAll
  exact fileSink_final hEmpty hAll

/- Saving truncates the file and writes it anew. -/
theorem saveFileContents_safely (env : Env) (file : FileContents)
    (hWrite : ∀ fs content, R fs → R (fs.apply (.write path content))) :
    Safely Fs.apply P (fun ok fs' =>
      R fs' ∧ (ok = true → ∀ data, file.data = .live data → fs'.files path = some data))
      fs (saveFileContents env path file) := by
  unfold saveFileContents
  split
  next =>
    apply Safely.pure (hCut fs hStart)
    exact ⟨hStart, fun hFalse => by cases hFalse⟩
  next =>
    have hEmptied := hWrite fs [] hStart
    have hEmpty : (fs.apply (.write path [])).files path = some [] := by simp [Fs.apply, Fs.setFile]
    apply Safely.bind (.emit (hCut fs hStart) (hCut _ hEmptied)
        (Q := fun _ t => R t ∧ t.files path = some [])
        ⟨hEmptied, hEmpty⟩)
    rintro _ t ⟨ht, hNone⟩
    have hSink : Safely Fs.apply P (fun ok fs' =>
            R fs' ∧ (ok = true → ∀ data, file.data = .live data → fs'.files path = some data))
          t (sinkContents env path file) := by
      unfold sinkContents
      cases hData : file.data with
      | live data =>
        apply (sinkAll_safely hCut ht data env.saveWrites hWrite hNone).imp
        rintro ok fs' ⟨hKept, hFile⟩
        refine ⟨hKept, ?_⟩
        intro hOk data' hEq
        cases hEq
        exact hFile hOk
      | dangling =>
        apply (sinkAll_safely hCut ht _ env.saveWrites hWrite hNone).imp
        rintro ok fs' ⟨hKept, _⟩
        refine ⟨hKept, ?_⟩
        intro _ data' hEq
        cases hEq
      | null =>
        apply Safely.pure (hCut t ht)
        refine ⟨ht, ?_⟩
        intro _ data' hEq
        cases hEq
    apply Safely.bind hSink
    rintro ok fs' ⟨hKept, hFile⟩
    apply Safely.pure (hCut fs' hKept)
    refine ⟨hKept, ?_⟩
    intro hOk
    rw [Bool.and_eq_true] at hOk
    exact hFile hOk.1

/- Backing up only changes the copy and `/cache`. -/
theorem backUp_safely (env : Env) (source : FileContents)
    (hUnlink : ∀ fs path, expendable path = true → R fs → R (fs.apply (.unlink path)))
    (hWrite : ∀ fs content, R fs → R (fs.apply (.write cacheTempSource content))) :
    Safely Fs.apply P (fun _ fs' =>
      R fs' ∧ ∀ data, source.data = .live data → fs'.files cacheTempSource = some data)
      fs (backUp env source) := by
  have hKeeps : ∀ t, ∀ e ∈ (env.cacheUnlinks.filter expendable).map Effect.unlink,
      R t → R (t.apply e) := by
    intro t e he ht
    rcases mem_map.mp he with ⟨path, hPath, rfl⟩
    exact hUnlink t path (mem_filter.mp hPath).2 ht
  have hFree : Safely Fs.apply P (fun _ fs' => R fs') fs (makeFreeSpaceOnCache env) := by
    apply Safely.bind (.emitAll hCut hKeeps hStart)
    rintro _ t ⟨ht, _⟩
    exact .pure (hCut t ht) ht
  apply Safely.bind hFree
  intro free t ht
  split
  next => exact .stop (hCut t ht)
  next =>
    apply Safely.bind (saveFileContents_safely hCut ht env source hWrite)
    rintro saved fs' ⟨hKept, hFile⟩
    split
    next => exact .stop (hCut fs' hKept)
    next hSaved =>
      apply Safely.pure (hCut fs' hKept)
      rw [Bool.not_eq_false] at hSaved
      exact ⟨hKept, hFile hSaved⟩

theorem dropCopy_safely (made : Bool) (hDropped : R (fs.apply (.unlink cacheTempSource))) :
    Safely Fs.apply P (fun _ fs' => R fs') fs (dropCopy made) := by
  unfold dropCopy
  split
  next => exact .emit (hCut fs hStart) (hCut _ hDropped) hDropped
  next => exact .pure (hCut fs hStart) hStart

end

------
-- What A Run Starts From
------

/-
  The invariant. The source of a partition is never touched. A source that is a file is good until
  the target is finished, or it is gone and there is a good copy.
-/
def Inv (c : Config δ π) (fs : Fs) : Prop :=
  match c.target with
  | .partition _ _ => SourceGood c fs
  | .file _ => Finished c fs ∨ SourceGood c fs ∨ (SourceGone c fs ∧ CopyGood c fs)

/- The content that a run uses is good, with its patch. -/
structure GoodChoice (c : Config δ π) (ch : Choice π) : Prop where
  good : Good c ch.content
  patch : findMatchingPatch c.patches (c.tools.sha1 ch.content) = some ch.patch
  live : ch.usesSource = true → ch.source.data = .live ch.content

/- The content is that of the source, or of the copy. -/
def Ready (c : Config δ π) (ch : Choice π) (fs : Fs) : Prop :=
  Loads c fs c.sourceFilename ch.content ∨ (SourceGone c fs ∧
      Loads c fs (.file cacheTempSource) ch.content)

/- Where it comes from when the run starts. -/
def Start (c : Config δ π) (ch : Choice π) (fs : Fs) : Prop :=
  if ch.usesSource = true then
    Loads c fs c.sourceFilename ch.content
  else
    SourceGone c fs ∧ Loads c fs (.file cacheTempSource) ch.content

variable {ch : Choice π}

theorem Start.ready (h : Start c ch fs) : Ready c ch fs := by
  unfold Start at h
  split at h
  next => exact .inl h
  next => exact .inr h

/- The part of the invariant that is not `Finished`. -/
theorem Ready.inv {path : Path} (h : Ready c ch fs)
    (hTarget : c.target = .file path) (hGood : Good c ch.content) : Inv c fs := by
  unfold Inv
  rw [hTarget]
  rcases h with hSource | ⟨hGone, hCopy⟩
  · exact .inr (.inl ⟨ch.content, hSource, hGood⟩)
  · exact .inr (.inr ⟨hGone, ch.content, hCopy, hGood⟩)

omit [DecidableEq δ] in
theorem SourceGone.apply (h : SourceGone c fs)
    (hLeaves : Leaves c.sourceFilename e) : SourceGone c (fs.apply e) := by
  rcases h with ⟨path, hSource, hNone⟩
  rw [hSource] at hLeaves
  exact ⟨path, hSource, (files_apply hLeaves).trans hNone⟩

theorem Ready.apply (h : Ready c ch fs) (hSource : Leaves c.sourceFilename e)
    (hCopy : Leaves (.file cacheTempSource : FileName δ) e) : Ready c ch (fs.apply e) := by
  rcases h with hLoads | ⟨hGone, hLoads⟩
  · exact .inl (hLoads.apply hSource)
  · exact .inr ⟨hGone.apply hSource, hLoads.apply hCopy⟩

theorem Start.apply (h : Start c ch fs) (hSource : Leaves c.sourceFilename e)
    (hCopy : Leaves (.file cacheTempSource : FileName δ) e) : Start c ch (fs.apply e) := by
  unfold Start at h ⊢
  split
  next hUses =>
    rw [if_pos hUses] at h
    exact h.apply hSource
  next hUses =>
    rw [if_neg hUses] at h
    exact ⟨h.1.apply hSource, h.2.apply hCopy⟩

/- What `source_file` holds when the source is loaded. -/
theorem loadSource_data (old : FileContents) {data : Memory}
    (hSource : ∀ old, (loadFileContents c.tools.sha1 fs c.sourceFilename old).data = data) :
    (c.loadSource fs (loadFileContents c.tools.sha1 fs c.target old)).data = data := by
  unfold Config.loadSource
  split
  next => exact hSource _
  next hSame =>
    rw [not_or, not_not] at hSame
    rw [hSame.2]
    exact hSource old

theorem takeSource_of_source (env : Env) {content : Content} (hData : source.data = .live content)
    (hSource : Loads c fs c.sourceFilename content) (hGood : Good c content) :
    ∃ ch, c.takeSource env fs source = .ok ch ∧ GoodChoice c ch ∧ ch.usesSource = true ∧
      Loads c fs c.sourceFilename ch.content := by
  rcases hGood with ⟨patch, out, hPatch, hRest⟩
  refine ⟨⟨source, true, content, patch⟩, ?_, ⟨⟨patch, out, hPatch, hRest⟩, hPatch, fun _ => hData⟩,
      rfl, hSource⟩
  simp [Config.takeSource, Config.patchFor, hData, hPatch]

theorem takeSource_of_copy (env : Env)
    (hData : source.data = .null) (hGone : SourceGone c fs) (hCopy : CopyGood c fs) :
    ∃ ch, c.takeSource env fs source = .ok ch ∧ GoodChoice c ch ∧ Start c ch fs := by
  rcases hCopy with ⟨content, hLoads, hGood⟩
  rcases hGood with ⟨patch, out, hPatch, hRest⟩
  refine ⟨⟨source.free, false, content, patch⟩, ?_, ⟨⟨patch, out, hPatch, hRest⟩, hPatch,
      fun hUses => by cases hUses⟩, ?_⟩
  · have hFound := hLoads ⟨.null, env.uninit⟩
    simp [Config.takeSource, Config.patchFor, hData, hFound, hPatch]
  · exact ⟨hGone, hLoads⟩

/- A source that is gone is not loaded. -/
theorem loadSource_gone (old : FileContents) (hGone : SourceGone c fs) :
    (c.loadSource fs (loadFileContents c.tools.sha1 fs c.target old)).data = .null := by
  rcases hGone with ⟨path, hSource, hNone⟩
  have hNull : ∀ old, (loadFileContents c.tools.sha1 fs c.sourceFilename old).data = .null := by
    simp [hSource, loadFileContents, hNone]
  exact loadSource_data old hNull

/- What a run finds when the target is a file. -/
theorem choose_file (env : Env) {path : Path} (hTarget : c.target = .file path) (hInv : Inv c fs) :
    (Finished c fs ∧ c.choose env fs = .error 0) ∨
      ∃ ch, c.choose env fs = .ok ch ∧ GoodChoice c ch ∧ Start c ch fs := by
  have hFirst : c.isTarget (loadFileContents c.tools.sha1 fs c.target ⟨.null, env.uninit⟩) = true ↔
      Finished c fs := by
    unfold Finished Config.isTarget
    rw [hTarget]
    simp only [loadFileContents]
    cases fs.files path with
    | none | some content => simp
  by_cases hFinished : Finished c fs
  · refine .inl ⟨hFinished, ?_⟩
    simp [Config.choose, hFirst.mpr hFinished]
  · have hNot := mt hFirst.mp hFinished
    unfold Inv at hInv
    rw [hTarget] at hInv
    right
    simp only [Config.choose, if_neg hNot]
    rcases hInv with hDone | hSource | ⟨hGone, hCopy⟩
    · exact absurd hDone hFinished
    · rcases hSource with ⟨content, hLoads, hGood⟩
      rcases takeSource_of_source env (loadSource_data _ hLoads) hLoads hGood with
        ⟨ch, hTake, hChoice, hUses, hStart⟩
      refine ⟨ch, hTake, hChoice, ?_⟩
      unfold Start
      rw [if_pos hUses]
      exact hStart
    · exact takeSource_of_copy env (loadSource_gone _ hGone) hGone hCopy

------
-- Cuts With A File As Target
------

theorem patchPath_ne_cacheTempSource (path : Path) : patchPath path ≠ cacheTempSource := by
  intro hEq
  have hName := congrArg (fun p : Path => p.name) hEq
  have hChars := congrArg String.toList hName
  have hLast := congrArg getLast? hChars
  simp [patchPath, cacheTempSource] at hLast

theorem patchPath_ne (path : Path) : path ≠ patchPath path := by
  intro hEq
  have hName := congrArg (fun p : Path => p.name) hEq
  have hLength := congrArg String.length hName
  simp [patchPath] at hLength

theorem Restartable.source_ne_output (hC : Restartable c) (hTarget : c.target = .file path) :
    c.sourceFilename ≠ .file (patchPath path) := by
  intro hSource
  exact (hC.sourceApart _ hSource).2.2 path hTarget rfl

/- Changes of the output leave the copy. -/
omit [DecidableEq δ] in
theorem copy_ne_output (path : Path) :
    (.file cacheTempSource : FileName δ) ≠ .file (patchPath path) := by
  intro hEq
  exact patchPath_ne_cacheTempSource path (FileName.file.inj hEq).symm

section

variable (hC : Restartable c) (h : Loads c fs c.sourceFilename content)

include hC h

theorem Loads.source_unlink {other : Path} (hOther : expendable other = true) :
    Loads c (fs.apply (.unlink other)) c.sourceFilename
      content := by
  apply h.apply
  intro hSource
  have hNot := (hC.sourceApart other hSource).2.1
  rw [hOther] at hNot
  cases hNot

theorem Loads.source_write (written : Content) :
    Loads c (fs.apply (.write cacheTempSource written))
      c.sourceFilename content := by
  apply h.apply
  intro hSource
  exact (hC.sourceApart _ hSource).1 rfl

end

section

variable (hTarget : c.target = .file path) (env : Env)

include hTarget

/- The second half of a pass writes only the output. -/
theorem output_safely {P R : Fs → Prop} (writes : List Nat) (hCut : ∀ fs, R fs → P fs)
    (hWrite : ∀ fs content, R fs → R (fs.apply (.write (patchPath path) content))) (hStart : R fs) :
    Safely Fs.apply P (fun r fs' =>
      R fs' ∧ ∀ out, r = some out → fs'.files (patchPath path) = some out)
      fs (c.output env writes ch) := by
  unfold Config.output
  rw [hTarget]
  simp only
  split
  next => exact .stop (hCut fs hStart)
  next =>
    split
    next => exact .stop (hCut fs hStart)
    next =>
      have hOpened := hWrite fs [] hStart
      have hEmpty : (fs.apply (.write (patchPath path) [])).files (patchPath path) = some [] := by
        simp [Fs.apply, Fs.setFile]
      apply Safely.bind (.emit (hCut fs hStart) (hCut _ hOpened) (Q := fun _ t =>
              R t ∧ t.files (patchPath path) = some [])
            ⟨hOpened, hEmpty⟩)
      rintro _ t ⟨ht, hNone⟩
      split
      next => exact .stop (hCut t ht)
      next =>
        cases c.tools.decode ch.patch ch.content with
        | none =>
          apply Safely.pure (hCut t ht)
          exact ⟨ht, fun out hOut => by cases hOut⟩
        | some out =>
          apply Safely.bind (sinkAll_safely hCut ht out writes hWrite hNone)
          rintro written fs' ⟨hKept, hFile⟩
          apply Safely.pure (hCut fs' hKept)
          refine ⟨hKept, ?_⟩
          intro out' hOut
          split at hOut
          next hWritten =>
            cases hOut
            exact hFile hWritten
          next => cases hOut

theorem Finished.inv (h : Finished c fs) : Inv c fs := by
  unfold Inv
  rw [hTarget]
  exact .inl h

/- Renaming the output finishes the target. -/
theorem install_safely (start : Fs) (hInv : Inv c fs) (hOut : fs.files (patchPath path) = some out)
    (hDigest : c.tools.sha1 out = c.targetSha1) :
    Safely Fs.apply (Inv c) (fun _ t => Finished c t) fs (c.install env start out) := by
  have hFinished : Finished c (fs.apply (.rename (patchPath path) path)) := by
    unfold Finished
    rw [hTarget]
    refine ⟨out, ?_, hDigest⟩
    have hNe := patchPath_ne path
    simp [Fs.apply, Fs.setFile, hNe, hOut]
  unfold Config.install
  rw [hTarget]
  simp only
  split
  next => exact .stop hInv
  next => exact .emit hInv (hFinished.inv hTarget) hFinished

variable (hC : Restartable c)

include hC

theorem Finished.unlink_copy (h : Finished c fs) :
    Finished c (fs.apply (.unlink cacheTempSource)) := by
  unfold Finished at h ⊢
  rw [hTarget] at h ⊢
  rcases h with ⟨content, hFile, hDigest⟩
  have hNe := hC.targetApart path hTarget
  refine ⟨content, ?_, hDigest⟩
  simp [Fs.apply, Fs.setFile, hNe, hFile]

variable (hChoice : GoodChoice c ch)

include hChoice

/- The first half of a pass. -/
theorem prepare_safely (retry : Nat) (hStart : Start c ch fs) :
    Safely Fs.apply (Inv c) (fun r fs' =>
      Ready c ch fs' ∧ (r.2 ≠ 0 → Start c ch fs'))
      fs (c.prepare env retry ch) := by
  have hReady := hStart.ready
  have hInv := hReady.inv hTarget hChoice.good
  unfold Config.prepare
  rw [hTarget]
  simp only
  split
  next => exact .pure hInv ⟨hReady, fun _ => hStart⟩
  next =>
    split
    next hUses =>
      unfold Start at hStart
      rw [if_pos hUses] at hStart
      cases hSource : c.sourceFilename with
      | partition p pairs => exact .stop hInv
      | file source =>
        have hCut : ∀ t, Loads c t c.sourceFilename ch.content → Inv c t := by
          intro t ht
          exact Ready.inv (.inl ht) hTarget hChoice.good
        apply Safely.bind (backUp_safely hCut hStart env ch.source
            (fun t other hOther ht => ht.source_unlink hC hOther)
            (fun t written ht => ht.source_write hC written))
        rintro _ t ⟨hLoads, hSaved⟩
        have hCopy := hSaved _ (hChoice.live hUses)
        -- The copy is complete before the source goes.
        have hGone : Ready c ch (t.apply (.unlink source)) := by
          right
          refine ⟨⟨source, hSource, ?_⟩, ?_⟩
          · simp [Fs.apply, Fs.setFile]
          · apply (loads_file hCopy).apply
            intro hEq
            exact (hC.sourceApart source hSource).1 (FileName.file.inj hEq).symm
        apply Safely.bind (.emit (hCut t hLoads) (hGone.inv hTarget hChoice.good)
            (Q := fun _ t => Ready c ch t) hGone)
        intro _ t' ht'
        apply Safely.pure (ht'.inv hTarget hChoice.good)
        exact ⟨ht', fun hZero => absurd rfl hZero⟩
    next => exact .pure hInv ⟨hReady, fun hZero => absurd rfl hZero⟩

/- The second pass starts like the first one. -/
theorem secondPass_safely (made : Bool) (hStart : Start c ch fs) :
    Safely Fs.apply (Inv c) (fun r fs' =>
      Ready c ch fs' ∧ fs'.files (patchPath path) = some r.2)
      fs (c.secondPass env ch made) := by
  have hCut : ∀ t, Ready c ch t → Inv c t := by
    intro t ht
    exact ht.inv hTarget hChoice.good
  have hSource := hC.source_ne_output hTarget
  have hCopy := copy_ne_output path (δ := δ)
  have hDropped : Start c ch (fs.apply (.unlink (patchPath path))) := hStart.apply hSource hCopy
  unfold Config.secondPass Config.dropOutput
  rw [hTarget]
  apply Safely.bind (.emit (hCut fs hStart.ready) (hCut _ hDropped.ready)
      (Q := fun _ t => Start c ch t) hDropped)
  intro _ t ht
  apply Safely.bind (prepare_safely hTarget env hC hChoice 0 ht)
  rintro ⟨again, _⟩ t' ⟨hReady, _⟩
  apply Safely.bind (output_safely hTarget env env.secondWrites hCut
      (fun t content ht => ht.apply hSource hCopy)
      hReady)
  rintro out last ⟨hLast, hOut⟩
  cases out with
  | none => exact .stop (hCut last hLast)
  | some out => exact .pure (hCut last hLast) ⟨hLast, hOut out rfl⟩

/- The loop: its source is safe, and its output is there. -/
theorem patchLoop_safely (hStart : Start c ch fs) :
    Safely Fs.apply (Inv c) (fun r fs' =>
      Ready c ch fs' ∧ fs'.files (patchPath path) = some r.2)
      fs (c.patchLoop env ch) := by
  have hCut : ∀ t, Ready c ch t → Inv c t := by
    intro t ht
    exact ht.inv hTarget hChoice.good
  have hSource := hC.source_ne_output hTarget
  have hCopy := copy_ne_output path (δ := δ)
  apply Safely.bind (prepare_safely hTarget env hC hChoice 1 hStart)
  rintro ⟨made, retry⟩ t ⟨hReady, hAgain⟩
  apply Safely.bind (output_safely (R := fun t =>
          Ready c ch t ∧ (retry ≠ 0 → Start c ch t))
        hTarget env env.firstWrites
        (fun t ht => hCut t ht.1)
        (fun t content ht =>
          ⟨ht.1.apply hSource hCopy, fun hRetry => (ht.2 hRetry).apply hSource hCopy⟩)
        ⟨hReady, hAgain⟩)
  rintro out t' ⟨⟨hReady', hAgain'⟩, hOut⟩
  cases out with
  | some out => exact .pure (hCut t' hReady') ⟨hReady', hOut out rfl⟩
  | none =>
    simp only
    split
    next => exact .stop (hCut t' hReady')
    next hRetry => exact secondPass_safely hTarget env hC hChoice made (hAgain' hRetry)

/- What follows the loop. -/
theorem finish_safely (made : Bool) (start : Fs)
    (hReady : Ready c ch fs) (hOut : fs.files (patchPath path) = some out) :
    Safely Fs.apply (Inv c) (fun _ _ => True) fs (c.finish env start made out) := by
  have hInv := hReady.inv hTarget hChoice.good
  unfold Config.finish
  split
  next => exact .stop hInv
  next hSha =>
    rw [ne_eq, not_not] at hSha
    apply Safely.bind (install_safely hTarget env start hInv hOut hSha)
    intro _ t hFinished
    apply Safely.bind (dropCopy_safely (fun t (ht : Finished c t) => ht.inv hTarget)
        hFinished made (hFinished.unlink_copy hTarget hC))
    intro _ t' ht'
    exact .pure (ht'.inv hTarget) trivial

end

------
-- Cuts With A Partition As Target
------

variable {p : Partition} {pairs : List (Nat × δ)}

section

variable (hC : Restartable c) (hTarget : c.target = .partition p pairs)

include hC hTarget

theorem Loads.source_program (h : Loads c fs c.sourceFilename content) (programmed : Content) :
    Loads c (fs.apply (.program p programmed))
      c.sourceFilename content := by
  apply h.apply
  intro ps hSource
  exact hC.partitionApart p ps p pairs hSource hTarget rfl

variable (env : Env) (hCut : ∀ t, Loads c t c.sourceFilename content → P t)
variable (hStart : Loads c fs c.sourceFilename content)

include hCut hStart

/- Without a second pass, the loop only backs up. -/
theorem patchLoop_partition_safely :
    Safely Fs.apply P (fun _ t => Loads c t c.sourceFilename content) fs (c.patchLoop env ch) := by
  have hPrepare : Safely Fs.apply P (fun r t =>
          Loads c t c.sourceFilename content ∧ r.2 = 0)
        fs (c.prepare env 1 ch) := by
    unfold Config.prepare
    rw [hTarget]
    apply Safely.bind (backUp_safely hCut hStart env ch.source
        (fun t other hOther ht => ht.source_unlink hC hOther)
        (fun t written ht => ht.source_write hC written))
    rintro _ t ⟨ht, _⟩
    exact .pure (hCut t ht) ⟨ht, rfl⟩
  have hOutput : ∀ t, Loads c t c.sourceFilename content → Safely Fs.apply P
      (fun _ t => Loads c t c.sourceFilename content) t
      (c.output env env.firstWrites ch) := by
    intro t ht
    unfold Config.output
    rw [hTarget]
    simp only
    split
    next => exact .stop (hCut t ht)
    next =>
      split
      next => exact .stop (hCut t ht)
      next =>
        split
        next => exact .stop (hCut t ht)
        next => exact .pure (hCut t ht) ht
  apply Safely.bind hPrepare
  rintro ⟨made, retry⟩ t ⟨ht, hZero⟩
  apply Safely.bind (hOutput t ht)
  intro out t' ht'
  cases out with
  | some out => exact .pure (hCut t' ht') ht'
  | none =>
    rw [if_pos hZero]
    exact .stop (hCut t' ht')

/- Writing the target does not touch the source. -/
theorem install_partition_safely (start : Fs) (out : Content) :
    Safely Fs.apply P (fun _ t => Loads c t c.sourceFilename content) fs
      (c.install env start out) := by
  unfold Config.install writeToPartition
  rw [hTarget]
  simp only
  cases start.partitions p with
  | none => exact .stop (hCut fs hStart)
  | some old =>
    have hKeeps : ∀ t, ∀ e ∈ env.programSteps.map (fun s =>
            Effect.program p (overwritten old out s.1 s.2)),
          Loads c t c.sourceFilename content → Loads c (t.apply e) c.sourceFilename content := by
      intro t e he ht
      rcases mem_map.mp he with ⟨s, _, rfl⟩
      exact ht.source_program hC hTarget _
    apply Safely.bind (.emitAll hCut hKeeps hStart)
    rintro _ t ⟨ht, _⟩
    split
    next => exact .stop (hCut t ht)
    next =>
      have hWritten := ht.source_program hC hTarget (programmed p.type old out)
      exact .emit (hCut t ht) (hCut _ hWritten) hWritten

/- What follows the loop writes the target and the copy. -/
theorem finish_partition_safely (start : Fs) (made : Bool) (out : Content) :
    Safely Fs.apply P (fun _ _ => True) fs (c.finish env start made out) := by
  unfold Config.finish
  split
  next => exact .stop (hCut fs hStart)
  next =>
    apply Safely.bind (install_partition_safely hC hTarget env hCut hStart start out)
    intro _ t ht
    have hKept : Loads c (t.apply (.unlink cacheTempSource)) c.sourceFilename content := by
      apply ht.apply
      intro hSource
      exact (hC.sourceApart _ hSource).1 rfl
    apply Safely.bind (dropCopy_safely hCut ht made hKept)
    intro _ t' ht'
    exact .pure (hCut t' ht') trivial

end

/- The invariant holds at every cut of a run. -/
theorem applypatch_safely (hC : Restartable c) (env : Env) (hInv : Inv c fs) :
    Safely Fs.apply (Inv c) (fun _ _ => True) fs (applypatch c env fs) := by
  unfold applypatch
  cases hTarget : c.target with
  | file path =>
    rcases choose_file env hTarget hInv with ⟨_, hChoose⟩ | ⟨ch, hChoose, hChoice, hStart⟩
    · rw [hChoose]
      exact .stop hInv
    · rw [hChoose]
      apply Safely.bind (patchLoop_safely hTarget env hC hChoice hStart)
      rintro ⟨made, out⟩ t ⟨hReady, hOut⟩
      exact finish_safely hTarget env hC hChoice made fs hReady hOut
  | partition p pairs =>
    cases c.choose env fs with
    | error ret => exact .stop hInv
    | ok ch =>
      unfold Inv at hInv
      rw [hTarget] at hInv
      rcases hInv with ⟨content, hLoads, hGood⟩
      have hCut : ∀ t, Loads c t c.sourceFilename content → Inv c t := by
        intro t ht
        unfold Inv
        rw [hTarget]
        exact ⟨content, ht, hGood⟩
      apply Safely.bind (patchLoop_partition_safely hC hTarget env hCut hLoads)
      rintro ⟨made, out⟩ t ht
      exact finish_partition_safely hC hTarget env hCut ht fs made out

theorem inv_interrupted (hC : Restartable c) (hInv : Inv c fs)
    (runs : List (Env × Nat)) : Inv c (interrupted c fs runs) := by
  induction runs generalizing fs with
  | nil => exact hInv
  | cons run runs ih =>
    rcases run with ⟨env, k⟩
    exact ih ((applypatch_safely hC env hInv).cuts k)

variable {path : Path} {start : Fs} {writes : List Nat} {content : Content}
variable {δ π : Type} [DecidableEq δ]

/- A run with enough space and without errors. -/
structure Clean (c : Config δ π) (env : Env) (fs : Fs) : Prop where
  space : ∀ path, c.target = .file path → c.enoughSpace env 1 = true
  room : ∀ p pairs, c.target = .partition p pairs →
      ∃ old, fs.partitions p = some old ∧ c.targetSize ≤ old.length
  cacheFree : env.cacheFree = true
  saveOpens : env.saveOpens = true
  saveWrites : ∀ w ∈ env.saveWrites, w ≠ 0
  saveChmods : env.saveChmods = true
  mallocs : env.mallocs = true
  outOpens : env.outOpens = true
  firstWrites : ∀ w ∈ env.firstWrites, w ≠ 0
  chmods : env.chmods = true
  chowns : env.chowns = true
  renames : env.renames = true
  programs : env.programs = true

/- Writes that do not fail write all. -/
theorem fileSink_complete (path : Path) (data : Content)
    (done : Nat) (hWrites : ∀ w ∈ writes, w ≠ 0) :
    (fileSink path data done writes).2 = true := by
  induction writes generalizing done with
  | nil =>
    unfold fileSink
    split <;> rfl
  | cons wrote writes ih =>
    unfold fileSink
    split
    next =>
      rw [if_neg (hWrites wrote (by simp))]
      apply ih
      intro w hw
      exact hWrites w (by simp [hw])
    next => rfl

theorem sinkAll_completes {fs : Fs} (data : Content)
    (hWrites : ∀ w ∈ writes, w ≠ 0) (hEmpty : fs.files path = some []) :
    RunsTo Fs.apply (fun ok t =>
      ok = true ∧ t.files path = some data)
      fs (sinkAll path data writes) := by
  have hAll := fileSink_complete path data 0 hWrites
  apply RunsTo.bind (.emitAll (Q := fun _ t => t.files path = some data)
      (fileSink_final hEmpty hAll))
  intro _ t ht
  exact .pure ⟨hAll, ht⟩

variable {out : Content} {c : Config δ π} {ch : Choice π} {env : Env} {fs : Fs} {p : Partition}
variable {pairs : List (Nat × δ)}

theorem GoodChoice.decode (h : GoodChoice c ch) :
    ∃ out, c.tools.kind ch.patch = .known ∧ c.tools.decode ch.patch ch.content = some out ∧
      c.tools.sha1 out = c.targetSha1 ∧ out.length ≤ c.targetSize := by
  rcases h.good with ⟨patch, out, hPatch, hRest⟩
  rw [h.patch] at hPatch
  cases hPatch
  exact ⟨out, hRest⟩

/- Backing a source up that is in memory. -/
theorem backUp_completes {t : Fs} (hClean : Clean c env start)
    {source : FileContents} (hData : source.data = .live content) :
    RunsTo Fs.apply (fun _ _ => True) t (backUp env source) := by
  have hFree : RunsTo Fs.apply (fun free _ => free = true) t (makeFreeSpaceOnCache env) := by
    apply RunsTo.bind (.emitAll (Q := fun _ _ => True) trivial)
    intro _ t' _
    exact .pure hClean.cacheFree
  apply RunsTo.bind hFree
  rintro free t' rfl
  have hSave : RunsTo Fs.apply (fun saved _ => saved = true) t'
      (saveFileContents env cacheTempSource source) := by
    unfold saveFileContents
    rw [if_neg (by simp [hClean.saveOpens])]
    apply RunsTo.bind (.emit (Q := fun _ t =>
            t.files cacheTempSource = some [])
          (by simp [Fs.apply, Fs.setFile]))
    intro _ t₂ hEmpty
    unfold sinkContents
    rw [hData]
    apply RunsTo.bind (sinkAll_completes content hClean.saveWrites hEmpty)
    rintro ok t₃ ⟨rfl, _⟩
    exact .pure (by simp [hClean.saveChmods])
  apply RunsTo.bind hSave
  rintro saved t₂ rfl
  exact .pure trivial

/- The copy is not the target. -/
theorem dropCopy_completes (hC : Restartable c) (made : Bool) (hFinished : Finished c fs) :
    RunsTo Fs.apply (fun _ t => Finished c t) fs (dropCopy made) := by
  unfold dropCopy
  split
  next =>
    apply RunsTo.emit
    cases hTarget : c.target with
    | file path => exact hFinished.unlink_copy hTarget hC
    | partition p pairs =>
      unfold Finished at hFinished ⊢
      rw [hTarget] at hFinished ⊢
      exact hFinished
  next => exact .pure hFinished

theorem finish_completes (hC : Restartable c) (made : Bool)
    (hDigest : c.tools.sha1 out = c.targetSha1)
    (hInstall : RunsTo Fs.apply (fun _ t => Finished c t) fs (c.install env start out)) :
    RunsTo Fs.apply (fun r t => r = 0 ∧ Finished c t) fs (c.finish env start made out) := by
  unfold Config.finish
  rw [if_neg (by simp [hDigest])]
  apply RunsTo.bind hInstall
  intro _ t ht
  apply RunsTo.bind (dropCopy_completes hC made ht)
  intro _ t' ht'
  exact .pure ⟨rfl, ht'⟩

/- The output of a good choice is written. -/
theorem output_completes (hTarget : c.target = .file path) (hClean : Clean c env start)
    (hKind : c.tools.kind ch.patch = .known)
    (hDecode : c.tools.decode ch.patch ch.content = some out) :
    RunsTo Fs.apply (fun r t =>
      r = some out ∧ t.files (patchPath path) = some out)
      fs (c.output env env.firstWrites ch) := by
  unfold Config.output
  rw [hTarget, hKind, hDecode, if_neg (by simp)]
  simp only [hClean.outOpens, Bool.true_eq_false, if_false]
  apply RunsTo.bind (.emit (Q := fun _ t =>
          t.files (patchPath path) = some [])
        (by simp [Fs.apply, Fs.setFile]))
  intro _ t hEmpty
  apply RunsTo.bind (sinkAll_completes out hClean.firstWrites hEmpty)
  rintro written t' ⟨rfl, hFile⟩
  exact .pure ⟨rfl, hFile⟩

/- The run returns 0 and leaves the finished target. -/
def Completes (c : Config δ π) (env : Env) (fs : Fs) : Prop :=
  (applypatch c env fs).returned = 0 ∧ Finished c ((applypatch c env fs).after Fs.apply fs)

/- A run for a file. -/
theorem applypatch_completes_file (hC : Restartable c)
    (hTarget : c.target = .file path) (hClean : Clean c env fs) (hInv : Inv c fs) :
    Completes c env fs := by
  unfold Completes applypatch
  rcases choose_file env hTarget hInv with ⟨hFinished, hChoose⟩ | ⟨ch, hChoose, hChoice, _⟩
  · rw [hChoose]
    exact ⟨rfl, hFinished⟩
  · rw [hChoose]
    rcases hChoice.decode with ⟨out, hKind, hDecode, hDigest, _⟩
    apply RunsTo.returned_eq
    have hLoop : RunsTo Fs.apply (fun r t =>
            r.2 = out ∧ t.files (patchPath path) = some out)
          fs (c.patchLoop env ch) := by
      unfold Config.patchLoop Config.prepare
      rw [hTarget]
      simp only [hClean.space path hTarget, if_true]
      apply RunsTo.bind (.pure (Q := fun _ _ => True) trivial)
      rintro ⟨made, retry⟩ t _
      apply RunsTo.bind (output_completes hTarget hClean hKind hDecode)
      rintro r t' ⟨rfl, hFile⟩
      exact .pure ⟨rfl, hFile⟩
    apply RunsTo.bind hLoop
    rintro ⟨made, out'⟩ t ⟨rfl, hFile⟩
    apply finish_completes hC made hDigest
    unfold Config.install
    rw [hTarget]
    simp only [hClean.chmods, hClean.chowns, hClean.renames, Bool.true_eq_false, or_self, if_false]
    apply RunsTo.emit
    unfold Finished
    rw [hTarget]
    have hNe := patchPath_ne path
    refine ⟨out', ?_, hDigest⟩
    simp [Fs.apply, Fs.setFile, hNe, hFile]

/- A partition is loaded with some of its first bytes. -/
theorem matchPairs_live {sha1 : Content → δ} {whole : Content} {got : Nat} {sorted : List (Nat × δ)}
    (h : (matchPairs sha1 whole got sorted).data = .live content) :
    ∃ n, n ≤ whole.length ∧ content = whole.take n := by
  induction sorted generalizing got with
  | nil => cases h
  | cons pair sorted ih =>
    rcases pair with ⟨size, sha⟩
    unfold matchPairs at h
    split at h
    next => cases h
    next hEnough =>
      split at h
      next =>
        cases h
        exact ⟨size, by omega, rfl⟩
      next => exact ih h

section

variable (hTarget : c.target = .partition p pairs)

include hTarget

/- A partition that is already the target is finished. -/
theorem finished_of_isTarget {old : FileContents}
    (h : c.isTarget (loadFileContents c.tools.sha1 fs c.target old) = true) : Finished c fs := by
  unfold Config.isTarget at h
  unfold Finished
  rw [hTarget] at h ⊢
  simp only [loadFileContents, loadPartitionContents] at h
  cases hWhole : fs.partitions p with
  | none => simp [hWhole] at h
  | some whole =>
    simp only [hWhole] at h
    split at h
    next content hLive =>
      split at hLive
      next => cases hLive
      next =>
        rcases matchPairs_live hLive with ⟨n, hn, rfl⟩
        exact ⟨whole, n, hWhole, hn, by simpa using h⟩
    next => cases h

/- What a run finds when the target is a partition. -/
theorem choose_partition (env : Env) (hSource : SourceGood c fs) :
    (Finished c fs ∧ c.choose env fs = .error 0) ∨
      ∃ ch, c.choose env fs = .ok ch ∧ GoodChoice c ch ∧ ch.usesSource = true := by
  unfold Config.choose
  simp only
  split
  next hDone => exact .inl ⟨finished_of_isTarget hTarget hDone, rfl⟩
  next =>
    rcases hSource with ⟨content, hLoads, hGood⟩
    rcases takeSource_of_source env (loadSource_data _ hLoads) hLoads hGood with
      ⟨ch, hTake, hChoice, hUses, _⟩
    exact .inr ⟨ch, hTake, hChoice, hUses⟩

variable (hClean : Clean c env fs)

include hClean

/- A partition with enough room is written. -/
theorem writeToPartition_completes {t : Fs} (hDigest : c.tools.sha1 out = c.targetSha1)
    (hSize : out.length ≤ c.targetSize) :
    RunsTo Fs.apply (fun _ t' => Finished c t') t (writeToPartition env fs p out) := by
  rcases hClean.room p pairs hTarget with ⟨old, hOld, hRoom⟩
  have hFits : ¬ (env.programs = false ∨ old.length < out.length) := by
    rw [hClean.programs]
    simp only [Bool.true_eq_false, false_or]
    omega
  unfold writeToPartition
  rw [hOld]
  apply RunsTo.bind (.emitAll (Q := fun _ _ => True) trivial)
  intro _ t' _
  rw [if_neg hFits]
  apply RunsTo.emit
  have hTake : (programmed p.type old out).take out.length = out ∧
      out.length ≤ (programmed p.type old out).length := by
    unfold programmed
    cases p.type with
    | mtd | emmc => simp
  unfold Finished
  rw [hTarget]
  refine ⟨programmed p.type old out, out.length, ?_, hTake.2, ?_⟩
  · simp [Fs.apply, Fs.setPartition]
  · rw [hTake.1]
    exact hDigest

/- The loop backs up and leaves the output in memory. -/
theorem patchLoop_partition_completes {ch : Choice π} (hChoice : GoodChoice c ch)
    (hUses : ch.usesSource = true) (hKind : c.tools.kind ch.patch = .known)
    (hDecode : c.tools.decode ch.patch ch.content = some out) (hSize : out.length ≤ c.targetSize) :
    RunsTo Fs.apply (fun r _ => r.2 = out) fs (c.patchLoop env ch) := by
  have hPrepare : RunsTo Fs.apply (fun _ _ => True) fs (c.prepare env 1 ch) := by
    unfold Config.prepare
    rw [hTarget]
    apply RunsTo.bind (backUp_completes hClean (hChoice.live hUses))
    intro _ t _
    exact .pure trivial
  have hOutput : c.output env env.firstWrites ch = pure (some out) := by
    unfold Config.output
    rw [hTarget, hKind, hDecode, hClean.mallocs]
    simp only [Option.filter, decide_eq_true hSize]
    rfl
  apply RunsTo.bind hPrepare
  rintro ⟨made, retry⟩ t _
  rw [hOutput]
  apply RunsTo.bind (.pure (Q := fun r _ => r = some out) rfl)
  rintro r t' rfl
  exact .pure rfl

/- A run for a partition. -/
theorem applypatch_completes_partition (hC : Restartable c) (hSource : SourceGood c fs) :
    Completes c env fs := by
  unfold Completes applypatch
  rcases choose_partition hTarget env hSource with
    ⟨hFinished, hChoose⟩ | ⟨ch, hChoose, hChoice, hUses⟩
  · rw [hChoose]
    exact ⟨rfl, hFinished⟩
  · rw [hChoose]
    rcases hChoice.decode with ⟨out, hKind, hDecode, hDigest, hSize⟩
    apply RunsTo.returned_eq
    apply RunsTo.bind (patchLoop_partition_completes hTarget hClean
        hChoice hUses hKind hDecode hSize)
    rintro ⟨made, out'⟩ t rfl
    apply finish_completes hC made hDigest
    unfold Config.install
    rw [hTarget]
    exact writeToPartition_completes hTarget hClean hDigest hSize

end

theorem applypatch_completes (hC : Restartable c) (hClean : Clean c env fs) (hInv : Inv c fs) :
    Completes c env fs := by
  cases hTarget : c.target with
  | file path => exact applypatch_completes_file hC hTarget hClean hInv
  | partition p pairs =>
    unfold Inv at hInv
    rw [hTarget] at hInv
    exact applypatch_completes_partition hTarget hClean hC hInv

/- The invariant says that the target can be made. -/
theorem Inv.safe (h : Inv c fs) : Safe c fs := by
  unfold Inv at h
  cases hTarget : c.target with
  | file path =>
    rw [hTarget] at h
    rcases h with hFinished | hSource | ⟨_, hCopy⟩
    · exact .inr (.inr hFinished)
    · exact .inl hSource
    · exact .inr (.inl hCopy)
  | partition p pairs =>
    rw [hTarget] at h
    exact .inl h

theorem SourceGood.inv (h : SourceGood c fs) : Inv c fs := by
  unfold Inv
  cases c.target with
  | file path => exact .inr (.inl h)
  | partition p pairs => exact h

/-
  `applypatch` can be restarted: from a good source on, and after any number of runs that are cut
  off between any two effects, there is a good source, a good copy or the finished target, and the
  next run with enough space and without errors returns 0 and leaves the finished target.
-/
theorem applypatch_restarts (c : Config δ π) (hC : Restartable c)
    (fs : Fs) (hSource : SourceGood c fs) (runs : List (Env × Nat)) :
    Safe c (interrupted c fs runs) ∧ ∀ env, Clean c env (interrupted c fs runs) → (applypatch c env
      (interrupted c fs runs)).returned = 0 ∧
        Finished c ((applypatch c env (interrupted c fs runs)).after Fs.apply
          (interrupted c fs runs)) := by
  have hInv := inv_interrupted hC hSource.inv runs
  refine ⟨hInv.safe, ?_⟩
  intro env hClean
  exact applypatch_completes hC hClean hInv

/- A run that meets no error, with so much free space. -/
def prompt (freeSpace : Nat) (programSteps : List (Nat × Nat)) : Env where
  uninit := 0
  freeSpace := freeSpace
  cacheUnlinks := []
  cacheFree := true
  saveOpens := true
  saveWrites := []
  saveChmods := true
  freed := fun _ => 0
  mallocs := true
  outOpens := true
  firstWrites := []
  secondWrites := []
  chmods := true
  chowns := true
  renames := true
  programSteps := programSteps
  programs := true

/- Such a run is clean if there is enough space. -/
theorem clean_prompt {c : Config δ π} {fs : Fs} {freeSpace : Nat} (programSteps : List (Nat × Nat))
    (hSpace : ∀ path, c.target = .file path →
      c.enoughSpace (prompt freeSpace programSteps) 1 = true)
    (hRoom : ∀ p pairs, c.target = .partition p pairs →
      ∃ old, fs.partitions p = some old ∧ c.targetSize ≤ old.length) :
    Clean c (prompt freeSpace programSteps) fs where
  space := hSpace
  room := hRoom
  cacheFree := rfl
  saveOpens := rfl
  saveWrites := by simp [prompt]
  saveChmods := rfl
  mallocs := rfl
  outOpens := rfl
  firstWrites := by simp [prompt]
  chmods := rfl
  chowns := rfl
  renames := rfl
  programs := rfl

/- Digests that tell all contents apart, and one patch. -/
def constantTools (out : Content) : Tools Content Unit where
  sha1 := id
  kind := fun _ => .known
  decode := fun _ _ => some out

/- A patch of a file in its own place. -/
def appPatch : Config Content Unit where
  tools := constantTools [3]
  sourceFilename := .file ⟨"/system/app", "a.apk"⟩
  targetFilename := .file ⟨"", "-"⟩
  targetSha1 := [3]
  targetSize := 1
  patches := [([1, 2], ())]

def appFs : Fs where
  files := fun path =>
    if path = ⟨"/system/app", "a.apk"⟩ then
      some [1, 2]
    else
      none
  partitions := fun _ => none

/- There is no space, and the run is cut off with no file. -/
def appCut : Fs := interrupted appPatch appFs [(prompt 0 [], 3)]

theorem applypatch_restarts_file_deleted :
    appCut.files ⟨"/system/app", "a.apk"⟩ = none ∧ Clean appPatch (prompt 1000000 []) appCut ∧
      (applypatch appPatch (prompt 1000000 []) appCut).returned = 0 ∧
      Finished appPatch ((applypatch appPatch (prompt 1000000 [])
        appCut).after Fs.apply appCut) := by
  have hClean : Clean appPatch (prompt 1000000 []) appCut := by
    apply clean_prompt
    · intro _ _
      decide
    · intro p pairs hPartition
      cases hPartition
  have hRestartable : Restartable appPatch := by
    refine ⟨?_, ?_, ?_⟩
    · intro path hPath
      cases hPath
      decide
    · intro path hPath
      cases hPath
      refine ⟨by decide, by decide, ?_⟩
      intro other hOther
      cases hOther
      decide
    · intro p ps q qs hPartition
      cases hPartition
  have hSource : SourceGood appPatch appFs := by
    refine ⟨[1, 2], loads_file rfl, (), [3], ?_⟩
    decide
  have hRestarts := applypatch_restarts appPatch hRestartable appFs hSource [(prompt 0 [], 3)]
  exact ⟨by decide, hClean, hRestarts.2 (prompt 1000000 []) hClean⟩

/- A patch of a partition in its own place. -/
def bootPatch : Config Content Unit where
  tools := constantTools [3, 4]
  sourceFilename := .partition ⟨.emmc, "boot"⟩ [(2, [1, 2]), (2, [3, 4])]
  targetFilename := .file ⟨"", "-"⟩
  targetSha1 := [3, 4]
  targetSize := 2
  patches := [([1, 2], ())]

def bootFs : Fs where
  files := fun _ => none
  partitions := fun p => if p = ⟨.emmc, "boot"⟩ then some [1, 2] else none

/- The run is cut off with half of the partition written. -/
def bootCut : Fs :=
  interrupted bootPatch bootFs [(prompt 0 [(1, 0)], 3)]

def bootRestarted : Fs :=
  (applypatch bootPatch (prompt 0 []) bootCut).after Fs.apply bootCut

/-
  The next run saves `source_file`, which could not be loaded, over the good copy before it uses
  that copy. It fails, and neither the source nor the copy is left.
-/
theorem applypatch_destroys_copy :
    SourceGood bootPatch bootFs ∧ CopyGood bootPatch bootCut ∧
      Clean bootPatch (prompt 0 []) bootCut ∧
      (applypatch bootPatch (prompt 0 []) bootCut).returned = 1 ∧
      ¬ Safe bootPatch bootRestarted := by
  have hGood : Good bootPatch [1, 2] := ⟨(), [3, 4], by decide⟩
  have hCopy : bootRestarted.files cacheTempSource = some [] := by decide
  refine ⟨⟨[1, 2], ?_, hGood⟩, ?_, ?_, by decide, ?_⟩
  · intro old
    rfl
  · exact ⟨[1, 2], loads_file (by decide), hGood⟩
  · apply clean_prompt
    · intro path hFile
      cases hFile
    · intro p pairs hPartition
      cases hPartition
      exact ⟨[3, 2], by decide, by decide⟩
  · rintro (⟨content, hLoads, _⟩ | ⟨content, hLoads, patch, _, hPatch, _⟩ | hFinished)
    · have hData := hLoads ⟨.null, 0⟩
      cases hData
    · rw [hLoads.files_eq] at hCopy
      cases hCopy
      cases hPatch
    · rcases hFinished with ⟨content, n, hContent, _, hSha1⟩
      cases hContent
      have hTake : ([3, 2] : Content).take n = [3, 4] := hSha1
      have hMem : (4 : UInt8) ∈ ([3, 2] : Content).take n := by
        rw [hTake]
        simp
      have hOld := List.mem_of_mem_take hMem
      simp at hOld

end OpenIvi.Recovery.ApplyPatch
