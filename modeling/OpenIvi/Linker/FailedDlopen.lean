import OpenIvi.Linker.Dlopen

/-
  What a `dlopen` that fails leaves behind.

  A load that fails gives back its range, but a link that fails gives back neither the range of the
  library nor the counts of the libraries it needs. `verdict` follows the names and the files alone,
  and tells whether the call takes a range or counts a library that was there before.

  Main declarations:
    * `Unchanged`
    * `Verdict`
    * `failed_dlopen_unchanged_iff`
    * `failed_dlopen_keeps_count`
-/

------
-- Traces
------

namespace OpenIvi.Linker

open Lib Lib.Buddy List Function

variable {id : SoId} {image : Image} {i : Nat} {si : Soinfo}

/- The count of a library. -/
def Dl.refcount? (s : Dl) (id : SoId) : Option Nat :=
  (s.solist.find? (·.id = id)).map Soinfo.refcount

/- Counts and ranges are as they were. -/
structure Unchanged (s s' : Dl) : Prop where
  refcounts : ∀ si ∈ s.solist, s'.refcount? si.id = some si.refcount
  ranges : ∀ b, InUse s'.ba b ↔ InUse s.ba b

/- A count has gone up, or a range was taken. -/
def Changed (s s' : Dl) : Prop :=
  (∃ si ∈ s.solist, ∃ si' ∈ s'.solist, si'.id = si.id ∧ si.refcount < si'.refcount) ∨
  ∃ b, InUse s'.ba b ∧ ¬ InUse s.ba b

variable {s s' s'' : Dl}

theorem exists_find? {β : Type} [DecidableEq β] (key : Soinfo → β)
    {l : List Soinfo} (hMem : si ∈ l) :
    ∃ si' ∈ l, key si' = key si ∧ l.find? (key · = key si) = some si' := by
  have hSome : (l.find? (key · = key si)).isSome := by
    rw [find?_isSome]
    exact ⟨si, hMem, decide_eq_true rfl⟩
  rcases Option.isSome_iff_exists.mp hSome with ⟨si', hFind⟩
  have hKey := find?_some hFind
  exact ⟨si', mem_of_find?_eq_some hFind, of_decide_eq_true hKey, hFind⟩

theorem refcount?_of_mem (hIds : (s.solist.map Soinfo.id).Nodup) (hMem : si ∈ s.solist) :
    s.refcount? si.id = some si.refcount := by
  rcases exists_find? Soinfo.id hMem with ⟨si', hMem', hId, hFind⟩
  have hEq : si' = si := inj_on_of_nodup_map hIds hMem' hMem hId
  rw [Dl.refcount?, hFind, hEq, Option.map_some]

theorem Changed.not_unchanged (hWell : WellFormed s')
    (hChanged : Changed s s') : ¬ Unchanged s s' := by
  intro hSame
  rcases hChanged with ⟨si, hSi, si', hSi', hId, hLt⟩ | ⟨b, hNew, hOld⟩
  · have hCount := hSame.refcounts si hSi
    rw [← hId, refcount?_of_mem hWell.pool.ids hSi'] at hCount
    injection hCount with hCount
    omega
  · exact hOld ((hSame.ranges b).mp hNew)

theorem Changed.trans (hChanged : Changed s s') (hGrows : Grows s' s'') : Changed s s'' := by
  rcases hChanged with ⟨si, hSi, si', hSi', hId, hLt⟩ | ⟨b, hNew, hOld⟩
  · rcases hGrows.kept si' hSi' with ⟨si2, hSi2, hId2, _, hLe⟩
    exact .inl ⟨si, hSi, si2, hSi2, hId2.trans hId, lt_of_lt_of_le hLt hLe⟩
  · exact .inr ⟨b, hGrows.inUse b hNew, hOld⟩

/- The flags of an entry are not looked at. -/
theorem Unchanged.modify {f : Soinfo → Soinfo} (id : SoId)
    (hSame : Unchanged s s') (hId : ∀ si, (f si).id = si.id)
    (hCount : ∀ si, (f si).refcount = si.refcount) : Unchanged s (s'.modify id f) := by
  refine ⟨?_, hSame.ranges⟩
  intro si hSi
  rw [← hSame.refcounts si hSi]
  have hMap : ∀ x : Soinfo, (if x.id = id then f x else x).id = x.id := by
    intro x
    split
    · exact hId x
    · rfl
  have hKeeps : ∀ x : Soinfo, (if x.id = id then f x else x).refcount = x.refcount := by
    intro x
    split
    · exact hCount x
    · rfl
  simp only [Dl.refcount?, Dl.modify, find?_map, comp_def, hMap, Option.map_map, hKeeps]

------
-- The Verdict
------

/-
  What comes of a library. It fails and leaves no trace, it leaves one, or it is linked, and then
  these are the libraries that the call has linked so far.
-/
inductive Verdict where
| fails
| leaks
| links (new : List Str)
deriving DecidableEq

/- The libraries that are needed. -/
def verdictNeeded (find : List Str → Str → Verdict) : List Dyn → List Str → Verdict
| [], new => .links new
| .needed name :: ds, new =>
  match find new name with
  | .links new => verdictNeeded find ds new
  | .fails => .fails
  | .leaks => .leaks
| .strtab :: ds, new => verdictNeeded find ds new
| .symtab :: ds, new => verdictNeeded find ds new
| .pltrel _ :: ds, new => verdictNeeded find ds new
| .rela :: ds, new => verdictNeeded find ds new
| .other :: ds, new => verdictNeeded find ds new

def verdictDynamic (find : List Str → Str → Verdict) (new : List Str) : Option (List Dyn) → Verdict
| none => .fails
| some ds =>
  if readDynamic ds false false = some (true, true) then
    verdictNeeded find ds new
  else .fails

/- A library without a range, with those it needs. -/
def verdictImage (find : List Str → Str → Verdict) (image : Image)
    (bname : Str) (new : List Str) : Verdict :=
  match verdictDynamic find new image.dynamic with
  | .links new =>
    if image.relocated then .links (bname :: new)
    else .fails
  | .fails => .fails
  | .leaks => .leaks

/-
  A library, where `active` are being linked and `new` were linked by the same call. One that was
  there before is counted, and one without a base of its own takes a range.
-/
def verdict (files : Files) (s : Dl) : Nat → List Str → List Str → Str → Verdict
| 0, _, _, _ => .fails
| fuel + 1, active, new, name =>
  match s.solist.find? (·.name = baseName name) with
  | some si =>
    if si.error = false ∧ si.linked = true then .leaks
    else .fails
  | none =>
    if baseName name ∈ active then .fails
    else if baseName name ∈ new then .links new
    else
      match loads files s.ba (freeEntries s - (active.length + new.length)) name with
      | none => .fails
      | some (_, true) => .leaks
      | some (image, false) =>
        verdictImage (verdict files s fuel (baseName name :: active)) image (baseName name) new

/- The call leaves a trace, should it fail. -/
def Leaks (files : Files) (s : Dl) : Option Str → Prop
| none => False
| some name =>
  verdict files s (soMax + 1) [] [] name = .leaks

------
-- Following The Call
------

variable {e : Soinfo} {v : Verdict}

/- So far the call has only put libraries into the list. -/
structure Quiet (s : Dl) (active new : List Str) (s' : Dl) (extra : List Soinfo) : Prop where
  well : WellFormed s'
  ba : s'.ba = s.ba
  solist : s'.solist = s.solist ++ extra
  names : (extra.map Soinfo.name).Nodup
  flags : ∀ e ∈ extra, e.error = false ∧ (e.linked = true ↔ e.name ∈ new) ∧
    (e.linked = false ↔ e.name ∈ active)
  known : ∀ n, n ∈ active ∨ n ∈ new → ∃ e ∈ extra, e.name = n
  count : extra.length = active.length + new.length
  entries : freeEntries s' + extra.length = freeEntries s

variable {files : Files} {name : Str} {active new : List Str} {extra : List Soinfo}

theorem Quiet.start (hWell : WellFormed s) : Quiet s [] [] s [] := by
  refine ⟨hWell, rfl, (append_nil _).symm, nodup_nil, nofun, ?_, rfl, rfl⟩
  rintro n (hN | hN)
  · cases hN
  · cases hN

/- What is known of a library of the call. -/
def FlagsOf (active new : List Str) (e : Soinfo) : Prop :=
  e.error = false ∧ (e.linked = true ↔ e.name ∈ new) ∧ (e.linked = false ↔ e.name ∈ active)

section

variable (hQuiet : Quiet s active new s' extra)

include hQuiet

theorem Quiet.unchanged : Unchanged s s' := by
  refine ⟨?_, ?_⟩
  · intro si hSi
    apply refcount?_of_mem hQuiet.well.pool.ids
    rw [hQuiet.solist]
    exact mem_append_left _ hSi
  · intro b
    rw [hQuiet.ba]

theorem Quiet.fresh (hId : id ∈ extra.map Soinfo.id) : id ∉ s.solist.map Soinfo.id := by
  have hIds := hQuiet.well.pool.ids
  rw [hQuiet.solist, map_append] at hIds
  intro hOld
  exact (nodup_append.mp hIds).2.2 id hOld id hId rfl

theorem Quiet.loads_eq (files : Files) (name : Str) :
    loads files s'.ba (freeEntries s') name = loads files s.ba
      (freeEntries s - (active.length + new.length))
      name := by
  have hEntries := hQuiet.entries
  rw [hQuiet.count] at hEntries
  rw [hQuiet.ba, ← hEntries, Nat.add_sub_cancel]

section

variable (hOld : s.solist.find? (·.name = name) = none)

include hOld

/- The name of a library that is not there yet. -/
theorem Quiet.find_none (hActive : name ∉ active) (hNew : name ∉ new) :
    s'.solist.find? (·.name = name) = none ∧ name ∉ extra.map Soinfo.name := by
  have hNot : name ∉ extra.map Soinfo.name := by
    intro hMem
    rcases mem_map.mp hMem with ⟨e, hE, hName⟩
    rcases hQuiet.flags e hE with ⟨_, hLinked, hUnlinked⟩
    rw [hName] at hLinked hUnlinked
    cases hFlag : e.linked with
    | true => exact hNew (hLinked.mp hFlag)
    | false => exact hActive (hUnlinked.mp hFlag)
  refine ⟨?_, hNot⟩
  rw [hQuiet.solist, find?_append, hOld, Option.none_or, find?_eq_none]
  intro e hE hName
  apply hNot
  rw [← of_decide_eq_true hName]
  exact mem_map_of_mem hE

theorem Quiet.find_some (hKnown : name ∈ active ∨ name ∈ new) :
    ∃ e ∈ extra, e.name = name ∧ s'.solist.find? (·.name = name) = some e := by
  rcases hQuiet.known name hKnown with ⟨e, hE, hName⟩
  rcases exists_find? Soinfo.name hE with ⟨e', hE', hSame, hFind⟩
  rw [hName] at hSame hFind
  refine ⟨e', hE', hSame, ?_⟩
  rw [hQuiet.solist, find?_append, hOld, Option.none_or, hFind]

end

/- A change of the entry of a library of the call. -/
theorem Quiet.modify {active' new' : List Str}
    (f : Soinfo → Soinfo) (hMem : id ∈ extra.map Soinfo.id) (hId : ∀ si, (f si).id = si.id)
    (hName : ∀ si, (f si).name = si.name) (hSame : ∀ e ∈ extra, e.id ≠ id → FlagsOf active' new' e)
    (hNow : ∀ e ∈ extra, e.id = id → FlagsOf active' new' (f e))
    (hKnown : ∀ n, n ∈ active' ∨ n ∈ new' → n ∈ active ∨ n ∈ new)
    (hCount : active'.length + new'.length = active.length + new.length) :
    ∃ extra', Quiet s active' new' (s'.modify id f) extra' := by
  have hNames : (extra.map fun e =>
      if e.id = id then f e else e).map Soinfo.name = extra.map Soinfo.name := by
    rw [map_map]
    apply map_congr_left
    intro e _
    simp only [comp_apply]
    split
    · exact hName e
    · rfl
  refine ⟨extra.map fun e => if e.id = id then f e else e, hQuiet.well.modify hId, hQuiet.ba, ?_,
    ?_, ?_, ?_, ?_, ?_⟩
  · simp only [Dl.modify, hQuiet.solist, map_append, modify_fresh f (hQuiet.fresh hMem)]
  · rw [hNames]
    exact hQuiet.names
  · intro e' hE'
    rcases mem_map.mp hE' with ⟨e, hE, rfl⟩
    by_cases hEq : e.id = id
    · rw [if_pos hEq]
      exact hNow e hE hEq
    · rw [if_neg hEq]
      exact hSame e hE hEq
  · intro n hN
    rcases hQuiet.known n (hKnown n hN) with ⟨e, hE, hEq⟩
    have hIn : n ∈ extra.map Soinfo.name := by
      rw [← hEq]
      exact mem_map_of_mem hE
    rw [← hNames] at hIn
    exact mem_map.mp hIn
  · rw [length_map, hQuiet.count, hCount]
  · rw [length_map]
    exact hQuiet.entries

theorem Quiet.addRef (hMem : id ∈ extra.map Soinfo.id) :
    ∃ extra', Quiet s active new (s'.addRef id) extra' :=
  hQuiet.modify _ hMem (fun _ => rfl) (fun _ => rfl) (fun e hE _ => hQuiet.flags e hE)
    (fun e hE _ => hQuiet.flags e hE)
    (fun _ hN => hN) rfl

/- A library that was loaded is active. -/
theorem Quiet.load (hNew : e.name ∉ extra.map Soinfo.name) (hNotNew : e.name ∉ new)
    (hLoaded : LoadedAs s' i false s'' e) : Quiet s (e.name :: active) new s'' (extra ++ [e]) := by
  have hOther : ∀ x ∈ extra, x.name ≠ e.name := by
    intro x hX hEq
    rw [← hEq] at hNew
    exact hNew (mem_map_of_mem hX)
  refine ⟨hLoaded.well, ?_, ?_, ?_, ?_, ?_, ?_, ?_⟩
  · rw [hLoaded.kept rfl, hQuiet.ba]
  · rw [hLoaded.solist, hQuiet.solist, append_assoc]
  · rw [map_append, map_singleton, nodup_append_comm, singleton_append, nodup_cons]
    exact ⟨hNew, hQuiet.names⟩
  · intro x hX
    rcases mem_append.mp hX with hOld | hLast
    · rcases hQuiet.flags x hOld with ⟨hError, hLinked, hUnlinked⟩
      refine ⟨hError, hLinked, ?_⟩
      rw [hUnlinked, mem_cons, or_iff_right (hOther x hOld)]
    · rw [mem_singleton.mp hLast]
      rcases hLoaded.flags with ⟨hUnlinked, hError⟩
      refine ⟨hError, ?_, ?_⟩
      · rw [hUnlinked]
        simp only [Bool.false_eq_true, hNotNew]
      · rw [hUnlinked]
        simp only [mem_cons, true_or]
  · intro n hN
    have hCases : n = e.name ∨ n ∈ active ∨ n ∈ new := by
      rw [mem_cons, or_assoc] at hN
      exact hN
    rcases hCases with hEq | hOld
    · exact ⟨e, mem_append_right _ mem_cons_self, hEq.symm⟩
    · rcases hQuiet.known n hOld with ⟨x, hX, hName⟩
      exact ⟨x, mem_append_left _ hX, hName⟩
  · rw [length_append, length_singleton, hQuiet.count, length_cons]
    omega
  · have hTaken := hLoaded.entries
    have hEntries := hQuiet.entries
    rw [length_append, length_singleton]
    omega

/- A library of the call stays one. -/
theorem Quiet.kept {active' new' : List Str} {extra' : List Soinfo} (hMem : e ∈ extra)
    (hGrows : Grows s' s'') (hQuiet' : Quiet s active' new' s'' extra') :
    ∃ e' ∈ extra', e'.id = e.id ∧ e'.name = e.name := by
  have hIn : e ∈ s'.solist := by
    rw [hQuiet.solist]
    exact mem_append_right _ hMem
  rcases hGrows.kept e hIn with ⟨e', hE', hId, hName, _⟩
  rw [hQuiet'.solist] at hE'
  rcases mem_append.mp hE' with hOld | hNew
  · have hFresh := hQuiet.fresh (mem_map_of_mem hMem)
    rw [← hId] at hFresh
    exact absurd (mem_map_of_mem hOld) hFresh
  · exact ⟨e', hNew, hId, hName⟩

end

/- And then it is linked. -/
theorem Quiet.link (hQuiet : Quiet s (name :: active) new s' extra)
    (hMem : e ∈ extra) (hName : e.name = name) (hActive : name ∉ active) :
    ∃ extra', Quiet s active (name :: new) (s'.modify e.id fun si => { si with linked := true })
      extra' := by
  have hIds : (extra.map Soinfo.id).Nodup := by
    have hAll := hQuiet.well.pool.ids
    rw [hQuiet.solist, map_append] at hAll
    exact (nodup_append.mp hAll).2.1
  apply hQuiet.modify (fun si => { si with linked := true })
    (mem_map_of_mem hMem) (fun _ => rfl) (fun _ => rfl)
  · intro x hX hNe
    have hOther : x.name ≠ name := by
      intro hEq
      apply hNe
      rw [inj_on_of_nodup_map hQuiet.names hX hMem (hEq.trans hName.symm)]
    rcases hQuiet.flags x hX with ⟨hError, hLinked, hUnlinked⟩
    refine ⟨hError, ?_, ?_⟩
    · rw [hLinked, mem_cons, or_iff_right hOther]
    · rw [hUnlinked, mem_cons, or_iff_right hOther]
  · intro x hX hEq
    have hSame : x = e := inj_on_of_nodup_map hIds hX hMem hEq
    rw [hSame]
    refine ⟨(hQuiet.flags e hMem).1, ?_, ?_⟩
    · simp only [hName, mem_cons, true_or]
    · simp only [hName, hActive, Bool.true_eq_false]
  · intro n hN
    simp only [mem_cons] at hN ⊢
    tauto
  · simp only [length_cons]
    omega

------
-- What Comes Of It
------

/- A search from `s'`, in a call that began in `s`. -/
def FindsAs (s : Dl) (active : List Str) (s' : Dl) (r : Except Fault (Option SoId × Dl)) :
    Verdict → Prop
| .links new => ∃ id s'' extra, r = .ok (some id, s'') ∧ Grows s' s'' ∧
    Quiet s active new s'' extra ∧ id ∈ extra.map Soinfo.id
| .fails => ∃ s'', r = .ok (none, s'') ∧ WellFormed s'' ∧ Unchanged s s''
| .leaks => ∃ ret s'', r = .ok (ret, s'') ∧ WellFormed s'' ∧ Grows s' s'' ∧
    (Changed s s'' ∨ ∃ si ∈ s.solist, ret = some si.id ∧ si ∈ s''.solist)

/- The same for a link. -/
def LinksAs (s : Dl) (active : List Str) (s' : Dl) (r : Except Fault (Bool × Dl)) : Verdict → Prop
| .links new => ∃ s'' extra, r = .ok (true, s'') ∧ Grows s' s'' ∧ Quiet s active new s'' extra
| .fails => ∃ s'', r = .ok (false, s'') ∧ WellFormed s'' ∧ Unchanged s s''
| .leaks => ∃ linked s'', r = .ok (linked, s'') ∧ WellFormed s'' ∧ Grows s' s'' ∧ Changed s s''

theorem LinksAs.of_grows {r : Except Fault (Bool × Dl)} (hGrows : Grows s' s'')
    (hAs : LinksAs s active s'' r v) : LinksAs s active s' r v := by
  cases v with
  | links new =>
    rcases hAs with ⟨s3, extra, hRun, hGrows3, hQuiet⟩
    exact ⟨s3, extra, hRun, hGrows.trans hGrows3, hQuiet⟩
  | fails => exact hAs
  | leaks =>
    rcases hAs with ⟨linked, s3, hRun, hWell, hGrows3, hChanged⟩
    exact ⟨linked, s3, hRun, hWell, hGrows.trans hGrows3, hChanged⟩

theorem changed_addRef (hOld : si ∈ s.solist)
    (hMem : si ∈ s'.solist) : Changed s (s'.addRef si.id) := by
  refine .inl ⟨si, hOld, { si with refcount := si.refcount + 1 }, ?_, rfl, Nat.lt_succ_self _⟩
  apply mem_map.mpr
  exact ⟨si, hMem, if_pos rfl⟩

variable {find : Dl → Str → Except Fault (Option SoId × Dl)} {judge : List Str → Str → Verdict}
variable {entries : Nat}

/- A search that does as it is judged. -/
def FindsAll (s : Dl) (active : List Str) (find : Dl → Str → Except Fault (Option SoId × Dl))
    (judge : List Str → Str → Verdict) (entries : Nat) : Prop :=
  ∀ s' new extra name, Quiet s active new s' extra → freeEntries s' ≤ entries →
    FindsAs s active s' (find s' name) (judge new name)

section

variable (hFinds : Finds find entries) (hAll : FindsAll s active find judge entries)
variable (hQuiet : Quiet s active new s' extra) (hEntries : freeEntries s' ≤ entries)

include hFinds hAll hQuiet hEntries

theorem linkNeeded_as (ds : List Dyn) :
    LinksAs s active s' (linkNeeded find ds s') (verdictNeeded judge ds new) := by
  induction ds generalizing s' new extra with
  | nil => exact ⟨s', extra, rfl, .refl s', hQuiet⟩
  | cons d ds ih =>
    cases d with
    | needed name =>
      have hAs := hAll s' new extra name hQuiet hEntries
      unfold linkNeeded verdictNeeded
      cases hJudge : judge new name with
      | fails =>
        rw [hJudge] at hAs
        rcases hAs with ⟨s1, hRun, hWell, hSame⟩
        rw [hRun, ok_bind]
        exact ⟨s1, rfl, hWell, hSame⟩
      | links new1 =>
        rw [hJudge] at hAs
        rcases hAs with ⟨id, s1, extra1, hRun, hGrows, hQuiet1, hId⟩
        rw [hRun, ok_bind]
        rcases hQuiet1.addRef hId with ⟨extra2, hQuiet2⟩
        have hGrows2 := hGrows.trans (.addRef s1 id)
        exact (ih hQuiet2 (le_trans hGrows2.entries hEntries)).of_grows hGrows2
      | leaks =>
        rw [hJudge] at hAs
        rcases hAs with ⟨ret, s1, hRun, hWell, hGrows, hTrace⟩
        rw [hRun, ok_bind]
        cases ret with
        | none =>
          rcases hTrace with hChanged | ⟨si, _, hRet, _⟩
          · exact ⟨false, s1, rfl, hWell, hGrows, hChanged⟩
          · cases hRet
        | some lsi =>
          have hAdd := Grows.addRef s1 lsi
          have hWell2 : WellFormed (s1.addRef lsi) := hWell.modify fun _ => rfl
          have hChanged2 : Changed s (s1.addRef lsi) := by
            rcases hTrace with hChanged | ⟨si, hOld, hRet, hMem⟩
            · exact hChanged.trans hAdd
            · injection hRet with hRet
              rw [hRet]
              exact changed_addRef hOld hMem
          have hGrows2 := hGrows.trans hAdd
          rcases linkNeeded_grows ds hFinds hWell2 (le_trans hGrows2.entries hEntries)
            with ⟨linked, s3, hRest, hWell3, hGrows3⟩
          exact ⟨linked, s3, hRest, hWell3, hGrows2.trans hGrows3, hChanged2.trans hGrows3⟩
    | strtab | symtab | pltrel _ | rela | other => exact ih hQuiet hEntries

theorem linkDynamic_as (dynamic : Option (List Dyn)) :
    LinksAs s active s' (linkDynamic find s' dynamic) (verdictDynamic judge new dynamic) := by
  cases dynamic with
  | none => exact ⟨s', rfl, hQuiet.well, hQuiet.unchanged⟩
  | some ds =>
    rw [linkDynamic, verdictDynamic]
    by_cases hRead : readDynamic ds false false = some (true, true)
    · rw [if_pos hRead, if_pos hRead]
      exact linkNeeded_as hFinds hAll hQuiet hEntries ds
    · rw [if_neg hRead, if_neg hRead]
      exact ⟨s', rfl, hQuiet.well, hQuiet.unchanged⟩

end

theorem linkImage_as (image : Image) (hFinds : Finds find entries)
    (hAll : FindsAll s (e.name :: active) find judge entries)
    (hQuiet : Quiet s (e.name :: active) new s' extra)
    (hMem : e ∈ extra) (hActive : e.name ∉ active) (hEntries : freeEntries s' ≤ entries) :
    LinksAs s active s' (linkImage find image e.id s') (verdictImage judge image e.name new) := by
  have hAs := linkDynamic_as hFinds hAll hQuiet hEntries image.dynamic
  unfold linkImage verdictImage
  cases hVerdict : verdictDynamic judge new image.dynamic with
  | fails =>
    rw [hVerdict] at hAs
    rcases hAs with ⟨s1, hRun, hWell, hSame⟩
    rw [hRun, ok_bind]
    exact ⟨_, rfl, hWell.modify fun _ => rfl, hSame.modify e.id (fun _ => rfl) fun _ => rfl⟩
  | links new1 =>
    rw [hVerdict] at hAs
    rcases hAs with ⟨s1, extra1, hRun, hGrows, hQuiet1⟩
    rw [hRun, ok_bind]
    rcases hQuiet.kept hMem hGrows hQuiet1 with ⟨e1, hMem1, hId1, hName1⟩
    cases hRelocated : image.relocated with
    | true =>
      rcases hQuiet1.link hMem1 hName1 hActive with ⟨extra2, hQuiet2⟩
      rw [hId1] at hQuiet2
      exact ⟨_, extra2, rfl,
        hGrows.trans (.modify s1 e.id (fun _ => rfl) (fun _ => rfl) fun _ => le_rfl), hQuiet2⟩
    | false =>
      exact ⟨_, rfl, hQuiet1.well.modify fun _ => rfl, hQuiet1.unchanged.modify e.id (fun _ => rfl)
          fun _ => rfl⟩
  | leaks =>
    rw [hVerdict] at hAs
    rcases hAs with ⟨linked, s1, hRun, hWell, hGrows, hChanged⟩
    rw [hRun, ok_bind]
    cases hLinked : linked && image.relocated with
    | true =>
      have hNow : Grows s1 (s1.modify e.id fun si => { si with linked := true }) :=
        .modify s1 e.id (fun _ => rfl) (fun _ => rfl) fun _ => le_rfl
      simp only [hLinked, if_true]
      exact ⟨_, _, rfl, hWell.modify fun _ => rfl, hGrows.trans hNow, hChanged.trans hNow⟩
    | false =>
      have hNow : Grows s1 (s1.modify e.id fun si => { si with error := true }) :=
        .modify s1 e.id (fun _ => rfl) (fun _ => rfl) fun _ => le_rfl
      simp only [hLinked, Bool.false_eq_true, if_false]
      exact ⟨_, _, rfl, hWell.modify fun _ => rfl, hGrows.trans hNow, hChanged.trans hNow⟩

/- The library that is linked is the one that was loaded. -/
theorem LinksAs.findsAs {s1 : Dl} {fuel : Nat}
    (hNone : s'.solist.find? (·.name = baseName name) = none)
    (hLoad : loadLibrary files s' name = .ok (some (i, image), s1))
    (hLoaded : LoadedAs s' i false s1 e)
    (hQuiet : Quiet s (e.name :: active) new s1 extra) (hMem : e ∈ extra)
    (hAs : LinksAs s active s1 (linkImage (findLibrary files fuel) image (.pool i) s1) v) :
    FindsAs s active s' (findLibrary files (fuel + 1) s' name) v := by
  cases v with
  | links new2 =>
    rcases hAs with ⟨s2, extra2, hLink, hGrows2, hQuiet2⟩
    rcases hQuiet.kept hMem hGrows2 hQuiet2 with ⟨e2, hMem2, hId2, _⟩
    refine ⟨.pool i, s2, extra2, findLibrary_new hNone hLoad hLink, hLoaded.grows.trans hGrows2,
      hQuiet2, ?_⟩
    rw [← hLoaded.id, ← hId2]
    exact mem_map_of_mem hMem2
  | fails =>
    rcases hAs with ⟨s2, hLink, hWell2, hSame⟩
    exact ⟨s2, findLibrary_new hNone hLoad hLink, hWell2, hSame⟩
  | leaks =>
    rcases hAs with ⟨linked, s2, hLink, hWell2, hGrows2, hChanged⟩
    exact ⟨_, s2, findLibrary_new hNone hLoad hLink, hWell2, hLoaded.grows.trans hGrows2,
      .inl hChanged⟩

section

variable (files : Files) (fuel : Nat) (hQuiet : Quiet s active new s' extra)

include hQuiet

/- A library that was there before is returned, or not. -/
theorem Quiet.findsAs_old (hOld : s.solist.find? (·.name = baseName name) = some si) :
    FindsAs s active s' (findLibrary files (fuel + 1) s' name)
      (if si.error = false ∧ si.linked = true then .leaks else .fails) := by
  have hKnown : s'.solist.find? (·.name = baseName name) = some si := by
    rw [hQuiet.solist, find?_append, hOld, Option.some_or]
  rw [findLibrary_known files fuel hKnown]
  by_cases hOk : si.error = false ∧ si.linked = true
  · rw [if_pos hOk, if_pos hOk]
    exact ⟨_, s', rfl, hQuiet.well, .refl s', .inr ⟨si, mem_of_find?_eq_some hOld, rfl,
        mem_of_find?_eq_some hKnown⟩⟩
  · rw [if_neg hOk, if_neg hOk]
    exact ⟨s', rfl, hQuiet.well, hQuiet.unchanged⟩

/- One that is being linked is not. -/
theorem Quiet.findsAs_active (hOld : s.solist.find? (·.name = baseName name) = none)
    (hActive : baseName name ∈ active) :
    FindsAs s active s' (findLibrary files (fuel + 1) s' name)
      .fails := by
  rcases hQuiet.find_some hOld (.inl hActive) with ⟨e, hE, hName, hKnown⟩
  have hUnlinked : e.linked = false := by
    rw [(hQuiet.flags e hE).2.2, hName]
    exact hActive
  have hNot : ¬ (e.error = false ∧ e.linked = true) := by
    rw [hUnlinked]
    exact nofun
  rw [findLibrary_known files fuel hKnown, if_neg hNot]
  exact ⟨s', rfl, hQuiet.well, hQuiet.unchanged⟩

theorem Quiet.findsAs_new (hOld : s.solist.find? (·.name = baseName name) = none)
    (hNew : baseName name ∈ new) :
    FindsAs s active s' (findLibrary files (fuel + 1) s' name) (.links new) := by
  rcases hQuiet.find_some hOld (.inr hNew) with ⟨e, hE, hName, hKnown⟩
  have hLinked : e.linked = true := by
    rw [(hQuiet.flags e hE).2.1, hName]
    exact hNew
  rw [findLibrary_known files fuel hKnown, if_pos ⟨(hQuiet.flags e hE).1, hLinked⟩]
  exact ⟨e.id, s', extra, rfl, .refl s', hQuiet, mem_map_of_mem hE⟩

/- One that takes a range leaves a trace. -/
theorem Quiet.findsAs_shared {s1 : Dl} (hNone : s'.solist.find? (·.name = baseName name) = none)
    (hLoad : loadLibrary files s' name = .ok (some (i, image), s1))
    (hLoaded : LoadedAs s' i true s1 e) (hEntries : freeEntries s1 ≤ fuel) :
    FindsAs s active s' (findLibrary files (fuel + 1 + 1) s' name) .leaks := by
  rcases linkImage_grows image (.pool i) (findLibrary_grows files fuel) hLoaded.well hEntries with
    ⟨linked, s2, hLink, hWell2, hGrows2⟩
  have hChanged : Changed s s1 := by
    rcases hLoaded.grown rfl with ⟨b, hIn, hOut⟩
    rw [hQuiet.ba] at hOut
    exact .inr ⟨b, hIn, hOut⟩
  exact ⟨_, s2, findLibrary_new hNone hLoad hLink, hWell2, hLoaded.grows.trans hGrows2,
    .inl (hChanged.trans hGrows2)⟩

end

/- `find_library` does as the names and the files tell. -/
theorem findLibrary_as (files : Files) (s : Dl) (fuel : Nat) (active : List Str) :
    FindsAll s active (findLibrary files (fuel + 1)) (verdict files s (fuel + 1) active) fuel := by
  induction fuel using Nat.strong_induction_on generalizing active with
  | _ fuel ih =>
  intro s' new extra name hQuiet hEntries
  rw [verdict]
  cases hOld : s.solist.find? (·.name = baseName name) with
  | some si => exact hQuiet.findsAs_old files fuel hOld
  | none =>
    by_cases hActive : baseName name ∈ active
    · simp only [if_pos hActive]
      exact hQuiet.findsAs_active files fuel hOld hActive
    by_cases hNew : baseName name ∈ new
    · simp only [if_neg hActive, if_pos hNew]
      exact hQuiet.findsAs_new files fuel hOld hNew
    rcases hQuiet.find_none hOld hActive hNew with ⟨hNone, hNotExtra⟩
    simp only [if_neg hActive, if_neg hNew, ← hQuiet.loads_eq files name]
    cases hLoads : loads files s'.ba (freeEntries s') name with
    | none =>
      rcases loadLibrary_none hQuiet.well hLoads with ⟨s1, hLoad, hWell1, hSolist, _, hUse⟩
      rw [findLibrary_missing fuel hNone hLoad]
      have hSame := hQuiet.unchanged
      refine ⟨s1, rfl, hWell1, ?_, fun b => (hUse b).trans (hSame.ranges b)⟩
      intro si hSi
      rw [← hSame.refcounts si hSi, Dl.refcount?, hSolist, Dl.refcount?]
    | some loaded =>
      rcases loaded with ⟨image, shared⟩
      rcases loadLibrary_some hQuiet.well hLoads with ⟨i, s1, e, hLoad, hName, hLoaded⟩
      have hTaken := hLoaded.entries
      -- an entry was taken, so one less is needed
      obtain ⟨k, rfl⟩ : ∃ k, fuel = k + 1 := ⟨fuel - 1, by omega⟩
      have hEntries1 : freeEntries s1 ≤ k := by omega
      cases shared with
      | true => exact hQuiet.findsAs_shared files k hNone hLoad hLoaded hEntries1
      | false =>
        rw [← hName] at hActive hNew hNotExtra ⊢
        have hQuiet1 := hQuiet.load hNotExtra hNew hLoaded
        have hIn : e ∈ extra ++ [e] := mem_append_right _ mem_cons_self
        have hAs := linkImage_as image (findLibrary_grows files k) (ih k (Nat.lt_succ_self k)
            (e.name :: active))
          hQuiet1 hIn hActive hEntries1
        rw [hLoaded.id] at hAs
        exact hAs.findsAs hNone hLoad hLoaded hQuiet1 hIn

/-
  A call that returns `NULL` leaves the counts and the ranges alone exactly if it has not come upon
  a library that was there before, nor loaded one into a range of the allocator.
-/
theorem failed_dlopen_unchanged_iff (files : Files) (s : Dl)
    (filename : Option Str) (hWell : WellFormed s) :
    ∃ ret s', dlopen files s filename = .ok (ret, s') ∧ (ret = none →
      (Unchanged s s' ↔ ¬ Leaks files s filename)) := by
  have hStart := Quiet.start hWell
  cases filename with
  | none =>
    cases hMain : s.somain with
    | none =>
      refine ⟨none, s, ?_, fun _ => ?_⟩
      · simp only [dlopen, findLibraryOrMain, hMain, ok_bind]
        rfl
      · exact iff_of_true hStart.unchanged not_false
    | some id =>
      refine ⟨some id, s.addRef id, ?_, (absurd · (Option.some_ne_none id))⟩
      simp only [dlopen, findLibraryOrMain, hMain, ok_bind]
      rfl
  | some name =>
    have hAs := findLibrary_as files s soMax [] s [] [] name hStart hWell.pool.room_le
    rw [dlopen, findLibraryOrMain, Leaks]
    cases hVerdict : verdict files s (soMax + 1) [] [] name with
    | links new =>
      rw [hVerdict] at hAs
      rcases hAs with ⟨id, s1, _, hRun, _⟩
      refine ⟨some id, s1.addRef id, ?_, (absurd · (Option.some_ne_none id))⟩
      simp only [hRun, ok_bind]
      rfl
    | fails =>
      rw [hVerdict] at hAs
      rcases hAs with ⟨s1, hRun, _, hSame⟩
      refine ⟨none, s1, ?_, fun _ => ?_⟩
      · simp only [hRun, ok_bind]
        rfl
      · refine iff_of_true hSame ?_
        intro hLeaks
        cases hLeaks
    | leaks =>
      rw [hVerdict] at hAs
      rcases hAs with ⟨ret, s1, hRun, hWell1, _, hTrace⟩
      cases ret with
      | some id =>
        refine ⟨some id, s1.addRef id, ?_, (absurd · (Option.some_ne_none id))⟩
        simp only [hRun, ok_bind]
        rfl
      | none =>
        refine ⟨none, s1, ?_, fun _ => ?_⟩
        · simp only [hRun, ok_bind]
          rfl
        · rcases hTrace with hChanged | ⟨si, _, hRet, _⟩
          · exact iff_of_false (hChanged.not_unchanged hWell1) (not_not_intro rfl)
          · cases hRet

------
-- A Missing Library
------

/- `libc.so` is there, and `liba.so`, which needs one that is missing. -/
def basesGiven : Files :=
  fun name =>
    if name = str "libc.so" then some (pageImage 0xafd00000 [])
    else if name = str "liba.so" then some (pageImage 0x90000000 [str "libb.so"])
    else none

/- After `libc.so` is loaded, the link of `liba.so` fails. -/
theorem failed_dlopen_unchanged_iff_bases :
    ∃ ba ret s s', baInit baNonprelink = .ok ba ∧
      dlopen basesGiven (.start ba) (some (str "libc.so")) = .ok (some ret, s) ∧
      dlopen basesGiven s (some (str "liba.so")) = .ok (none, s') ∧ Unchanged s s' := by
  rcases baInit_holds with ⟨ba, hInit, hHolds⟩
  rcases dlopen_grows basesGiven (some (str "libc.so")) (wellFormed_start ⟨_, hHolds⟩) with
    ⟨ret, s, hFirst, hWell, _⟩
  injection hFirst with hFirst
  injection hFirst with hRet hState
  subst hRet hState
  rcases failed_dlopen_unchanged_iff basesGiven _ (some (str "liba.so")) hWell with
    ⟨ret, s', hRun, hIff⟩
  have hNull := congrArg (Except.map Prod.fst) hRun
  injection hNull with hNull
  subst hNull
  exact ⟨ba, _, _, s', hInit, rfl, hRun, (hIff rfl).mpr (by intro h; cases h)⟩

/- `liba.so`, which needs `libdl.so` and one that is missing. -/
def halfMissing : Files :=
  fun name =>
    if name = str "liba.so" then some (pageImage 0 [str "libdl.so", str "libb.so"])
    else none

/- The allocator once `liba.so` has the first slot. -/
def oneTaken : Ba :=
  { baNonprelink with
    maxOrder := 8
    bitmap := (range 256).map fun i =>
      if i = 0 then ⟨true, 0⟩
      else if i = 2 ^ i.log2 then ⟨false, i.log2⟩
      else ⟨false, 0⟩ }

/- What the call leaves behind. -/
def afterFailure : Dl :=
  { Dl.start oneTaken with
    solist := [{ libdlInfo with refcount := 1 },
      { id := .pool 0
        name := str "liba.so"
        base := 0x80000000
        size := 4096
        baIndex := some 0
        linked := false
        error := true
        refcount := 0 }]
    socount := 1 }

/- The count and the range are kept. -/
theorem failed_dlopen_keeps_count :
    ∃ ba s', baInit baNonprelink = .ok ba ∧ dlopen halfMissing (.start ba)
        (some (str "liba.so")) = .ok (none, s') ∧ (Dl.start ba).refcount? .libdl = some 0 ∧
      s'.refcount? .libdl = some 1 ∧ ¬ InUse ba ⟨0, 0, true⟩ ∧ InUse s'.ba ⟨0, 0, true⟩ := by
  refine ⟨noneTaken, afterFailure, by decide +kernel, by decide +kernel, rfl, rfl, ?_, ?_⟩
  · rintro ⟨bs, hWalk, hMem, _⟩
    have hFree : walk noneTaken 257 0 = .ok [⟨0, 8, false⟩] := by decide +kernel
    cases hFree.symm.trans hWalk
    cases mem_singleton.mp hMem
  · refine ⟨⟨0, 0, true⟩ :: (range 8).map fun k =>
        ⟨2 ^ k, k, false⟩, ?_, mem_cons_self, rfl⟩
    decide +kernel

end OpenIvi.Linker
