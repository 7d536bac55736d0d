import OpenIvi.Bionic.ResolvCache

/-
  What the DNS cache answers.

  `Effect` says what one call does to the entries and to the MRU list. `Traced` follows the entries
  through the calls so far: which call added an entry, and which one used it last.

  Main declarations:
    * `Effect`
    * `LastUsed`
    * `Traced.runOp`
    * `dns_cache_sound`
-/

------
-- The Effect Of A Call
------

namespace OpenIvi.Bionic.ResolvCache

open Lib LinkedList Dns List Function

variable {i : Nat} {rest : List Addr} {query : Buffer}

/- The query of the call has a DNS header. -/
def Op.HasHeader : Op → Prop
| .lookup query _ _ => dnsHeaderSize ≤ query.length
| .add query _ _ _ => dnsHeaderSize ≤ query.length
| .reset _ => True

/- The reply is about no entry. -/
def Reply.Idle : Reply → Prop
| .unsupported _ => True
| .notFound => True
| .ignored => True
| .kept => True
| .noMemory _ => False
| .found _ _ => False
| .added _ _ => False
| .flushed => False

/- Some entries are left, and they have not changed. -/
structure Kept (c c' : Cache) (mru mru' : List Addr) : Prop where
  sub : mru'.Sublist mru
  entry : ∀ a ∈ mru', c'.entry a = c.entry a

/- What a call can do. Only an add to a full cache evicts an entry, the last one of the MRU list. -/
inductive Effect (c : Cache) (mru : List Addr) (c' : Cache) : Op → Reply → List Addr → Prop where
| idle {op : Op} {reply : Reply} {mru' : List Addr} (hIdle : reply.Idle)
    (hKept : Kept c c' mru mru') : Effect c mru c' op reply mru'
| found {query : Buffer} {answersize : Int} {now : Time} {a : Addr} {e : Entry} (hMem : a ∈ mru)
    (hFound : c.entry a = some e) (hSame : SameQuery e.query query)
    (hFresh : isStale now e.time = false) (hEntry : c'.entry = c.entry) :
    Effect c mru c' (.lookup query answersize now) (.found a e.answer) (a :: mru.erase a)
| added {query answer : Buffer} {now : Time} {hash : Word} {id : Int} {a : Addr} {rest : List Addr}
    {evicted : Option Addr} (hMru : mru = rest ++ evicted.toList)
    (hFull : ∀ o, evicted = some o → mru.length = configMaxEntries) (hNew : a ∉ rest)
    (hKept : Kept c c' mru rest) (hAdded : c'.entry a = some ⟨hash, query, answer, now, id⟩) :
    Effect c mru c' (.add query answer now true) (.added a evicted) (a :: rest)
| noMemory {query answer : Buffer} {now : Time} {rest : List Addr} {evicted : Option Addr}
    (hMru : mru = rest ++ evicted.toList)
    (hFull : ∀ o, evicted = some o → mru.length = configMaxEntries) (hKept : Kept c c' mru rest) :
    Effect c mru c' (.add query answer now false) (.noMemory evicted) rest
| flushed {generation : Word} : Effect c mru c' (.reset generation) .flushed []

/- The call returns, keeps the lists, and has an effect of the operation. -/
def Serves (c : Cache) (mru : List Addr) (op : Op) (called : Except Fault (Reply × Cache)) : Prop :=
  ∃ reply c' chains mru', called = .ok (reply, c') ∧ Holds c' chains mru' ∧
    Effect c mru c' op reply mru'

variable {c c' : Cache} {chains : Nat → List Addr} {mru : List Addr} {a : Addr} {key : Key}
variable {loc : Loc Nat Addr}

theorem Kept.refl (c : Cache) (mru : List Addr) : Kept c c mru mru :=
  ⟨List.Sublist.refl mru, fun _ _ => rfl⟩

section

variable (hHolds : Holds c chains mru)

include hHolds

theorem Kept.erase (hEntry : ∀ b, b ≠ a → c'.entry b = c.entry b) :
    Kept c c' mru (mru.erase a) := by
  refine ⟨erase_sublist, ?_⟩
  intro b hB
  exact hEntry b (hHolds.mru_nodup.mem_erase_iff.mp hB).1

theorem Holds.idle {op : Op} {reply : Reply} (hIdle : reply.Idle) :
    Serves c mru op (.ok (reply, c)) :=
  ⟨_, _, _, _, rfl, hHolds, .idle hIdle (.refl c mru)⟩

theorem Holds.resolvCacheLookup (answersize : Int) (now : Time)
    (hHeader : dnsHeaderSize ≤ query.length) :
    Serves c mru (.lookup query answersize now) (resolvCacheLookup c query answersize now) := by
  rcases entryInitKey_spec hHeader with ⟨r, hInit, hKey⟩
  unfold ResolvCache.resolvCacheLookup
  rw [hInit, ok_bind]
  cases r with
  | none => exact hHolds.idle trivial
  | some key =>
    rcases hKey key rfl with ⟨hQuery, hIsQuery⟩
    have hI := hash_lt key.hash
    rcases hHolds.lookup hIsQuery rfl with ⟨loc, hLookup, hAbsent | ⟨xs, a, ys, e, hFound⟩⟩
    · simp only [hLookup, ok_bind, hAbsent.link]
      exact hHolds.idle trivial
    · simp only [hLookup, ok_bind, hFound.link, hFound.filed.load]
      cases hStale : isStale now e.time with
      | true =>
        rcases hHolds.remove hI hFound with ⟨c', hRemove, hHolds', hEntry⟩
        simp only [hRemove, ok_bind, if_true]
        exact ⟨_, _, _, _, rfl, hHolds', .idle trivial (.erase hHolds hEntry)⟩
      | false =>
        by_cases hSize : answersize < e.answer.length
        · rw [if_pos hSize]
          exact hHolds.idle trivial
        · rw [if_neg hSize]
          have hMem := hHolds.mem_of_found hI hFound
          rcases hHolds.bump hMem with ⟨hHolds', hEntry⟩
          refine ⟨_, _, _, _, rfl, hHolds', ?_⟩
          apply Effect.found hMem hFound.filed.entry
            ?_ hStale hEntry
          rw [← hQuery]
          exact hFound.matched.2

/- A new entry is put in, if there is memory. -/
theorem Holds.store {c0 : Cache} {mru0 : List Addr} (answer : Buffer) (now : Time) (memory : Bool)
    (evicted : Option Addr) (hQuery : IsQuery key.query)
    (hI : i = key.hash.toNat % maxHashEntries) (hAbsent : AbsentAt c (chains i) i key loc)
    (hMru : mru0 = mru ++ evicted.toList) (hKept : Kept c0 c mru0 mru)
    (hRoom : mru.length < configMaxEntries)
    (hFull : ∀ o, evicted = some o → mru0.length = configMaxEntries) :
    Serves c0 mru0 (.add key.query answer now memory)
      (.ok (store c loc key answer now memory evicted)) := by
  cases memory with
  | false => exact ⟨_, _, _, _, rfl, hHolds, .noMemory hMru hFull hKept⟩
  | true =>
    rcases hHolds.add answer now evicted hRoom hQuery hI
      hAbsent with ⟨c', id, hStore, hHolds', hEntry⟩
    have hNew := (nodup_cons.mp hHolds'.mru_nodup).1
    have hAdded : c'.entry c.nextAddr = some ⟨key.hash, key.query, answer, now, id⟩ := by
      rw [hEntry, update_self]
    rw [hStore]
    refine ⟨_, _, _, _, rfl, hHolds', .added hMru hFull hNew ⟨hKept.sub, ?_⟩ hAdded⟩
    intro b hB
    have hNe : b ≠ c.nextAddr := by
      intro hEq
      rw [hEq] at hB
      exact hNew hB
    rw [hEntry, update_of_ne hNe]
    exact hKept.entry b hB

/- A key that is not there is not there with less entries. -/
theorem Kept.absent {chains' : Nat → List Addr} {mru' xs ys : List Addr} {loc' : Loc Nat Addr}
    {e : Entry} (hHolds' : Holds c' chains' mru') (hKept : Kept c c' mru mru')
    (hI : i < maxHashEntries) (hAbsent : AbsentAt c (chains i) i key loc) :
    ¬ FoundAt c' (chains' i) i key loc' xs a ys e := by
  intro hFound
  have hMem := hHolds'.mem_of_found hI hFound
  have hEntry := hFound.filed.entry
  rw [hKept.entry a hMem] at hEntry
  rcases (hHolds.mem a).mp (hKept.sub.subset hMem) with ⟨j, hJ, hA⟩
  rcases hHolds.filed j hJ a hA with ⟨e', hFiled⟩
  have hEq := hFiled.entry.symm.trans hEntry
  injection hEq with hEq
  have hIJ : j = i := by rw [← hFiled.hash, hEq, hFound.filed.hash]
  rw [hIJ] at hA
  exact hAbsent.absent a hA e hEntry hFound.matched

theorem Holds.resolvCacheAdd (answer : Buffer) (now : Time) (memory : Bool)
    (hHeader : dnsHeaderSize ≤ query.length) :
    Serves c mru (.add query answer now memory) (resolvCacheAdd c query answer now memory) := by
  rcases entryInitKey_spec hHeader with ⟨r, hInit, hKey⟩
  unfold ResolvCache.resolvCacheAdd
  rw [hInit, ok_bind]
  cases r with
  | none => exact hHolds.idle trivial
  | some key =>
    rcases hKey key rfl with ⟨hQuery, hIsQuery⟩
    have hI := hash_lt key.hash
    rcases hHolds.lookup hIsQuery rfl with ⟨loc, hLookup, hAbsent | ⟨xs, a, ys, e, hFound⟩⟩
    · simp only [hLookup, ok_bind, hAbsent.link]
      rw [← hQuery]
      by_cases hFull : (configMaxEntries : Int) ≤ c.numEntries
      · rw [if_pos hFull]
        have hLength : mru.length = configMaxEntries := by
          have hCount := hHolds.count
          have hBounded := hHolds.bounded
          omega
        obtain ⟨rest, o, rfl⟩ : ∃ rest o, mru = rest ++ [o] := by
          rcases eq_nil_or_concat' mru with hNil | hLast
          · rw [hNil] at hLength
            cases hLength
          · exact hLast
        rcases hHolds.removeOldest with ⟨c', chains', hRemove, hHolds', hEntry⟩
        have hNot : o ∉ rest := by
          intro hMem
          exact (nodup_append.mp hHolds.mru_nodup).2.2 o hMem o mem_cons_self rfl
        have hKept : Kept c c' (rest ++ [o]) rest := by
          refine ⟨sublist_append_left rest [o], ?_⟩
          intro b hB
          apply hEntry
          intro hEq
          rw [hEq] at hB
          exact hNot hB
        rcases hHolds'.lookup hIsQuery rfl with ⟨loc', hLookup', hAbsent' | ⟨xs, a, ys, e, hFound⟩⟩
        · simp only [hRemove, ok_bind, hLookup', hAbsent'.link]
          have hRoom : rest.length < configMaxEntries := by
            rw [length_append] at hLength
            exact hLength ▸ Nat.lt_succ_self _
          exact hHolds'.store answer now memory (some o) hIsQuery rfl hAbsent' rfl hKept hRoom
            fun _ _ => hLength
        · exact absurd hFound (hKept.absent hHolds hHolds' hI hAbsent)
      · rw [if_neg hFull]
        have hRoom : mru.length < configMaxEntries := by
          have hCount := hHolds.count
          omega
        exact hHolds.store answer now memory none hIsQuery rfl hAbsent (append_nil mru).symm
          (.refl c mru) hRoom nofun
    · simp only [hLookup, ok_bind, hFound.link]
      exact hHolds.idle trivial

/- Every call with a header returns, and keeps the lists. -/
theorem Holds.runOp {op : Op} (hHeader : op.HasHeader) : Serves c mru op (runOp c op) := by
  cases op with
  | lookup query answersize now => exact hHolds.resolvCacheLookup answersize now hHeader
  | add query answer now memory => exact hHolds.resolvCacheAdd answer now memory hHeader
  | reset generation =>
    rw [ResolvCache.runOp, resolvCacheReset]
    by_cases hSame : c.generation = generation
    · rw [if_neg (not_not.mpr hSame)]
      exact hHolds.idle trivial
    · rcases hHolds.flush with ⟨c', hFlush, hHolds'⟩
      rw [if_pos hSame, hFlush, ok_bind]
      refine ⟨.flushed, { c' with generation := generation }, fun _ => [], [], rfl, ?_, .flushed⟩
      exact hHolds'.of_ring rfl rfl rfl rfl (.refl []) hHolds'.ring

end

------
-- The Calls So Far
------

/- The call added the entry or found it. -/
def Uses : Reply → Addr → Prop
| .found b _, a => b = a
| .added b _, a => b = a
| .unsupported _, _ => False
| .notFound, _ => False
| .ignored, _ => False
| .noMemory _, _ => False
| .kept, _ => False
| .flushed, _ => False

/- The call at `k` is the last one that used the entry. -/
structure LastUsed (replies : List Reply) (a : Addr) (k : Nat) : Prop where
  uses : ∃ reply, replies[k]? = some reply ∧ Uses reply a
  last : ∀ (j : Nat) reply, k < j → replies[j]? = some reply → ¬ Uses reply a

/- The first entry was used after the second. -/
def UsedAfter (replies : List Reply) (a b : Addr) : Prop :=
  ∃ k l, LastUsed replies a k ∧ LastUsed replies b l ∧ l < k

/- The entry is what the add at `i` left, not flushed. -/
structure Origin (ops : List Op) (replies : List Reply) (a : Addr)
    (e : Entry) (i : Nat) : Prop where
  op : ops[i]? = some (.add e.query e.answer e.time true)
  reply : ∃ evicted, replies[i]? = some (.added a evicted)
  since : ∀ j : Nat, i < j → replies[j]? ≠ some .flushed

/- The entries of the MRU list and the calls so far. -/
structure Traced (ops : List Op) (replies : List Reply) (c : Cache) (mru : List Addr) : Prop where
  length : replies.length = ops.length
  origin : ∀ a ∈ mru, ∃ e i, c.entry a = some e ∧ Origin ops replies a e i
  used : ∀ a ∈ mru, ∃ k, LastUsed replies a k
  order : mru.Pairwise (UsedAfter replies)

variable {ops : List Op} {op : Op} {replies : List Reply} {reply : Reply} {k : Nat}

theorem getElem?_snoc_left {α : Type} {xs : List α} {y : α}
    {j : Nat} (x : α) (hGet : xs[j]? = some y) : (xs ++ [x])[j]? = some y := by
  rw [getElem?_append_left (List.getElem?_eq_some_iff.mp hGet).1]
  exact hGet

theorem LastUsed.snoc (hLast : LastUsed replies a k)
    (hNot : ¬ Uses reply a) : LastUsed (replies ++ [reply]) a k := by
  rcases hLast.uses with ⟨r, hReply, hUses⟩
  refine ⟨⟨r, getElem?_snoc_left reply hReply, hUses⟩, ?_⟩
  intro j r' hLt hGet
  rcases getElem?_snoc_cases hGet with ⟨_, hNew⟩ | ⟨_, hOld⟩
  · rw [hNew]
    exact hNot
  · exact hLast.last j r' hLt hOld

theorem LastUsed.now (replies : List Reply) (hUses : Uses reply a) :
    LastUsed (replies ++ [reply]) a replies.length := by
  refine ⟨⟨reply, getElem?_concat_length, hUses⟩, ?_⟩
  intro j r hLt hGet
  have hJ := (List.getElem?_eq_some_iff.mp hGet).1
  simp only [length_append, length_singleton] at hJ
  omega

theorem Origin.snoc {e : Entry} (op : Op)
    (hOrigin : Origin ops replies a e i) (hFlush : reply ≠ .flushed) :
    Origin (ops ++ [op]) (replies ++ [reply]) a e i := by
  rcases hOrigin.reply with ⟨evicted, hReply⟩
  refine ⟨getElem?_snoc_left op hOrigin.op, ⟨evicted, getElem?_snoc_left reply hReply⟩, ?_⟩
  intro j hLt hGet
  rcases getElem?_snoc_cases hGet with ⟨_, hNew⟩ | ⟨_, hOld⟩
  · exact hFlush hNew.symm
  · exact hOrigin.since j hLt hOld

/- The entries that are kept, and not used by the call. -/
theorem Traced.kept (op : Op) (hTraced : Traced ops replies c mru)
    (hKept : Kept c c' mru rest) (hFlush : reply ≠ .flushed) (hNot : ∀ a ∈ rest, ¬ Uses reply a) :
    Traced (ops ++ [op]) (replies ++ [reply]) c' rest := by
  refine ⟨?_, ?_, ?_, ?_⟩
  · simp only [length_append, length_singleton, hTraced.length]
  · intro a hA
    rcases hTraced.origin a (hKept.sub.subset hA) with ⟨e, i, hE, hOrigin⟩
    refine ⟨e, i, ?_, hOrigin.snoc op hFlush⟩
    rw [hKept.entry a hA, hE]
  · intro a hA
    rcases hTraced.used a (hKept.sub.subset hA) with ⟨k, hLast⟩
    exact ⟨k, hLast.snoc (hNot a hA)⟩
  · apply (hTraced.order.sublist hKept.sub).imp_of_mem
    intro a b hA hB hAfter
    rcases hAfter with ⟨k, l, hLastA, hLastB, hLt⟩
    exact ⟨k, l, hLastA.snoc (hNot a hA), hLastB.snoc (hNot b hB), hLt⟩

/- And the entry that is used by it. -/
theorem Traced.used_now (hTraced : Traced (ops ++ [op]) (replies ++ [reply]) c rest)
    (hNot : ∀ b ∈ rest, ¬ Uses reply b) (hUses : Uses reply a)
    (hOrigin : ∃ e i, c.entry a = some e ∧ Origin (ops ++ [op]) (replies ++ [reply]) a e i) :
    Traced (ops ++ [op]) (replies ++ [reply]) c (a :: rest) := by
  have hNow := LastUsed.now replies hUses
  refine ⟨hTraced.length, ?_, ?_, ?_⟩
  · intro b hB
    rcases mem_cons.mp hB with hB | hB
    · rw [hB]
      exact hOrigin
    · exact hTraced.origin b hB
  · intro b hB
    rcases mem_cons.mp hB with hB | hB
    · rw [hB]
      exact ⟨_, hNow⟩
    · exact hTraced.used b hB
  · refine pairwise_cons.mpr ⟨?_, hTraced.order⟩
    intro b hB
    rcases hTraced.used b hB with ⟨l, hLast⟩
    refine ⟨_, l, hNow, hLast, ?_⟩
    rcases hLast.uses with ⟨r, hGet, hUsesB⟩
    rcases getElem?_snoc_cases hGet with ⟨_, hNew⟩ | ⟨hLt, _⟩
    · rw [hNew] at hUsesB
      exact absurd hUsesB (hNot b hB)
    · exact hLt

/- One call. -/
theorem Traced.runOp {chains : Nat → List Addr} {mru' : List Addr}
    (hHolds : Holds c chains mru) (hTraced : Traced ops replies c mru)
    (hEffect : Effect c mru c' op reply mru') :
    Traced (ops ++ [op]) (replies ++ [reply]) c' mru' := by
  cases hEffect with
  | idle hIdle hKept =>
    have hNot : ∀ a, ¬ Uses reply a := by
      cases reply <;> simp_all [Uses, Reply.Idle]
    refine hTraced.kept op hKept ?_ fun a _ => hNot a
    intro hFlushed
    rw [hFlushed] at hIdle
    exact hIdle
  | @found query answersize now a e hMem hFound hSame hFresh hEntry =>
    have hNot : ∀ b ∈ mru.erase a, ¬ Uses (.found a e.answer) b := by
      intro b hB hUses
      exact (hHolds.mru_nodup.mem_erase_iff.mp hB).1 hUses.symm
    have hKept : Kept c c' mru (mru.erase a) := .erase hHolds fun b _ => congrFun hEntry b
    have hFlush : Reply.found a e.answer ≠ .flushed := nofun
    have hRest := hTraced.kept (.lookup query answersize now) hKept hFlush hNot
    rcases hTraced.origin a hMem with ⟨e', i, hE', hOrigin⟩
    rw [← hEntry] at hE'
    exact hRest.used_now hNot rfl ⟨e', i, hE', hOrigin.snoc _ hFlush⟩
  | @added query answer now hash id a rest evicted hMru hFull hNew hKept hAdded =>
    have hNot : ∀ b ∈ rest, ¬ Uses (.added a evicted) b := by
      intro b hB hUses
      rw [← hUses] at hB
      exact hNew hB
    have hFlush : Reply.added a evicted ≠ .flushed := nofun
    have hRest := hTraced.kept (.add query answer now true) hKept hFlush hNot
    refine hRest.used_now hNot rfl ⟨_, replies.length, hAdded, ?_⟩
    refine ⟨?_, ⟨evicted, getElem?_concat_length⟩, ?_⟩
    · rw [hTraced.length]
      exact getElem?_concat_length
    · intro j hLt hGet
      have hJ := (List.getElem?_eq_some_iff.mp hGet).1
      simp only [length_append, length_singleton] at hJ
      omega
  | noMemory hMru hFull hKept => exact hTraced.kept _ hKept nofun fun _ _ => nofun
  | flushed =>
    refine ⟨?_, nofun, nofun, List.Pairwise.nil⟩
    simp only [length_append, length_singleton, hTraced.length]

------
-- Soundness
------

/- The chains and the MRU list hold the same entries. -/
structure SameEntries (c : Cache) (chains : Nat → List Addr) (mru : List Addr) : Prop where
  chain : ∀ i < maxHashEntries, Chain c.hlink (.head i) (chains i)
  ring : Ring c.mruNext c.mruPrev none (mru.map some)
  perm : ((range maxHashEntries).flatMap chains).Perm mru
  nodup : mru.Nodup
  count : c.numEntries = mru.length
  bounded : c.numEntries ≤ configMaxEntries

/- The MRU list is ordered by the last use. -/
def ByLastUse (replies : List Reply) (mru : List Addr) : Prop :=
  (∀ a ∈ mru, ∃ k, LastUsed replies a k) ∧ mru.Pairwise (UsedAfter replies)

/-
  An answer is that of an add of the same query, less than ten minutes old and not flushed since.
-/
def AnswersAdded (ops : List Op) (replies : List Reply) (op : Op) (reply : Reply) : Prop :=
  ∀ a answer, reply = .found a answer → ∃ query answersize now query' time i evicted,
      op = .lookup query answersize now ∧ ops[i]? = some (.add query' answer time true) ∧
      replies[i]? = some (.added a evicted) ∧ SameQuery query' query ∧
      (∀ j : Nat, i < j → replies[j]? ≠ some .flushed) ∧ 0 ≤ (now - time).toInt ∧
      (now - time).toInt < configSeconds

/- Only a full cache evicts, and what was used before all. -/
def EvictsOldest (replies : List Reply) (mru : List Addr) (reply : Reply) : Prop :=
  ∀ o, ((∃ a, reply = .added a (some o)) ∨ reply = .noMemory (some o)) →
    mru.length = configMaxEntries ∧ o ∈ mru ∧ ∀ a ∈ mru, a ≠ o → UsedAfter replies a o

variable {mru' : List Addr}

theorem Holds.sameEntries (hHolds : Holds c chains mru) : SameEntries c chains mru := by
  refine ⟨hHolds.chain, hHolds.ring, ?_, hHolds.mru_nodup, hHolds.count, ?_⟩
  · refine (perm_ext_iff_of_nodup ?_ hHolds.mru_nodup).mpr ?_
    · refine nodup_flatMap.mpr ⟨?_, ?_⟩
      · intro i hI
        exact hHolds.nodup i (mem_range.mp hI)
      · apply nodup_range.imp_of_mem
        intro i j hI hJ hNe a hMemI hMemJ
        exact hNe (hHolds.chain_unique (mem_range.mp hI) (mem_range.mp hJ) hMemI hMemJ)
    · intro a
      rw [hHolds.mem]
      simp only [mem_flatMap, mem_range]
  · rw [hHolds.count]
    exact_mod_cast hHolds.bounded

theorem age_of_not_stale {now time : Time} (hFresh : isStale now time = false) :
    0 ≤ (now - time).toInt ∧ (now - time).toInt < configSeconds := by
  have hAge : (now - time).toNat < configSeconds := by simpa [isStale] using hFresh
  have hSmall : 2 * (now - time).toNat < 2 ^ 32 := by
    unfold configSeconds at hAge
    omega
  rw [BitVec.toInt_eq_toNat_of_lt hSmall]
  exact ⟨Int.natCast_nonneg _, by exact_mod_cast hAge⟩

section

variable (hTraced : Traced ops replies c mru) (hEffect : Effect c mru c' op reply mru')

include hTraced hEffect

theorem Traced.answersAdded : AnswersAdded ops replies op reply := by
  intro a answer hReply
  cases hEffect with
  | idle hIdle _ =>
    rw [hReply] at hIdle
    exact absurd hIdle id
  | found hMem hFound hSame hFresh _ =>
    injection hReply with hA hAnswer
    subst hA hAnswer
    rcases hTraced.origin _ hMem with ⟨e, i, hE, hOrigin⟩
    rw [hFound] at hE
    injection hE with hE
    subst hE
    rcases hOrigin.reply with ⟨evicted, hAdded⟩
    exact ⟨_, _, _, _, _, i, evicted, rfl, hOrigin.op, hAdded, hSame, hOrigin.since,
      age_of_not_stale hFresh⟩
  | added | noMemory | flushed => cases hReply

theorem Traced.evictsOldest : EvictsOldest replies mru reply := by
  -- the entry at the end was used before the others
  have hEnd : ∀ {rest o}, mru = rest ++ [o] →
      o ∈ mru ∧ ∀ a ∈ mru, a ≠ o → UsedAfter replies a o := by
    intro rest o hMru
    have hOrder := hTraced.order
    rw [hMru] at hOrder ⊢
    refine ⟨mem_append_right rest mem_cons_self, ?_⟩
    intro a hA hNe
    rcases mem_append.mp hA with hRest | hLast
    · exact (pairwise_append.mp hOrder).2.2 a hRest o mem_cons_self
    · exact absurd (mem_singleton.mp hLast) hNe
  intro o hReply
  cases hEffect with
  | idle hIdle _ =>
    rcases hReply with ⟨a, hReply⟩ | hReply
    · rw [hReply] at hIdle
      exact absurd hIdle id
    · rw [hReply] at hIdle
      exact absurd hIdle id
  | found | flushed =>
    rcases hReply with ⟨a, hReply⟩ | hReply
    · cases hReply
    · cases hReply
  | added hMru hFull _ _ _ =>
    rcases hReply with ⟨a, hReply⟩ | hReply
    · injection hReply with _ hEvicted
      rw [hEvicted] at hMru
      exact ⟨hFull o hEvicted, hEnd hMru⟩
    · cases hReply
  | noMemory hMru hFull _ =>
    rcases hReply with ⟨a, hReply⟩ | hReply
    · cases hReply
    · injection hReply with hEvicted
      rw [hEvicted] at hMru
      exact ⟨hFull o hEvicted, hEnd hMru⟩

end

/- Every sequence of calls. -/
theorem Traced.runOps {ops0 : List Op} {replies0 : List Reply}
    (ops : List Op) (hHeader : ∀ op ∈ ops, op.HasHeader)
    (hHolds : Holds c chains mru) (hTraced : Traced ops0 replies0 c mru) :
    ∃ replies c' chains' mru', runOps c ops = .ok (replies, c') ∧ Holds c' chains' mru' ∧
      Traced (ops0 ++ ops) (replies0 ++ replies) c' mru' := by
  induction ops generalizing c chains mru ops0 replies0 with
  | nil =>
    refine ⟨[], c, chains, mru, rfl, hHolds, ?_⟩
    simpa only [append_nil] using hTraced
  | cons op ops ih =>
    rcases hHolds.runOp (hHeader op mem_cons_self) with
      ⟨reply, c1, chains1, mru1, hRun, hHolds1, hEffect⟩
    have hTraced1 := hTraced.runOp hHolds hEffect
    rcases ih (fun op hOp => hHeader op (mem_cons_of_mem _ hOp)) hHolds1 hTraced1 with
      ⟨replies, c', chains', mru', hRest, hHolds', hTraced'⟩
    refine ⟨reply :: replies, c', chains', mru', ?_, hHolds', ?_⟩
    · simp only [ResolvCache.runOps, hRun, hRest, ok_bind]
      rfl
    · simpa only [append_assoc, singleton_append] using hTraced'

/-
  After every sequence of calls the cache is consistent, and the next call finds only what was added
  and evicts only what is the least recently used.
-/
theorem dns_cache_sound (ops : List Op) (op : Op)
    (hHeaders : ∀ op ∈ ops, op.HasHeader) (hHeader : op.HasHeader) :
    ∃ replies c chains mru reply c', runOps Cache.create ops = .ok (replies, c) ∧
      SameEntries c chains mru ∧ ByLastUse replies mru ∧ runOp c op = .ok (reply, c') ∧
      AnswersAdded ops replies op reply ∧ EvictsOldest replies mru reply := by
  have hStart : Traced [] [] Cache.create [] := ⟨rfl, nofun, nofun, List.Pairwise.nil⟩
  have hHolds := holds_empty (c := Cache.create) (fun _ _ => rfl) (.empty rfl rfl) rfl
  rcases hStart.runOps ops hHeaders hHolds with ⟨replies, c, chains, mru, hRun, hHolds, hTraced⟩
  rcases hHolds.runOp hHeader with ⟨reply, c', chains', mru', hNext, _, hEffect⟩
  exact ⟨replies, c, chains, mru, reply, c', hRun, hHolds.sameEntries,
    ⟨hTraced.used, hTraced.order⟩, hNext, hTraced.answersAdded hEffect,
    hTraced.evictsOldest hEffect⟩

/- The query for the address of the host `a`. -/
def sampleQuery : Buffer :=
  [0, 7, 1, 0, 0, 1, 0, 0, 0, 0, 0, 0, 1, 97, 0, 0, 1, 0, 1]

/- An answer that was added is found ten seconds later. -/
theorem dns_cache_sound_sample :
    sampleQuery.length = 19 ∧
    ∃ replies c chains mru reply c', runOps Cache.create [.add sampleQuery [9, 9] 5 true] =
      .ok (replies, c) ∧ SameEntries c chains mru ∧ ByLastUse replies mru ∧
      runOp c (.lookup sampleQuery 512 15) = .ok (reply, c') ∧
      AnswersAdded [.add sampleQuery [9, 9] 5 true] replies (.lookup sampleQuery 512 15) reply ∧
      EvictsOldest replies mru reply := by
  refine ⟨rfl, dns_cache_sound _ _ ?_ ?_⟩
  · intro op hOp
    rw [mem_singleton.mp hOp]
    show 12 ≤ sampleQuery.length
    decide
  · show 12 ≤ sampleQuery.length
    decide

example : (runOps Cache.create [.add sampleQuery [9, 9] 5 true, .lookup sampleQuery 512 15,
      .lookup sampleQuery 512 605]).map Prod.fst =
      .ok [.added 0 none, .found 0 [9, 9], .notFound] := by
  decide +kernel

end OpenIvi.Bionic.ResolvCache
