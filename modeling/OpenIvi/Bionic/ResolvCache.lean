import Mathlib.Data.List.Perm.Subperm
import OpenIvi.Bionic.DnsQuery
import OpenIvi.Lib.LinkedList

/-
  The cache of DNS answers.

  The fields of the entries are functions of their addresses. `hlink` is the link of the collision
  chains: at `head i` it is `cache->entries[i]`, and at `after a` it is the field `hlink` of the
  entry `a`. In `mruNext` and `mruPrev` the node `none` is `cache->mru_list`. Addresses are not used
  twice. An entry that was freed has no data, and looking at it is a fault.

  `Holds` gives the collision chains and the MRU list of a cache as lists of entries. There is one
  lemma for each thing the calls do with them: look a key up, take an entry out, bump one, put one
  in, and flush the table.

  Two queries compare equal whatever follows their last question, but the hash goes on to the end of
  the packet. Keys that compare equal have the same hash if the packets agree behind the header.

  Main declarations:
    * `Cache`
    * `Holds`
    * `Holds.flush`
    * `equal_keys_found`
-/

------
-- Entries
------

namespace OpenIvi.Bionic.ResolvCache

open Lib LinkedList Dns Function List

def configSeconds : Nat := 60 * 10

def configMaxEntries : Nat := 64

def maxHashEntries : Nat := 2 * configMaxEntries

abbrev Addr := Nat

/- A `time_t`. -/
abbrev Time := BitVec 32

/- The data of an `Entry`, without its links. -/
structure Entry where
  hash : Word
  query : Buffer
  answer : Buffer
  time : Time
  id : Int

structure Cache where
  numEntries : Int
  generation : Word
  lastId : Int
  hlink : Loc Nat Addr → Option Addr
  mruNext : Option Addr → Option Addr
  mruPrev : Option Addr → Option Addr
  entry : Addr → Option Entry
  nextAddr : Addr

/- `_resolv_cache_create`. -/
def Cache.create : Cache where
  numEntries := 0
  generation := BitVec.allOnes 32
  lastId := 0
  hlink := fun _ => none
  mruNext := id
  mruPrev := id
  entry := fun _ => none
  nextAddr := 0

variable (c : Cache)

def Cache.load (a : Addr) : Except Fault Entry :=
  match c.entry a with
  | some e => .ok e
  | none => .error .nullPointer

def entryMruRemove (a : Addr) : Cache :=
  let next := c.mruNext (some a)
  let prev := c.mruPrev (some a)
  { c with mruNext := update c.mruNext prev next, mruPrev := update c.mruPrev next prev }

def entryMruAdd (a : Addr) : Cache :=
  let first := c.mruNext none
  { c with
    mruNext := update (update c.mruNext (some a) first) none (some a)
    mruPrev := update (update c.mruPrev (some a) none) first (some a) }

def entryEquals (query1 query2 : Buffer) : Except Fault Bool :=
  if query1.length ≠ query2.length then .ok false
  else isEqualQuery query1 query2

/- What `entry_init_key` makes of a query. -/
structure Key where
  hash : Word
  query : Buffer

/- `entry_init_key`, or `none` for an unsupported query. -/
def entryInitKey (query : Buffer) : Except Fault (Option Key) := do
  let hash ← hashQuery query
  if ← checkQuery query then return some ⟨hash, query⟩
  else return none

------
-- The Table
------

/- One pass of the loop of `_cache_lookup_p`. -/
def cacheLookupBody (key : Key) (loc : Loc Nat Addr) :
    Except Fault (Ctl (Loc Nat Addr) (Loc Nat Addr)) := do
  match c.hlink loc with
  | none => return .done loc
  | some a =>
    let e ← c.load a
    if e.hash = key.hash then
      if ← entryEquals e.query key.query then
        return .done loc
      else return .again (.after a)
    else return .again (.after a)

/- `_cache_lookup_p`: where the link to the entry is. -/
def cacheLookupP (key : Key) : Except Fault (Loc Nat Addr) :=
  loop (cacheLookupBody c key) (c.numEntries.toNat + 1) (.head (key.hash.toNat % maxHashEntries))

/- `_cache_add_p` with the new entry. -/
def cacheAddP (loc : Loc Nat Addr) (a : Addr) (e : Entry) : Cache :=
  let c :=
    { c with
      hlink := update c.hlink loc (some a)
      entry := update c.entry a (some { e with id := c.lastId + 1 })
      lastId := c.lastId + 1 }
  let c := entryMruAdd c a
  { c with numEntries := c.numEntries + 1 }

/- `_cache_remove_p`, with the entry it takes out. -/
def cacheRemoveP (loc : Loc Nat Addr) : Except Fault (Addr × Cache) := do
  match c.hlink loc with
  | none => .error .nullPointer
  | some a =>
    let _ ← c.load a
    let c := entryMruRemove c a
    return (a, { c with
      hlink := update c.hlink loc (c.hlink (.after a))
      entry := update c.entry a none
      numEntries := c.numEntries - 1 })

/-
  `_cache_remove_oldest`, with the entry it takes out. The oldest entry is looked up by its query.
-/
def cacheRemoveOldest : Except Fault (Option Addr × Cache) := do
  match c.mruPrev none with
  | none => .error .nullPointer
  | some oldest =>
    let e ← c.load oldest
    let loc ← cacheLookupP c ⟨e.hash, e.query⟩
    match c.hlink loc with
    | none => return (none, c)
    | some _ =>
      let (a, c) ← cacheRemoveP c loc
      return (some a, c)

/- One pass of the loop over one chain in the flush. -/
def flushBody (i : Nat) (c : Cache) : Except Fault (Ctl Cache Cache) := do
  match c.hlink (.head i) with
  | none => return .done c
  | some a =>
    let _ ← c.load a
    return .again { c with
      hlink := update c.hlink (.head i) (c.hlink (.after a))
      entry := update c.entry a none }

/- The loop over the table, for `n` chains from `i` on. -/
def flushChains : Nat → Nat → Cache → Except Fault Cache
| 0, _, c => .ok c
| n + 1, i, c => do
    let c ← loop (flushBody i) (c.numEntries.toNat + 1) c
    flushChains n (i + 1) c

def cacheFlushLocked : Except Fault Cache := do
  let c ← flushChains maxHashEntries 0 c
  return { c with
    mruNext := update c.mruNext none none
    mruPrev := update c.mruPrev none none
    numEntries := 0
    lastId := 0 }

------
-- Calls
------

/- A call, with the clock and the memory it finds. -/
inductive Op where
| lookup (query : Buffer) (answersize : Int) (now : Time)
| add (query answer : Buffer) (now : Time) (memory : Bool)
| reset (generation : Word)
deriving DecidableEq

/- What a call did. -/
inductive Reply where
| unsupported (answerlen : Option Nat)
| notFound
| found (a : Addr) (answer : Buffer)
| ignored
| added (a : Addr) (evicted : Option Addr)
| noMemory (evicted : Option Addr)
| kept
| flushed
deriving DecidableEq

/- `(unsigned)(now - e->when) >= CONFIG_SECONDS`. -/
def isStale (now time : Time) : Bool :=
  decide (configSeconds ≤ (now - time).toNat)

/- The entry moves to the top of the MRU list. -/
def bump (a : Addr) : Cache :=
  if some a ≠ c.mruNext none then
    entryMruAdd (entryMruRemove c a) a
  else c

def resolvCacheLookup (query : Buffer) (answersize : Int) (now : Time) :
    Except Fault (Reply × Cache) := do
  match ← entryInitKey query with
  | none => return (.unsupported none, c)
  | some key =>
    let loc ← cacheLookupP c key
    match c.hlink loc with
    | none => return (.notFound, c)
    | some a =>
      let e ← c.load a
      if isStale now e.time then
        let (_, c) ← cacheRemoveP c loc
        return (.notFound, c)
      else if answersize < e.answer.length then
        return (.unsupported (some e.answer.length), c)
      else return (.found a e.answer, bump c a)

/- `entry_alloc`, which clears its links, and the add. -/
def store (loc : Loc Nat Addr) (key : Key)
    (answer : Buffer) (now : Time) (memory : Bool) (evicted : Option Addr) : Reply × Cache :=
  if memory then
    let a := c.nextAddr
    let c := { c with nextAddr := c.nextAddr + 1, hlink := update c.hlink (.after a) none }
    (.added a evicted, cacheAddP c loc a ⟨key.hash, key.query, answer, now, 0⟩)
  else (.noMemory evicted, c)

def resolvCacheAdd (query answer : Buffer) (now : Time) (memory : Bool) :
    Except Fault (Reply × Cache) := do
  match ← entryInitKey query with
  | none => return (.ignored, c)
  | some key =>
    let loc ← cacheLookupP c key
    match c.hlink loc with
    | some _ => return (.ignored, c)
    | none =>
      if configMaxEntries ≤ c.numEntries then
        let (evicted, c) ← cacheRemoveOldest c
        let loc ← cacheLookupP c key
        match c.hlink loc with
        | some _ => return (.ignored, c)
        | none => return store c loc key answer now memory evicted
      else
        return store c loc key answer now memory none

def resolvCacheReset (generation : Word) : Except Fault (Reply × Cache) := do
  if c.generation ≠ generation then
    let c ← cacheFlushLocked c
    return (.flushed, { c with generation := generation })
  else return (.kept, c)

def runOp : Op → Except Fault (Reply × Cache)
| .lookup query answersize now =>
  resolvCacheLookup c query answersize now
| .add query answer now memory =>
  resolvCacheAdd c query answer now memory
| .reset generation => resolvCacheReset c generation

/- The calls one after the other, with their replies. -/
def runOps : Cache → List Op → Except Fault (List Reply × Cache)
| c, [] => .ok ([], c)
| c, op :: ops => do
    let (reply, c) ← runOp c op
    let (replies, c) ← runOps c ops
    return (reply :: replies, c)

------
-- Keys
------

variable {j : Nat} {c' : Cache} {query : Buffer}

/- The packet passes the check, so it is a query. -/
def IsQuery (query : Buffer) : Prop :=
  ∃ rd qs, Query query rd qs

/- Same length, RD bit, number of questions and questions. -/
def SameQuery (query1 query2 : Buffer) : Prop :=
  query1.length = query2.length ∧ ∃ rd qs, Query query1 rd qs ∧ Query query2 rd qs

variable {query1 query2 : Buffer}

theorem SameQuery.refl (hQuery : IsQuery query) : SameQuery query query := by
  rcases hQuery with ⟨rd, qs, hQuery⟩
  exact ⟨rfl, rd, qs, hQuery, hQuery⟩

/- `entry_equals` compares queries. -/
theorem entryEquals_spec (hQuery1 : IsQuery query1) (hQuery2 : IsQuery query2) :
    ∃ b, entryEquals query1 query2 = .ok b ∧ (b = true ↔ SameQuery query1 query2) := by
  unfold entryEquals
  by_cases hLength : query1.length = query2.length
  · rcases hQuery1 with ⟨rd1, qs1, hQuery1⟩
    rcases hQuery2 with ⟨rd2, qs2, hQuery2⟩
    have hEqual := isEqualQuery_spec hQuery1 hQuery2
    rw [if_neg (not_not.mpr hLength)]
    refine ⟨_, hEqual, ?_⟩
    constructor
    · intro hTrue
      rcases of_decide_eq_true hTrue with ⟨hRd, hQs⟩
      subst hRd hQs
      exact ⟨hLength, rd1, qs1, hQuery1, hQuery2⟩
    · intro hSame
      rcases hSame.2 with ⟨rd, qs, hCommon1, hCommon2⟩
      have hCommon := isEqualQuery_spec hCommon1 hCommon2
      rw [hEqual] at hCommon
      injection hCommon with hCommon
      rw [hCommon]
      exact decide_eq_true ⟨rfl, rfl⟩
  · rw [if_pos hLength]
    refine ⟨false, rfl, nofun, ?_⟩
    intro hSame
    exact absurd hSame.1 hLength

/- A key is made of every query that is long enough. -/
theorem entryInitKey_spec (hHeader : dnsHeaderSize ≤ query.length) :
    ∃ r, entryInitKey query = .ok r ∧ ∀ key, r = some key →
      key.query = query ∧ IsQuery key.query := by
  rcases hashQuery_total hHeader with ⟨h, hHash⟩
  rcases checkQuery_spec hHeader with ⟨b, hCheck, hSpec⟩
  unfold entryInitKey
  rw [hHash, ok_bind, hCheck, ok_bind]
  cases b with
  | false => exact ⟨none, rfl, nofun⟩
  | true =>
    refine ⟨some ⟨h, query⟩, rfl, ?_⟩
    intro key hSome
    injection hSome with hKey
    subst hKey
    exact ⟨rfl, hSpec rfl⟩

------
-- Chains And MRU List
------

variable {e : Entry}

/- The entry is the one that the key asks for. -/
def Matches (e : Entry) (key : Key) : Prop :=
  e.hash = key.hash ∧ SameQuery e.query key.query

/- The entry is in the chain of its hash. -/
structure Filed (c : Cache) (i : Nat) (a : Addr) (e : Entry) : Prop where
  entry : c.entry a = some e
  hash : e.hash.toNat % maxHashEntries = i
  query : IsQuery e.query

/- The first entry is found before the second. -/
def Shadows (a b : Addr) : Prop :=
  ∃ e1 e2, c.entry a = some e1 ∧ c.entry b = some e2 ∧ Matches e1 ⟨e2.hash, e2.query⟩

/- The chains and the MRU list of the cache. No entry of a chain shadows a later one. -/
structure Holds (c : Cache) (chains : Nat → List Addr) (mru : List Addr) : Prop where
  chain : ∀ i < maxHashEntries, Chain c.hlink (.head i) (chains i)
  ring : Ring c.mruNext c.mruPrev none (mru.map some)
  nodup : ∀ i < maxHashEntries, (chains i).Nodup
  mem : ∀ a, a ∈ mru ↔ ∃ i < maxHashEntries, a ∈ chains i
  filed : ∀ i < maxHashEntries, ∀ a ∈ chains i, ∃ e, Filed c i a e
  distinct : ∀ i < maxHashEntries, (chains i).Pairwise fun a b => ¬ Shadows c a b
  count : c.numEntries = mru.length
  bounded : mru.length ≤ configMaxEntries
  fresh : ∀ a ∈ mru, a < c.nextAddr

/- A cache without entries. -/
theorem holds_empty {c : Cache} (hHeads : ∀ i < maxHashEntries, c.hlink (.head i) = none)
    (hRing : Ring c.mruNext c.mruPrev none [])
    (hCount : c.numEntries = 0) : Holds c (fun _ => []) [] := by
  refine ⟨?_, hRing, ?_, ?_, ?_, ?_, hCount, Nat.zero_le _, ?_⟩
  · intro i hI
    exact ⟨trivial, hHeads i hI⟩
  · intro i _
    exact nodup_nil
  · simp
  · intro i _ a hMem
    cases hMem
  · intro i _
    exact List.Pairwise.nil
  · intro a hMem
    cases hMem

variable {c : Cache} {chains : Nat → List Addr} {mru : List Addr} {i : Nat} {a : Addr} {key : Key}

theorem hash_lt (w : Word) : w.toNat % maxHashEntries < maxHashEntries :=
  Nat.mod_lt _ (by decide)

theorem Filed.load (hFiled : Filed c i a e) : c.load a = .ok e := by
  simp only [Cache.load, hFiled.entry]

section

variable (hHolds : Holds c chains mru)

include hHolds

theorem Holds.mru_nodup : mru.Nodup :=
  (nodup_cons.mp hHolds.ring.nodup).2.of_map _

theorem Holds.chain_length_le (hI : i < maxHashEntries) : (chains i).length ≤ mru.length := by
  apply List.Subperm.length_le
  apply subperm_of_subset (hHolds.nodup i hI)
  intro a hMem
  exact (hHolds.mem a).mpr ⟨i, hI, hMem⟩

theorem Holds.chain_unique (hI : i < maxHashEntries) (hJ : j < maxHashEntries)
    (hMemI : a ∈ chains i) (hMemJ : a ∈ chains j) : i = j := by
  rcases hHolds.filed i hI a hMemI with ⟨e, hFiled⟩
  rcases hHolds.filed j hJ a hMemJ with ⟨e', hFiled'⟩
  have hEq := hFiled.entry.symm.trans hFiled'.entry
  injection hEq with hEq
  rw [← hFiled.hash, hEq, hFiled'.hash]

end

------
-- Looking Up
------

variable {chain : List Addr}

/- The link is the one to the first entry for the key. -/
structure FoundAt (c : Cache) (chain : List Addr) (i : Nat) (key : Key)
    (loc : Loc Nat Addr) (xs : List Addr) (a : Addr) (ys : List Addr) (e : Entry) : Prop where
  split : chain = xs ++ a :: ys
  place : loc = endLoc (.head i) xs
  link : c.hlink loc = some a
  filed : Filed c i a e
  matched : Matches e key
  first : ∀ x ∈ xs, ∀ e, c.entry x = some e → ¬ Matches e key

/- The link is at the end of a chain without the key. -/
structure AbsentAt (c : Cache) (chain : List Addr) (i : Nat) (key : Key)
    (loc : Loc Nat Addr) : Prop where
  place : loc = endLoc (.head i) chain
  link : c.hlink loc = none
  absent : ∀ x ∈ chain, ∀ e, c.entry x = some e → ¬ Matches e key

/- One pass passes an entry or finds it. -/
theorem cacheLookupBody_spec {loc : Loc Nat Addr} (hQuery : IsQuery key.query)
    (hLink : c.hlink loc = some a) (hFiled : Filed c i a e) :
    (cacheLookupBody c key loc = .ok (.done loc) ∧ Matches e key) ∨
    (cacheLookupBody c key loc = .ok (.again (.after a)) ∧ ¬ Matches e key) := by
  unfold cacheLookupBody
  simp only [hLink, hFiled.load, ok_bind]
  by_cases hHash : e.hash = key.hash
  · rcases entryEquals_spec hFiled.query hQuery with ⟨b, hEquals, hSpec⟩
    simp only [hHash, if_true, hEquals, ok_bind]
    cases b with
    | true => exact .inl ⟨rfl, hHash, hSpec.mp rfl⟩
    | false =>
      refine .inr ⟨rfl, ?_⟩
      intro hMatches
      exact absurd (hSpec.mpr hMatches.2) (by decide)
  · simp only [hHash, if_false]
    exact .inr ⟨rfl, fun hMatches => hHash hMatches.1⟩

theorem loop_cacheLookup (hChain : Chain c.hlink (.head i) chain)
    (hFiled : ∀ a ∈ chain, ∃ e, Filed c i a e) (hQuery : IsQuery key.query) :
    ∀ (rest xs : List Addr) (fuel : Nat), chain = xs ++ rest →
      (∀ x ∈ xs, ∀ e, c.entry x = some e → ¬ Matches e key) → rest.length < fuel →
      ∃ loc, loop (cacheLookupBody c key) fuel (endLoc (.head i) xs) = .ok loc ∧
        (AbsentAt c chain i key loc ∨ ∃ xs a ys e, FoundAt c chain i key loc xs a ys e) := by
  intro rest
  induction rest with
  | nil =>
    intro xs fuel hSplit hBefore hFuel
    obtain ⟨fuel, rfl⟩ : ∃ n, fuel = n + 1 := ⟨fuel - 1, by omega⟩
    rw [append_nil] at hSplit
    subst hSplit
    have hLink := hChain.2
    refine ⟨endLoc (.head i) chain, ?_, .inl ⟨rfl, hLink, hBefore⟩⟩
    simp only [loop, cacheLookupBody, hLink]
    rfl
  | cons a rest ih =>
    intro xs fuel hSplit hBefore hFuel
    obtain ⟨fuel, rfl⟩ : ∃ n, fuel = n + 1 := ⟨fuel - 1, by omega⟩
    have hMem : a ∈ chain := by
      rw [hSplit]
      exact mem_append_right xs mem_cons_self
    rcases hFiled a hMem with ⟨e, hE⟩
    have hLink : c.hlink (endLoc (.head i) xs) = some a := by
      rw [hSplit] at hChain
      exact (chain_append.mp hChain).2.link_eq
    rcases cacheLookupBody_spec hQuery hLink hE with ⟨hDone, hMatches⟩ | ⟨hAgain, hOther⟩
    · refine ⟨_, ?_, .inr ⟨xs, a, rest, e, hSplit, rfl, hLink, hE, hMatches, hBefore⟩⟩
      simp only [loop, hDone]
    · have hNext : endLoc (.head i) (xs ++ [a]) = (.after a : Loc Nat Addr) := by
        rw [endLoc_append]
        rfl
      have hRest := ih (xs ++ [a]) fuel (by rw [hSplit, append_assoc]; rfl) (by
          intro x hX e' hE'
          rcases mem_append.mp hX with hOld | hNew
          · exact hBefore x hOld e' hE'
          · rw [mem_singleton.mp hNew, hE.entry] at hE'
            injection hE' with hEq
            rw [← hEq]
            exact hOther)
        (Nat.lt_of_succ_lt_succ hFuel)
      rw [hNext] at hRest
      simp only [loop, hAgain]
      exact hRest

/- Either the key is not there, or its entry is found. -/
theorem Holds.lookup (hHolds : Holds c chains mru) (hQuery : IsQuery key.query)
    (hI : i = key.hash.toNat % maxHashEntries) :
    ∃ loc, cacheLookupP c key = .ok loc ∧ (AbsentAt c (chains i) i key loc ∨ ∃ xs a ys e,
      FoundAt c (chains i) i key loc xs a ys e) := by
  have hLt : i < maxHashEntries := by
    rw [hI]
    exact hash_lt key.hash
  have hFuel : (chains i).length < c.numEntries.toNat + 1 := by
    rw [hHolds.count, Int.toNat_natCast]
    exact Nat.lt_succ_of_le (hHolds.chain_length_le hLt)
  unfold cacheLookupP
  rw [← hI]
  exact loop_cacheLookup (hHolds.chain i hLt) (hHolds.filed i hLt) hQuery (chains i) [] _ rfl
    (by simp) hFuel

------
-- Taking Out And Putting In
------

theorem ring_erase {next prev : Option Addr → Option Addr}
    (hRing : Ring next prev none (mru.map some)) (hMem : a ∈ mru) :
    Ring (update next (prev (some a)) (next (some a))) (update prev (next (some a)) (prev (some a)))
      none ((mru.erase a).map some) := by
  rcases exists_erase_eq hMem with ⟨l, r, _, hMru, hErase⟩
  rw [hMru, map_append, map_cons] at hRing
  rw [hErase, map_append]
  exact hRing.remove

variable {xs ys : List Addr}

/- The chains without an entry. -/
theorem mem_chains_remove {b : Addr} (hHolds : Holds c chains mru) (hI : i < maxHashEntries)
    (hJ : j < maxHashEntries) (hSplit : chains i = xs ++ a :: ys) :
    b ∈ update chains i (xs ++ ys) j ↔ b ∈ chains j ∧ b ≠ a := by
  have hMem : a ∈ chains i := by
    rw [hSplit]
    exact mem_append_right xs mem_cons_self
  by_cases hEq : j = i
  · have hNodup := hHolds.nodup i hI
    rw [hSplit] at hNodup
    have hGone : a ∉ xs ++ ys := (nodup_cons.mp (nodup_middle.mp hNodup)).1
    rw [hEq, update_self, hSplit, and_comm, ← hNodup.mem_erase_iff,
      erase_append_right _ fun hX => hGone (mem_append_left ys hX), erase_cons_head]
  · rw [update_of_ne hEq]
    constructor
    · intro hB
      refine ⟨hB, ?_⟩
      intro hA
      rw [hA] at hB
      exact hEq (hHolds.chain_unique hJ hI hB hMem)
    · exact And.left

theorem Filed.of_eq (hFiled : Filed c i a e) (hEntry : c'.entry a = c.entry a) : Filed c' i a e :=
  ⟨hEntry.trans hFiled.entry, hFiled.hash, hFiled.query⟩

theorem distinct_of_eq (hOld : chain.Pairwise fun a b => ¬ Shadows c a b)
    (hSame : ∀ b ∈ chain, c'.entry b = c.entry b) : chain.Pairwise fun a b => ¬ Shadows c' a b := by
  apply hOld.imp_of_mem
  intro x y hX hY hNot hShadows
  rcases hShadows with ⟨e1, e2, hE1, hE2, hMatches⟩
  rw [hSame x hX] at hE1
  rw [hSame y hY] at hE2
  exact hNot ⟨e1, e2, hE1, hE2, hMatches⟩

variable {loc : Loc Nat Addr}

section

variable (hHolds : Holds c chains mru)

include hHolds

theorem Holds.mem_of_found (hI : i < maxHashEntries)
    (hFound : FoundAt c (chains i) i key loc xs a ys e) : a ∈ mru := by
  refine (hHolds.mem a).mpr ⟨i, hI, ?_⟩
  rw [hFound.split]
  exact mem_append_right xs mem_cons_self

theorem Holds.endLoc_other (hI : i < maxHashEntries) (hJ : j < maxHashEntries)
    (hNe : j ≠ i) (hSub : ∀ x ∈ xs, x ∈ chains i) :
    endLoc (.head i) xs ∉ locs (.head j) (chains j) := by
  apply endLoc_not_mem
  · rw [head_mem_locs]
    exact Ne.symm hNe
  · intro x hX
    rw [after_mem_locs_head]
    intro hXJ
    exact hNe (hHolds.chain_unique hJ hI hXJ (hSub x hX))

/- `_cache_remove_p` takes out the entry of the link. -/
theorem Holds.remove (hI : i < maxHashEntries) (hFound : FoundAt c (chains i) i key loc xs a ys e) :
    ∃ c', cacheRemoveP c loc = .ok (a, c') ∧ Holds c' (update chains i (xs ++ ys)) (mru.erase a) ∧
      (∀ b, b ≠ a → c'.entry b = c.entry b) := by
  have hMem : a ∈ mru := hHolds.mem_of_found hI hFound
  have hErase := length_erase_of_mem hMem
  have hSub : ∀ j, (update chains i (xs ++ ys) j).Sublist (chains j) := by
    intro j
    by_cases hEq : j = i
    · rw [hEq, update_self, hFound.split]
      exact List.Sublist.append_left (sublist_cons_self a ys) xs
    · rw [update_of_ne hEq]
  refine ⟨{ entryMruRemove c a with
    hlink := update c.hlink loc (c.hlink (.after a))
    entry := update c.entry a none
    numEntries := c.numEntries - 1 }, ?_, ?_, ?_⟩
  · unfold cacheRemoveP
    simp only [hFound.link, hFound.filed.load, ok_bind]
    rfl
  · refine ⟨?_, ring_erase hHolds.ring hMem, ?_, ?_, ?_, ?_, ?_, ?_, ?_⟩
    · intro j hJ
      by_cases hEq : j = i
      · have hChain := hHolds.chain i hI
        have hNodup := hHolds.nodup i hI
        rw [hFound.split] at hChain hNodup
        rw [hEq, update_self, hFound.place]
        exact hChain.unlink hNodup
      · rw [update_of_ne hEq, hFound.place]
        apply (hHolds.chain j hJ).update_of_not_mem
        apply hHolds.endLoc_other hI hJ hEq
        intro x hX
        rw [hFound.split]
        exact mem_append_left _ hX
    · intro j hJ
      exact (hHolds.nodup j hJ).sublist (hSub j)
    · intro b
      rw [hHolds.mru_nodup.mem_erase_iff, hHolds.mem]
      constructor
      · rintro ⟨hNe, j, hJ, hB⟩
        exact ⟨j, hJ, (mem_chains_remove hHolds hI hJ hFound.split).mpr ⟨hB, hNe⟩⟩
      · rintro ⟨j, hJ, hB⟩
        rcases (mem_chains_remove hHolds hI hJ hFound.split).mp hB with ⟨hB', hNe⟩
        exact ⟨hNe, j, hJ, hB'⟩
    · intro j hJ b hB
      rcases (mem_chains_remove hHolds hI hJ hFound.split).mp hB with ⟨hB', hNe⟩
      rcases hHolds.filed j hJ b hB' with ⟨e', hFiled⟩
      exact ⟨e', hFiled.of_eq (update_of_ne hNe ..)⟩
    · intro j hJ
      apply distinct_of_eq ((hHolds.distinct j hJ).sublist (hSub j))
      intro b hB
      exact update_of_ne ((mem_chains_remove hHolds hI hJ hFound.split).mp hB).2 ..
    · have hPos := length_pos_of_mem hMem
      simp only [hHolds.count, hErase]
      omega
    · have hBounded := hHolds.bounded
      omega
    · intro b hB
      exact hHolds.fresh b (mem_of_mem_erase hB)
  · intro b hB
    exact update_of_ne hB ..

/- Changes of the MRU list alone. -/
theorem Holds.of_ring {mru' : List Addr} (hLink : c'.hlink = c.hlink)
    (hEntry : c'.entry = c.entry) (hCount : c'.numEntries = c.numEntries)
    (hNext : c'.nextAddr = c.nextAddr) (hPerm : mru'.Perm mru)
    (hRing : Ring c'.mruNext c'.mruPrev none (mru'.map some)) : Holds c' chains mru' := by
  have hLength := hPerm.length_eq
  refine ⟨?_, hRing, hHolds.nodup, ?_, ?_, ?_, ?_, ?_, ?_⟩
  · rw [hLink]
    exact hHolds.chain
  · intro b
    rw [hPerm.mem_iff]
    exact hHolds.mem b
  · intro j hJ b hB
    rcases hHolds.filed j hJ b hB with ⟨e, hFiled⟩
    exact ⟨e, hFiled.of_eq (congrFun hEntry b)⟩
  · intro j hJ
    apply distinct_of_eq (hHolds.distinct j hJ)
    intro b _
    exact congrFun hEntry b
  · rw [hCount, hHolds.count, hLength]
  · rw [hLength]
    exact hHolds.bounded
  · intro b hB
    rw [hNext]
    exact hHolds.fresh b (hPerm.mem_iff.mp hB)

/- A lookup that succeeds puts the entry at the top. -/
theorem Holds.bump (hMem : a ∈ mru) :
    Holds (bump c a) chains (a :: mru.erase a) ∧ (ResolvCache.bump c a).entry = c.entry := by
  have hPerm : (a :: mru.erase a).Perm mru := (perm_cons_erase hMem).symm
  unfold ResolvCache.bump
  by_cases hFirst : some a ≠ c.mruNext none
  · rw [if_pos hFirst]
    refine ⟨?_, rfl⟩
    refine hHolds.of_ring rfl rfl rfl rfl hPerm ?_
    apply (ring_erase hHolds.ring hMem).insert_first
    simp [hHolds.mru_nodup.mem_erase_iff]
  · rw [if_neg hFirst]
    refine ⟨?_, rfl⟩
    -- the first entry is the one to be bumped
    have hHead := hHolds.ring.next_eq
    rw [← not_not.mp hFirst] at hHead
    cases mru with
    | nil => cases hMem
    | cons b rest =>
      have hEq : a = b := Option.some.inj hHead
      subst hEq
      rw [erase_cons_head]
      exact hHolds

end

theorem mem_chains_add {b : Addr} :
    b ∈ update chains i (chains i ++ [a]) j ↔ b ∈ chains j ∨ (j = i ∧ b = a) := by
  by_cases hEq : j = i
  · rw [hEq, update_self, mem_append, mem_singleton]
    simp
  · simp [hEq]

/- A new entry goes behind the chain that has no match. -/
theorem Holds.add (answer : Buffer) (now : Time)
    (evicted : Option Addr) (hHolds : Holds c chains mru)
    (hRoom : mru.length < configMaxEntries) (hQuery : IsQuery key.query)
    (hI : i = key.hash.toNat % maxHashEntries) (hAbsent : AbsentAt c (chains i) i key loc) :
    ∃ c' id, store c loc key answer now true evicted = (.added c.nextAddr evicted, c') ∧ Holds c'
      (update chains i (chains i ++ [c.nextAddr]))
      (c.nextAddr :: mru) ∧
      c'.entry = update c.entry c.nextAddr (some ⟨key.hash, key.query, answer, now, id⟩) := by
  have hLt : i < maxHashEntries := by
    rw [hI]
    exact hash_lt key.hash
  have hNewMru : c.nextAddr ∉ mru := by
    intro hMem
    exact lt_irrefl _ (hHolds.fresh _ hMem)
  have hNew : ∀ j < maxHashEntries, c.nextAddr ∉ chains j := by
    intro j hJ hMem
    exact hNewMru ((hHolds.mem _).mpr ⟨j, hJ, hMem⟩)
  have hSame : ∀ {c' : Cache} {j b e}, c'.entry = update c.entry c.nextAddr e →
      j < maxHashEntries → b ∈ chains j → c'.entry b = c.entry b := by
    intro c' j b e hEntry hJ hB
    rw [hEntry, update_of_ne]
    intro hEq
    rw [hEq] at hB
    exact hNew j hJ hB
  refine ⟨_, c.lastId + 1, rfl, ?_, rfl⟩
  refine ⟨?_, ?_, ?_, ?_, ?_, ?_, ?_, ?_, ?_⟩
  · intro j hJ
    -- the links of the new entry were cleared before
    have hCleared : Chain (update c.hlink (.after c.nextAddr) none) (.head j) (chains j) := by
      apply (hHolds.chain j hJ).update_of_not_mem
      rw [after_mem_locs_head]
      exact hNew j hJ
    by_cases hEq : j = i
    · subst hEq
      rw [update_self, hAbsent.place]
      exact hCleared.link_last (hHolds.nodup j hJ) (hNew j hJ) (update_self ..)
    · rw [update_of_ne hEq, hAbsent.place]
      apply hCleared.update_of_not_mem
      exact hHolds.endLoc_other hLt hJ hEq fun _ hX => hX
  · apply hHolds.ring.insert_first
    simpa using hNewMru
  · intro j hJ
    by_cases hEq : j = i
    · subst hEq
      rw [update_self]
      exact (nodup_append_comm.mp ((hHolds.nodup j hJ).cons (hNew j hJ)))
    · rw [update_of_ne hEq]
      exact hHolds.nodup j hJ
  · intro b
    simp only [mem_chains_add, mem_cons, hHolds.mem]
    constructor
    · rintro (hB | ⟨j, hJ, hB⟩)
      · exact ⟨i, hLt, .inr ⟨rfl, hB⟩⟩
      · exact ⟨j, hJ, .inl hB⟩
    · rintro ⟨j, hJ, hB | ⟨_, hB⟩⟩
      · exact .inr ⟨j, hJ, hB⟩
      · exact .inl hB
  · intro j hJ b hB
    rcases mem_chains_add.mp hB with hOld | ⟨hEq, hB⟩
    · rcases hHolds.filed j hJ b hOld with ⟨e, hE⟩
      exact ⟨e, hE.of_eq (hSame rfl hJ hOld)⟩
    · rw [hEq, hB]
      exact ⟨_, update_self .., hI.symm, hQuery⟩
  · intro j hJ
    have hOld : (chains j).Pairwise fun a b => ¬ Shadows c a b := hHolds.distinct j hJ
    by_cases hEq : j = i
    · subst hEq
      rw [update_self]
      refine pairwise_append.mpr ⟨?_, pairwise_singleton .., ?_⟩
      · exact distinct_of_eq hOld fun b => hSame rfl hJ
      · intro x hX y hY hShadows
        rw [mem_singleton.mp hY] at hShadows
        rcases hShadows with ⟨e1, e2, hE1, hE2, hMatches⟩
        rw [hSame rfl hJ hX] at hE1
        have hNewEntry := hE2.symm.trans (update_self ..)
        injection hNewEntry with hNewEntry
        subst hNewEntry
        exact hAbsent.absent x hX e1 hE1 hMatches
    · rw [update_of_ne hEq]
      exact distinct_of_eq hOld fun b => hSame rfl hJ
  · have hCount := hHolds.count
    simp only [cacheAddP, entryMruAdd, length_cons, hCount]
    rfl
  · exact hRoom
  · intro b hB
    rcases mem_cons.mp hB with hB | hB
    · rw [hB]
      exact Nat.lt_succ_self _
    · exact Nat.lt_succ_of_lt (hHolds.fresh b hB)

/- The oldest entry is the last one of the MRU list. -/
theorem Holds.removeOldest (hHolds : Holds c chains (mru ++ [a])) :
    ∃ c' chains', cacheRemoveOldest c = .ok (some a, c') ∧ Holds c' chains' mru ∧
      (∀ b, b ≠ a → c'.entry b = c.entry b) := by
  have hOldest : c.mruPrev none = some a := by
    rw [hHolds.ring.prev_eq]
    simp
  have hErase : (mru ++ [a]).erase a = mru := by
    have hNot : a ∉ mru := by
      intro hMem
      exact (nodup_append.mp hHolds.mru_nodup).2.2 a hMem a mem_cons_self rfl
    rw [erase_append_right _ hNot, erase_cons_head, append_nil]
  rcases (hHolds.mem a).mp (mem_append_right mru mem_cons_self) with ⟨i, hI, hMem⟩
  rcases hHolds.filed i hI a hMem with ⟨e, hE⟩
  have hSelf : Matches e ⟨e.hash, e.query⟩ := ⟨rfl, SameQuery.refl hE.query⟩
  have hQuery : IsQuery (Key.mk e.hash e.query).query := hE.query
  rcases hHolds.lookup hQuery hE.hash.symm with ⟨loc, hLookup, hAbsent | ⟨xs, b, ys, e', hFound⟩⟩
  · exact absurd hSelf (hAbsent.absent a hMem e hE.entry)
  -- an entry before it that matches would shadow it
  have hEq : b = a := by
    have hDistinct := hHolds.distinct i hI
    rw [hFound.split] at hMem hDistinct
    rcases mem_append.mp hMem with hX | hY
    · exact absurd hSelf (hFound.first a hX e hE.entry)
    · rcases mem_cons.mp hY with hB | hY
      · exact hB.symm
      · have hRest := (pairwise_append.mp hDistinct).2.1
        refine absurd ?_ ((pairwise_cons.mp hRest).1 a hY)
        exact ⟨e', e, hFound.filed.entry, hE.entry, hFound.matched⟩
  subst hEq
  rcases hHolds.remove hI hFound with ⟨c', hRemove, hHolds', hEntry⟩
  rw [hErase] at hHolds'
  refine ⟨c', _, ?_, hHolds', hEntry⟩
  unfold cacheRemoveOldest
  simp only [hOldest, hE.load, ok_bind, hLookup, hFound.link, hRemove]
  rfl

------
-- Flushing
------

/- The inner loop frees the entries of one chain. -/
theorem loop_flush (fuel : Nat) (hChain : Chain c.hlink (.head i) chain) (hNodup : chain.Nodup)
    (hLive : ∀ a ∈ chain, ∃ e, c.entry a = some e) (hFuel : chain.length < fuel) :
    ∃ entry,
      loop (flushBody i) fuel c = .ok { c with
        hlink := update c.hlink (.head i) none
        entry := entry } ∧
      ∀ b, b ∉ chain → entry b = c.entry b := by
  induction chain generalizing c fuel with
  | nil =>
    obtain ⟨fuel, rfl⟩ : ∃ n, fuel = n + 1 := ⟨fuel - 1, by omega⟩
    have hLink : c.hlink (.head i) = none := hChain.2
    refine ⟨c.entry, ?_, fun _ _ => rfl⟩
    rw [← hLink, update_eq_self]
    simp only [loop, flushBody, hLink]
    rfl
  | cons a chain ih =>
    obtain ⟨fuel, rfl⟩ : ∃ n, fuel = n + 1 := ⟨fuel - 1, by omega⟩
    rcases nodup_cons.mp hNodup with ⟨hNew, hRest⟩
    have hLink : c.hlink (.head i) = some a := hChain.link_eq
    rcases hLive a mem_cons_self with ⟨e, hE⟩
    have hUnlinked : Chain (update c.hlink (endLoc (.head i) []) (c.hlink (.after a)))
        (.head i) ([] ++ chain) :=
      hChain.unlink hNodup
    rcases ih (c := { c with
        hlink := update c.hlink (.head i) (c.hlink (.after a))
        entry := update c.entry a none })
      fuel hUnlinked hRest
      (by
        intro b hB
        have hNe : b ≠ a := by
          intro hEq
          rw [hEq] at hB
          exact hNew hB
        rcases hLive b (mem_cons_of_mem a hB) with ⟨e', hE'⟩
        exact ⟨e', (update_of_ne hNe ..).trans hE'⟩)
      (Nat.lt_of_succ_lt_succ hFuel) with ⟨entry, hLoop, hEntry⟩
    refine ⟨entry, ?_, ?_⟩
    · simp only [loop, flushBody, hLink, Cache.load, hE, ok_bind]
      refine hLoop.trans ?_
      simp only [update_idem]
    · intro b hB
      rcases not_or.mp (mt mem_cons.mpr hB) with ⟨hNe, hB⟩
      exact (hEntry b hB).trans (update_of_ne hNe ..)

/- The chains from `i` on are as in `c`, the others empty. -/
structure Unflushed (c : Cache) (chains : Nat → List Addr) (i : Nat) (c' : Cache) : Prop where
  count : c'.numEntries = c.numEntries
  emptied : ∀ j < i, c'.hlink (.head j) = none
  chain : ∀ j, i ≤ j → j < maxHashEntries → Chain c'.hlink (.head j) (chains j)
  entry : ∀ j, i ≤ j → j < maxHashEntries → ∀ a ∈ chains j, c'.entry a = c.entry a

theorem flushChains_spec (hHolds : Holds c chains mru) :
    ∀ (n i : Nat) (c' : Cache), i + n = maxHashEntries → Unflushed c chains i c' →
      ∃ r, flushChains n i c' = .ok r ∧ Unflushed c chains maxHashEntries r := by
  intro n
  induction n with
  | zero =>
    intro i c' hEnd hUnflushed
    rw [add_zero] at hEnd
    rw [hEnd] at hUnflushed
    exact ⟨c', rfl, hUnflushed⟩
  | succ n ih =>
    intro i c' hEnd hUnflushed
    have hI : i < maxHashEntries := by omega
    have hFuel : (chains i).length < c'.numEntries.toNat + 1 := by
      rw [hUnflushed.count, hHolds.count, Int.toNat_natCast]
      exact Nat.lt_succ_of_le (hHolds.chain_length_le hI)
    rcases loop_flush _ (hUnflushed.chain i le_rfl hI) (hHolds.nodup i hI) (by
        intro a hA
        rcases hHolds.filed i hI a hA with ⟨e, hE⟩
        rw [hUnflushed.entry i le_rfl hI a hA]
        exact ⟨e, hE.entry⟩)
      hFuel with ⟨entry, hLoop, hEntry⟩
    rw [flushChains, hLoop, ok_bind]
    apply ih (i + 1)
    · omega
    refine ⟨hUnflushed.count, ?_, ?_, ?_⟩
    · intro j hJ
      by_cases hEq : j = i
      · rw [hEq]
        exact update_self ..
      · refine (update_of_ne ?_ ..).trans (hUnflushed.emptied j (by omega))
        intro hLoc
        exact hEq (Loc.head.inj hLoc)
    · intro j hLe hJ
      apply (hUnflushed.chain j (by omega) hJ).update_of_not_mem
      rw [head_mem_locs]
      omega
    · intro j hLe hJ a hA
      refine (hEntry a ?_).trans (hUnflushed.entry j (by omega) hJ a hA)
      intro hAI
      have hEq := hHolds.chain_unique hI hJ hAI hA
      omega

/- The flush leaves a cache without entries. -/
theorem Holds.flush (hHolds : Holds c chains mru) :
    ∃ c', cacheFlushLocked c = .ok c' ∧ Holds c' (fun _ => []) [] := by
  rcases flushChains_spec hHolds maxHashEntries 0 c rfl
    ⟨rfl, nofun, fun j _ => hHolds.chain j, fun _ _ _ _ _ => rfl⟩ with ⟨r, hFlush, hUnflushed⟩
  refine ⟨{ r with
    mruNext := update r.mruNext none none
    mruPrev := update r.mruPrev none none
    numEntries := 0
    lastId := 0 }, ?_, ?_⟩
  · unfold cacheFlushLocked
    rw [hFlush, ok_bind]
    rfl
  · exact holds_empty hUnflushed.emptied (.empty (update_self none none r.mruNext)
        (update_self none none r.mruPrev)) rfl

------
-- Packets With One Tail
------

variable {query : Buffer}

section

variable {buf1 buf2 : Buffer} {p : Nat} {hash : Word}
variable (hTail : buf1.drop dnsHeaderSize = buf2.drop dnsHeaderSize)
variable (hLength : buf1.length = buf2.length)

include hTail in
theorem drop_eq_of_tail (hP : dnsHeaderSize ≤ p) : buf1.drop p = buf2.drop p := by
  obtain ⟨k, rfl⟩ := Nat.exists_eq_add_of_le hP
  simp only [← drop_drop, hTail]

/- The cursor only moves forward. -/
theorem hashQNameBody_ge {buf : Buffer} {s : Nat × Word} {ctl : Ctl (Nat × Word) (Word × Nat)}
    (hP : dnsHeaderSize ≤ s.1) (hBody : hashQNameBody buf s = .ok ctl) :
    match ctl with
    | .again next => dnsHeaderSize ≤ next.1
    | .done r => dnsHeaderSize ≤ r.2 := by
  unfold hashQNameBody at hBody
  grind

include hTail hLength

/- A name is hashed alike in both packets. -/
theorem hashQName_congr (hash : Word) (hP : dnsHeaderSize ≤ p) :
    ∃ r, hashQName buf1 p hash = .ok r ∧ hashQName buf2 p hash = .ok r ∧ dnsHeaderSize ≤ r.2 := by
  have hSame : ∀ fuel p hash, dnsHeaderSize ≤ p →
      loop (hashQNameBody buf1) fuel (p, hash) = loop (hashQNameBody buf2) fuel (p, hash) := by
    intro fuel
    induction fuel with
    | zero => exact fun _ _ _ => rfl
    | succ fuel ih =>
      intro p hash hP
      have hAt : buf1[p]? = buf2[p]? := by rw [← head?_drop, ← head?_drop, drop_eq_of_tail hTail hP]
      have hBodies : hashQNameBody buf1 (p, hash) = hashQNameBody buf2 (p, hash) := by
        simp only [hashQNameBody, hAt, hLength, drop_eq_of_tail hTail (Nat.le_succ_of_le hP)]
      simp only [loop, hBodies]
      cases hBody : hashQNameBody buf2 (p, hash) with
      | error fault => rfl
      | ok ctl =>
        cases ctl with
        | done r => rfl
        | again next => exact ih _ _ (hashQNameBody_ge hP hBody)
  rcases hashQName_total buf2 p hash with ⟨r, hR⟩
  refine ⟨r, ?_, hR, ?_⟩
  · rw [← hR, hashQName, hashQName, hSame _ _ _ hP, hLength]
  · exact loop_post (fun s : Nat × Word => dnsHeaderSize ≤ s.1) (dnsHeaderSize ≤ ·.2)
      (fun _ _ => hashQNameBody_ge) (fun _ _ => hashQNameBody_ge) hP hR

theorem hashQRs_congr (count : Nat) (hP : dnsHeaderSize ≤ p) :
    hashQRs buf1 count p hash = hashQRs buf2 count p hash := by
  induction count generalizing p hash with
  | zero => rfl
  | succ count ih =>
    rcases hashQName_congr hTail hLength hash hP with ⟨r, hR1, hR2, hNext⟩
    simp only [hashQRs, hashQR, hR1, hR2, ok_bind, pure_eq_ok, hashBytes,
      drop_eq_of_tail hTail hNext, hLength]
    exact ih (le_trans hNext (le_max_left _ _))

end

------
-- Keys
------

/- The keys of equal queries have one hash if the packets agree behind the header. -/
theorem SameQuery.hash_eq {query1 query2 : Buffer} (hSame : SameQuery query1 query2)
    (hTail : query1.drop dnsHeaderSize = query2.drop dnsHeaderSize) :
    hashQuery query1 = hashQuery query2 := by
  rcases hSame with ⟨hLength, rd, qs, hQuery1, hQuery2⟩
  rcases hQuery1.flags with ⟨f1, hAt1, hRd1⟩
  rcases hQuery2.flags with ⟨f2, hAt2, hRd2⟩
  simp only [hashQuery, Buffer.load_eq hAt1, Buffer.load_eq hAt2, ok_bind, hRd1, hRd2,
    hQuery1.readInt16_eq, hQuery2.readInt16_eq]
  exact hashQRs_congr hTail hLength _ le_rfl

/- `entry_init_key` accepts the query. -/
theorem entryInitKey_some {key : Key} : entryInitKey query = .ok (some key) ↔
    key.query = query ∧ hashQuery query = .ok key.hash ∧ checkQuery query = .ok true := by
  constructor
  · intro hKey
    rcases bind_eq_ok.mp hKey with ⟨hash, hHash, hKey⟩
    rcases bind_eq_ok.mp hKey with ⟨b, hCheck, hKey⟩
    cases b with
    | false => cases hKey
    | true =>
      cases hKey
      exact ⟨rfl, hHash, hCheck⟩
  · rintro ⟨rfl, hHash, hCheck⟩
    simp [entryInitKey, hHash, hCheck]

theorem isQuery_of_check (hCheck : checkQuery query = .ok true) :
    IsQuery query := by
  by_cases hHeader : dnsHeaderSize ≤ query.length
  · rcases checkQuery_spec hHeader with ⟨b, hB, hQuery⟩
    exact hQuery (Except.ok.inj (hB.symm.trans hCheck))
  · rw [checkQuery, if_pos (not_le.mp hHeader)] at hCheck
    cases hCheck

/- Of two keys that compare equal the second finds the entry of the first, or one that matches. -/
theorem equal_keys_found {query1 query2 : Buffer} {key1 key2 : Key}
    (hKey1 : entryInitKey query1 = .ok (some key1)) (hKey2 : entryInitKey query2 = .ok (some key2))
    (hEquals : entryEquals query1 query2 = .ok true)
    (hTail : query1.drop dnsHeaderSize = query2.drop dnsHeaderSize) :
    key1.hash = key2.hash ∧ ∀ c chains mru a e, Holds c chains mru → a ∈ mru →
      c.entry a = some e → e.hash = key1.hash → e.query = query1 →
      ∃ loc b e', cacheLookupP c key2 = .ok loc ∧ c.hlink loc = some b ∧ c.entry b = some e' ∧
        Matches e' key2 := by
  rcases entryInitKey_some.mp hKey1 with ⟨rfl, hHash1, hCheck1⟩
  rcases entryInitKey_some.mp hKey2 with ⟨rfl, hHash2, hCheck2⟩
  have hQuery1 := isQuery_of_check hCheck1
  have hQuery2 := isQuery_of_check hCheck2
  rcases entryEquals_spec hQuery1 hQuery2 with ⟨b, hB, hSpec⟩
  have hSame := hSpec.mp (Except.ok.inj (hB.symm.trans hEquals))
  have hEq : key1.hash = key2.hash :=
    Except.ok.inj (hHash1.symm.trans ((hSame.hash_eq hTail).trans hHash2))
  refine ⟨hEq, ?_⟩
  intro c chains mru a e hHolds hMem hEntry hHash hQuery
  have hMatches : Matches e key2 := ⟨hHash.trans hEq, hQuery ▸ hSame⟩
  rcases (hHolds.mem a).mp hMem with ⟨i, hI, hChain⟩
  rcases hHolds.filed i hI a hChain with ⟨e', hFiled⟩
  have hIndex : i = key2.hash.toNat % maxHashEntries := by
    rw [← hFiled.hash, ← hMatches.1, Option.some.inj (hFiled.entry.symm.trans hEntry)]
  rcases hHolds.lookup hQuery2 hIndex with ⟨loc, hLookup, hAbsent | ⟨xs, b, ys, e', hFound⟩⟩
  · exact absurd hMatches (hAbsent.absent a hChain e hEntry)
  · exact ⟨loc, b, e', hLookup, hFound.link, hFound.filed.entry, hFound.matched⟩

/- The root name, type A, class IN, and one byte behind the question. -/
def rootQuery (last : UInt8) : Buffer :=
  [0, 0, 0, 0, 0, 1, 0, 0, 0, 0, 0, 0, 0, 0, 1, 0, 1, last]

theorem equal_queries_hash_apart :
    checkQuery (rootQuery 0) = .ok true ∧ checkQuery (rootQuery 1) = .ok true ∧
    entryEquals (rootQuery 0) (rootQuery 1) = .ok true ∧
    hashQuery (rootQuery 0) ≠ hashQuery (rootQuery 1) := by
  decide +kernel

theorem equal_keys_found_other_id : ∃ key1 key2, entryInitKey (rootQuery 0) = .ok (some key1) ∧
    entryInitKey (7 :: (rootQuery 0).tail) = .ok (some key2) ∧ key1.hash = key2.hash := by
  have hKey1 : entryInitKey (rootQuery 0) = .ok (some ⟨0x4190d5e5, rootQuery 0⟩) :=
    entryInitKey_some.mpr ⟨rfl, by decide +kernel, by decide +kernel⟩
  have hKey2 : entryInitKey (7 :: (rootQuery 0).tail) =
      .ok (some ⟨0x4190d5e5, 7 :: (rootQuery 0).tail⟩) :=
    entryInitKey_some.mpr ⟨rfl, by decide +kernel, by decide +kernel⟩
  exact ⟨_, _, hKey1, hKey2, (equal_keys_found hKey1 hKey2 (by decide +kernel) rfl).1⟩

end OpenIvi.Bionic.ResolvCache
