import OpenIvi.Lib.Buffer

/-
  Writing and reading MTD partitions.

  All positions in a partition are multiples of the erase size, so they are given as block numbers.
  A chip says for every block what `MEMGETBADBLOCK` answers, whether erasing, writing and verifying
  the block works at each of the two tries, and what a later read of a block sees that was given up.
  Opening, seeking and `ECCGETSTATS` succeed.

  `Writes` and `Reads` are runs of `write_block` and `read_block`. The calls for data of any length
  cut the stream of bytes into such runs, however the data is split.

  The data survives if and only if the reader finds the blocks of the writer. If it does not, the
  data that fills the partition up to the first block about which the two disagree is not read back.

  Main declarations:
    * `Chip`
    * `Writes`
    * `mtdReadData_eq`
    * `mtd_data_survives_iff`
-/

------
-- Partitions And Chips
------

namespace OpenIvi.Recovery.Mtd

open Lib List

/- The size is a `size_t`. -/
structure Partition where
  size : Nat
  eraseSize : Nat
  size_lt : size < 2 ^ 32
  eraseSize_pos : 0 < eraseSize

/- The conversion to `int`. -/
def toInt (n : Nat) : Int :=
  Int.bmod n (2 ^ 32)

/- The blocks with `pos + size <= (int) partition->size`. -/
def Partition.blocks (p : Partition) : Nat :=
  (toInt p.size).toNat / p.eraseSize

/- The number of blocks from a position on. -/
def Partition.behind (p : Partition) (pos : Nat) : Int :=
  toInt ((p.size - pos * p.eraseSize) / p.eraseSize)

/- What `MEMGETBADBLOCK` returns. -/
inductive BadBlock where
| good
| bad
/- -1 with `EOPNOTSUPP`. -/
| unsupported
/- -1 with another error. -/
| failed
deriving DecidableEq, Repr

structure Chip where
  badBlock : Nat → BadBlock
  /- Whether a block is written and verified at a try. -/
  works : Nat → Nat → Bool
  /-
    The content of a block that was given up, unless reading
    it is an error or has ECC failures.
  -/
  left : Nat → Option Buffer
  /- Whether `mtd_erase_blocks` erases a block. -/
  erases : Nat → Bool

/- The content of the blocks that can be read. -/
abbrev Contents := Nat → Option Buffer

def setBlock (c : Contents) (i : Nat) (content : Option Buffer) : Contents :=
  fun j => if j = i then content else c j

------
-- Writing
------

variable (p : Partition) (chip : Chip)

/- The file position, `ctx->buffer` and the device. -/
structure Writer where
  pos : Nat
  /- The `stored` bytes of the buffer. -/
  stored : Buffer
  contents : Contents

/- `write_block` does not try known bad blocks. -/
def BadBlock.skipped : BadBlock → Bool
| .good => false
| .bad => true
| .unsupported => false
| .failed => true

/- One of the two tries works. -/
def Chip.written (chip : Chip) (i : Nat) : Bool :=
  (List.range 2).any (chip.works i)

/- The loop of `write_block` over the given blocks. -/
def writeBlockFrom (data : Buffer) : Nat → Nat → Contents → Option (Nat × Contents)
| 0, _, _ => none
| left + 1, pos, c =>
  if (chip.badBlock pos).skipped then
    writeBlockFrom data left (pos + 1) c
  else if chip.written pos then
    some (pos + 1, setBlock c pos (some data))
  else
    writeBlockFrom data left (pos + 1) (setBlock c pos (chip.left pos))

section

variable (w : Writer)

def writeBlock (data : Buffer) : Option Writer :=
  (writeBlockFrom chip data (p.blocks - w.pos) w.pos w.contents).map
    fun (pos, c) => { w with pos := pos, contents := c }

/- Coalesce partial writes into complete blocks. -/
def coalesce (rest : Buffer) : Writer × Buffer :=
  if w.stored ≠ [] ∨ rest.length < p.eraseSize then
    let copy := min rest.length (p.eraseSize - w.stored.length)
    ({ w with stored := w.stored ++ rest.take copy }, rest.drop copy)
  else
    (w, rest)

/- If a complete block was accumulated, write it. -/
def flushBlock : Option Writer :=
  if w.stored.length = p.eraseSize then
    (writeBlock p chip w w.stored).map fun w => { w with stored := [] }
  else
    some w

/- Write complete blocks from the user's buffer; there are at most as many as bytes. -/
def writeWhole : Nat → Writer → Buffer → Option (Writer × Buffer)
| 0, w, rest => some (w, rest)
| n + 1, w, rest =>
  if w.stored = [] ∧ p.eraseSize ≤ rest.length then do
    let w ← writeBlock p chip w (rest.take p.eraseSize)
    writeWhole n w (rest.drop p.eraseSize)
  else
    some (w, rest)

/- One pass of the loop of `mtd_write_data`. -/
def writePass (rest : Buffer) : Option (Writer × Buffer) := do
  let (w, rest) := coalesce p w rest
  let w ← flushBlock p chip w
  writeWhole p chip rest.length w rest

def writeBody : Writer × Buffer → Except Fault (Ctl (Writer × Buffer) (Option Writer))
| (w, rest) =>
  if rest = [] then .ok (.done (some w))
  else
    match writePass p chip w rest with
    | none => .ok (.done none)
    | some next => .ok (.again next)

/- `mtd_write_data`; there is nothing if it returns -1. -/
def mtdWriteData (data : Buffer) : Except Fault (Option Writer) :=
  loop (writeBody p chip) (data.length + 1) (w, data)

/- Zero-pad and write any pending data. -/
def writePending : Option Writer :=
  if w.stored ≠ [] then
    let padding := p.eraseSize - w.stored.length
    (writeBlock p chip w (w.stored ++ List.replicate padding 0)).map
      fun w => { w with stored := [] }
  else
    some w

/- Erase blocks from `pos` on, but no known bad ones. -/
def eraseFrom : Nat → Nat → Contents → Contents
| 0, _, c => c
| blocks + 1, pos, c =>
  if chip.badBlock pos ≠ .bad ∧ chip.erases pos then
    eraseFrom blocks (pos + 1) (setBlock c pos (some (List.replicate p.eraseSize 0xff)))
  else
    eraseFrom blocks (pos + 1) c

/- Erase the specified number of blocks. -/
def eraseRest (blocks : Int) : Option Writer :=
  let total := p.behind w.pos
  let blocks := if blocks < 0 then total else blocks
  if total < blocks then none
  else
    some { w with contents := eraseFrom p chip blocks.toNat w.pos w.contents }

def mtdEraseBlocks (blocks : Int) : Option Writer :=
  (writePending p chip w).bind fun w => eraseRest p chip w blocks

def mtdWriteClose : Option Contents :=
  (mtdEraseBlocks p chip w 0).map Writer.contents

end

def writeAll : Writer → List Buffer → Except Fault (Option Writer)
| w, [] => .ok (some w)
| w, data :: datas => do
    match ← mtdWriteData p chip w data with
    | none => return none
    | some w => writeAll w datas

/-
  Write the data in a fresh context, erase the rest of the partition and close; the device, if
  everything succeeds.
-/
def writeSession (initial : Contents) (datas : List Buffer) : Except Fault (Option Contents) := do
  match ← writeAll p chip ⟨0, [], initial⟩ datas with
  | none => return none
  | some w => return (mtdEraseBlocks p chip w (-1)).bind (mtdWriteClose p chip)

------
-- Reading
------

variable (p : Partition) (chip : Chip) (c : Contents)

/- The file position and the unread part of the buffer. -/
structure Reader where
  pos : Nat
  pending : Buffer

/- The loop of `read_block` over the given blocks. -/
def readBlockFrom : Nat → Nat → Option (Buffer × Nat)
| 0, _ => none
| left + 1, pos =>
  match c pos with
  | none => readBlockFrom left (pos + 1)
  | some data =>
    if chip.badBlock pos ≠ .good then
      readBlockFrom left (pos + 1)
    else
      some (data, pos + 1)

def readBlock (pos : Nat) : Option (Buffer × Nat) :=
  readBlockFrom chip c (p.blocks - pos) pos

/- The reader, the bytes read and how many are missing. -/
abbrev ReadState := Reader × Buffer × Nat

/- Take what is left in the buffer. -/
def takePending : ReadState → ReadState
| (r, out, need) =>
  let copy := min need r.pending.length
  ({ r with pending := r.pending.drop copy }, out ++ r.pending.take copy, need - copy)

/- Read complete blocks directly into the user's buffer; there are at most as many as bytes. -/
def readWhole : Nat → ReadState → Option ReadState
| 0, s => some s
| n + 1, (r, out, need) =>
  if r.pending = [] ∧ p.eraseSize ≤ need then do
    let (data, pos) ← readBlock p chip c r.pos
    readWhole n ({ r with pos := pos }, out ++ data, need - p.eraseSize)
  else
    some (r, out, need)

/- Read the next block into the buffer. -/
def refill : ReadState → Option ReadState
| (r, out, need) =>
  if r.pending = [] ∧ 0 < need then do
    let (data, pos) ← readBlock p chip c r.pos
    return (⟨pos, data⟩, out, need)
  else
    some (r, out, need)

def readPass (s : ReadState) : Option ReadState := do
  let s ← readWhole p chip c s.2.2 (takePending s)
  refill p chip c s

def readBody : ReadState → Except Fault (Ctl ReadState (Option (Buffer × Reader)))
| (r, out, need) =>
  if need = 0 then .ok (.done (some (out, r)))
  else
    match readPass p chip c (r, out, need) with
    | none => .ok (.done none)
    | some next => .ok (.again next)

/- `mtd_read_data`; there is nothing if it returns -1. -/
def mtdReadData (r : Reader) (len : Nat) : Except Fault (Option (Buffer × Reader)) :=
  loop (readBody p chip c) (len + 2) (r, [], len)

def readAll : Reader → List Nat → Except Fault (Option Buffer)
| _, [] => .ok (some [])
| r, len :: lens => do
    match ← mtdReadData p chip c r len with
    | none => return none
    | some (data, r) => return (← readAll r lens).map (data ++ ·)

/- Read from a fresh context. -/
def readSession (lens : List Nat) : Except Fault (Option Buffer) :=
  readAll p chip c ⟨0, []⟩ lens

------
-- Writing A Block
------

variable {r : Reader} {pos : Nat} {data : Buffer}

/- `write_block` succeeds at the block. -/
def Chip.Writable (chip : Chip) (i : Nat) : Prop :=
  (chip.badBlock i).skipped = false ∧ chip.written i = true

/- `write_block` tries the block and gives it up. -/
def Chip.GivenUp (chip : Chip) (i : Nat) : Prop :=
  (chip.badBlock i).skipped = false ∧ chip.written i = false

instance (chip : Chip) (i : Nat) : Decidable (chip.Writable i) :=
  inferInstanceAs (Decidable (_ ∧ _))

instance (chip : Chip) (i : Nat) : Decidable (chip.GivenUp i) :=
  inferInstanceAs (Decidable (_ ∧ _))

variable {p : Partition} {chip : Chip}

@[simp] theorem setBlock_self (c : Contents) (i : Nat)
    (content : Option Buffer) : setBlock c i content i = content :=
  if_pos rfl

theorem setBlock_ne (c : Contents) {i j : Nat} (content : Option Buffer) (hNe : j ≠ i) :
    setBlock c i content j = c j :=
  if_neg hNe

/-
  The data is put into the first block that can be written from `pos` on; the blocks in front of it
  are skipped or given up.
-/
structure Placed (chip : Chip) (data : Buffer) (pos i : Nat) (c c' : Contents) : Prop where
  pos_le : pos ≤ i
  writable : chip.Writable i
  holds : c' i = some data
  between : ∀ j, pos ≤ j → j < i → (chip.badBlock j).skipped = true ∨
      chip.GivenUp j ∧ c' j = chip.left j
  same : ∀ j, j < pos ∨ i < j → c' j = c j

/- The block at `pos` is left behind and the block is placed further on. -/
theorem Placed.later {i : Nat} {c d c' : Contents} (hPlaced : Placed chip data (pos + 1) i d c')
    (hHere : (chip.badBlock pos).skipped = true ∨ chip.GivenUp pos ∧ c' pos = chip.left pos)
    (hSame : ∀ j, j ≠ pos → d j = c j) : Placed chip data pos i c c' := by
  have hLe := hPlaced.pos_le
  refine ⟨by omega, hPlaced.writable, hPlaced.holds, ?_, ?_⟩
  · intro j hLow hHigh
    by_cases hFirst : j = pos
    · rw [hFirst]
      exact hHere
    · exact hPlaced.between j (by omega) hHigh
  · intro j hOut
    rw [hPlaced.same j (by omega), hSame j (by omega)]

theorem writeBlockFrom_placed {left pos' : Nat} {c c' : Contents}
    (hWrite : writeBlockFrom chip data left pos c = some (pos', c')) :
    ∃ i, i < pos + left ∧ pos' = i + 1 ∧ Placed chip data pos i c c' := by
  induction left generalizing pos c with
  | zero => cases hWrite
  | succ left ih =>
    unfold writeBlockFrom at hWrite
    split at hWrite
    · rename_i hSkip
      rcases ih hWrite with ⟨i, hLt, hPos, hPlaced⟩
      exact ⟨i, by omega, hPos, hPlaced.later (.inl hSkip) fun _ _ => rfl⟩
    · rename_i hSkip
      have hTried := Bool.not_eq_true _ ▸ hSkip
      split at hWrite
      · rename_i hWritten
        cases hWrite
        refine ⟨pos, by omega, rfl, le_refl _, ⟨hTried, hWritten⟩, setBlock_self _ _ _, ?_, ?_⟩
        · omega
        · intro j hOut
          exact setBlock_ne _ _ (by omega)
      · rename_i hWritten
        rcases ih hWrite with ⟨i, hLt, hPos, hPlaced⟩
        refine ⟨i, by omega, hPos, hPlaced.later (.inr ?_) fun j => setBlock_ne _ _⟩
        rw [hPlaced.same pos (by omega), setBlock_self]
        exact ⟨⟨hTried, Bool.not_eq_true _ ▸ hWritten⟩, rfl⟩

/- A block that can be written is found. -/
theorem writeBlockFrom_isSome {left i : Nat}
    {c : Contents} (hLow : pos ≤ i) (hHigh : i < pos + left) (hWritable : chip.Writable i) :
    ∃ s, writeBlockFrom chip data left pos c = some s := by
  induction left generalizing pos c with
  | zero => omega
  | succ left ih =>
    unfold writeBlockFrom
    split
    · rename_i hSkip
      have hNe : pos ≠ i := by
        rintro rfl
        rw [hWritable.1] at hSkip
        cases hSkip
      exact ih (by omega) (by omega)
    · split
      · exact ⟨_, rfl⟩
      · rename_i hWritten
        have hNe : pos ≠ i := by
          rintro rfl
          exact hWritten hWritable.2
        exact ih (by omega) (by omega)

------
-- Writing A Stream
------

/- Calls of `write_block` that succeed. -/
inductive Writes (p : Partition) (chip : Chip) :
    Nat → Contents → List Buffer → Nat → Contents → Prop where
| nil {pos : Nat} {c : Contents} : Writes p chip pos c [] pos c
| cons {pos pos' pos'' : Nat} {c c' c'' : Contents} {data : Buffer} {blocks : List Buffer}
    (hWrite : writeBlockFrom chip data (p.blocks - pos) pos c = some (pos', c'))
    (hRest : Writes p chip pos' c' blocks pos'' c'') :
    Writes p chip pos c (data :: blocks) pos'' c''

theorem Writes.append {pos' pos'' : Nat} {c c' c'' : Contents} {blocks blocks' : List Buffer}
    (hFirst : Writes p chip pos c blocks pos' c')
    (hSecond : Writes p chip pos' c' blocks' pos'' c'') :
    Writes p chip pos c (blocks ++ blocks') pos'' c'' := by
  induction hFirst with
  | nil => exact hSecond
  | cons hWrite _ ih => exact .cons hWrite (ih hSecond)

/- The writer has taken the bytes: blocks of them are written and the others are stored. -/
def Stores (p : Partition) (chip : Chip) (w : Writer) (bytes : Buffer) (w' : Writer) : Prop :=
  ∃ blocks, Writes p chip w.pos w.contents blocks w'.pos w'.contents ∧
      (∀ b ∈ blocks, b.length = p.eraseSize) ∧ blocks.flatten ++ w'.stored = w.stored ++ bytes

variable {w w' : Writer}

theorem Stores.trans {w'' : Writer} {bytes bytes' : Buffer} (hFirst : Stores p chip w bytes w')
    (hSecond : Stores p chip w' bytes' w'') : Stores p chip w (bytes ++ bytes') w'' := by
  rcases hFirst with ⟨blocks, hWrites, hLen, hBytes⟩
  rcases hSecond with ⟨blocks', hWrites', hLen', hBytes'⟩
  refine ⟨blocks ++ blocks', hWrites.append hWrites', ?_, ?_⟩
  · intro b hMem
    rcases mem_append.mp hMem with hOld | hNew
    · exact hLen b hOld
    · exact hLen' b hNew
  · rw [flatten_append, append_assoc, hBytes', ← append_assoc, hBytes, append_assoc]

theorem Stores.refl (w : Writer) : Stores p chip w [] w :=
  ⟨[], .nil, by simp, by simp⟩

theorem writeBlock_some (hWrite : writeBlock p chip w data = some w') :
    w'.stored = w.stored ∧ Writes p chip w.pos w.contents [data] w'.pos
      w'.contents := by
  rcases Option.map_eq_some_iff.mp hWrite with ⟨⟨pos, c⟩, hFrom, rfl⟩
  exact ⟨rfl, .cons hFrom .nil⟩

theorem coalesce_spec {rest : Buffer} (hStored : w.stored.length < p.eraseSize) :
    ∃ taken, rest = taken ++ (coalesce p w rest).2 ∧ Stores p chip w taken (coalesce p w rest).1 ∧
      (coalesce p w rest).1.stored.length ≤ p.eraseSize ∧
      (taken = [] → rest ≠ [] → (coalesce p w rest).1.stored = [] ∧
        p.eraseSize ≤ (coalesce p w rest).2.length) := by
  unfold coalesce
  split
  · refine ⟨rest.take (min rest.length (p.eraseSize - w.stored.length)), ?_,
      ⟨[], .nil, by simp, by simp⟩, ?_, ?_⟩
    · exact (take_append_drop _ rest).symm
    · simp only [length_append, length_take]
      omega
    · intro hNone hSome
      have hLen := congrArg length hNone
      have hPos := length_pos_iff.mpr hSome
      simp only [length_take, length_nil] at hLen
      omega
  · rename_i hWhole
    refine ⟨[], rfl, .refl w, le_of_lt hStored, ?_⟩
    intro _ _
    exact ⟨by_contra fun h => hWhole (.inl h), Nat.le_of_not_lt fun h => hWhole (.inr h)⟩

theorem flushBlock_spec (hStored : w.stored.length ≤ p.eraseSize)
    (hFlush : flushBlock p chip w = some w') :
    w'.stored.length < p.eraseSize ∧ Stores p chip w [] w' ∧ (w.stored = [] → w'.stored = []) := by
  unfold flushBlock at hFlush
  split at hFlush
  · rename_i hFull
    rcases Option.map_eq_some_iff.mp hFlush with ⟨w₁, hWrite, rfl⟩
    rcases writeBlock_some hWrite with ⟨_, hWrites⟩
    refine ⟨p.eraseSize_pos, ⟨[w.stored], hWrites, ?_, ?_⟩, fun _ => rfl⟩
    · intro b hMem
      rw [mem_singleton.mp hMem]
      exact hFull
    · simp
  · cases hFlush
    exact ⟨by omega, .refl w, id⟩

theorem writeWhole_spec {n : Nat} {rest rest' : Buffer}
    (hWhole : writeWhole p chip n w rest = some (w', rest')) :
    w'.stored = w.stored ∧ (∃ taken, rest = taken ++ rest' ∧ Stores p chip w taken w') ∧
      (0 < n → w.stored = [] → p.eraseSize ≤ rest.length → rest'.length < rest.length) := by
  induction n generalizing w rest with
  | zero =>
    cases hWhole
    exact ⟨rfl, ⟨[], rfl, .refl _⟩, by omega⟩
  | succ n ih =>
    unfold writeWhole at hWhole
    split at hWhole
    · rename_i hGo
      rcases Option.bind_eq_some_iff.mp hWhole with ⟨w₁, hWrite, hNext⟩
      rcases writeBlock_some hWrite with ⟨hSame, hWrites⟩
      rcases ih hNext with ⟨hStored, ⟨taken, hRest, hStores⟩, _⟩
      have hBlock : Stores p chip w (rest.take p.eraseSize) w₁ := by
        refine ⟨[rest.take p.eraseSize], hWrites, ?_, ?_⟩
        · intro b hMem
          rw [mem_singleton.mp hMem, length_take]
          omega
        · simp [hSame, hGo.1]
      have hSplit : rest = (rest.take p.eraseSize ++ taken) ++ rest' := by
        rw [append_assoc, ← hRest, take_append_drop]
      refine ⟨hStored.trans hSame, ⟨_, hSplit, hBlock.trans hStores⟩, ?_⟩
      have hLens := congrArg length hSplit
      have hPos := p.eraseSize_pos
      simp only [length_append, length_take] at hLens
      omega
    · rename_i hStop
      cases hWhole
      refine ⟨rfl, ⟨[], rfl, .refl _⟩, ?_⟩
      intro _ hEmpty hLen
      exact absurd ⟨hEmpty, hLen⟩ hStop

section

variable (hStored : w.stored.length < p.eraseSize)

include hStored

/- One pass takes some of the bytes. -/
theorem writePass_spec {rest rest' : Buffer} (hRest : rest ≠ [])
    (hPass : writePass p chip w rest = some (w', rest')) :
    w'.stored.length < p.eraseSize ∧ rest'.length < rest.length ∧
      ∃ taken, rest = taken ++ rest' ∧ Stores p chip w taken w' := by
  rcases @coalesce_spec p chip w rest hStored with ⟨taken, hSplit, hFirst, hLen, hNone⟩
  rcases hCoalesce : coalesce p w rest with ⟨w₀, rest₀⟩
  rw [hCoalesce] at hSplit hFirst hLen hNone
  simp only [writePass, hCoalesce] at hPass
  rcases Option.bind_eq_some_iff.mp hPass with ⟨w₁, hFlush, hWhole⟩
  rcases flushBlock_spec hLen hFlush with ⟨hShort, hSecond, hEmpty⟩
  rcases writeWhole_spec hWhole with ⟨hSame, ⟨more, hMore, hThird⟩, hProgress⟩
  refine ⟨hSame ▸ hShort, ?_, taken ++ more, ?_, ?_⟩
  · have hSplitLen := congrArg length hSplit
    have hMoreLen := congrArg length hMore
    simp only [length_append] at hSplitLen hMoreLen
    by_cases hTaken : taken = []
    · rcases hNone hTaken hRest with ⟨hNil, hBig⟩
      have hPos := p.eraseSize_pos
      have hLess := hProgress (lt_of_lt_of_le hPos hBig) (hEmpty hNil) hBig
      omega
    · have hPos := length_pos_iff.mpr hTaken
      omega
  · rw [append_assoc, ← hMore]
    exact hSplit
  · have hAll := (hFirst.trans hSecond).trans hThird
    rwa [append_nil] at hAll

/- `mtd_write_data` returns, and unless it fails it has taken all the data. -/
theorem mtdWriteData_spec (data : Buffer) :
    ∃ result, mtdWriteData p chip w data = .ok result ∧
      ∀ w', result = some w' → w'.stored.length < p.eraseSize ∧ Stores p chip w data w' := by
  have hLoop : ∀ fuel w rest, w.stored.length < p.eraseSize → rest.length < fuel →
      ∃ result, loop (writeBody p chip) fuel (w, rest) = .ok result ∧
        ∀ w', result = some w' → w'.stored.length < p.eraseSize ∧ Stores p chip w rest w' := by
    intro fuel
    induction fuel with
    | zero =>
      omega
    | succ fuel ih =>
      intro w rest hStored hFuel
      by_cases hEnd : rest = []
      · refine ⟨some w, by simp [loop, writeBody, hEnd], ?_⟩
        intro w' hEq
        cases hEq
        rw [hEnd]
        exact ⟨hStored, .refl w⟩
      · rcases hPass : writePass p chip w rest with _ | ⟨w₁, rest₁⟩
        · refine ⟨none, by
            simp [loop, writeBody, hEnd, hPass], ?_⟩
          intro w' hEq
          cases hEq
        · rcases writePass_spec hStored hEnd hPass with ⟨hShort, hLess, taken, hSplit, hStores⟩
          rcases ih w₁ rest₁ hShort (by omega) with ⟨result, hRun, hSpec⟩
          refine ⟨result, ?_, ?_⟩
          · simp only [loop, writeBody, if_neg hEnd, hPass]
            exact hRun
          · intro w' hEq
            rcases hSpec w' hEq with ⟨hLen, hRest⟩
            rw [hSplit]
            exact ⟨hLen, hStores.trans hRest⟩
  exact hLoop (data.length + 1) w data hStored (Nat.lt_succ_self _)

theorem writeAll_spec (datas : List Buffer) :
    ∃ result, writeAll p chip w datas = .ok result ∧
      ∀ w', result = some w' → w'.stored.length < p.eraseSize ∧
        Stores p chip w datas.flatten w' := by
  induction datas generalizing w with
  | nil =>
    refine ⟨some w, rfl, ?_⟩
    intro w' hEq
    cases hEq
    exact ⟨hStored, .refl w⟩
  | cons data datas ih =>
    rcases mtdWriteData_spec hStored data with ⟨result, hWrite, hSpec⟩
    cases result with
    | none =>
      refine ⟨none, by
        rw [writeAll, hWrite, ok_bind]
        rfl, ?_⟩
      intro w' hEq
      cases hEq
    | some w₁ =>
      rcases hSpec w₁ rfl with ⟨hShort, hStores⟩
      rcases ih hShort with ⟨result, hRun, hRest⟩
      refine ⟨result, by
        rw [writeAll, hWrite, ok_bind]
        exact hRun, ?_⟩
      intro w' hEq
      rcases hRest w' hEq with ⟨hLen, hLater⟩
      exact ⟨hLen, hStores.trans hLater⟩

/- What is pending is written with zeros behind it. -/
theorem writePending_spec (hWrite : writePending p chip w = some w') :
    w'.stored = [] ∧ ∃ zeros, Stores p chip w zeros w' := by
  unfold writePending at hWrite
  split at hWrite
  · rcases Option.map_eq_some_iff.mp hWrite with ⟨w₁, hBlock, rfl⟩
    rcases writeBlock_some hBlock with ⟨_, hWrites⟩
    refine ⟨rfl, replicate (p.eraseSize - w.stored.length) 0, [_], hWrites, ?_, ?_⟩
    · intro b hMem
      rw [mem_singleton.mp hMem, length_append, length_replicate]
      omega
    · simp
  · rename_i hNone
    cases hWrite
    exact ⟨not_not.mp hNone, [], .refl w⟩

end

theorem eraseFrom_of_lt {blocks j : Nat} {c : Contents}
    (hLt : j < pos) : eraseFrom p chip blocks pos c j = c j := by
  induction blocks generalizing pos c with
  | zero => rfl
  | succ blocks ih =>
    unfold eraseFrom
    split
    · rw [ih (by omega), setBlock_ne _ _ (by omega)]
    · rw [ih (by omega)]

theorem eraseRest_spec {blocks : Int} (hErase : eraseRest p chip w blocks = some w') :
    w'.pos = w.pos ∧ w'.stored = w.stored ∧ ∀ j, j < w.pos → w'.contents j = w.contents j := by
  simp only [eraseRest] at hErase
  generalize (if blocks < 0 then _ else blocks) = count at hErase
  split at hErase
  · cases hErase
  · cases hErase
    refine ⟨rfl, rfl, ?_⟩
    intro j hLt
    exact eraseFrom_of_lt hLt

theorem mtdWriteClose_spec {c : Contents} (hStored : w.stored = [])
    (hClose : mtdWriteClose p chip w = some c) : ∀ j, j < w.pos → c j = w.contents j := by
  rcases Option.map_eq_some_iff.mp hClose with ⟨w', hErase, rfl⟩
  have hPending : writePending p chip w = some w := by simp [writePending, hStored]
  unfold mtdEraseBlocks at hErase
  rw [hPending, Option.bind_some] at hErase
  exact (eraseRest_spec hErase).2.2

/-
  After a session the blocks of the data, with some padding, are written from the beginning of the
  partition on.
-/
theorem writeSession_spec {initial c : Contents} {datas : List Buffer}
    (hSession : writeSession p chip initial datas = .ok (some c)) :
    ∃ blocks zeros pos c₁, Writes p chip 0 initial blocks pos c₁ ∧
      (∀ b ∈ blocks, b.length = p.eraseSize) ∧ blocks.flatten = datas.flatten ++ zeros ∧
      ∀ j, j < pos → c j = c₁ j := by
  have hFresh : (⟨0, [], initial⟩ : Writer).stored.length < p.eraseSize := p.eraseSize_pos
  rcases writeAll_spec hFresh datas with ⟨result, hWrite, hSpec⟩
  unfold writeSession at hSession
  rw [hWrite, ok_bind] at hSession
  cases result with
  | none => cases hSession
  | some w =>
    rcases hSpec w rfl with ⟨hShort, hStores⟩
    rcases Option.bind_eq_some_iff.mp (Except.ok.inj hSession) with ⟨w', hErase, hClose⟩
    rcases Option.bind_eq_some_iff.mp hErase with ⟨w₁, hPending, hRest⟩
    rcases writePending_spec hShort hPending with ⟨hNil, zeros, hPad⟩
    rcases eraseRest_spec hRest with ⟨hPos, hStored, hSame⟩
    have hClosed := mtdWriteClose_spec (hStored.trans hNil) hClose
    rcases hStores.trans hPad with ⟨blocks, hWrites, hLen, hBytes⟩
    refine ⟨blocks, zeros, w₁.pos, w₁.contents, hWrites, hLen, ?_, ?_⟩
    · rw [hNil, append_nil, nil_append] at hBytes
      exact hBytes
    · intro j hLt
      rw [hClosed j (hPos.symm ▸ hLt), hSame j hLt]

------
-- Reading A Stream
------

/- Calls of `read_block` that succeed. -/
inductive Reads (p : Partition) (chip : Chip) (c : Contents) : Nat → List Buffer → Nat → Prop where
| nil {pos : Nat} : Reads p chip c pos [] pos
| cons {pos pos' pos'' : Nat} {data : Buffer} {blocks : List Buffer}
    (hRead : readBlock p chip c pos = some (data, pos'))
    (hRest : Reads p chip c pos' blocks pos'') : Reads p chip c pos (data :: blocks) pos''

/- The bytes that a reader can get. -/
def Source (p : Partition) (chip : Chip) (c : Contents) (r : Reader) (stream : Buffer) : Prop :=
  ∃ blocks pos, Reads p chip c r.pos blocks pos ∧ (∀ b ∈ blocks, b.length = p.eraseSize) ∧
      stream = r.pending ++ blocks.flatten

/-
  The bytes read so far and those that the reader can get are the stream, and there are enough of
  them.
-/
structure Serving (p : Partition) (chip : Chip) (c : Contents)
    (stream : Buffer) (len : Nat) (s : ReadState) : Prop where
  source : ∃ rest, Source p chip c s.1 rest ∧ s.2.1 ++ rest = stream
  missing : s.2.1.length + s.2.2 = len
  enough : len ≤ stream.length

variable {c : Contents} {stream : Buffer} {len : Nat} {s : ReadState}

theorem Serving.takePending (hServing : Serving p chip c stream len s) :
    Serving p chip c stream len (takePending s) := by
  rcases s with ⟨r, out, need⟩
  rcases hServing with ⟨⟨rest, ⟨blocks, stop, hReads, hLen, hRest⟩, hStream⟩, hMissing, hEnough⟩
  refine ⟨⟨_, ⟨blocks, stop, hReads, hLen, rfl⟩, ?_⟩, ?_, hEnough⟩
  · rw [← hStream, hRest]
    simp only [Mtd.takePending]
    rw [append_assoc, ← append_assoc (take _ _), take_append_drop]
  · simp only [Mtd.takePending, length_append, length_take] at hMissing ⊢
    omega

/- A reader that is short of bytes can read a block. -/
theorem Serving.readBlock {out : Buffer} {need : Nat}
    (hServing : Serving p chip c stream len (r, out, need))
    (hPending : r.pending = []) (hNeed : 0 < need) :
    ∃ data pos rest, readBlock p chip c r.pos = some (data, pos) ∧ data.length = p.eraseSize ∧
      Source p chip c ⟨pos, []⟩ rest ∧ out ++ (data ++ rest) = stream := by
  rcases hServing with ⟨⟨rest, ⟨blocks, stop, hReads, hLen, hRest⟩, hStream⟩, hMissing, hEnough⟩
  simp only at hStream hMissing
  cases hReads with
  | nil =>
    have hLens := congrArg length hStream
    rw [hRest, hPending] at hLens
    simp at hLens
    omega
  | @cons _ pos' _ data blocks hRead hLater =>
    simp only [forall_mem_cons] at hLen
    refine ⟨data, pos', blocks.flatten, hRead, hLen.1, ⟨blocks, stop, hLater, hLen.2, rfl⟩, ?_⟩
    rw [← hStream, hRest, hPending]
    rfl

section

variable (hServing : Serving p chip c stream len s)

include hServing

theorem Serving.readWhole {n : Nat} :
    ∃ s', readWhole p chip c n s = some s' ∧ Serving p chip c stream len s' ∧ s'.2.2 ≤ s.2.2 ∧
      (0 < n → s.1.pending = [] → p.eraseSize ≤ s.2.2 → s'.2.2 < s.2.2) := by
  induction n generalizing s with
  | zero => exact ⟨s, rfl, hServing, le_refl _, by omega⟩
  | succ n ih =>
    rcases s with ⟨r, out, need⟩
    by_cases hGo : r.pending = [] ∧ p.eraseSize ≤ need
    · have hPos := p.eraseSize_pos
      rcases hServing.readBlock hGo.1 (by omega) with
        ⟨data, pos, rest, hRead, hLen, hSource, hStream⟩
      have hMissing := hServing.missing
      simp only at hMissing
      have hNext : Serving p chip c stream len
          ({ r with pos := pos }, out ++ data, need - p.eraseSize) := by
        rcases hSource with ⟨blocks, stop, hReads, hAll, hRest⟩
        refine ⟨⟨rest, ⟨blocks, stop, hReads, hAll, ?_⟩, ?_⟩, ?_, hServing.enough⟩
        · rw [hRest, hGo.1]
        · rw [append_assoc]
          exact hStream
        · simp only [length_append]
          omega
      rcases ih hNext with ⟨s', hWhole, hServes, hLe, _⟩
      refine ⟨s', ?_, hServes, ?_, ?_⟩
      · simp only [Mtd.readWhole, if_pos hGo, hRead]
        exact hWhole
      · simp only at hLe ⊢
        omega
      · simp only at hLe ⊢
        omega
    · refine ⟨(r, out, need), ?_, hServing, le_refl _, ?_⟩
      · simp only [Mtd.readWhole, if_neg hGo]
      · intro _ hPending hBig
        exact absurd ⟨hPending, hBig⟩ hGo

theorem Serving.refill :
    ∃ s', refill p chip c s = some s' ∧ Serving p chip c stream len s' ∧ s'.2.2 = s.2.2 ∧
      (s'.1.pending ≠ [] ∨ s'.2.2 = 0) := by
  rcases s with ⟨r, out, need⟩
  by_cases hGo : r.pending = [] ∧ 0 < need
  · rcases hServing.readBlock hGo.1 hGo.2 with ⟨data, pos, rest, hRead, hLen, hSource, hStream⟩
    have hPos := p.eraseSize_pos
    refine ⟨(⟨pos, data⟩, out, need), ?_, ?_, rfl, ?_⟩
    · simp only [Mtd.refill, if_pos hGo, hRead]
      rfl
    · rcases hSource with ⟨blocks, stop, hReads, hAll, hRest⟩
      refine ⟨⟨data ++ rest, ⟨blocks, stop, hReads, hAll, ?_⟩,
        hStream⟩, hServing.missing, hServing.enough⟩
      rw [hRest]
      rfl
    · left
      intro hNil
      have hNone : data = [] := hNil
      rw [hNone] at hLen
      simp at hLen
      omega
  · refine ⟨(r, out, need), ?_, hServing, rfl, ?_⟩
    · simp only [Mtd.refill, if_neg hGo]
    · by_cases hPending : r.pending = []
      · right
        have hNot : ¬ 0 < need := fun h => hGo ⟨hPending, h⟩
        exact Nat.eq_zero_of_not_pos hNot
      · exact .inl hPending

/- One pass of the loop of `mtd_read_data`. -/
theorem Serving.readPass (hNeed : 0 < s.2.2) :
    ∃ s', readPass p chip c s = some s' ∧ Serving p chip c stream len s' ∧
      (s'.1.pending ≠ [] ∨ s'.2.2 = 0) ∧ s'.2.2 ≤ s.2.2 ∧ (s.1.pending ≠ [] → s'.2.2 < s.2.2) := by
  have hTaken : (Mtd.takePending s).2.2 = s.2.2 - min s.2.2 s.1.pending.length := rfl
  rcases hServing.takePending.readWhole (n := s.2.2) with ⟨s₁, hWhole, hServes, hLe, _⟩
  rcases hServes.refill with ⟨s', hRefill, hServes', hEq, hReady⟩
  refine ⟨s', ?_, hServes', hReady, by omega, ?_⟩
  · unfold Mtd.readPass
    rw [hWhole]
    exact hRefill
  · intro hPending
    have hPos := length_pos_iff.mpr hPending
    omega

theorem Serving.done (hNone : s.2.2 = 0) :
    s.2.1 = stream.take len ∧ Source p chip c s.1 (stream.drop len) := by
  rcases hServing with ⟨⟨rest, hSource, hStream⟩, hMissing, _⟩
  rw [hNone, add_zero] at hMissing
  rw [← hStream, ← hMissing, take_left, drop_left]
  exact ⟨rfl, hSource⟩

end

/- `mtd_read_data` returns the next bytes of the stream. -/
theorem mtdReadData_eq (hSource : Source p chip c r stream) (hEnough : len ≤ stream.length) :
    ∃ r', mtdReadData p chip c r len = .ok (some (stream.take len, r')) ∧
      Source p chip c r' (stream.drop len) := by
  -- After the first pass every pass reads some bytes.
  have hReady : ∀ fuel s, Serving p chip c stream len s →
      (s.1.pending ≠ [] ∨ s.2.2 = 0) → s.2.2 < fuel →
      ∃ r', loop (readBody p chip c) fuel s = .ok (some (stream.take len, r')) ∧
        Source p chip c r' (stream.drop len) := by
    intro fuel
    induction fuel with
    | zero =>
      omega
    | succ fuel ih =>
      rintro ⟨r, out, need⟩ hServing hPending hFuel
      by_cases hNone : need = 0
      · rcases hServing.done hNone with ⟨hOut, hRest⟩
        simp only at hOut hRest
        refine ⟨r, ?_, hRest⟩
        simp [loop, readBody, hNone, hOut]
      · rcases hServing.readPass (Nat.pos_of_ne_zero hNone)
          with ⟨s', hPass, hServes, hNext, _, hLess⟩
        have hFewer := hLess (hPending.resolve_right hNone)
        rcases ih s' hServes hNext (by omega) with ⟨r', hLoop, hRest⟩
        refine ⟨r', ?_, hRest⟩
        simp only [loop, readBody, if_neg hNone, hPass]
        exact hLoop
  have hStart : Serving p chip c stream len (r, [], len) :=
    ⟨⟨stream, hSource, rfl⟩, Nat.zero_add _, hEnough⟩
  by_cases hNone : len = 0
  · exact hReady (len + 2) _ hStart (.inr hNone) (Nat.lt_add_of_pos_right (Nat.succ_pos 1))
  · rcases hStart.readPass (Nat.pos_of_ne_zero hNone) with ⟨s', hPass, hServes, hNext, hLe, _⟩
    simp only at hLe
    rcases hReady (len + 1) s' hServes hNext (by omega) with ⟨r', hLoop, hRest⟩
    refine ⟨r', ?_, hRest⟩
    unfold mtdReadData
    simp only [loop, readBody, if_neg hNone, hPass]
    exact hLoop

/- Calls that read a stream in pieces. -/
theorem readAll_eq {lens : List Nat} (hSource : Source p chip c r stream)
    (hEnough : lens.sum ≤ stream.length) :
    readAll p chip c r lens = .ok (some (stream.take lens.sum)) := by
  induction lens generalizing r stream with
  | nil => simp [readAll]
  | cons len lens ih =>
    rw [sum_cons] at hEnough
    have hFirst : len ≤ stream.length := by omega
    rcases mtdReadData_eq hSource hFirst with ⟨r', hRead, hRest⟩
    have hLater := ih hRest (by
      rw [length_drop]
      omega)
    rw [readAll, hRead, ok_bind]
    simp only [hLater, ok_bind, Option.map_some, sum_cons, take_add]
    rfl

------
-- The Reader Finds The Blocks Of The Writer
------

variable {j n : Nat}

/-
  The two agree about the given number of blocks: a block that can be written is one that the reader
  takes for good, and a block that was given up in front of it cannot be read.
-/
structure Survivable (chip : Chip) (blocks : Nat) : Prop where
  supported : ∀ i, i < blocks → chip.Writable i → chip.badBlock i = .good
  unreadable : ∀ i j, i < j → j < blocks → chip.Writable j →
      chip.GivenUp i → chip.badBlock i = .good → chip.left i = none

variable {p : Partition} {chip : Chip} {c c' : Contents} {pos i pos' : Nat}

/- `read_block` goes over blocks that it cannot take. -/
theorem readBlockFrom_skip {left : Nat} (hLow : pos ≤ i) (hHigh : i < pos + left) (hBetween :
      ∀ j, pos ≤ j → j < i → c j = none ∨ chip.badBlock j ≠ .good) :
    readBlockFrom chip c left pos = readBlockFrom chip c (pos + left - i) i := by
  induction left generalizing pos with
  | zero => omega
  | succ left ih =>
    by_cases hHere : pos = i
    · rw [hHere, Nat.add_sub_cancel_left]
    · have hNext : readBlockFrom chip c left (pos + 1) =
          readBlockFrom chip c (pos + 1 + left - i) i :=
        ih (by omega) (by omega) (fun j hj hji => hBetween j (by omega) hji)
      rw [show pos + (left + 1) - i = pos + 1 + left - i by omega, ← hNext]
      rw [readBlockFrom]
      rcases hBetween pos le_rfl (by omega) with hNone | hBad
      · rw [hNone]
      · cases c pos with
        | none => rfl
        | some data => exact if_pos hBad

variable {data : Buffer}

theorem readBlock_eq (hLow : pos ≤ i) (hHigh : i < p.blocks) (hBetween :
      ∀ j, pos ≤ j → j < i → c j = none ∨ chip.badBlock j ≠ .good)
    (hSome : c i = some data) (hGood : chip.badBlock i = .good) :
    readBlock p chip c pos = some (data, i + 1) := by
  unfold readBlock
  rw [readBlockFrom_skip hLow (by omega) hBetween,
    show pos + (p.blocks - pos) - i = (p.blocks - i - 1) + 1 by omega, readBlockFrom, hSome]
  simp [hGood]

variable {blocks : List Buffer}

theorem Writes.same_below (hWrites : Writes p chip pos c blocks pos' c') :
    pos ≤ pos' ∧ ∀ j, j < pos → c' j = c j := by
  induction hWrites with
  | nil => exact ⟨Nat.le_refl _, fun _ _ => rfl⟩
  | cons hWrite _ ih =>
    rcases writeBlockFrom_placed hWrite with ⟨i, _, hPos, hPlaced⟩
    have hLe := hPlaced.pos_le
    rcases ih with ⟨hMono, hSame⟩
    refine ⟨by omega, ?_⟩
    intro j hLt
    rw [hSame j (by omega), hPlaced.same j (.inl hLt)]

theorem Chip.GivenUp.not_writable (hGiven : chip.GivenUp i) : ¬ chip.Writable i := by
  intro hWritable
  have hWritten := hWritable.2
  rw [hGiven.2] at hWritten
  cases hWritten

theorem Placed.le_of_writable (hPlaced : Placed chip data pos i c c') (hLow : pos ≤ j)
    (hWritable : chip.Writable j) : i ≤ j := by
  by_contra hPassed
  rcases hPlaced.between j hLow (Nat.lt_of_not_le hPassed) with hSkip | ⟨hGiven, _⟩
  · rw [hWritable.1] at hSkip
    cases hSkip
  · exact hGiven.not_writable hWritable

theorem Placed.passed (hPlaced : Placed chip data pos i c c') (hLow : pos ≤ j) (hHigh : j < i)
    (hUnread : chip.GivenUp j → chip.badBlock j = .good → chip.left j = none) :
    c' j = none ∨ chip.badBlock j ≠ .good := by
  rcases hPlaced.between j hLow hHigh with hSkip | ⟨hGiven, hLeft⟩
  · right
    intro hGood
    rw [hGood] at hSkip
    cases hSkip
  · by_cases hGood : chip.badBlock j = .good
    · rw [hLeft]
      exact .inl (hUnread hGiven hGood)
    · exact .inr hGood

/- The reader reads what the writer wrote. -/
theorem Writes.reads {c'' : Contents} (hChip : Survivable chip pos')
    (hWrites : Writes p chip pos c blocks pos' c') (hSame : ∀ j, j < pos' → c'' j = c' j) :
    Reads p chip c'' pos blocks pos' := by
  induction hWrites with
  | nil => exact .nil
  | @cons pos pos₁ pos' c c₁ c' data blocks hWrite hRest ih =>
    rcases writeBlockFrom_placed hWrite with ⟨i, hLt, rfl, hPlaced⟩
    have hLow := hPlaced.pos_le
    have hHigh : i < p.blocks := by omega
    rcases hRest.same_below with ⟨hMono, hBelow⟩
    have hKeep : ∀ j, j ≤ i → c'' j = c₁ j := by
      intro j hj
      rw [hSame j (by omega), hBelow j (by omega)]
    refine .cons (readBlock_eq hLow hHigh ?_ ?_ ?_) (ih hChip hSame)
    · intro j hPos hBefore
      rw [hKeep j (by omega)]
      exact hPlaced.passed hPos hBefore (hChip.unreadable j i hBefore hMono hPlaced.writable)
    · rw [hKeep i le_rfl, hPlaced.holds]
    · exact hChip.supported i hMono hPlaced.writable

/- Every session is read back. -/
def Survives (p : Partition) (chip : Chip) : Prop :=
  ∀ (initial c : Contents) (datas : List Buffer) (lens : List Nat),
    writeSession p chip initial datas = .ok (some c) → lens.sum = datas.flatten.length →
    readSession p chip c lens = .ok (some datas.flatten)

theorem Survivable.mono {m : Nat} (hChip : Survivable chip n) (hLe : m ≤ n) :
    Survivable chip m where
  supported i hLt := hChip.supported i (by omega)
  unreadable i j hLt hj := hChip.unreadable i j hLt (by omega)

theorem Writes.pos_le (hWrites : Writes p chip pos c blocks pos' c')
    (hPos : pos ≤ p.blocks) : pos' ≤ p.blocks := by
  induction hWrites with
  | nil => exact hPos
  | cons hWrite _ ih =>
    rcases writeBlockFrom_placed hWrite with ⟨i, hLt, rfl, _⟩
    exact ih (by omega)

theorem Survivable.survives (hChip : Survivable chip p.blocks) : Survives p chip := by
  intro initial c datas lens hSession hSum
  rcases writeSession_spec hSession with ⟨blocks, zeros, pos, c₁, hWrites, hLen, hBytes, hSame⟩
  have hBelow : Survivable chip pos := hChip.mono (hWrites.pos_le (Nat.zero_le _))
  have hSource : Source p chip c ⟨0, []⟩ blocks.flatten :=
    ⟨blocks, pos, hWrites.reads hBelow hSame, hLen, rfl⟩
  have hEnough : lens.sum ≤ blocks.flatten.length := by
    rw [hBytes, length_append]
    omega
  unfold readSession
  rw [readAll_eq hSource hEnough, hSum, hBytes, take_left]

------
-- Sessions That Write And Read Whole Blocks
------

/- A call with the data of one block. -/
theorem mtdWriteData_block {c c' : Contents} {data : Buffer} (hLen : data.length = p.eraseSize)
    (hWrite : writeBlockFrom chip data (p.blocks - pos) pos c = some (pos', c')) :
    mtdWriteData p chip ⟨pos, [], c⟩ data = .ok (some ⟨pos', [], c'⟩) := by
  have hPos := p.eraseSize_pos
  have hData : data ≠ [] := by
    rintro rfl
    simp only [length_nil] at hLen
    omega
  obtain ⟨n, hn⟩ : ∃ n, data.length = n + 1 := ⟨data.length - 1, by omega⟩
  have hBlock : writeBlock p chip ⟨pos, [], c⟩ data = some ⟨pos', [], c'⟩ := by
    simp [writeBlock, hWrite]
  have hRest : writeWhole p chip n ⟨pos', [], c'⟩ [] = some (⟨pos', [], c'⟩, []) := by
    cases n with
    | zero => rfl
    | succ n =>
      rw [writeWhole, if_neg]
      simp only [length_nil]
      omega
  have hPass : writePass p chip ⟨pos, [], c⟩ data = some (⟨pos', [], c'⟩, []) := by
    have hCoalesce : coalesce p ⟨pos, [], c⟩ data = (⟨pos, [], c⟩, data) := by
      rw [coalesce, if_neg]
      simp [hLen]
    have hFlush : flushBlock p chip ⟨pos, [], c⟩ = some ⟨pos, [], c⟩ := by
      rw [flushBlock, if_neg]
      simp only [length_nil]
      omega
    simp only [writePass, hCoalesce, hFlush]
    change writeWhole p chip data.length _ _ = _
    rw [hn, writeWhole, if_pos ⟨rfl, Nat.le_of_eq hLen.symm⟩, ← hLen, take_length, drop_length,
      hBlock]
    exact hRest
  unfold mtdWriteData
  rw [hn]
  simp [loop, writeBody, hData, hPass]

theorem writeAll_blocks {c c' : Contents} (hWrites : Writes p chip pos c blocks pos' c')
    (hLen : ∀ b ∈ blocks, b.length = p.eraseSize) :
    writeAll p chip ⟨pos, [], c⟩ blocks = .ok (some ⟨pos', [], c'⟩) := by
  induction hWrites with
  | nil => rfl
  | cons hWrite _ ih =>
    rw [forall_mem_cons] at hLen
    rw [writeAll, mtdWriteData_block hLen.1 hWrite, ok_bind]
    exact ih hLen.2

theorem Partition.behind_nonneg (hBlocks : 0 < p.blocks) : 0 ≤ p.behind pos := by
  have hSize : p.size < 2 ^ 31 := by
    by_contra hBig
    have hLt := p.size_lt
    have hNeg : toInt p.size ≤ 0 := by
      unfold toInt
      rw [Int.bmod_def]
      split <;> omega
    have hZero : p.blocks = 0 := by
      unfold Partition.blocks
      rw [Int.toNat_of_nonpos hNeg, Nat.zero_div]
    omega
  have hLe : (p.size - pos * p.eraseSize) / p.eraseSize ≤ p.size :=
    Nat.le_trans (Nat.div_le_self _ _) (Nat.sub_le _ _)
  unfold Partition.behind toInt
  generalize (p.size - pos * p.eraseSize) / p.eraseSize = n at hLe
  rw [Int.bmod_def]
  split <;> omega

/- The device after a session with one call for each block. -/
theorem writeSession_blocks {initial c : Contents} (hBlocks : 0 < p.blocks)
    (hWrites : Writes p chip 0 initial blocks pos c) (hLen : ∀ b ∈ blocks, b.length = p.eraseSize) :
    writeSession p chip initial blocks = .ok (some (eraseFrom p chip (p.behind pos).toNat pos
      c)) := by
  have hNonneg : 0 ≤ p.behind pos := Partition.behind_nonneg hBlocks
  have hPending : ∀ c', writePending p chip ⟨pos, [], c'⟩ = some ⟨pos, [], c'⟩ := fun _ => rfl
  have hErase : mtdEraseBlocks p chip ⟨pos, [], c⟩ (-1) = some ⟨pos, [], eraseFrom p chip
      (p.behind pos).toNat pos c⟩ := by
    rw [mtdEraseBlocks, hPending, Option.bind_some, eraseRest]
    simp
  have hClose : ∀ c', mtdWriteClose p chip ⟨pos, [], c'⟩ = some c' := by
    intro c'
    rw [mtdWriteClose, mtdEraseBlocks, hPending, Option.bind_some, eraseRest]
    simp [hNonneg, eraseFrom]
  unfold writeSession
  rw [writeAll_blocks hWrites hLen, ok_bind]
  change Except.ok ((mtdEraseBlocks p chip _ _).bind _) = _
  rw [hErase, Option.bind_some, hClose]

/- A call that reads one block. -/
theorem mtdReadData_block (c : Contents) (pos : Nat) :
    mtdReadData p chip c ⟨pos, []⟩ p.eraseSize = .ok ((readBlock p chip c pos).map
      fun (data, pos') => (data, ⟨pos', []⟩)) := by
  have hPos := p.eraseSize_pos
  obtain ⟨n, hn⟩ : ∃ n, p.eraseSize = n + 1 := ⟨p.eraseSize - 1, by omega⟩
  have hTake : takePending (⟨pos, []⟩, [], p.eraseSize) = (⟨pos, []⟩, [], p.eraseSize) := by
    simp [takePending]
  have hNone : p.eraseSize ≠ 0 := by omega
  have hPass : readPass p chip c (⟨pos, []⟩, [], p.eraseSize) = (readBlock p chip c pos).map
      fun (data, pos') => (⟨pos', []⟩, data, 0) := by
    unfold readPass
    rw [hTake]
    rw [hn, readWhole, ← hn, if_pos ⟨rfl, Nat.le_refl _⟩]
    cases readBlock p chip c pos with
    | none => rfl
    | some found =>
      rcases found with ⟨data, pos'⟩
      have hStop : readWhole p chip c n (⟨pos', []⟩, data, 0) = some (⟨pos', []⟩, data, 0) := by
        cases n with
        | zero => rfl
        | succ n =>
          rw [readWhole, if_neg]
          omega
      simp only [Option.bind_eq_bind, Option.bind_some, nil_append, Nat.sub_self, hStop]
      simp [refill]
  unfold mtdReadData
  rw [hn, loop, readBody, ← hn, if_neg hNone, hPass]
  cases readBlock p chip c pos with
  | none | some found => rfl

/- One call for each block. -/
theorem readAll_blocks {c : Contents} (hReads : Reads p chip c pos blocks pos') (lens : List Nat) :
    readAll p chip c ⟨pos, []⟩ (replicate blocks.length p.eraseSize ++ lens) =
      (readAll p chip c ⟨pos', []⟩ lens).map (Option.map (blocks.flatten ++ ·)) := by
  induction hReads with
  | @nil pos =>
    rw [length_nil, replicate_zero, nil_append]
    cases readAll p chip c ⟨pos, []⟩ lens with
    | error fault => rfl
    | ok result => simp [Except.map]
  | @cons pos pos' pos'' data blocks hRead _ ih =>
    rw [length_cons, replicate_succ, cons_append, readAll, mtdReadData_block, hRead]
    simp only [Option.map_some, ok_bind, ih]
    cases readAll p chip c ⟨pos'', []⟩ lens with
    | error fault => rfl
    | ok result =>
      cases result with
      | none => rfl
      | some rest =>
        simp only [Except.map, Option.map_some, ok_bind, flatten_cons, append_assoc]
        rfl

------
-- The First Block About Which The Two Disagree
------

/-
  The writer uses a block that the reader skips, or the reader finds data in a block that the writer
  gave up in front of a block that can be written.
-/
inductive Disagrees (p : Partition) (chip : Chip) (i : Nat) : Prop where
| skipped (hWritable : chip.Writable i) (hBad : chip.badBlock i ≠ .good)
| readable {data : Buffer} {j : Nat} (hGiven : chip.GivenUp i) (hGood : chip.badBlock i = .good)
    (hLeft : chip.left i = some data) (hLater : i < j) (hLt : j < p.blocks)
    (hWritable : chip.Writable j)

theorem survivable_of_agree (hLe : n ≤ p.blocks)
    (hAgree : ∀ i, i < n → ¬ Disagrees p chip i) : Survivable chip n where
  supported i hLt hWritable := by
    by_contra hBad
    exact hAgree i hLt (.skipped hWritable hBad)
  unreadable i j hij hLt hWritable hGiven hGood := by
    cases hLeft : chip.left i with
    | none => rfl
    | some data =>
      exact absurd (Disagrees.readable hGiven hGood hLeft hij (by omega) hWritable)
        (hAgree i (by omega))

theorem Disagrees.exists_writable {i : Nat} (hDisagrees : Disagrees p chip i) (hLt : i < p.blocks) :
    ∃ j, i ≤ j ∧ j < p.blocks ∧ chip.Writable j := by
  cases hDisagrees with
  | skipped hWritable => exact ⟨i, Nat.le_refl _, hLt, hWritable⟩
  | readable _ _ _ hLater hLt hWritable => exact ⟨_, Nat.le_of_lt hLater, hLt, hWritable⟩

/- Blocks are written up to a given one. -/
theorem exists_writes (initial : Contents) (data : Buffer) (hLe : n ≤ p.blocks) :
    ∃ k pos c, Writes p chip 0 initial (replicate k data) pos c ∧ pos ≤ n ∧
      ∀ i, pos ≤ i → i < n → ¬ chip.Writable i := by
  induction n with
  | zero => exact ⟨0, 0, initial, .nil, Nat.le_refl _, by omega⟩
  | succ n ih =>
    rcases ih (by omega) with ⟨k, pos, c, hWrites, hPos, hNone⟩
    by_cases hHere : chip.Writable n
    · have hSome : ∃ s, writeBlockFrom chip data (p.blocks - pos) pos c = some s :=
        writeBlockFrom_isSome hPos (by omega) hHere
      rcases hSome with ⟨⟨pos', c'⟩, hWrite⟩
      rcases writeBlockFrom_placed hWrite with ⟨i, _, rfl, hPlaced⟩
      have hAt : i = n := by
        by_contra hNe
        rcases Nat.lt_or_gt_of_ne hNe with hBefore | hAfter
        · exact hNone i hPlaced.pos_le hBefore hPlaced.writable
        · exact absurd (hPlaced.le_of_writable hPos hHere) (Nat.not_le_of_lt hAfter)
      refine ⟨k + 1, i + 1, c', ?_, by omega, by omega⟩
      rw [replicate_succ']
      exact hWrites.append (.cons hWrite .nil)
    · refine ⟨k, pos, c, hWrites, by omega, ?_⟩
      intro i hLow hHigh
      by_cases hLast : i = n
      · rw [hLast]
        exact hHere
      · exact hNone i hLow (by omega)

/- The place of a block does not depend on its data. -/
theorem writeBlockFrom_data (data data' : Buffer) (left pos : Nat) (c : Contents) :
    writeBlockFrom chip data' left pos c = (writeBlockFrom chip data left pos c).map
      fun (pos', c') => (pos', setBlock c' (pos' - 1) (some data')) := by
  induction left generalizing pos c with
  | zero => rfl
  | succ left ih =>
    simp only [writeBlockFrom]
    split
    · exact ih _ _
    · split
      · congr 2
        funext j
        by_cases hj : j = pos
        · simp [hj]
        · simp [setBlock_ne _ _ hj]
      · exact ih _ _

theorem eraseFrom_congr {c c' : Contents} (hSame : c j = c' j) (blocks pos : Nat) :
    eraseFrom p chip blocks pos c j = eraseFrom p chip blocks pos c' j := by
  induction blocks generalizing pos c c' with
  | zero => exact hSame
  | succ blocks ih =>
    simp only [eraseFrom]
    split
    · apply ih
      by_cases hj : j = pos
      · simp [hj]
      · simp [setBlock_ne _ _ hj, hSame]
    · exact ih hSame _

/- Only the good blocks matter for the reader. -/
theorem readBlockFrom_congr {c c' : Contents}
    (hSame : ∀ j, chip.badBlock j = .good → c j = c' j) (left pos : Nat) :
    readBlockFrom chip c left pos = readBlockFrom chip c' left pos := by
  induction left generalizing pos with
  | zero => rfl
  | succ left ih =>
    by_cases hGood : chip.badBlock pos = .good
    · rw [readBlockFrom, readBlockFrom, hSame pos hGood, ih]
    · have hSkip : ∀ d : Contents, readBlockFrom chip d (left + 1) pos =
          readBlockFrom chip d left (pos + 1) := by
        intro d
        rw [readBlockFrom]
        cases d pos with
        | none => rfl
        | some data => exact if_pos hGood
      rw [hSkip c, hSkip c', ih]

/- If data survives, the last block is read at its turn. -/
theorem Survives.readBlock_last (hSurvives : Survives p chip)
    {initial c d : Contents} {blocks : List Buffer} {data : Buffer}
    {pos q : Nat} (hAgree : Survivable chip pos) (hWrites : Writes p chip 0 initial blocks pos c)
    (hLens : ∀ b ∈ blocks, b.length = p.eraseSize)
    (hWrite : writeBlockFrom chip data (p.blocks - pos) pos c = some (q, d))
    (hLen : data.length = p.eraseSize) :
    ∃ q', readBlock p chip (eraseFrom p chip (p.behind q).toNat q d) pos = some (data, q') := by
  rcases writeBlockFrom_placed hWrite with ⟨i, hLt, rfl, hPlaced⟩
  have hLow := hPlaced.pos_le
  have hReads : Reads p chip (eraseFrom p chip (p.behind (i + 1)).toNat (i + 1) d)
      0 blocks pos := by
    apply hWrites.reads hAgree
    intro j hj
    rw [eraseFrom_of_lt (by omega), hPlaced.same j (.inl hj)]
  have hAllLens : ∀ b ∈ blocks ++ [data], b.length = p.eraseSize := by
    intro b hMem
    rcases mem_append.mp hMem with hOld | hNew
    · exact hLens b hOld
    · rw [mem_singleton.mp hNew]
      exact hLen
  have hSession := writeSession_blocks (by omega) (hWrites.append (.cons hWrite .nil)) hAllLens
  have hSum : (replicate blocks.length p.eraseSize ++ [p.eraseSize]).sum =
      (blocks ++ [data]).flatten.length := by
    rw [length_flatten, map_congr_left hAllLens]
    simp
  have hRead := hSurvives _ _ _ _ hSession hSum
  unfold readSession at hRead
  rw [readAll_blocks hReads, readAll, mtdReadData_block] at hRead
  generalize eraseFrom p chip (p.behind (i + 1)).toNat (i + 1) d = e at hRead ⊢
  cases hLast : readBlock p chip e pos with
  | none =>
    rw [hLast] at hRead
    cases hRead
  | some found =>
    rcases found with ⟨last, q'⟩
    rw [hLast] at hRead
    have hBytes : blocks.flatten ++ (last ++ []) = (blocks ++ [data]).flatten :=
      Option.some.inj (Except.ok.inj hRead)
    simp only [append_nil, flatten_append, flatten_cons, flatten_nil,
      append_cancel_left_eq] at hBytes
    exact ⟨q', by rw [hBytes]⟩

/- What is read at a disagreement is not what was written. -/
theorem Disagrees.readBlock_eq {b pos q : Nat} {c d : Contents}
    {data data' : Buffer} (hDisagrees : Disagrees p chip b) (hLt : b < p.blocks)
    (hAgree : ∀ i, i < b → ¬ Disagrees p chip i) (hPos : pos ≤ b)
    (hNone : ∀ i, pos ≤ i → i < b → ¬ chip.Writable i)
    (hWrite : writeBlockFrom chip data (p.blocks - pos) pos c = some (q, d)) :
    readBlock p chip (eraseFrom p chip (p.behind q).toNat q d) pos = readBlock p chip
      (eraseFrom p chip (p.behind q).toNat q (setBlock d (q - 1) (some data'))) pos := by
  rcases writeBlockFrom_placed hWrite with ⟨i, hHigh, rfl, hPlaced⟩
  have hAfter : b ≤ i := by
    by_contra hBefore
    exact hNone i hPlaced.pos_le (by omega) hPlaced.writable
  generalize (p.behind (i + 1)).toNat = n
  cases hDisagrees with
  | skipped hWritable hBad =>
    have hAt : i = b := Nat.le_antisymm (hPlaced.le_of_writable hPos hWritable) hAfter
    apply readBlockFrom_congr
    intro j hGood
    apply eraseFrom_congr
    rw [setBlock_ne]
    rintro rfl
    exact hBad (hAt ▸ hGood)
  | @readable left j hGiven hGood hLeft _ _ _ =>
    have hBefore : b < i := by
      rcases Nat.lt_or_eq_of_le hAfter with hLess | hEq
      · exact hLess
      · rw [hEq] at hGiven
        exact absurd hPlaced.writable hGiven.not_writable
    -- The reader stops at the block that was given up.
    have hStops : ∀ e : Contents, (∀ j, j < i → e j = d j) →
        readBlock p chip e pos = some (left, b + 1) := by
      intro e hSame
      apply Mtd.readBlock_eq hPos hLt _ _ hGood
      · intro j hLow hj
        rw [hSame j (by omega)]
        apply hPlaced.passed hLow (by omega)
        intro hGivenUp hOk
        cases hData : chip.left j with
        | none => rfl
        | some old =>
          exact absurd (Disagrees.readable hGivenUp hOk hData
              (by omega) (by omega) hPlaced.writable)
            (hAgree j hj)
      · rcases hPlaced.between b hPos hBefore with hSkip | ⟨_, hContent⟩
        · rw [hGiven.1] at hSkip
          cases hSkip
        · rw [hSame b hBefore, hContent, hLeft]
    have hOld : ∀ j, j < i → eraseFrom p chip n (i + 1) d j = d j :=
      fun j hj => eraseFrom_of_lt (by omega)
    have hNew : ∀ j, j < i → eraseFrom p chip n (i + 1) (setBlock d i (some data')) j = d j := by
      intro j hj
      rw [eraseFrom_of_lt (by omega), setBlock_ne _ _ (by omega)]
    exact (hStops _ hOld).trans (hStops _ hNew).symm

theorem Survives.agrees (hSurvives : Survives p chip) {b : Nat}
    (hLt : b < p.blocks) (hAgree : ∀ i, i < b → ¬ Disagrees p chip i) : ¬ Disagrees p chip b := by
  intro hDisagrees
  have hLens : ∀ (k : Nat) (v : UInt8), ∀ x ∈ replicate k (replicate p.eraseSize v),
      x.length = p.eraseSize := by
    intro k v x hMem
    rw [eq_of_mem_replicate hMem, length_replicate]
  rcases exists_writes (fun _ => none) (replicate p.eraseSize 0) (Nat.le_of_lt hLt) with
    ⟨k, pos, c, hWrites, hPos, hNone⟩
  have hBelow : Survivable chip pos := (survivable_of_agree (Nat.le_of_lt hLt) hAgree).mono hPos
  rcases hDisagrees.exists_writable hLt with ⟨j, hbj, hj, hWritable⟩
  have hSome : ∃ s, writeBlockFrom chip (replicate p.eraseSize 0) (p.blocks - pos) pos c = some s :=
    writeBlockFrom_isSome (by omega) (by omega) hWritable
  rcases hSome with ⟨⟨q, d⟩, hWrite⟩
  have hWrite' : writeBlockFrom chip (replicate p.eraseSize 1) (p.blocks - pos) pos c =
      some (q, setBlock d (q - 1) (some (replicate p.eraseSize 1))) := by
    rw [writeBlockFrom_data (replicate p.eraseSize 0), hWrite, Option.map_some]
  rcases hSurvives.readBlock_last hBelow hWrites (hLens k 0) hWrite length_replicate with
    ⟨q₀, hZeros⟩
  rcases hSurvives.readBlock_last hBelow hWrites (hLens k 0) hWrite' length_replicate with
    ⟨q₁, hOnes⟩
  rw [hDisagrees.readBlock_eq hLt hAgree hPos hNone hWrite, hOnes] at hZeros
  have hEq := congrArg Prod.fst (Option.some.inj hZeros)
  have hPositive := p.eraseSize_pos
  rw [replicate_inj] at hEq
  rcases hEq.2 with hEmpty | hByte
  · omega
  · cases hByte

/-
  For a given partition and chip: every session that succeeds is read back, for every initial
  content, all data and all ways of splitting it into calls, if and only if every block that can be
  written is taken for good by the reader, and a good block that was given up in front of such a
  block cannot be read.
-/
theorem mtd_data_survives_iff (p : Partition) (chip : Chip) :
    Survives p chip ↔ Survivable chip p.blocks := by
  constructor
  · intro hSurvives
    apply survivable_of_agree le_rfl
    intro b
    induction b using Nat.strongRecOn with
    | ind b ih =>
      intro hLt
      apply hSurvives.agrees hLt
      intro i hi
      exact ih i hi (by omega)
  · exact Survivable.survives

/- Two blocks of four bytes. -/
def twoBlocks : Partition where
  size := 8
  eraseSize := 4
  size_lt := by decide
  eraseSize_pos := by decide

/- The first block fails the verification and is erased; it can still be read. -/
def firstFails : Chip where
  badBlock _ := .good
  works i _ := i != 0
  left _ := some [0xff, 0xff, 0xff, 0xff]
  erases _ := true

/- The erased block is returned instead of the data. -/
theorem mtd_returns_erased_block :
    (writeSession twoBlocks firstFails (fun _ => none) [[1, 2, 3, 4]]).map (Option.map fun c =>
      readSession twoBlocks firstFails c [4]) =
      .ok (some (.ok (some [0xff, 0xff, 0xff, 0xff]))) := by
  decide +kernel

end OpenIvi.Recovery.Mtd
