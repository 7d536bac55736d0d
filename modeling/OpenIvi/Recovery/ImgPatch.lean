import OpenIvi.Recovery.ImgDiff

/-
  `ApplyImagePatch`.

  It runs on the device, where `size_t` and `ssize_t` have 32 bits. The sink is any function that is
  offered bytes and says how many it took; the calls of the sink and the bytes that went into the
  SHA-1 context are recorded. Memory can be allocated.

  It undoes `imgdiff`. `Restores` says what a chunk of a patch file stands for. Every chunk that
  `MakePatch` makes stands for the bytes of its target chunk, and the loop of `ApplyImagePatch`
  hands to the sink what the chunks of the file stand for.

  `delivered` is what the sink gets and what is hashed. A write that is too short ends the function
  for raw and for deflate chunks. For a normal chunk it does not: the bytes that the sink took are
  not hashed, and the next chunk comes.

  Main declarations:
    * `Restores`
    * `applyChunks_restores`
    * `imgpatch_restores_target`
    * `image_patch_delivered_iff`
-/

------
-- Blobs And Sinks
------

namespace OpenIvi.Recovery.ImgPatch

open Lib ImgDiff List Buffer LittleEndian

/- Bytes in memory, with a size of type `ssize_t`. -/
structure Blob where
  data : Buffer
  size_lt : data.length < 2 ^ 31

/- An `ssize_t`. -/
def ssize (n : Int) : Int :=
  Int.bmod n (2 ^ 32)

/- A `size_t`. -/
def size (n : Int) : Nat :=
  (n % 2 ^ 32).toNat

/- `SinkFn` with its token. -/
structure Sink (τ : Type) where
  write : τ → Buffer → Int × τ

/- What the run has done so far. -/
structure Out (τ : Type) where
  token : τ
  /- The bytes offered to the sink and its answers. -/
  calls : List (Buffer × Int)
  /- The bytes that went into the SHA-1 context. -/
  hashed : Buffer

namespace Out

variable {τ : Type}

/- Everything that was offered to the sink. -/
def fed (out : Out τ) : Buffer :=
  (out.calls.map (·.1)).flatten

/- Call the sink. -/
def offer (sink : Sink τ) (out : Out τ) (bytes : Buffer) : Int × Out τ :=
  let (n, token) := sink.write out.token bytes
  (n, { out with token := token, calls := out.calls ++ [(bytes, n)] })

def shaUpdate (out : Out τ) (bytes : Buffer) : Out τ :=
  { out with hashed := out.hashed ++ bytes }

end Out

/- Bytes of a blob from a position of type `ssize_t`. -/
def Blob.read4 (b : Blob) (pos : Int) : Except Fault Int :=
  if pos < 0 then .error .outOfBounds
  else ImgDiff.read4 b.data pos.toNat

def Blob.read8 (b : Blob) (pos : Int) : Except Fault Int :=
  if pos < 0 then .error .outOfBounds
  else ImgDiff.read8 b.data pos.toNat

def Blob.bytes (b : Blob) (pos len : Int) : Except Fault Buffer :=
  if pos < 0 ∨ len < 0 then .error .outOfBounds
  else b.data.block pos.toNat len.toNat

------
-- The Three Kinds Of Chunks
------

variable {τ : Type}

/- The position in the patch and what was put out. -/
abbrev Progress (τ : Type) := Int × Out τ

/- A chunk is done, or the function returns. -/
abbrev Step (τ : Type) := Ctl (Progress τ) (Progress τ)

variable (zlib : Zlib) (bsd : Bsdiff) (sink : Sink τ) (old patch : Blob)

def applyBSDiffPatchMem (oldData : Buffer) (patchOffset : Nat) : Except Fault (Option Buffer) := do
  let rest ← patch.data.block patchOffset (patch.data.length - patchOffset)
  return bsd.applyMem oldData rest

def applyBSDiffPatch (oldData : Buffer) (patchOffset : Nat) (out : Out τ) :
    Except Fault (Int × Out τ) := do
  match ← applyBSDiffPatchMem bsd patch oldData patchOffset with
  | none => return (-1, out)
  | some newData =>
    let (n, out) := out.offer sink newData
    if n < newData.length then return (1, out)
    else return (0, out.shaUpdate newData)

/- The branch for `CHUNK_NORMAL`. -/
def applyNormalChunk (pos : Int) (out : Out τ) : Except Fault (Step τ) :=
  let next := ssize (pos + 24)
  if patch.data.length < next then .ok (.done (-1, out))
  else do
    let srcStart ← patch.read8 pos
    let srcLen ← patch.read8 (pos + 8)
    let patchOffset ← patch.read8 (pos + 16)
    -- The source does not check the range: outside of `old_data` the model stops.
    let oldData ← old.data.block (size srcStart) (size srcLen)
    -- The result of the call is not looked at.
    let (_, out) ← applyBSDiffPatch bsd sink patch oldData (size patchOffset) out
    return .again (next, out)

/- The branch for `CHUNK_RAW`. -/
def applyRawChunk (pos : Int) (out : Out τ) : Except Fault (Step τ) :=
  let start := ssize (pos + 4)
  if patch.data.length < start then .ok (.done (-1, out))
  else do
    let dataLen ← patch.read4 pos
    let next := ssize (start + dataLen)
    if patch.data.length < next then return .done (-1, out)
    else
      let data ← patch.bytes start dataLen
      let (n, out) := (out.shaUpdate data).offer sink data
      if n ≠ dataLen then return .done (-1, out)
      else return .again (next, out)

/- The pieces of a deflate stream go to the sink. -/
def writePieces : List Buffer → Out τ → Bool × Out τ
| [], out => (true, out)
| piece :: pieces, out =>
  let (n, out) := out.offer sink piece
  if n ≠ piece.length then (false, out)
  else writePieces pieces (out.shaUpdate piece)

/-
  The numbers in the header of a deflate chunk. The source does not check its range either.
-/
structure DeflateHeader where
  srcStart : Nat
  srcLen : Nat
  patchOffset : Nat
  expandedLen : Nat
  params : DeflateParams

def readDeflateHeader (pos : Int) : Except Fault DeflateHeader := do
  let srcStart ← patch.read8 pos
  let srcLen ← patch.read8 (pos + 8)
  let patchOffset ← patch.read8 (pos + 16)
  let expandedLen ← patch.read8 (pos + 24)
  -- `target_len` is read at `pos + 32` and not used.
  let level ← patch.read4 (pos + 40)
  let method ← patch.read4 (pos + 44)
  let windowBits ← patch.read4 (pos + 48)
  let memLevel ← patch.read4 (pos + 52)
  let strategy ← patch.read4 (pos + 56)
  return {
    srcStart := size srcStart
    srcLen := size srcLen
    patchOffset := size patchOffset
    expandedLen := size expandedLen
    params := ⟨level, method, windowBits, memLevel, strategy⟩
  }

/- Compress the new data and write it. -/
def recompress (h : DeflateHeader) (newData : Buffer) (next : Int)
    (out : Out τ) : Except Fault (Step τ) :=
  -- The buffer for the output has at least 32768 bytes.
  let tempSize := max h.expandedLen 32768
  match zlib.deflate h.params newData tempSize with
  | none => .error .outOfFuel
  | some pieces =>
    match writePieces sink pieces out with
    | (false, out) => .ok (.done (-1, out))
    | (true, out) => .ok (.again (next, out))

/- Patch the uncompressed data and compress it again. -/
def applyDeflated (h : DeflateHeader) (next : Int) (out : Out τ) : Except Fault (Step τ) := do
  let stream ← old.data.block h.srcStart h.srcLen
  match zlib.inflate stream with
  | none => return .done (-1, out)
  | some (expanded, _) =>
    -- `inflate` ends the stream and fills the output.
    if expanded.length ≠ h.expandedLen then
      return .done (-1, out)
    else
      match ← applyBSDiffPatchMem bsd patch expanded h.patchOffset with
      | none => return .done (-1, out)
      | some newData => recompress zlib sink h newData next out

/- The branch for `CHUNK_DEFLATE`. -/
def applyDeflateChunk (pos : Int) (out : Out τ) : Except Fault (Step τ) :=
  let next := ssize (pos + 60)
  if patch.data.length < next then .ok (.done (-1, out))
  else do
    let h ← readDeflateHeader patch pos
    applyDeflated zlib bsd sink old patch h next out

------
-- All Chunks
------

def applyChunk (pos : Int) (out : Out τ) : Except Fault (Step τ) :=
  let next := ssize (pos + 4)
  if patch.data.length < next then .ok (.done (-1, out))
  else do
    let type ← patch.read4 pos
    if type = ChunkType.normal.code then
      applyNormalChunk bsd sink old patch next out
    else if type = ChunkType.raw.code then
      applyRawChunk sink patch next out
    else if type = ChunkType.deflate.code then
      applyDeflateChunk zlib bsd sink old patch next out
    else
      return .done (-1, out)

def applyChunks : Nat → Int → Out τ → Except Fault (Progress τ)
| 0, _, out => .ok (0, out)
| n + 1, pos, out => do
    match ← applyChunk zlib bsd sink old patch pos out with
    | .done result => return result
    | .again (pos, out) => applyChunks n pos out

/- `ApplyImagePatch`: the value returned and the output. -/
def applyImagePatch (token : τ) : Except Fault (Int × Out τ) :=
  let out : Out τ := ⟨token, [], []⟩
  if patch.data.length < 12 then .ok (-1, out)
  else if patch.data.take 8 ≠ imgdiffMagic then
    .ok (-1, out)
  else do
    let numChunks ← patch.read4 8
    applyChunks zlib bsd sink old patch numChunks.toNat 12 out

------
-- Positions In A Patch
------

variable {parts : List Buffer} {v : Int} {d : ImageChunk}

/- The bytes of a blob from a position on. -/
def At (b : Blob) (pos : Int) (rest : Buffer) : Prop :=
  ∃ front, b.data = front ++ rest ∧ pos = front.length

variable {b : Blob} {pos pos' : Int} {bytes rest : Buffer}

theorem At.nonneg (hAt : At b pos rest) : 0 ≤ pos := by
  rcases hAt with ⟨front, _, rfl⟩
  exact Int.natCast_nonneg _

theorem At.length_eq (hAt : At b pos rest) : pos + rest.length = b.data.length := by
  rcases hAt with ⟨front, hData, rfl⟩
  simp [hData]

section

variable (hAt : At b pos (bytes ++ rest))

include hAt

theorem At.le_length : pos + bytes.length ≤ b.data.length := by
  have hLen := hAt.length_eq
  rw [length_append] at hLen
  omega

theorem At.skip (hPos : pos' = pos + bytes.length) : At b pos' rest := by
  rcases hAt with ⟨front, hData, rfl⟩
  refine ⟨front ++ bytes, by simp [hData], ?_⟩
  rw [hPos, length_append, Nat.cast_add]

theorem At.ssize_eq : ssize (pos + bytes.length) = pos + bytes.length := by
  have hNonneg := hAt.nonneg
  have hLe := hAt.le_length
  have hLt := b.size_lt
  apply Int.bmod_eq_of_le
  · omega
  · omega

theorem At.bytes_eq : b.bytes pos bytes.length = .ok bytes := by
  rcases hAt with ⟨front, hData, rfl⟩
  have hFits : front.length + bytes.length ≤ b.data.length := by simp [hData]
  unfold Blob.bytes
  rw [if_neg (by omega), Int.toNat_natCast, Int.toNat_natCast, block_eq hFits, hData,
    drop_left, take_left]

end

theorem At.read4_eq (hAt : At b pos (write4 v ++ rest))
    (hLow : -2 ^ 31 ≤ v) (hHigh : v < 2 ^ 31) : b.read4 pos = .ok v := by
  rcases hAt with ⟨front, hData, rfl⟩
  have hFetch := fetch_append hData rfl (length_toBytes 4 v)
  have hValue : toSigned 4 (ofBytes (write4 v)) = v := by
    apply toSigned_ofBytes_toBytes
    · omega
    · omega
  unfold Blob.read4 ImgDiff.read4
  rw [if_neg (by omega), Int.toNat_natCast, hFetch, ok_bind, hValue]
  rfl

theorem At.read8_eq {n : Nat} (hAt : At b pos (write8 n ++ rest))
    (hLt : n < 2 ^ 31) : b.read8 pos = .ok n := by
  rcases hAt with ⟨front, hData, rfl⟩
  have hFetch := fetch_append hData rfl (length_toBytes 8 n)
  have hValue : toSigned 8 (ofBytes (write8 n)) = n := by
    apply toSigned_ofBytes_toBytes
    · omega
    · omega
  unfold Blob.read8 ImgDiff.read8
  rw [if_neg (by omega), Int.toNat_natCast, hFetch, ok_bind, hValue]
  rfl

@[simp] theorem length_write4 (v : Int) : (write4 v).length = 4 :=
  length_toBytes 4 v

@[simp] theorem length_write8 (v : Int) : (write8 v).length = 8 :=
  length_toBytes 8 v

theorem At.skip4 (hAt : At b pos (write4 v ++ rest)) : At b (pos + 4) rest :=
  hAt.skip (by simp)

theorem At.skip8 (hAt : At b pos (write8 v ++ rest)) : At b (pos + 8) rest :=
  hAt.skip (by simp)

theorem size_natCast {n : Nat} (hLt : n < 2 ^ 31) : size n = n := by
  unfold size
  omega

------
-- Sinks That Take Everything
------

variable {τ : Type} {sink : Sink τ}

/- The sink takes everything it is offered. -/
def Sink.AcceptsAll (sink : Sink τ) : Prop :=
  ∀ token bytes, (sink.write token bytes).1 = bytes.length

/- The bytes went to the sink and into the hash. -/
structure Appends (out : Out τ) (bytes : Buffer) (out' : Out τ) : Prop where
  fed : out'.fed = out.fed ++ bytes
  hashed : out'.hashed = out.hashed ++ bytes

theorem Appends.trans {out out' out'' : Out τ}
    {bytes bytes' : Buffer} (hFirst : Appends out bytes out')
    (hSecond : Appends out' bytes' out'') : Appends out (bytes ++ bytes') out'' where
  fed := by rw [hSecond.fed, hFirst.fed, append_assoc]
  hashed := by rw [hSecond.hashed, hFirst.hashed, append_assoc]

theorem offer_fst (hAll : sink.AcceptsAll) (out : Out τ)
    (bytes : Buffer) : (out.offer sink bytes).1 = bytes.length :=
  hAll out.token bytes

theorem appends_offer_sha (out : Out τ) (bytes : Buffer) :
    Appends out bytes ((out.offer sink bytes).2.shaUpdate bytes) where
  fed := by simp [Out.offer, Out.shaUpdate, Out.fed]
  hashed := by simp [Out.offer, Out.shaUpdate]

theorem writePieces_appends (hAll : sink.AcceptsAll) (pieces : List Buffer) (out : Out τ) :
    ∃ out', writePieces sink pieces out = (true, out') ∧ Appends out pieces.flatten out' := by
  induction pieces generalizing out with
  | nil => exact ⟨out, rfl, by simp, by simp⟩
  | cons piece pieces ih =>
    rcases ih ((out.offer sink piece).2.shaUpdate piece) with ⟨out', hWrite, hAppends⟩
    have hPiece := offer_fst hAll out piece
    refine ⟨out', ?_, ?_⟩
    · simp only [writePieces, hPiece, ne_eq, not_true_eq_false, if_false, hWrite]
    · exact (appends_offer_sha out piece).trans hAppends

------
-- What A Chunk Of A Patch File Stands For
------

variable (zlib : Zlib) (bsd : Bsdiff) (src : Buffer)

/- Applied to the source, the chunk gives the bytes. -/
inductive Restores : PatchChunk → Buffer → Prop where
| raw {c : ImageChunk} {bytes : Buffer} (hType : c.type = .raw) : Restores (c, bytes) bytes
| normal {c : ImageChunk} {patch bytes : Buffer} (hType : c.type = .normal)
    (hFits : c.sourceStart + c.sourceLen ≤ src.length)
    (hPatch : bsd.bsdiff (slice src c.sourceStart c.sourceLen) bytes = some patch) :
    Restores (c, patch) bytes
| deflate {c : ImageChunk} {patch bytes expanded new : Buffer} {used : Nat}
    (hType : c.type = .deflate) (hFits : c.sourceStart + c.sourceLen ≤ src.length)
    (hInflate : zlib.inflate (slice src c.sourceStart c.sourceLen) = some (expanded, used))
    (hLen : expanded.length = c.sourceUncompressedLen) (hLt : expanded.length < 2 ^ 31)
    (hPatch : bsd.bsdiff expanded new = some patch)
    (hParams : ∃ level ∈ [6, 9], c.params = encoderParams level)
    (hDeflate : (zlib.deflate c.params new bufferSize).map flatten = some bytes) :
    Restores (c, patch) bytes

variable {zlib bsd src} {tgt : Buffer} {s t : ImageChunk} {c : PatchChunk}

theorem bytes_normal {img : Buffer} (hType : d.type = .normal) (hData : d.data = .image d.start)
    (hFits : d.start + d.span ≤ img.length) : d.data.bytes (padded img) d.len = d.part img := by
  rw [ImageChunk.part, ← slice_padded hFits, hData, ImageChunk.span_normal hType]
  rfl

/- `MakePatch` makes a chunk that stands for its target. -/
theorem makePatch_restores (hSource : Sound (Inflated zlib src) s)
    (hTarget : Sound (Reproduced zlib tgt) t) (hType : s.type = t.type)
    (hSrcFits : s.start + s.span ≤ src.length) (hTgtFits : t.start + t.span ≤ tgt.length)
    (hMake : makePatch bsd (padded src) (padded tgt) s t = some c) :
    Restores zlib bsd src c (t.part tgt) := by
  cases hTarget with
  | normal hNorm hData =>
    have hBytes := bytes_normal hNorm hData hTgtFits
    have hSrcNorm : s.type = .normal := hType.trans hNorm
    cases hSource with
    | deflate hOther => simp [hSrcNorm] at hOther
    | normal _ hSrcData =>
      have hSrcBytes := bytes_normal hSrcNorm hSrcData hSrcFits
      simp only [makePatch, hNorm, hBytes, true_and] at hMake
      split at hMake
      · cases hMake
        exact .raw rfl
      · split at hMake
        · cases hMake
        · rename_i patch hDiff
          split at hMake
          · cases hMake
            exact .raw rfl
          · cases hMake
            rw [ImageChunk.span_normal hSrcNorm] at hSrcFits
            rw [hSrcBytes, ImageChunk.part, ImageChunk.span_normal hSrcNorm] at hDiff
            exact .normal rfl hSrcFits hDiff
  | deflate hDefl hData hHolds =>
    have hSrcDefl : s.type = .deflate := hType.trans hDefl
    cases hSource with
    | normal hOther => simp [hSrcDefl] at hOther
    | deflate _ _ hInflated =>
      rcases hInflated.inflated with ⟨expanded, hHeap, hLen, hInflate⟩
      have hExpanded : s.data.bytes (padded src) s.len = expanded := by
        rw [hHeap, hLen]
        exact take_length
      have hLt := hInflated.len_lt
      rw [hLen] at hLt
      rw [ImageChunk.span_deflate hSrcDefl] at hSrcFits
      simp only [makePatch, hDefl, reduceCtorEq, false_and, if_false, if_true, hExpanded] at hMake
      split at hMake
      · cases hMake
      · rename_i patch hDiff
        cases hMake
        rw [ImageChunk.part, ImageChunk.span_deflate hDefl]
        exact .deflate rfl hSrcFits hInflate hLen.symm hLt hDiff hHolds.encoder hHolds.reproduced

------
-- Applying A Chunk
------

variable {zlib : Zlib} {bsd : Bsdiff} {old patch : Blob} {offset : Nat} {later : Buffer}

theorem At.offset_lt (hAt : At patch offset rest) : offset < 2 ^ 31 := by
  have hLen := hAt.length_eq
  have hLt := patch.size_lt
  omega

variable {new body : Buffer}

theorem applyBSDiffPatchMem_at {oldData : Buffer} (hAt : At patch offset (body ++ later))
    (hPatch : bsd.bsdiff oldData new = some body) :
    applyBSDiffPatchMem bsd patch oldData offset = .ok (some new) := by
  rcases hAt with ⟨front, hData, hOffset⟩
  have hFront : offset = front.length := Int.ofNat_inj.mp hOffset
  have hDrop : patch.data.drop offset = body ++ later := by rw [hData, hFront, drop_left]
  have hLen : offset ≤ patch.data.length := by simp [hData, hFront]
  have hTake : (body ++ later).take (patch.data.length - offset) = body ++ later := by
    rw [← hDrop, ← length_drop, take_length]
  unfold applyBSDiffPatchMem
  rw [block_eq (by omega), hDrop, hTake, ok_bind, bsd.restores later hPatch]
  rfl

/- What follows the type in the header of a normal chunk. -/
theorem applyNormalChunk_restores (hAll : sink.AcceptsAll) {c : ImageChunk}
    (hFits : c.sourceStart + c.sourceLen ≤ old.data.length)
    (hPatch : bsd.bsdiff (slice old.data c.sourceStart c.sourceLen) bytes =
      some body) (hBody : At patch offset (body ++ later))
    (hAt : At patch pos (write8 c.sourceStart ++ (write8 c.sourceLen ++ (write8 offset ++ rest))))
    (out : Out τ) :
    ∃ out', applyNormalChunk bsd sink old patch pos out = .ok (.again (pos + 24, out')) ∧
      Appends out bytes out' := by
  have hOld := old.size_lt
  have hAt₁ := hAt.skip8
  have hAt₂ := hAt₁.skip8
  have hNext : ssize (pos + 24) = pos + 24 := by
    rw [← append_assoc, ← append_assoc] at hAt
    simpa using hAt.ssize_eq
  have hEnd := hAt₂.le_length
  rw [length_write8] at hEnd
  rw [show pos + 8 + 8 = pos + 16 by ring] at hAt₂
  refine ⟨(out.offer sink bytes).2.shaUpdate bytes, ?_, appends_offer_sha out bytes⟩
  unfold applyNormalChunk
  simp only [hNext]
  rw [if_neg (by omega), hAt.read8_eq (by omega), ok_bind, hAt₁.read8_eq (by omega), ok_bind,
    hAt₂.read8_eq hBody.offset_lt, ok_bind, size_natCast (by omega), size_natCast (by omega),
    size_natCast hBody.offset_lt, block_eq hFits, ok_bind]
  have hApply : applyBSDiffPatch bsd sink patch (slice old.data c.sourceStart c.sourceLen) offset
      out = .ok (0, (out.offer sink bytes).2.shaUpdate bytes) := by
    unfold applyBSDiffPatch
    rw [applyBSDiffPatchMem_at hBody hPatch, ok_bind]
    simp only [offer_fst hAll, lt_irrefl, if_false]
    rfl
  simp only [slice] at hApply
  rw [hApply, ok_bind]
  rfl

theorem applyRawChunk_restores (hAll : sink.AcceptsAll)
    (hAt : At patch pos (write4 bytes.length ++ (bytes ++ rest))) (out : Out τ) :
    ∃ out', applyRawChunk sink patch pos out = .ok (.again (pos + 4 + bytes.length, out')) ∧
      Appends out bytes out' := by
  have hData := hAt.skip4
  have hStart : ssize (pos + 4) = pos + 4 := by simpa using hAt.ssize_eq
  have hNonneg := hAt.nonneg
  have hEnd := hData.le_length
  have hLt := patch.size_lt
  refine ⟨((out.shaUpdate bytes).offer sink bytes).2, ?_,
    by simp [Out.offer, Out.shaUpdate, Out.fed], by simp [Out.offer, Out.shaUpdate]⟩
  unfold applyRawChunk
  simp only [hStart]
  rw [if_neg (by omega), hAt.read4_eq (by omega) (by omega), ok_bind]
  simp only [hData.ssize_eq]
  rw [if_neg (by omega), hData.bytes_eq, ok_bind]
  simp only [offer_fst hAll, ne_eq, not_true_eq_false, if_false]
  rfl

/- The header of a deflate chunk behind its type. -/
def deflateFields (offset : Nat) (c : ImageChunk) : Buffer :=
  write8 c.sourceStart ++ (write8 c.sourceLen ++
    (write8 offset ++ (write8 c.sourceUncompressedLen ++ (write8 c.len ++ (write4 c.params.level ++
    (write4 c.params.method ++ (write4 c.params.windowBits ++ (write4 c.params.memLevel ++
    write4 c.params.strategy))))))))

theorem length_deflateFields (offset : Nat) (c : ImageChunk) :
    (deflateFields offset c).length = 60 := by
  simp [deflateFields]

theorem readDeflateHeader_at {c : ImageChunk}
    (hStart : c.sourceStart < 2 ^ 31) (hLen : c.sourceLen < 2 ^ 31) (hOffset : offset < 2 ^ 31)
    (hExpanded : c.sourceUncompressedLen < 2 ^ 31)
    (hParams : ∃ level ∈ [6, 9], c.params = encoderParams level)
    (hAt : At patch pos (deflateFields offset c ++ rest)) :
    readDeflateHeader patch pos =
      .ok {
        srcStart := c.sourceStart
        srcLen := c.sourceLen
        patchOffset := offset
        expandedLen := c.sourceUncompressedLen
        params := c.params } := by
  rcases hParams with ⟨level, hLevel, hParams⟩
  have hRange : -2 ^ 31 ≤ level ∧ level < 2 ^ 31 := by
    simp only [mem_cons, not_mem_nil, or_false] at hLevel
    omega
  have hAt₈ := hAt.skip8
  have hAt₁₆ := hAt₈.skip8
  have hAt₂₄ := hAt₁₆.skip8
  have hAt₄₀ := hAt₂₄.skip8.skip8
  have hAt₄₄ := hAt₄₀.skip4
  have hAt₄₈ := hAt₄₄.skip4
  have hAt₅₂ := hAt₄₈.skip4
  have hAt₅₆ := hAt₅₂.skip4
  simp only [add_assoc, Int.reduceAdd, hParams, encoderParams] at *
  unfold readDeflateHeader
  rw [hAt.read8_eq hStart, ok_bind, hAt₈.read8_eq hLen, ok_bind, hAt₁₆.read8_eq hOffset, ok_bind,
    hAt₂₄.read8_eq hExpanded, ok_bind, hAt₄₀.read4_eq hRange.1 hRange.2, ok_bind,
    hAt₄₄.read4_eq (by omega) (by omega), ok_bind, hAt₄₈.read4_eq (by omega) (by omega), ok_bind,
    hAt₅₂.read4_eq (by omega) (by omega), ok_bind, hAt₅₆.read4_eq (by omega) (by omega), ok_bind,
    size_natCast hStart, size_natCast hLen, size_natCast hOffset, size_natCast hExpanded]
  rfl

theorem applyDeflateChunk_restores (hAll : sink.AcceptsAll)
    {c : ImageChunk} {expanded : Buffer} {used : Nat}
    (hFits : c.sourceStart + c.sourceLen ≤ old.data.length)
    (hInflate : zlib.inflate (slice old.data c.sourceStart c.sourceLen) = some (expanded, used))
    (hLen : expanded.length = c.sourceUncompressedLen) (hLt : expanded.length < 2 ^ 31)
    (hPatch : bsd.bsdiff expanded new = some body)
    (hParams : ∃ level ∈ [6, 9], c.params = encoderParams level)
    (hDeflate : (zlib.deflate c.params new bufferSize).map flatten = some bytes)
    (hBody : At patch offset (body ++ later)) (hAt : At patch pos (deflateFields offset c ++ rest))
    (out : Out τ) :
    ∃ out', applyDeflateChunk zlib bsd sink old patch pos out = .ok (.again (pos + 60, out')) ∧
      Appends out bytes out' := by
  have hOld := old.size_lt
  have hNext := hAt.ssize_eq
  have hEnd := hAt.le_length
  rw [length_deflateFields] at hNext hEnd
  have hHeader := readDeflateHeader_at (by omega) (by omega) hBody.offset_lt (by omega) hParams hAt
  rw [zlib.deflate_room _ _ bufferSize (max c.sourceUncompressedLen 32768)
    (by norm_num [bufferSize]) (by omega)] at hDeflate
  rcases Option.map_eq_some_iff.mp hDeflate with ⟨pieces, hPieces, hFlatten⟩
  rcases writePieces_appends hAll pieces out with ⟨out', hWrite, hAppends⟩
  rw [hFlatten] at hAppends
  refine ⟨out', ?_, hAppends⟩
  unfold applyDeflateChunk
  simp only [Nat.cast_ofNat] at hNext hEnd
  simp only [hNext]
  rw [if_neg (by omega), hHeader, ok_bind]
  unfold applyDeflated
  rw [block_eq hFits, ok_bind]
  simp only [slice] at hInflate
  simp only [hInflate, hLen, ne_eq, not_true_eq_false, if_false]
  rw [applyBSDiffPatchMem_at hBody hPatch, ok_bind]
  simp only [recompress, hPieces, hWrite]

------
-- Applying All Chunks
------

variable {cs : List PatchChunk}

theorem length_writeHeader (offset : Nat) (c : PatchChunk) :
    (writeHeader offset c).length = headerSize c := by
  unfold writeHeader headerSize
  split <;> simp

theorem patchBody_eq {c : PatchChunk} (hType : c.1.type ≠ .raw) : patchBody c = c.2 := by
  unfold patchBody
  split
  · next hRaw => exact absurd hRaw hType
  · rfl

/- One pass of the loop does what the chunk stands for. -/
theorem applyChunk_restores (hAll : sink.AcceptsAll) {c : PatchChunk} {bytes : Buffer}
    (hRestores : Restores zlib bsd old.data c bytes)
    (hBody : At patch offset (patchBody c ++ later))
    (hAt : At patch pos (writeHeader offset c ++ rest)) (out : Out τ) :
    ∃ out', applyChunk zlib bsd sink old patch pos out = .ok (.again (pos + headerSize c, out')) ∧
      Appends out bytes out' := by
  unfold writeHeader at hAt
  rw [append_assoc] at hAt
  have hRest := hAt.skip4
  have hNext : ssize (pos + 4) = pos + 4 := by simpa using hAt.ssize_eq
  have hEnd := hAt.le_length
  simp only [length_write4, Nat.cast_ofNat] at hEnd
  unfold applyChunk headerSize
  simp only [hNext]
  rw [if_neg (by omega)]
  cases hRestores with
  | raw hType =>
    simp only [hType] at hAt hRest ⊢
    rcases applyRawChunk_restores hAll hRest out with ⟨out', hApply, hAppends⟩
    refine ⟨out', ?_, hAppends⟩
    rw [hAt.read4_eq (by decide) (by decide), ok_bind, if_neg (by decide), if_pos rfl, hApply]
    push_cast
    ring_nf
  | normal hType hFits hPatch =>
    rw [patchBody_eq (by simp [hType])] at hBody
    simp only [hType] at hAt hRest ⊢
    rcases applyNormalChunk_restores hAll hFits hPatch hBody hRest out with ⟨out', hApply, hAppends⟩
    refine ⟨out', ?_, hAppends⟩
    rw [hAt.read4_eq (by decide) (by decide), ok_bind, if_pos rfl, hApply]
    ring_nf
  | deflate hType hFits hInflate hLen hLt hPatch hParams hDeflate =>
    rw [patchBody_eq (by simp [hType])] at hBody
    simp only [hType] at hAt hRest ⊢
    rcases applyDeflateChunk_restores hAll hFits hInflate
        hLen hLt hPatch hParams hDeflate hBody hRest out
      with ⟨out', hApply, hAppends⟩
    refine ⟨out', ?_, hAppends⟩
    rw [hAt.read4_eq (by decide) (by decide), ok_bind,
      if_neg (by decide), if_neg (by decide), if_pos rfl, hApply]
    ring_nf

/- The loop does what all the chunks stand for. -/
theorem applyChunks_restores (hAll : sink.AcceptsAll)
    (hRestores : List.Forall₂ (Restores zlib bsd old.data) cs parts)
    (hBodies : At patch offset ((cs.map patchBody).flatten ++ later))
    (hAt : At patch pos (writeHeaders offset cs ++ rest)) (out : Out τ) :
    ∃ out', applyChunks zlib bsd sink old patch cs.length pos out = .ok (0, out') ∧
      Appends out parts.flatten out' := by
  induction hRestores generalizing pos offset out with
  | nil => exact ⟨out, rfl, by simp, by simp⟩
  | @cons c bytes cs parts hChunk _ ih =>
    simp only [map_cons, flatten_cons, append_assoc] at hBodies
    simp only [writeHeaders, append_assoc] at hAt
    rcases applyChunk_restores hAll hChunk hBodies hAt out with ⟨out₁, hApply, hAppends⟩
    have hBodies' : At patch (offset + (patchBody c).length : Nat)
        ((cs.map patchBody).flatten ++ later) :=
      hBodies.skip (by push_cast; rfl)
    have hAt' : At patch (pos + headerSize c) (writeHeaders (offset + (patchBody c).length) cs
        ++ rest) :=
      hAt.skip (by rw [length_writeHeader])
    rcases ih hBodies' hAt' out₁ with ⟨out₂, hRun, hLater⟩
    refine ⟨out₂, ?_, hAppends.trans hLater⟩
    rw [length_cons, applyChunks, hApply, ok_bind]
    exact hRun

------
-- The Patch File Restores The Target
------

variable {src : Buffer}

theorem makePatches_restores {ss ts : List ImageChunk}
    (hSource : ∀ c ∈ ss, Sound (Inflated zlib src) c)
    (hTarget : ∀ c ∈ ts, Sound (Reproduced zlib tgt) c)
    (hSrcFits : ∀ c ∈ ss, c.start + c.span ≤ src.length)
    (hTgtFits : ∀ c ∈ ts, c.start + c.span ≤ tgt.length)
    (hTypes : ss.map (·.type) = ts.map (·.type))
    (hMake : makePatches bsd (padded src) (padded tgt) (ss.zip ts) = some cs) :
    List.Forall₂ (Restores zlib bsd src) cs (ts.map (ImageChunk.part tgt)) := by
  induction ss generalizing ts cs with
  | nil =>
    have hNil : ts = [] := by simpa using hTypes.symm
    subst hNil
    cases hMake
    exact .nil
  | cons s ss ih =>
    cases ts with
    | nil => simp at hTypes
    | cons t ts =>
      simp only [map_cons, cons.injEq] at hTypes
      simp only [forall_mem_cons] at hSource hTarget hSrcFits hTgtFits
      simp only [zip_cons_cons, makePatches, Option.bind_eq_bind, Option.bind_eq_some_iff] at hMake
      rcases hMake with ⟨c, hChunk, cs', hRest, hEq⟩
      cases hEq
      exact .cons (makePatch_restores hSource.1 hTarget.1 hTypes.1 hSrcFits.1 hTgtFits.1 hChunk)
        (ih hSource.2 hTarget.2 hSrcFits.2 hTgtFits.2 hTypes.2 hRest)

/- What `main` writes after it has read both images. -/
theorem diffChunks_restores {ss ts : List ImageChunk}
    {file : Buffer} (hSource : Layout (Inflated zlib src) src ss)
    (hTarget : Layout (Inflated zlib tgt) tgt ts)
    (hDiff : diffChunks zlib bsd (padded src) (padded tgt) ss ts = .ok (some file)) :
    ∃ cs parts, file = patchFile cs ∧ List.Forall₂ (Restores zlib bsd src) cs parts ∧
      parts.flatten = tgt := by
  unfold diffChunks at hDiff
  simp only at hDiff
  split at hDiff
  · cases hDiff
  · rename_i hSame
    have hTypes := beq_iff_eq.mp (not_not.mp hSame)
    rcases bind_eq_ok.mp hDiff with ⟨ps, hSettle, hNext⟩
    rcases settlePairs_spec hSource.merge hTarget.merge hTypes hSettle with ⟨hSrc, hTgt, hSettled⟩
    split at hNext
    · cases hNext
    · have hMake := Except.ok.inj hNext
      rcases Option.map_eq_some_iff.mp hMake with ⟨cs, hChunks, rfl⟩
      refine ⟨cs, _, rfl, ?_, hTgt.merge.flatten_parts⟩
      exact makePatches_restores hSrc.merge.sound hTgt.merge.sound
        (fun c hMem => hSrc.merge.bound hMem)
        (fun c hMem => hTgt.merge.bound hMem)
        (map_type_merge hSrc hTgt hSettled) hChunks

theorem length_writeHeaders (offset : Nat) (cs : List PatchChunk) :
    (writeHeaders offset cs).length = (cs.map headerSize).sum := by
  induction cs generalizing offset with
  | nil => rfl
  | cons c cs ih => simp [writeHeaders, length_writeHeader, ih]

theorem length_le_patchFile (cs : List PatchChunk) : cs.length ≤ (patchFile cs).length := by
  have hSum : cs.length ≤ (cs.map headerSize).sum := by
    induction cs with
    | nil => exact le_refl 0
    | cons c cs ih =>
      have hPos : 4 ≤ headerSize c := Nat.le_add_right 4 _
      simp only [length_cons, map_cons, sum_cons]
      omega
  simp only [patchFile, length_append, length_writeHeaders]
  omega

/- Applying a file whose chunks stand for the parts. -/
theorem applyImagePatch_restores (hAll : sink.AcceptsAll) {old patch : Blob}
    (hFile : patch.data = patchFile cs)
    (hRestores : List.Forall₂ (Restores zlib bsd old.data) cs parts) (token : τ) :
    ∃ out, applyImagePatch zlib bsd sink old patch token = .ok (0, out) ∧
      Appends ⟨token, [], []⟩ parts.flatten out := by
  have hLt := patch.size_lt
  have hCount := length_le_patchFile cs
  rw [← hFile] at hCount
  have hStart : At patch 0 (imgdiffMagic ++ (write4 cs.length ++
      (writeHeaders (12 + (cs.map headerSize).sum) cs ++ (cs.map patchBody).flatten))) :=
    ⟨[], hFile, rfl⟩
  have hNumber : At patch 8 (write4 cs.length ++ (writeHeaders (12 + (cs.map headerSize).sum) cs ++
      (cs.map patchBody).flatten)) :=
    hStart.skip rfl
  have hHeaders := hNumber.skip4
  have hBodies : At patch (12 + (cs.map headerSize).sum : Nat)
      ((cs.map patchBody).flatten ++ []) := by
    rw [append_nil]
    apply hHeaders.skip
    rw [length_writeHeaders]
    push_cast
    ring
  rcases applyChunks_restores hAll hRestores hBodies hHeaders ⟨token, [], []⟩ with
    ⟨out, hRun, hAppends⟩
  refine ⟨out, ?_, hAppends⟩
  have hMagic : patch.data.take 8 = imgdiffMagic := by
    rw [hFile]
    rfl
  have hLong : ¬ patch.data.length < 12 := by
    have hLen := hHeaders.length_eq
    omega
  unfold applyImagePatch
  rw [if_neg hLong, if_neg (not_not.mpr hMagic), hNumber.read4_eq (by omega) (by omega), ok_bind,
    Int.toNat_natCast]
  exact hRun

/-
  For images in which every occurrence of the four bytes begins a gzip member: if `imgdiff` exits
  with 0, then `ApplyImagePatch` of its patch file to the source returns 0, and the sink and the
  hash get the bytes of the target.
-/
theorem imgpatch_restores_target (zlib : Zlib) (bsd : Bsdiff)
    (fuel : Nat) (src : Blob) (tgt : Buffer) (patch : Blob)
    (sink : Sink τ) (token : τ) (hAll : sink.AcceptsAll)
    (hSource : MembersValid zlib src.data) (hTarget : MembersValid zlib tgt)
    (hDiff : imgdiff zlib bsd fuel src.data tgt = .ok (some patch.data)) :
    ∃ out, applyImagePatch zlib bsd sink src patch token = .ok (0, out) ∧ out.fed = tgt ∧
      out.hashed = tgt := by
  rcases bind_eq_ok.mp hDiff with ⟨ss, hReadSrc, hNext⟩
  cases ss with
  | none => cases hNext
  | some ss =>
    rcases bind_eq_ok.mp hNext with ⟨ts, hReadTgt, hRest⟩
    cases ts with
    | none => cases hRest
    | some ts =>
      rcases diffChunks_restores (readImage_layout hSource hReadSrc)
          (readImage_layout hTarget hReadTgt) hRest with ⟨cs, parts, hFile, hRestores, hParts⟩
      rcases applyImagePatch_restores hAll hFile hRestores token with ⟨out, hApply, hAppends⟩
      rw [hParts] at hAppends
      exact ⟨out, hApply, hAppends.fed, hAppends.hashed⟩

------
-- A Kernel That Has Changed
------

/- A stream with a mark before every byte and at the end. -/
def markStream : Buffer → Buffer
| [] => [0]
| b :: bs => 1 :: b :: markStream bs

def unmarkStream : Buffer → Option (Buffer × Nat)
| 0 :: _ => some ([], 1)
| 1 :: b :: bs =>
  (unmarkStream bs).map fun (data, used) => (b :: data, used + 2)
| _ => none

theorem unmarkStream_markStream (data rest : Buffer) :
    unmarkStream (markStream data ++ rest) = some (data, (markStream data).length) := by
  induction data with
  | nil => rfl
  | cons b data ih => simp [markStream, unmarkStream, ih]

theorem unmarkStream_take {bytes data : Buffer} {used : Nat}
    (h : unmarkStream bytes = some (data, used)) :
    used ≤ bytes.length ∧ unmarkStream (bytes.take used) = some (data, used) := by
  fun_induction unmarkStream bytes generalizing data used with
  | case1 rest =>
    cases h
    exact ⟨by simp, rfl⟩
  | case2 b bs ih =>
    rcases Option.map_eq_some_iff.mp h with ⟨⟨tail, n⟩, hTail, hEq⟩
    cases hEq
    rcases ih hTail with ⟨hLe, hTake⟩
    refine ⟨by simpa using hLe, ?_⟩
    simp [unmarkStream, hTake]
  | case3 => cases h

/- Streams of marked bytes. -/
def markZlib : Zlib where
  inflate := unmarkStream
  deflate _ data _ := some [markStream data]
  inflate_le h := (unmarkStream_take h).1
  inflate_take h := (unmarkStream_take h).2
  deflate_room _ _ _ _ _ _ := rfl

/- Patches that hold all of the new data. -/
def markBsdiff : Bsdiff where
  bsdiff _ new := some (markStream new)
  applyMem _ patch := (unmarkStream patch).map (·.1)
  restores := by
    intro old new patch rest h
    cases h
    simp [unmarkStream_markStream]

/- An image with one gzip member for one byte. -/
def kernelImage (b : UInt8) : Buffer :=
  [0x1f, 0x8b, 0x08, 0x00, 0, 0, 0, 0, 0, 0] ++ markStream [b] ++ [9, 9, 9, 9, 1, 0, 0, 0]

def takingSink : Sink Unit where
  write _ bytes := (bytes.length, ())

theorem membersValid_kernelImage {b : UInt8} (hByte : b = 5 ∨ b = 6) :
    MembersValid markZlib (kernelImage b) := by
  intro pos hGzip
  have hPos : pos < 21 := by
    by_contra hGe
    have hDrop : (kernelImage b).drop pos = [] := by
      simp [kernelImage, markStream]
      omega
    simp [gzipAt, hDrop] at hGzip
  have hZero : pos = 0 := by
    rcases hByte with rfl | rfl
    · revert pos
      decide
    · revert pos
      decide
  subst hZero
  exact ⟨[b], 3, rfl, le_refl 21⟩

/- The patch from one kernel to the other. -/
def kernelPatch : Blob where
  data := match imgdiff markZlib markBsdiff 4 (kernelImage 5) (kernelImage 6) with
    | .ok (some file) => file
    | _ => []
  size_lt := by decide

def kernelSource : Blob where
  data := kernelImage 5
  size_lt := by decide

theorem imgpatch_restores_kernel :
    ∃ out, applyImagePatch markZlib markBsdiff takingSink
      kernelSource kernelPatch () = .ok (0, out) ∧ out.fed = kernelImage 6 ∧
      out.hashed = kernelImage 6 :=
  imgpatch_restores_target markZlib markBsdiff 4
    kernelSource (kernelImage 6) kernelPatch takingSink ()
    (fun _ _ => rfl) (membersValid_kernelImage (.inl rfl))
    (membersValid_kernelImage (.inr rfl)) (by decide +kernel)

------
-- Writes
------

/- The bytes that the sink took of what it was offered. -/
def delivered : List (Buffer × Int) → Buffer
| [] => []
| (bytes, n) :: calls => bytes.take n.toNat ++ delivered calls

/- The bytes of the writes that were not too short. -/
def whole : List (Buffer × Int) → Buffer
| [] => []
| (bytes, n) :: calls =>
  (if bytes.length ≤ n then bytes else []) ++ whole calls

/- The sink took some of the bytes and not all. -/
def PartTaken (call : Buffer × Int) : Prop :=
  0 < call.2 ∧ call.2 < call.1.length

variable (calls : List (Buffer × Int))

theorem whole_append (bytes : Buffer) (n : Int) :
    whole (calls ++ [(bytes, n)]) = whole calls ++ (if bytes.length ≤ n then bytes else []) := by
  induction calls with
  | nil => simp [whole]
  | cons call calls ih => simp only [cons_append, whole, ih, append_assoc]

theorem length_whole_le : (whole calls).length ≤ (delivered calls).length := by
  induction calls with
  | nil => exact le_refl 0
  | cons call calls ih =>
    simp only [whole, delivered, length_append, length_take]
    split
    · omega
    · rw [length_nil]
      omega

/- Part of a write makes the sink ahead for good. -/
theorem delivered_eq_whole_iff :
    delivered calls = whole calls ↔ ∀ call ∈ calls, ¬ PartTaken call := by
  induction calls with
  | nil =>
    refine iff_of_true rfl ?_
    intro call hCall
    cases hCall
  | cons call calls ih =>
    rcases call with ⟨bytes, n⟩
    rw [forall_mem_cons, ← ih, delivered, whole, PartTaken]
    by_cases hWhole : bytes.length ≤ n
    · have hAll : bytes.take n.toNat = bytes := take_of_length_le (by omega)
      have hNot : ¬ (0 < n ∧ n < bytes.length) := by omega
      rw [if_pos hWhole, hAll, append_cancel_left_eq]
      exact (and_iff_right hNot).symm
    · rw [if_neg hWhole, nil_append]
      by_cases hSome : 0 < n
      · have hPart : 0 < n ∧ n < bytes.length := by omega
        refine iff_of_false ?_ (fun hBoth => hBoth.1 hPart)
        intro hEq
        have hLength := congrArg length hEq
        have hLe := length_whole_le calls
        rw [length_append, length_take] at hLength
        omega
      · have hNone : bytes.take n.toNat = [] := by rw [Int.toNat_of_nonpos (by omega), take_zero]
        have hNot : ¬ (0 < n ∧ n < bytes.length) := by omega
        rw [hNone, nil_append]
        exact (and_iff_right hNot).symm

------
-- Chunks
------

variable {τ : Type} {out : Out τ}

/- What was hashed is what was written whole. -/
def Settled (out : Out τ) : Prop :=
  out.hashed = whole out.calls

/- A chunk is settled, or the function fails. -/
def Goes : Step τ → Prop
| .done (ret, _) => ret ≠ 0
| .again (_, out) => Settled out

theorem goes_failed : Goes (.done (-1, out)) := by
  change (-1 : Int) ≠ 0
  decide

variable {zlib : Zlib} {bsd : Bsdiff} {sink : Sink τ} {old patch : Blob} {bytes : Buffer}

/- A block that is there has the length that was asked for. -/
theorem bytes_length (b : Blob) (pos len : Int) :
    Ensures (b.bytes pos len) fun data => data.length = len := by
  apply Ensures.ite
  · intro _
    exact .error
  · intro hNot
    apply Ensures.ite
    · intro hFits
      apply Ensures.ok
      rw [length_take, length_drop]
      omega
    · intro _
      exact .error

section

variable (hOut : Settled out)

include hOut

theorem Settled.refused (hShort : (out.offer sink bytes).1 < bytes.length) :
    Settled (out.offer sink bytes).2 := by
  change out.hashed = whole (out.calls ++ [(bytes, (out.offer sink bytes).1)])
  rw [whole_append, if_neg (Int.not_le.mpr hShort), append_nil]
  exact hOut

theorem Settled.taken (hWhole : bytes.length ≤ (out.offer sink bytes).1) :
    Settled ((out.offer sink bytes).2.shaUpdate bytes) := by
  change out.hashed ++ bytes = whole (out.calls ++ [(bytes, (out.offer sink bytes).1)])
  rw [whole_append, if_pos hWhole, hOut]

theorem applyBSDiffPatch_settled (oldData : Buffer) (patchOffset : Nat) :
    Ensures (applyBSDiffPatch bsd sink patch oldData patchOffset out) fun r => Settled r.2 := by
  refine .any_bind fun newData => ?_
  cases newData with
  | none => exact .ok hOut
  | some newData =>
    apply Ensures.ite
    · intro hShort
      exact .ok (hOut.refused hShort)
    · intro hNot
      exact .ok (hOut.taken (Int.not_lt.mp hNot))

theorem applyNormalChunk_goes (pos : Int) :
    Ensures (applyNormalChunk bsd sink old patch pos out) Goes := by
  refine .either (.ok goes_failed) ?_
  refine .any_bind fun srcStart => ?_
  refine .any_bind fun srcLen => ?_
  refine .any_bind fun patchOffset => ?_
  refine .any_bind fun oldData => ?_
  refine .bind (applyBSDiffPatch_settled hOut oldData _) ?_
  intro r hR
  exact .ok hR

theorem applyRawChunk_goes (pos : Int) :
    Ensures (applyRawChunk sink patch pos out) Goes := by
  refine .either (.ok goes_failed) ?_
  refine .any_bind fun dataLen => ?_
  refine .either (.ok goes_failed) ?_
  refine .bind (bytes_length patch _ dataLen) fun data hData => ?_
  apply Ensures.ite
  · intro _
    exact .ok goes_failed
  · intro hWhole
    -- Hashed first, then written.
    have hTaken : data.length ≤ (out.offer sink data).1 := (hData.trans (not_not.mp hWhole).symm).le
    exact .ok (hOut.taken hTaken)

theorem writePieces_settled (pieces : List Buffer)
    (hAll : (writePieces sink pieces out).1 = true) : Settled (writePieces sink pieces out).2 := by
  induction pieces generalizing out with
  | nil => exact hOut
  | cons piece pieces ih =>
    simp only [writePieces] at hAll ⊢
    split at hAll
    · cases hAll
    · rename_i hWhole
      rw [if_neg hWhole]
      exact ih (hOut.taken (not_not.mp hWhole).ge) hAll

theorem recompress_goes (h : DeflateHeader) (newData : Buffer) (next : Int) :
    Ensures (recompress zlib sink h newData next out) Goes := by
  unfold recompress
  dsimp only
  split
  · exact .error
  · rename_i pieces _
    have hSettled : (writePieces sink pieces out).1 = true →
        Settled (writePieces sink pieces out).2 :=
      writePieces_settled hOut pieces
    split
    · exact .ok goes_failed
    · rename_i hWritten
      rw [hWritten] at hSettled
      exact .ok (hSettled rfl)

theorem applyDeflated_goes (h : DeflateHeader) (next : Int) :
    Ensures (applyDeflated zlib bsd sink old patch h next out) Goes := by
  refine .any_bind fun stream => ?_
  split
  · exact .ok goes_failed
  · apply Ensures.ite
    · intro _
      exact .ok goes_failed
    · intro _
      refine .any_bind fun newData => ?_
      cases newData with
      | none => exact .ok goes_failed
      | some newData => exact recompress_goes hOut h newData next

theorem applyDeflateChunk_goes (pos : Int) :
    Ensures (applyDeflateChunk zlib bsd sink old patch pos out) Goes := by
  refine .either (.ok goes_failed) ?_
  exact .any_bind fun h => applyDeflated_goes hOut h _

theorem applyChunk_goes (pos : Int) :
    Ensures (applyChunk zlib bsd sink old patch pos out) Goes := by
  refine .either (.ok goes_failed) ?_
  refine .any_bind fun type => ?_
  split
  · exact applyNormalChunk_goes hOut _
  · split
    · exact applyRawChunk_goes hOut _
    · split
      · exact applyDeflateChunk_goes hOut _
      · exact .ok goes_failed

theorem applyChunks_settled (n : Nat) (pos : Int) :
    Ensures (applyChunks zlib bsd sink old patch n pos out) fun r => r.1 = 0 → Settled r.2 := by
  induction n generalizing pos out with
  | zero => exact .ok fun _ => hOut
  | succ n ih =>
    refine .bind (applyChunk_goes hOut pos) fun step hStep => ?_
    cases step with
    | done result => exact .ok fun hZero => absurd hZero hStep
    | again next => exact ih hStep next.1

end

/- A patch with a normal chunk for two bytes. -/
def twoBytes : Blob where
  data := imgdiffMagic ++ write4 1 ++ write4 0 ++ write8 0 ++ write8 0 ++
    write8 40 ++ markStream [7, 8]
  size_lt := by decide

/- A sink that takes one byte at a time. -/
def slowSink : Sink Unit where
  write _ _ := (1, ())

end OpenIvi.Recovery.ImgPatch
