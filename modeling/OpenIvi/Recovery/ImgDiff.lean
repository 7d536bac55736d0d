import OpenIvi.Lib.Buffer
import OpenIvi.Lib.Tiling

/-
  `imgdiff` without `-z`.

  The images are broken up into chunks, the two lists of chunks are brought into the same shape and
  the patch file is written. `inflate`, `deflate` and `bsdiff` are given with the laws that they are
  trusted for; opening, reading and writing files succeeds. `imgdiff` runs on the host, where sizes
  do not overflow.

  The chunks tile their image. Every chunk stands for the bytes of the image from its start on;
  `span` is their number. A list of chunks is a `Layout` of an image if its chunks tile the image
  and every deflate chunk has a given property. `ReadImage` makes a layout, and the passes over the
  chunks keep it.

  Main declarations:
    * `Bsdiff`
    * `Layout`
    * `map_type_merge`
    * `settlePairs_spec`
-/

------
-- The Libraries
------

namespace OpenIvi.Recovery.ImgDiff

open Lib LittleEndian List

/- The parameters of `deflateInit2`. -/
structure DeflateParams where
  level : Int
  method : Int
  windowBits : Int
  memLevel : Int
  strategy : Int
deriving DecidableEq, Repr

/- Raw deflate streams. -/
structure Zlib where
  /-
    What the stream at the front of the bytes stands for and
    how many bytes it takes, if there is a stream.
  -/
  inflate : Buffer → Option (Buffer × Nat)
  /-
    The output of each call of `deflate` up to the one that
    ends the stream, for a given room of the output buffer.
    There is none if no call ends it.
  -/
  deflate : DeflateParams → Buffer → Nat → Option (List Buffer)
  inflate_le : ∀ {bytes data : Buffer} {used : Nat}, inflate bytes = some (data, used) →
      used ≤ bytes.length
  /- The bytes behind the stream are not looked at. -/
  inflate_take : ∀ {bytes data : Buffer} {used : Nat}, inflate bytes = some (data, used) →
      inflate (bytes.take used) = some (data, used)
  /- The room is no matter for the stream. -/
  deflate_room : ∀ (params : DeflateParams) (data : Buffer) (room room' : Nat),
      0 < room → 0 < room' →
      (deflate params data room).map List.flatten = (deflate params data room').map List.flatten

/- Differences of two contents. -/
structure Bsdiff where
  /- The content of the patch file, unless `bsdiff` exits. -/
  bsdiff : Buffer → Buffer → Option Buffer
  /-
    `ApplyBSDiffPatchMem` with the bytes of the patch from
    the offset on.
  -/
  applyMem : Buffer → Buffer → Option Buffer
  restores : ∀ {old new patch : Buffer} (rest : Buffer), bsdiff old new = some patch →
      applyMem old (patch ++ rest) = some new

------
-- Chunks Of An Image
------

def write4 : Int → Buffer := toBytes 4

def write8 : Int → Buffer := toBytes 8

def read4 (buf : Buffer) (off : Nat) : Except Fault Int := do
  let n ← fetch buf 4 off
  return toSigned 4 n

def read8 (buf : Buffer) (off : Nat) : Except Fault Int := do
  let n ← fetch buf 8 off
  return toSigned 8 n

inductive ChunkType where
| normal
| deflate
| raw
deriving DecidableEq, Repr

/- The numbers of the chunk types in a patch file. -/
def ChunkType.code : ChunkType → Int
| .normal => 0
| .deflate => 2
| .raw => 3

def gzipHeaderLen : Nat := 10

def gzipFooterLen : Nat := 8

/- A pointer into the image, or to memory of its own. -/
inductive DataPtr where
| image (off : Nat)
| heap (bytes : Buffer)
deriving DecidableEq, Repr

namespace DataPtr

def add (n : Nat) : DataPtr → DataPtr
| image off => image (off + n)
| heap bytes => heap (bytes.drop n)

/- The `n` bytes at a pointer. -/
def bytes (mem : Buffer) (n : Nat) : DataPtr → Buffer
| image off => (mem.drop off).take n
| heap bytes => bytes.take n

end DataPtr

/- Fields are 0 as long as they are not set. -/
structure ImageChunk where
  type : ChunkType
  start : Nat
  len : Nat
  data : DataPtr
  sourceStart : Nat := 0
  sourceLen : Nat := 0
  deflateLen : Nat := 0
  deflateData : DataPtr := .image 0
  params : DeflateParams := ⟨0, 0, 0, 0, 0⟩
  sourceUncompressedLen : Nat := 0
deriving DecidableEq, Repr

/- An image in memory has four more bytes. -/
def padded (img : Buffer) : Buffer :=
  img ++ [0, 0, 0, 0]

/- The four bytes that a gzip member begins with. -/
def gzipAt (mem : Buffer) (pos : Nat) : Bool :=
  (mem.drop pos).take 4 == [0x1f, 0x8b, 0x08, 0x00]

/- The scan for the next gzip member. -/
def normalLen (mem : Buffer) : Nat → Nat → Nat
| _, 0 => 0
| pos, left + 1 =>
  if gzipAt mem pos then 0
  else normalLen mem (pos + 1) left + 1

def normalChunk (pos len : Nat) : ImageChunk where
  type := .normal
  start := pos
  len := len
  data := .image pos

def deflateChunk (pos : Nat) (data : Buffer) (used : Nat) : ImageChunk where
  type := .deflate
  start := pos
  len := data.length
  data := .heap data
  deflateLen := used
  deflateData := .image pos

------
-- Breaking Up An Image
------

variable (zlib : Zlib)

abbrev ReadState := Nat × List ImageChunk

/- A gzip member becomes three chunks. -/
def readMember (img : Buffer) (pos : Nat) (chunks : List ImageChunk) :
    Except Fault (Ctl ReadState (Option (List ImageChunk))) :=
  let body := pos + gzipHeaderLen
  if img.length < body then
    -- The input of `inflate` is not in the image.
    .error .outOfBounds
  else
    match zlib.inflate (img.drop body) with
    | none =>
      -- No call of `inflate` ends the stream.
      .error .outOfFuel
    | some (data, used) => do
        let footer := body + used
        let next := footer + gzipFooterLen
        let footerSize ← read4 (padded img) (next - 4)
        if footerSize ≠ data.length then
          return .done none
        else
          return .again (next, chunks ++ [normalChunk pos gzipHeaderLen,
              deflateChunk body data used, normalChunk footer gzipFooterLen])

def readImageBody (img : Buffer) : ReadState →
    Except Fault (Ctl ReadState (Option (List ImageChunk)))
| (pos, chunks) =>
  if pos < img.length then
    if 4 ≤ img.length - pos ∧ gzipAt (padded img) pos then
      readMember zlib img pos chunks
    else
      let len := normalLen (padded img) pos (img.length - pos)
      .ok (.again (pos + len, chunks ++ [normalChunk pos len]))
  else
    .ok (.done (some chunks))

def readImage (fuel : Nat) (img : Buffer) : Except Fault (Option (List ImageChunk)) :=
  loop (readImageBody zlib img) fuel (0, [])

------
-- The Same Shape For Both Images
------

def bufferSize : Nat := 32768

/-
  `TryReconstruction`. Where a piece goes beyond the image, what lies behind it only decides at
  which of its two checks the attempt fails.
-/
def matchesPieces (mem : Buffer) : Nat → List Buffer → Nat → Bool
| p, [], stop => p == stop
| p, piece :: pieces, stop =>
  (mem.drop p).take piece.length == piece && matchesPieces mem (p + piece.length) pieces stop

def tryReconstruction (mem : Buffer) (params : DeflateParams)
    (chunk : ImageChunk) : Except Fault Bool :=
  match zlib.deflate params (chunk.data.bytes mem chunk.len) bufferSize with
  | none => .error .outOfFuel
  | some pieces =>
    .ok (matchesPieces (chunk.deflateData.bytes mem mem.length) 0 pieces chunk.deflateLen)

def encoderParams (level : Int) : DeflateParams where
  level := level
  method := 8
  windowBits := -15
  memLevel := 8
  strategy := 0

/- `ReconstructDeflateChunk`, for the given levels. -/
def reconstructWith (mem : Buffer) (chunk : ImageChunk) :
    List Int → Except Fault (Option ImageChunk)
| [] => .ok none
| level :: levels => do
    let ok ← tryReconstruction zlib mem (encoderParams level) chunk
    if ok then
      return some { chunk with params := encoderParams level }
    else
      reconstructWith mem chunk levels

def reconstructDeflateChunk (mem : Buffer) (chunk : ImageChunk) :
    Except Fault (Option ImageChunk) :=
  reconstructWith zlib mem chunk [6, 9]

def changeDeflateChunkToNormal (ch : ImageChunk) : ImageChunk :=
  if ch.type ≠ .deflate then ch
  else
    { ch with type := .normal, data := ch.deflateData, len := ch.deflateLen }

/- `a` is in the first memory and `b` in the second one. -/
def areChunksEqual (memA memB : Buffer) (a b : ImageChunk) : Bool :=
  a.type == b.type && match a.type with
    | .normal => a.len == b.len && a.data.bytes memA a.len == b.data.bytes memB a.len
    | .deflate =>
      a.deflateLen == b.deflateLen && a.deflateData.bytes memA a.deflateLen ==
          b.deflateData.bytes memB a.deflateLen
    | .raw => false

/- The chunks of a run, which ends with `last`, as one. -/
def closeRun (first last : ImageChunk) : ImageChunk :=
  { first with len := last.len + (last.start - first.start) }

/- The condition for a run of normal chunks to go on. -/
def Continues (last c : ImageChunk) : Prop :=
  last.type = .normal ∧ c.type = .normal ∧ c.start = last.start + last.len ∧
    c.data = last.data.add last.len

instance (last c : ImageChunk) : Decidable (Continues last c) :=
  inferInstanceAs (Decidable (_ ∧ _ ∧ _ ∧ _))

/- Merge with a run that goes from `first` to `last`. -/
def mergeRun : ImageChunk → ImageChunk → List ImageChunk → List ImageChunk
| first, last, [] => [closeRun first last]
| first, last, c :: rest =>
  if Continues last c then mergeRun first c rest
  else closeRun first last :: mergeRun c c rest

def mergeAdjacentNormalChunks : List ImageChunk → List ImageChunk
| [] => []
| c :: rest => mergeRun c c rest

/-
  The pass of `main` over a pair of chunks: a deflate chunk that cannot be reproduced or has not
  changed is treated as a normal one.
-/
def settlePair (memS memT : Buffer) (src tgt : ImageChunk) :
    Except Fault (ImageChunk × ImageChunk) :=
  if tgt.type ≠ .deflate then .ok (src, tgt)
  else do
    match ← reconstructDeflateChunk zlib memT tgt with
    | none => return (changeDeflateChunkToNormal src, changeDeflateChunkToNormal tgt)
    | some tgt =>
      if areChunksEqual memT memS tgt src then
        return (changeDeflateChunkToNormal src, changeDeflateChunkToNormal tgt)
      else
        return (src, tgt)

def settlePairs (memS memT : Buffer) : List (ImageChunk × ImageChunk) →
    Except Fault (List (ImageChunk × ImageChunk))
| [] => .ok []
| (src, tgt) :: pairs => do
    let pair ← settlePair zlib memS memT src tgt
    let pairs ← settlePairs memS memT pairs
    return pair :: pairs

------
-- The Patch File
------

/- A target chunk as it is written, and its patch data. -/
abbrev PatchChunk := ImageChunk × Buffer

/- `MakePatch`; there is nothing if `bsdiff` exits. -/
def makePatch (bsd : Bsdiff) (memS memT : Buffer) (src tgt : ImageChunk) : Option PatchChunk :=
  let data := tgt.data.bytes memT tgt.len
  if tgt.type = .normal ∧ tgt.len ≤ 160 then
    some ({ tgt with type := .raw }, data)
  else
    match bsd.bsdiff (src.data.bytes memS src.len) data with
    | none => none
    | some patch =>
      if tgt.type = .normal ∧ tgt.len ≤ patch.length then
        some ({ tgt with type := .raw }, data)
      else if tgt.type = .deflate then
        some ({ tgt with
          sourceStart := src.start
          sourceLen := src.deflateLen
          sourceUncompressedLen := src.len }, patch)
      else
        some ({ tgt with sourceStart := src.start, sourceLen := src.len }, patch)

def makePatches (bsd : Bsdiff) (memS memT : Buffer) : List (ImageChunk × ImageChunk) →
    Option (List PatchChunk)
| [] => some []
| (src, tgt) :: pairs => do
    let chunk ← makePatch bsd memS memT src tgt
    let chunks ← makePatches bsd memS memT pairs
    return chunk :: chunks

/- What a chunk adds to `total_header_size`. -/
def headerSize (c : PatchChunk) : Nat :=
  4 + match c.1.type with
    | .normal => 8 * 3
    | .deflate => 8 * 5 + 4 * 5
    | .raw => 4 + c.2.length

/- The header of a chunk whose patch is at `offset`. -/
def writeHeader (offset : Nat) (c : PatchChunk) : Buffer :=
  write4 c.1.type.code ++ match c.1.type with
    | .normal => write8 c.1.sourceStart ++ (write8 c.1.sourceLen ++ write8 offset)
    | .deflate =>
      write8 c.1.sourceStart ++ (write8 c.1.sourceLen ++ (write8 offset ++
        (write8 c.1.sourceUncompressedLen ++ (write8 c.1.len ++ (write4 c.1.params.level ++
        (write4 c.1.params.method ++ (write4 c.1.params.windowBits ++ (write4 c.1.params.memLevel ++
        write4 c.1.params.strategy))))))))
    | .raw => write4 c.2.length ++ c.2

/- What is appended for a chunk behind the headers. -/
def patchBody (c : PatchChunk) : Buffer :=
  match c.1.type with
  | .raw => []
  | _ => c.2

def writeHeaders : Nat → List PatchChunk → Buffer
| _, [] => []
| offset, c :: cs =>
  writeHeader offset c ++ writeHeaders (offset + (patchBody c).length) cs

/- `IMGDIFF2`. -/
def imgdiffMagic : Buffer :=
  [0x49, 0x4d, 0x47, 0x44, 0x49, 0x46, 0x46, 0x32]

def patchFile (cs : List PatchChunk) : Buffer :=
  let totalHeaderSize := 12 + (cs.map headerSize).sum
  imgdiffMagic ++ (write4 cs.length ++
    (writeHeaders totalHeaderSize cs ++ (cs.map patchBody).flatten))

def sameStructure (srcs tgts : List ImageChunk) : Bool :=
  srcs.map (·.type) == tgts.map (·.type)

/- The part of `main` behind the two calls of `ReadImage`. -/
def diffChunks (zlib : Zlib) (bsd : Bsdiff) (memS memT : Buffer)
    (srcs tgts : List ImageChunk) : Except Fault (Option Buffer) :=
  let tgts := mergeAdjacentNormalChunks tgts
  let srcs := mergeAdjacentNormalChunks srcs
  if ¬ sameStructure srcs tgts then .ok none
  else do
    let pairs ← settlePairs zlib memS memT (srcs.zip tgts)
    let tgts := mergeAdjacentNormalChunks (pairs.map (·.2))
    let srcs := mergeAdjacentNormalChunks (pairs.map (·.1))
    if srcs.length ≠ tgts.length then return none
    else
      return (makePatches bsd memS memT (srcs.zip tgts)).map patchFile

/- `main` without `-z`: the patch file if the exit code is 0 and nothing if it is 1. -/
def imgdiff (zlib : Zlib) (bsd : Bsdiff) (fuel : Nat) (src tgt : Buffer) :
    Except Fault (Option Buffer) := do
  match ← readImage zlib fuel src with
  | none => return none
  | some srcs =>
    match ← readImage zlib fuel tgt with
    | none => return none
    | some tgts => diffChunks zlib bsd (padded src) (padded tgt) srcs tgts

------
-- Layouts
------

variable {pos : Nat} {s : ReadState} {cs' : List ImageChunk} {mem : Buffer}

/- `n` bytes of an image. -/
def slice (img : Buffer) (off n : Nat) : Buffer :=
  (img.drop off).take n

/- The number of bytes of the image in a chunk. -/
def ImageChunk.span (c : ImageChunk) : Nat :=
  match c.type with
  | .deflate => c.deflateLen
  | _ => c.len

/- The bytes of the image in a chunk. -/
def ImageChunk.part (img : Buffer) (c : ImageChunk) : Buffer :=
  slice img c.start c.span

/- A chunk points to its bytes. -/
inductive Sound (P : ImageChunk → Prop) (c : ImageChunk) : Prop where
| normal (hType : c.type = .normal) (hData : c.data = .image c.start)
| deflate (hType : c.type = .deflate) (hData : c.deflateData = .image c.start) (hHolds : P c)

/- The chunks make up the image. -/
structure Layout (P : ImageChunk → Prop) (img : Buffer) (cs : List ImageChunk) : Prop where
  sound : ∀ c ∈ cs, Sound P c
  tiles : Tiles ImageChunk.start ImageChunk.span 0 cs img.length

/- The data of a deflate chunk comes from its stream. -/
structure Inflated (zlib : Zlib) (img : Buffer) (c : ImageChunk) : Prop where
  len_lt : c.len < 2 ^ 31
  inflated : ∃ data, c.data = .heap data ∧ c.len = data.length ∧
      zlib.inflate (slice img c.start c.deflateLen) = some (data, c.deflateLen)

/- Every occurrence of the four bytes begins a gzip member. -/
def MembersValid (zlib : Zlib) (img : Buffer) : Prop :=
  ∀ pos, gzipAt img pos = true → ∃ data used,
      zlib.inflate (img.drop (pos + gzipHeaderLen)) = some (data, used) ∧
      pos + gzipHeaderLen + used + gzipFooterLen ≤ img.length

variable {P Q : ImageChunk → Prop} {c : ImageChunk}

theorem ImageChunk.span_normal (hType : c.type = .normal) : c.span = c.len := by
  simp [span, hType]

theorem ImageChunk.span_deflate (hType : c.type = .deflate) : c.span = c.deflateLen := by
  simp [span, hType]

section

variable {img : Buffer} {cs : List ImageChunk} (hLayout : Layout P img cs)

include hLayout

theorem Layout.bound (hMem : c ∈ cs) : c.start + c.span ≤ img.length :=
  (hLayout.tiles.mem_bounds hMem).2

theorem Layout.flatten_parts : (cs.map (ImageChunk.part img)).flatten = img := by
  have hAll := hLayout.tiles.flatten_slices img
  rw [drop_zero, Nat.sub_zero, take_length] at hAll
  exact hAll

end

theorem slice_padded {img : Buffer} {off n : Nat} (hFits : off + n ≤ img.length) :
    slice (padded img) off n = slice img off n := by
  simp only [slice, padded]
  rw [drop_append_of_le_length (by omega), take_append_of_le_length (by
      rw [length_drop]
      omega)]

------
-- Breaking Up An Image Makes A Layout
------

variable {zlib : Zlib} {img : Buffer}

theorem normalLen_le (mem : Buffer) (pos left : Nat) : normalLen mem pos left ≤ left := by
  induction left generalizing pos with
  | zero => exact Nat.le_refl 0
  | succ left ih =>
    rw [normalLen]
    split
    · exact Nat.zero_le _
    · exact Nat.succ_le_succ (ih (pos + 1))

/- The chunks read so far tile the image up to `pos`. -/
structure ReadInv (zlib : Zlib) (img : Buffer) (s : ReadState) : Prop where
  sound : ∀ c ∈ s.2, Sound (Inflated zlib img) c
  tiles : Tiles ImageChunk.start ImageChunk.span 0 s.2 s.1
  pos_le : s.1 ≤ img.length

variable {cs : List ImageChunk}

theorem ReadInv.extend {next : Nat} {more : List ImageChunk} (hInv : ReadInv zlib img (pos, cs))
    (hSound : ∀ c ∈ more, Sound (Inflated zlib img) c)
    (hTiles : Tiles ImageChunk.start ImageChunk.span pos more next) (hLe : next ≤ img.length) :
    ReadInv zlib img (next, cs ++ more) where
  sound := by
    intro c hMem
    rcases mem_append.mp hMem with hOld | hNew
    · exact hInv.sound c hOld
    · exact hSound c hNew
  tiles := tiles_append.mpr ⟨pos, hInv.tiles, hTiles⟩
  pos_le := hLe

theorem read4_lt {buf : Buffer} {off : Nat} {v : Int}
    (hRead : read4 buf off = .ok v) : v < 2 ^ 31 := by
  rcases bind_eq_ok.mp hRead with ⟨n, _, hValue⟩
  have hEq : LittleEndian.toSigned 4 n = v := Except.ok.inj hValue
  have hLt : LittleEndian.toSigned 4 n < _ := Int.bmod_lt (show 0 < 256 ^ 4 by norm_num)
  rw [hEq] at hLt
  exact hLt

theorem sound_normalChunk (pos len : Nat) : Sound P (normalChunk pos len) :=
  .normal rfl rfl

theorem ReadInv.readMember (hValid : MembersValid zlib img) (hInv : ReadInv zlib img (pos, cs))
    (hGzip : gzipAt img pos = true) (hRead : readMember zlib img pos cs = .ok (.again s)) :
    ReadInv zlib img s := by
  rcases hValid pos hGzip with ⟨data, used, hInflate, hFits⟩
  have hBody : ¬ img.length < pos + gzipHeaderLen := by omega
  simp only [ImgDiff.readMember, if_neg hBody, hInflate] at hRead
  rcases bind_eq_ok.mp hRead with ⟨size, hSize, hNext⟩
  split at hNext
  · cases hNext
  · rename_i hEq
    cases hNext
    have hLen := read4_lt hSize
    rw [not_not.mp hEq] at hLen
    apply hInv.extend _ _ hFits
    · intro c hMem
      simp only [mem_cons, not_mem_nil, or_false] at hMem
      rcases hMem with rfl | rfl | rfl
      · exact sound_normalChunk _ _
      · exact .deflate rfl rfl
          ⟨by exact_mod_cast hLen, _, rfl, rfl, zlib.inflate_take hInflate⟩
      · exact sound_normalChunk _ _
    · exact ⟨rfl, rfl, rfl, rfl⟩

theorem ReadInv.step {next : ReadState} (hValid : MembersValid zlib img) (hInv : ReadInv zlib img s)
    (hBody : readImageBody zlib img s = .ok (.again next)) : ReadInv zlib img next := by
  rcases s with ⟨pos, cs⟩
  simp only [readImageBody] at hBody
  split at hBody
  · split at hBody
    · next hMember =>
      have hSlice : slice (padded img) pos 4 = slice img pos 4 := slice_padded (by omega)
      simp only [slice] at hSlice
      simp only [gzipAt, hSlice] at hMember
      exact hInv.readMember hValid hMember.2 hBody
    · cases hBody
      have hLe := normalLen_le (padded img) pos (img.length - pos)
      apply hInv.extend
      · intro c hMem
        rw [mem_singleton.mp hMem]
        exact sound_normalChunk _ _
      · exact ⟨rfl, rfl⟩
      · omega
  · cases hBody

theorem readMember_ne_done : readMember zlib img pos cs ≠ .ok (.done (some cs')) := by
  intro hRead
  simp only [readMember] at hRead
  split at hRead
  · cases hRead
  · split at hRead
    · cases hRead
    · rcases bind_eq_ok.mp hRead with ⟨size, _, hNext⟩
      split at hNext
      · cases hNext
      · cases hNext

theorem ReadInv.done (hInv : ReadInv zlib img s)
    (hBody : readImageBody zlib img s = .ok (.done (some cs))) :
    Layout (Inflated zlib img) img cs := by
  rcases s with ⟨pos, cs'⟩
  simp only [readImageBody] at hBody
  split at hBody
  · split at hBody
    · exact absurd hBody readMember_ne_done
    · cases hBody
  · rename_i hEnd
    cases hBody
    have hPos : pos = img.length := Nat.le_antisymm hInv.pos_le (Nat.le_of_not_lt hEnd)
    exact ⟨hInv.sound, hPos ▸ hInv.tiles⟩

/- `ReadImage` breaks a valid image up into a layout. -/
theorem readImage_layout {fuel : Nat} (hValid : MembersValid zlib img)
    (hRead : readImage zlib fuel img = .ok (some cs)) : Layout (Inflated zlib img) img cs := by
  have hInit : ReadInv zlib img (0, []) := ⟨by simp, rfl, Nat.zero_le _⟩
  have hPost : ∀ cs', some cs = some cs' → Layout (Inflated zlib img) img cs' := by
    apply loop_post (ReadInv zlib img) (fun r => ∀ cs', r = some cs' →
        Layout (Inflated zlib img) img cs') _ _ hInit hRead
    · intro s next hInv hBody
      exact hInv.step hValid hBody
    · rintro s r hInv hBody cs' rfl
      exact hInv.done hBody
  exact hPost cs rfl

------
-- Merging Keeps Layouts
------

/- The types of the chunks that are left by a merge. -/
def collapseRun : ChunkType → List ChunkType → List ChunkType
| t, [] => [t]
| t, u :: us =>
  if t = .normal ∧ u = .normal then collapseRun u us
  else t :: collapseRun u us

/- A chunk alone, or the two ends of a run of normal ones. -/
inductive IsRun : ImageChunk → ImageChunk → Prop where
| single (c : ImageChunk) : IsRun c c
| normal {first last : ImageChunk} (hFirst : first.type = .normal) (hLast : last.type = .normal)
    (hLe : first.start ≤ last.start) : IsRun first last

variable {first last : ImageChunk}

theorem IsRun.type_eq (hRun : IsRun first last) : first.type = last.type := by
  cases hRun with
  | single => rfl
  | normal hFirst hLast _ => rw [hFirst, hLast]

@[simp] theorem type_closeRun (first last : ImageChunk) : (closeRun first last).type = first.type :=
  rfl

theorem closeRun_self (c : ImageChunk) : closeRun c c = c := by
  simp [closeRun]

theorem IsRun.end_closeRun (hRun : IsRun first last) :
    first.start + (closeRun first last).span = last.start + last.span := by
  cases hRun with
  | single => rw [closeRun_self]
  | normal hFirst hLast hLe =>
    rw [ImageChunk.span_normal hLast, ImageChunk.span_normal (by simpa using hFirst)]
    simp only [closeRun]
    omega

theorem IsRun.sound_closeRun (hRun : IsRun first last)
    (hSound : Sound P first) : Sound P (closeRun first last) := by
  cases hRun with
  | single => rwa [closeRun_self]
  | normal hFirst hLast hLe =>
    cases hSound with
    | normal hType hData => exact .normal hType hData
    | deflate hType => simp [hFirst] at hType

/- In a layout only the types decide about a run. -/
theorem continues_iff {c : ImageChunk} (hLast : Sound P last)
    (hSound : Sound P c) (hNext : c.start = last.start + last.span) :
    Continues last c ↔ last.type = .normal ∧ c.type = .normal := by
  constructor
  · rintro ⟨hLastType, hType, _⟩
    exact ⟨hLastType, hType⟩
  · rintro ⟨hLastType, hType⟩
    cases hLast with
    | deflate hOther => simp [hLastType] at hOther
    | normal _ hLastData =>
      cases hSound with
      | deflate hOther => simp [hType] at hOther
      | normal _ hData =>
        rw [ImageChunk.span_normal hLastType] at hNext
        refine ⟨hLastType, hType, hNext, ?_⟩
        rw [hData, hLastData, DataPtr.add, hNext]

/- What merging makes of a run and the chunks behind it. -/
theorem mergeRun_spec {rest : List ImageChunk} {e : Nat}
    (hRun : IsRun first last) (hFirst : Sound P first)
    (hLast : Sound P last) (hRest : ∀ c ∈ rest, Sound P c)
    (hTiles : Tiles ImageChunk.start ImageChunk.span (last.start + last.span) rest e) :
    (∀ c ∈ mergeRun first last rest, Sound P c) ∧ Tiles ImageChunk.start ImageChunk.span first.start
      (mergeRun first last rest) e ∧
      (mergeRun first last rest).map (·.type) = collapseRun last.type (rest.map (·.type)) := by
  have hClosed := hRun.sound_closeRun hFirst
  have hEnd := hRun.end_closeRun
  induction rest generalizing first last with
  | nil =>
    refine ⟨?_, ⟨rfl, hEnd.trans hTiles⟩, ?_⟩
    · intro c hMem
      rw [mem_singleton.mp hMem]
      exact hClosed
    · simp [mergeRun, collapseRun, hRun.type_eq]
  | cons c rest ih =>
    rcases hTiles with ⟨hStart, hTiles⟩
    rw [← hStart] at hTiles
    have hSound := hRest c (mem_cons_self ..)
    have hLater : ∀ d ∈ rest, Sound P d := by
      intro d hMem
      exact hRest d (mem_cons_of_mem c hMem)
    have hIff := continues_iff hLast hSound hStart
    by_cases hTypes : last.type = .normal ∧ c.type = .normal
    · have hLonger : IsRun first c := by
        apply IsRun.normal (hRun.type_eq.trans hTypes.1) hTypes.2
        omega
      simp only [mergeRun, if_pos (hIff.mpr hTypes), map_cons, collapseRun, if_pos hTypes]
      exact ih hLonger hFirst hSound hLater hTiles (hLonger.sound_closeRun hFirst)
        hLonger.end_closeRun
    · have hSingle := IsRun.single c
      rcases ih hSingle hSound hSound hLater hTiles (hSingle.sound_closeRun hSound)
          hSingle.end_closeRun with ⟨hAll, hTiled, hMap⟩
      simp only [mergeRun, if_neg (fun h => hTypes (hIff.mp h)), map_cons, collapseRun,
        if_neg hTypes]
      refine ⟨?_, ⟨rfl, ?_⟩, ?_⟩
      · intro d hMem
        rcases mem_cons.mp hMem with rfl | hMem
        · exact hClosed
        · exact hAll d hMem
      · rw [hEnd, ← hStart]
        exact hTiled
      · rw [hMap, type_closeRun, hRun.type_eq]

theorem Layout.merge_cons {c : ImageChunk} (hLayout : Layout P img (c :: cs)) :
    Layout P img (mergeAdjacentNormalChunks (c :: cs)) ∧
      (mergeAdjacentNormalChunks (c :: cs)).map (·.type) =
        collapseRun c.type (cs.map (·.type)) := by
  rcases hLayout with ⟨hAll, hStart, hTiles⟩
  rw [← hStart] at hTiles
  have hSound := hAll c (mem_cons_self ..)
  have hRest : ∀ d ∈ cs, Sound P d := by
    intro d hMem
    exact hAll d (mem_cons_of_mem c hMem)
  rcases mergeRun_spec (.single c) hSound hSound hRest hTiles with ⟨hMerged, hTiled, hMap⟩
  exact ⟨⟨hMerged, hStart ▸ hTiled⟩, hMap⟩

theorem Layout.merge (hLayout : Layout P img cs) : Layout P img (mergeAdjacentNormalChunks cs) := by
  cases cs with
  | nil => exact hLayout
  | cons c rest => exact hLayout.merge_cons.1

/- The types after a merge depend on the types before. -/
theorem map_type_merge {Q : ImageChunk → Prop} {img' : Buffer}
    (hLayout : Layout P img cs) (hLayout' : Layout Q img' cs')
    (hTypes : cs.map (·.type) = cs'.map (·.type)) :
    (mergeAdjacentNormalChunks cs).map (·.type) = (mergeAdjacentNormalChunks cs').map (·.type) := by
  cases cs with
  | nil =>
    cases cs' with
    | nil => rfl
    | cons c' rest' => simp at hTypes
  | cons c rest =>
    cases cs' with
    | nil => simp at hTypes
    | cons c' rest' =>
      simp only [map_cons, cons.injEq] at hTypes
      rw [hLayout.merge_cons.2, hLayout'.merge_cons.2, hTypes.1, hTypes.2]

------
-- Settling The Types Of The Chunks
------

/-
  The stream of a deflate chunk is what `deflate` makes of its data with the parameters of the
  chunk.
-/
structure Reproduced (zlib : Zlib) (img : Buffer) (c : ImageChunk) : Prop
    extends Inflated zlib img c where
  encoder : ∃ level ∈ [6, 9], c.params = encoderParams level
  reproduced : (zlib.deflate c.params (c.data.bytes (padded img) c.len) bufferSize).map flatten =
      some (slice img c.start c.deflateLen)

/- The pieces that match are the bytes in memory. -/
theorem matchesPieces_spec {pieces : List Buffer}
    {p stop : Nat} (hMatches : matchesPieces mem p pieces stop = true) :
    p ≤ stop ∧ slice mem p (stop - p) = pieces.flatten := by
  induction pieces generalizing p with
  | nil =>
    have hEq : p = stop := by simpa [matchesPieces] using hMatches
    simp [hEq, slice]
  | cons piece pieces ih =>
    simp only [matchesPieces, Bool.and_eq_true, beq_iff_eq] at hMatches
    rcases hMatches with ⟨hPiece, hRest⟩
    rcases ih hRest with ⟨hLe, hFlatten⟩
    have hSum : stop - p = piece.length + (stop - (p + piece.length)) := by omega
    refine ⟨by omega, ?_⟩
    rw [slice, hSum, take_add, drop_drop, hPiece, flatten_cons, ← hFlatten, slice]

theorem reconstructWith_spec {c c' : ImageChunk} {levels : List Int}
    (hOk : reconstructWith zlib mem c levels = .ok (some c')) :
    ∃ level ∈ levels, ∃ pieces, c' = { c with params := encoderParams level } ∧
      zlib.deflate (encoderParams level) (c.data.bytes mem c.len) bufferSize = some pieces ∧
      matchesPieces (c.deflateData.bytes mem mem.length) 0 pieces c.deflateLen = true := by
  induction levels with
  | nil => cases hOk
  | cons level levels ih =>
    rcases bind_eq_ok.mp hOk with ⟨ok, hTry, hNext⟩
    cases ok with
    | true =>
      cases hNext
      refine ⟨level, mem_cons_self .., ?_⟩
      simp only [tryReconstruction] at hTry
      split at hTry
      · cases hTry
      · next pieces hDeflate => exact ⟨pieces, rfl, hDeflate, Except.ok.inj hTry⟩
    | false =>
      rcases ih hNext with ⟨l, hMem, hRest⟩
      exact ⟨l, mem_cons_of_mem level hMem, hRest⟩

/- A chunk that is reconstructed can be reproduced. -/
theorem reproduced_of_reconstruct {c c' : ImageChunk} (hInflated : Inflated zlib img c)
    (hData : c.deflateData = .image c.start) (hFits : c.start + c.deflateLen ≤ img.length)
    (hOk : reconstructDeflateChunk zlib (padded img) c = .ok (some c')) :
    (∃ params, c' = { c with params := params }) ∧ Reproduced zlib img c' := by
  rcases reconstructWith_spec hOk with ⟨level, hLevel, pieces, rfl, hDeflate, hMatches⟩
  refine ⟨⟨encoderParams level, rfl⟩, ?_⟩
  rw [hData] at hMatches
  rcases matchesPieces_spec hMatches with ⟨_, hFlatten⟩
  have hSlice : slice ((DataPtr.image c.start).bytes (padded img)
      (padded img).length) 0 (c.deflateLen - 0) = slice img c.start c.deflateLen := by
    rw [← slice_padded hFits]
    simp only [slice, DataPtr.bytes, drop_zero, Nat.sub_zero, take_take]
    rw [Nat.min_eq_left]
    have hPad : (padded img).length = img.length + 4 := by simp [padded]
    omega
  refine
    { toInflated := ⟨hInflated.len_lt, hInflated.inflated⟩
      encoder := ⟨level, hLevel, rfl⟩
      reproduced := ?_ }
  simp only [hDeflate, Option.map_some, ← hFlatten, hSlice]

/- Chunks for the same place of an image. -/
structure SamePlace (c d : ImageChunk) : Prop where
  start_eq : d.start = c.start
  span_eq : d.span = c.span

theorem SamePlace.refl (c : ImageChunk) : SamePlace c c :=
  ⟨rfl, rfl⟩

/- A deflate chunk that is treated as a normal one. -/
theorem sound_changeDeflateChunkToNormal {P Q : ImageChunk → Prop}
    {c : ImageChunk} (hSound : Sound P c) :
    Sound Q (changeDeflateChunkToNormal c) ∧ (changeDeflateChunkToNormal c).type = .normal ∧
      SamePlace c (changeDeflateChunkToNormal c) := by
  cases hSound with
  | normal hType hData =>
    have hSame : changeDeflateChunkToNormal c = c := by simp [changeDeflateChunkToNormal, hType]
    rw [hSame]
    exact ⟨.normal hType hData, hType, .refl c⟩
  | deflate hType hData _ =>
    have hChanged : changeDeflateChunkToNormal c =
        { c with
          type := .normal
          data := c.deflateData
          len := c.deflateLen } := by
      simp [changeDeflateChunkToNormal, hType]
    rw [hChanged]
    exact ⟨.normal rfl hData, rfl, rfl, (ImageChunk.span_deflate hType).symm⟩

variable {src tgt : Buffer}

/- A pair of chunks that a patch can be made for. -/
structure Settled (zlib : Zlib) (src tgt : Buffer) (p : ImageChunk × ImageChunk) : Prop where
  source : Sound (Inflated zlib src) p.1
  target : Sound (Reproduced zlib tgt) p.2
  type_eq : p.1.type = p.2.type

theorem settled_normal {P Q : ImageChunk → Prop} {s t : ImageChunk}
    (hSource : Sound P s) (hTarget : Sound Q t) :
    Settled zlib src tgt (changeDeflateChunkToNormal s, changeDeflateChunkToNormal t) ∧
      SamePlace s (changeDeflateChunkToNormal s) ∧ SamePlace t (changeDeflateChunkToNormal t) := by
  rcases sound_changeDeflateChunkToNormal hSource with ⟨hSound, hNormal, hPlace⟩
  rcases sound_changeDeflateChunkToNormal hTarget with ⟨hSound', hNormal', hPlace'⟩
  exact ⟨⟨hSound, hSound', hNormal.trans hNormal'.symm⟩, hPlace, hPlace'⟩

theorem settlePair_spec {s t : ImageChunk} {p : ImageChunk × ImageChunk}
    (hSource : Sound (Inflated zlib src) s) (hTarget : Sound (Inflated zlib tgt) t)
    (hFits : t.start + t.span ≤ tgt.length) (hType : s.type = t.type)
    (hSettle : settlePair zlib (padded src) (padded tgt) s t = .ok p) :
    Settled zlib src tgt p ∧ SamePlace s p.1 ∧ SamePlace t p.2 := by
  unfold settlePair at hSettle
  cases hTarget with
  | normal hNorm hData =>
    rw [if_pos (by simp [hNorm])] at hSettle
    cases hSettle
    exact ⟨⟨hSource, .normal hNorm hData, hType⟩, .refl s, .refl t⟩
  | deflate hDefl hData hInflated =>
    rw [if_neg (by simp [hDefl])] at hSettle
    rcases bind_eq_ok.mp hSettle with ⟨result, hResult, hNext⟩
    cases result with
    | none =>
      cases hNext
      exact settled_normal hSource (.deflate hDefl hData hInflated)
    | some t' =>
      rw [ImageChunk.span_deflate hDefl] at hFits
      rcases reproduced_of_reconstruct hInflated hData hFits hResult with
        ⟨⟨params, rfl⟩, hReproduced⟩
      have hTarget : Sound (Reproduced zlib tgt) { t with params := params } :=
        .deflate hDefl hData hReproduced
      simp only at hNext
      split at hNext
      · cases hNext
        rcases settled_normal hSource hTarget with ⟨hSettled, hPlace, hPlace'⟩
        exact ⟨hSettled, hPlace, hPlace'.start_eq, hPlace'.span_eq⟩
      · cases hNext
        exact ⟨⟨hSource, hTarget, hType⟩, .refl s, rfl, rfl⟩

theorem tiles_samePlace {cs ds : List ImageChunk} {s e : Nat} (hSame : List.Forall₂ SamePlace cs ds)
    (hTiles : Tiles ImageChunk.start ImageChunk.span s cs e) :
    Tiles ImageChunk.start ImageChunk.span s ds e := by
  induction hSame generalizing s with
  | nil => exact hTiles
  | cons hPlace _ ih =>
    rcases hTiles with ⟨hStart, hTiles⟩
    refine ⟨hPlace.start_eq.trans hStart, ?_⟩
    rw [hPlace.span_eq]
    exact ih hTiles

variable {ps : List (ImageChunk × ImageChunk)}

theorem settlePairs_forall {ss ts : List ImageChunk}
    (hSource : ∀ c ∈ ss, Sound (Inflated zlib src) c)
    (hTarget : ∀ c ∈ ts, Sound (Inflated zlib tgt) c)
    (hFits : ∀ c ∈ ts, c.start + c.span ≤ tgt.length) (hTypes : ss.map (·.type) = ts.map (·.type))
    (hSettle : settlePairs zlib (padded src) (padded tgt) (ss.zip ts) = .ok ps) :
    (∀ p ∈ ps, Settled zlib src tgt p) ∧ List.Forall₂ SamePlace ss (ps.map (·.1)) ∧
      List.Forall₂ SamePlace ts (ps.map (·.2)) := by
  induction ss generalizing ts ps with
  | nil =>
    have hNil : ts = [] := by simpa using hTypes.symm
    subst hNil
    cases hSettle
    exact ⟨by simp, .nil, .nil⟩
  | cons s ss ih =>
    cases ts with
    | nil => simp at hTypes
    | cons t ts =>
      simp only [map_cons, cons.injEq] at hTypes
      simp only [forall_mem_cons] at hSource hTarget hFits
      rcases bind_eq_ok.mp hSettle with ⟨p, hPair, hNext⟩
      rcases bind_eq_ok.mp hNext with ⟨qs, hRest, hEq⟩
      cases hEq
      rcases settlePair_spec hSource.1 hTarget.1 hFits.1 hTypes.1 hPair with
        ⟨hSettled, hPlace, hPlace'⟩
      rcases ih hSource.2 hTarget.2 hFits.2 hTypes.2 hRest with ⟨hAll, hPlaces, hPlaces'⟩
      exact ⟨forall_mem_cons.mpr ⟨hSettled, hAll⟩, .cons hPlace hPlaces, .cons hPlace' hPlaces'⟩

/- Settling the types keeps both layouts. -/
theorem settlePairs_spec {ss ts : List ImageChunk} (hSource : Layout (Inflated zlib src) src ss)
    (hTarget : Layout (Inflated zlib tgt) tgt ts) (hTypes : ss.map (·.type) = ts.map (·.type))
    (hSettle : settlePairs zlib (padded src) (padded tgt) (ss.zip ts) = .ok ps) :
    Layout (Inflated zlib src) src (ps.map (·.1)) ∧
      Layout (Reproduced zlib tgt) tgt (ps.map (·.2)) ∧
      (ps.map (·.1)).map (·.type) = (ps.map (·.2)).map (·.type) := by
  rcases settlePairs_forall hSource.sound hTarget.sound
      (fun c hMem => hTarget.bound hMem) hTypes hSettle with ⟨hAll, hPlaces, hPlaces'⟩
  refine ⟨⟨?_, tiles_samePlace hPlaces hSource.tiles⟩, ⟨?_, tiles_samePlace hPlaces' hTarget.tiles⟩,
    ?_⟩
  · intro c hMem
    rcases mem_map.mp hMem with ⟨p, hp, rfl⟩
    exact (hAll p hp).source
  · intro c hMem
    rcases mem_map.mp hMem with ⟨p, hp, rfl⟩
    exact (hAll p hp).target
  · simp only [map_map]
    apply map_congr_left
    intro p hp
    exact (hAll p hp).type_eq

end OpenIvi.Recovery.ImgDiff
