import OpenIvi.Lib.Buffer

/-
  `parseZipArchive` of minzip, up to the loop over the entries of the central directory, and
  `verify_file` of the recovery system.

  The whole-file signature stands in the comment of the archive, with a footer of six bytes behind
  it. Reading and seeking inside the file succeeds and memory can be allocated. The calls of
  `RSA_verify` are recorded together with the local variables they are made with; what a call
  answers is a parameter.

  The verifier and minzip agree on a signed archive. Where `verify_file` reaches `RSA_verify`, the
  backward scan of `parseZipArchive` stops at the record that the verifier looked at, and what it
  reads there was hashed.

  Main declarations:
    * `findEocd`
    * `RsaCall`
    * `signature_in_comment_iff`
    * `minzip_uses_signed_record`
-/

------
-- The End-Of-Central-Directory Record
------

namespace OpenIvi.Recovery.Minzip

open Lib List LittleEndian

def endsig : Nat := 0x06054b50

def locsig : Nat := 0x04034b50

def endhdr : Nat := 22

def endsub : Nat := 8

def endoff : Nat := 16

variable (map : Buffer)

def get2LE (ptr : Nat) : Except Fault Nat :=
  fetch map 2 ptr

def get4LE (ptr : Nat) : Except Fault Nat :=
  fetch map 4 ptr

/- The test of the backward scan. -/
def endsigAt (ptr : Nat) : Except Fault Bool := do
  let first ← map.load ptr
  if first.toNat ≠ endsig % 256 then return false
  else
    let val ← get4LE map ptr
    return val == endsig

/- The backward scan from `ptr` on. -/
def scanBack (map : Buffer) : Nat → Except Fault (Option Nat)
| 0 => do
    if ← endsigAt map 0 then return some 0
    else return none
| ptr + 1 => do
    if ← endsigAt map (ptr + 1) then return some (ptr + 1)
    else scanBack map ptr

def findEocd : Except Fault (Option Nat) :=
  -- The scan begins in front of a map that is too short.
  if map.length < endhdr then .ok none
  else scanBack map (map.length - endhdr)

/- The record that is used and what is read from it. -/
structure Directory where
  eocd : Nat
  numEntries : Nat
  cdOffset : Nat
deriving DecidableEq, Repr

/- The two items of the record. -/
def readEocd (ptr : Nat) : Except Fault Directory := do
  let numEntries ← get2LE map (ptr + endsub)
  let cdOffset ← get4LE map (ptr + endoff)
  return ⟨ptr, numEntries, cdOffset⟩

def readDirectory : Except Fault (Option Directory) := do
  let val ← get4LE map 0
  if val = endsig then return none
  else if val ≠ locsig then return none
  else
    match ← findEocd map with
    | none => return none
    | some ptr => do
        let dir ← readEocd map ptr
        if dir.numEntries = 0 ∨ map.length ≤ dir.cdOffset then
          return none
        else
          return some dir

------
-- The Scan Finds The Last Record
------

variable {map : Buffer} {ptr : Nat}

/- The bytes of `ENDSIG`. -/
def endsigBytes : Buffer := [0x50, 0x4b, 0x05, 0x06]

/- Four bytes stand for `ENDSIG` if they are its bytes. -/
theorem ofBytes_eq_endsig {bytes : Buffer} (hLen : bytes.length = 4) :
    ofBytes bytes = endsig ↔ bytes = endsigBytes := by
  constructor
  · intro hEq
    have hInj := toBytes_ofBytes bytes
    rw [hEq, hLen] at hInj
    exact hInj.symm
  · rintro rfl
    rfl

theorem endsigAt_eq (hFits : ptr + 4 ≤ map.length) :
    endsigAt map ptr = .ok ((map.drop ptr).take 4 == endsigBytes) := by
  have hLen : ((map.drop ptr).take 4).length = 4 := by
    rw [length_take, length_drop]
    omega
  have hLoad : map.load ptr = .ok (map.get ⟨ptr, by omega⟩) :=
    Buffer.load_eq (getElem?_eq_getElem _)
  have hHead : (map.drop ptr).take 4 = map.get ⟨ptr, by omega⟩ :: (map.drop (ptr + 1)).take 3 := by
    rw [drop_eq_getElem_cons (by omega), take_succ_cons]
    rfl
  unfold endsigAt get4LE fetch
  rw [hLoad, ok_bind, Buffer.block_eq hFits, ok_bind]
  by_cases hSig : (map.drop ptr).take 4 = endsigBytes
  · have hFirst : (map.get ⟨ptr, by omega⟩).toNat = endsig % 256 := by
      rw [hHead] at hSig
      rw [(cons.inj hSig).1]
      rfl
    rw [if_neg (not_not.mpr hFirst), hSig]
    rfl
  · have hVal := (ofBytes_eq_endsig hLen).not.mpr hSig
    simp only [beq_eq_false_iff_ne.mpr hSig]
    split
    · rfl
    · change Except.ok (_ == endsig) = _
      rw [beq_eq_false_iff_ne.mpr hVal]

/- The scan finds the last place of the bytes. -/
theorem scanBack_eq {start : Nat} (hFits : start + 4 ≤ map.length)
    (hLe : ptr ≤ start) (hHere : (map.drop ptr).take 4 = endsigBytes)
    (hLast : ∀ i, ptr < i → i ≤ start → (map.drop i).take 4 ≠ endsigBytes) :
    scanBack map start = .ok (some ptr) := by
  induction start with
  | zero =>
    have hZero : ptr = 0 := by omega
    subst hZero
    unfold scanBack
    rw [endsigAt_eq hFits, ok_bind, hHere]
    rfl
  | succ start ih =>
    unfold scanBack
    rw [endsigAt_eq hFits, ok_bind]
    by_cases hEq : ptr = start + 1
    · rw [← hEq, hHere]
      rfl
    · have hNot := hLast (start + 1) (by omega) le_rfl
      rw [beq_eq_false_iff_ne.mpr hNot]
      exact ih (by omega) (by omega) (by
        intro i hLow hHigh
        exact hLast i hLow (by omega))

end OpenIvi.Recovery.Minzip

------
-- Files And Constants
------

namespace OpenIvi.Recovery.Verifier

open Lib List Buffer LittleEndian

/- A file whose offsets are of type `long`. -/
structure File where
  bytes : Buffer
  length_lt : bytes.length < 2 ^ 31

def footerSize : Nat := 6

def rsaNumBytes : Nat := 256

def eocdHeaderSize : Nat := 22

def bufferSize : Nat := 4096

/- `$50 $4b $05 $06`. -/
def eocdMarker : Buffer := [0x50, 0x4b, 0x05, 0x06]

/- `fread` of `n` bytes from a position on. -/
def File.read (file : File) (pos n : Nat) : Buffer :=
  (file.bytes.drop pos).take n

def markerAt (buf : Buffer) (i : Nat) : Bool :=
  (buf.drop i).take 4 == eocdMarker

------
-- The Function
------

/- The place of the record and its length with the comment. -/
structure Eocd where
  start : Nat
  size : Nat
deriving DecidableEq, Repr

/- The number of bytes that the signature covers. -/
def Eocd.signedLen (e : Eocd) : Nat :=
  e.start + eocdHeaderSize - 2

/- The loop over the record for a second marker. -/
def markerLater (eocd : Buffer) : Bool :=
  (range' 4 (eocd.length - 3 - 4)).any (markerAt eocd)

/- The value of two bytes of the footer. -/
def footerNumber (footer : Buffer) (i : Nat) : Nat :=
  (footer.getD i 0).toNat + (footer.getD (i + 1) 0).toNat * 256

/- The checks of a record of the given length. -/
def checkEocd (file : File) (eocdSize : Nat) : Option Eocd :=
  if file.bytes.length < eocdSize then none
  else
    let start := file.bytes.length - eocdSize
    let eocd := file.read start eocdSize
    if ¬ markerAt eocd 0 then none
    else if markerLater eocd then none
    else some ⟨start, eocdSize⟩

/- The part of `verify_file` that finds the record: its place, unless a check fails. -/
def locate (file : File) : Option Eocd :=
  let len := file.bytes.length
  if len < footerSize then none
  else
    let footer := file.read (len - footerSize) footerSize
    if footer.getD 2 0 ≠ 0xff ∨ footer.getD 3 0 ≠ 0xff then
      none
    else
      let commentSize := footerNumber footer 4
      let signatureStart := footerNumber footer 0
      if (signatureStart : Int) - footerSize < rsaNumBytes then
        none
      else
        checkEocd file (commentSize + eocdHeaderSize)

/- One pass of the loop that hashes the file. -/
def hashBody (file : File) (signedLen : Nat) : Nat × Buffer →
    Except Fault (Ctl (Nat × Buffer) (Option Buffer))
| (soFar, hashed) =>
  if soFar < signedLen then
    let size := min bufferSize (signedLen - soFar)
    let piece := file.read soFar size
    if piece.length ≠ size then .ok (.done none)
    else .ok (.again (soFar + size, hashed ++ piece))
  else
    .ok (.done (some hashed))

/- The bytes that went into the SHA-1 context. -/
def hashLoop (file : File) (signedLen : Nat) : Except Fault (Option Buffer) :=
  loop (hashBody file signedLen) (signedLen + 1) (0, [])

/- A call of `RSA_verify`. -/
structure RsaCall (κ : Type) where
  key : κ
  eocd : Eocd
  hashed : Buffer

/- The place of the signature, counted from the start of the record. -/
def RsaCall.signature {κ : Type} (call : RsaCall κ) : Int :=
  call.eocd.size - 6 - rsaNumBytes

variable {κ : Type}

/- The loop over the keys. -/
def tryKeys (rsaVerify : RsaCall κ → Bool) (eocd : Eocd) (hashed : Buffer) :
    List κ → Bool × List (RsaCall κ)
| [] => (false, [])
| key :: keys =>
  let call : RsaCall κ := ⟨key, eocd, hashed⟩
  if rsaVerify call then (true, [call])
  else
    let (result, calls) := tryKeys rsaVerify eocd hashed keys
    (result, call :: calls)

/- Whether the file is verified, and the calls made. -/
def verifyFile (rsaVerify : RsaCall κ → Bool) (keys : List κ)
    (file : File) : Except Fault (Bool × List (RsaCall κ)) :=
  match locate file with
  | none => .ok (false, [])
  | some eocd => do
      match ← hashLoop file eocd.signedLen with
      | none => return (false, [])
      | some hashed => return tryKeys rsaVerify eocd hashed keys

------
-- What The Checks Establish
------

/-
  The record begins with the marker, reaches to the end of the file, and no other marker follows in
  it.
-/
structure Located (file : File) (e : Eocd) : Prop where
  ends : e.start + e.size = file.bytes.length
  header : eocdHeaderSize ≤ e.size
  marker : markerAt file.bytes e.start = true
  last : ∀ i, e.start + 4 ≤ i → i + 4 ≤ file.bytes.length → markerAt file.bytes i = false

variable {file : File}

theorem markerAt_read {start n i : Nat} (hFits : i + 4 ≤ n) :
    markerAt (file.read start n) i = markerAt file.bytes (start + i) := by
  unfold markerAt File.read
  rw [drop_take, take_take, drop_drop, min_eq_left (by omega)]

theorem checkEocd_spec {size : Nat} {e : Eocd} (hHeader : eocdHeaderSize ≤ size)
    (hCheck : checkEocd file size = some e) : Located file e := by
  simp only [eocdHeaderSize] at hHeader
  unfold checkEocd at hCheck
  simp only at hCheck
  split at hCheck
  · cases hCheck
  next hSize =>
    split at hCheck
    · cases hCheck
    next hMarker =>
      split at hCheck
      · cases hCheck
      next hLater =>
        cases hCheck
        have hEnds : file.bytes.length - size + size = file.bytes.length := by omega
        have hLen : (file.read (file.bytes.length - size) size).length = size := by
          simp only [File.read, length_take, length_drop]
          omega
        refine ⟨hEnds, hHeader, ?_, ?_⟩
        · have hFirst := not_not.mp hMarker
          rwa [markerAt_read (by omega)] at hFirst
        · intro i hLow hHigh
          simp only [markerLater, Bool.not_eq_true, any_eq_false, hLen] at hLater
          simp only at hLow
          have hNot := hLater (i - (file.bytes.length - size)) (by
              rw [mem_range'_1]
              omega)
          rw [markerAt_read (by omega), Nat.add_sub_cancel' (by omega)] at hNot
          simpa using hNot

theorem locate_spec {e : Eocd} (hLocate : locate file = some e) : Located file e := by
  unfold locate at hLocate
  simp only at hLocate
  split at hLocate
  · cases hLocate
  split at hLocate
  · cases hLocate
  split at hLocate
  · cases hLocate
  exact checkEocd_spec (Nat.le_add_left _ _) hLocate

/- The loop hashes the whole prefix. -/
theorem hashLoop_eq {signedLen : Nat} (hFits : signedLen ≤ file.bytes.length) :
    hashLoop file signedLen = .ok (some (file.bytes.take signedLen)) := by
  have hFrom : ∀ fuel soFar, soFar ≤ signedLen → signedLen - soFar < fuel →
      loop (hashBody file signedLen) fuel (soFar, file.bytes.take soFar) =
        .ok (some (file.bytes.take signedLen)) := by
    intro fuel
    induction fuel with
    | zero =>
      omega
    | succ fuel ih =>
      intro soFar hLe hFuel
      by_cases hMore : soFar < signedLen
      · have hPiece : (file.read soFar (min bufferSize (signedLen - soFar))).length =
            min bufferSize (signedLen - soFar) := by
          simp only [File.read, length_take, length_drop]
          omega
        have hStep : 0 < min bufferSize (signedLen - soFar) := by
          simp only [bufferSize]
          omega
        simp only [loop, hashBody, if_pos hMore, hPiece, ne_eq, not_true_eq_false, if_false]
        rw [File.read, ← take_add]
        exact ih _ (by omega) (by omega)
      · have hEq : soFar = signedLen := by omega
        simp [loop, hashBody, hEq]
  exact hFrom (signedLen + 1) 0 (Nat.zero_le _) (by omega)

/- Every call is made with the record and its prefix. -/
theorem mem_tryKeys {κ : Type} {rsaVerify : RsaCall κ → Bool}
    {eocd : Eocd} {hashed : Buffer} {keys : List κ} {call : RsaCall κ}
    (hMem : call ∈ (tryKeys rsaVerify eocd hashed keys).2) :
    call.eocd = eocd ∧ call.hashed = hashed := by
  induction keys with
  | nil => cases hMem
  | cons key keys ih =>
    simp only [tryKeys] at hMem
    split at hMem
    · rw [mem_singleton.mp hMem]
      exact ⟨rfl, rfl⟩
    · rcases mem_cons.mp hMem with rfl | hLater
      · exact ⟨rfl, rfl⟩
      · exact ih hLater

/- What holds where `verify_file` reaches `RSA_verify`. -/
theorem verifyFile_calls {κ : Type} {rsaVerify : RsaCall κ → Bool}
    {keys : List κ} {result : Bool} {calls : List (RsaCall κ)}
    (hVerify : verifyFile rsaVerify keys file = .ok (result, calls))
    {call : RsaCall κ} (hCall : call ∈ calls) :
    Located file call.eocd ∧ call.hashed = file.bytes.take call.eocd.signedLen := by
  unfold verifyFile at hVerify
  split at hVerify
  · cases hVerify
    cases hCall
  · rename_i eocd hLocate
    have hLocated := locate_spec hLocate
    have hEnds := hLocated.ends
    have hHeader := hLocated.header
    simp only [eocdHeaderSize] at hHeader
    rw [hashLoop_eq (by
      simp only [Eocd.signedLen, eocdHeaderSize]
      omega), ok_bind] at hVerify
    have hKeys := Except.ok.inj hVerify
    have hMem : call ∈ (tryKeys rsaVerify eocd (file.bytes.take eocd.signedLen) keys).2 := by
      rw [hKeys]
      exact hCall
    rcases mem_tryKeys hMem with ⟨hEocd, hHashed⟩
    rw [hEocd]
    exact ⟨hLocated, hHashed⟩

------
-- Where The Signature Is Taken From
------

/- The bytes of the signature are in the comment and were not hashed. -/
def RsaCall.InComment {κ : Type} (call : RsaCall κ) (file : File) : Prop :=
  ∃ start : Nat, start = call.eocd.start + call.signature ∧
    call.eocd.start + eocdHeaderSize ≤ start ∧ start + rsaNumBytes ≤ file.bytes.length ∧
    call.hashed.length ≤ start

/-
  The place of the signature is counted from the end of the comment, but only the distance that the
  footer gives is checked: the comment must have room for the signature and the footer.
-/
theorem signature_in_comment_iff {κ : Type} (rsaVerify : RsaCall κ → Bool) (keys : List κ)
    (file : File) (result : Bool) (calls : List (RsaCall κ)) (call : RsaCall κ)
    (hVerify : verifyFile rsaVerify keys file = .ok (result, calls)) (hCall : call ∈ calls) :
    call.InComment file ↔ eocdHeaderSize + rsaNumBytes + footerSize ≤ call.eocd.size := by
  rcases verifyFile_calls hVerify hCall with ⟨hLocated, hHashed⟩
  have hEnds := hLocated.ends
  have hHeader := hLocated.header
  have hLength : call.hashed.length ≤ call.eocd.start + 20 := by
    rw [hHashed, length_take]
    exact Nat.min_le_left _ _
  simp only [RsaCall.InComment, RsaCall.signature, eocdHeaderSize, rsaNumBytes, footerSize]
    at hHeader ⊢
  constructor
  · rintro ⟨start, hStart, hBehind, -, -⟩
    omega
  · intro hRoom
    exact ⟨call.eocd.start + (call.eocd.size - 262), by omega, by omega, by omega, by omega⟩

/- An archive with one entry and a signature of zeros. -/
def zeroSigned : File where
  bytes := [0x50, 0x4b, 0x03, 0x04] ++ [0x50, 0x4b, 0x05, 0x06, 0, 0, 0, 0, 1, 0, 1, 0, 46, 0, 0, 0,
      0, 0, 0, 0, 6, 1] ++ replicate 256 0 ++ [6, 1, 0xff, 0xff, 6, 1]
  length_lt := by decide +kernel

theorem verifyFile_zeroSigned :
    verifyFile (fun _ => true) [()] zeroSigned =
      .ok (true, [⟨(), ⟨4, 284⟩, zeroSigned.bytes.take 24⟩]) := by
  have hLocate : locate zeroSigned = some ⟨4, 284⟩ := by decide +kernel
  simp only [verifyFile, hLocate]
  rfl

theorem signature_in_comment_iff_zeros :
    RsaCall.InComment ⟨(), ⟨4, 284⟩, zeroSigned.bytes.take 24⟩ zeroSigned :=
  (signature_in_comment_iff _ _ _ _ _ _ verifyFile_zeroSigned (mem_singleton.mpr rfl)).mpr
    (by decide)

/- A record whose comment is the footer. -/
def footerOnly : File where
  bytes := eocdMarker ++ replicate 16 0 ++ [6, 0] ++ [6, 1, 0xff, 0xff, 6, 0]
  length_lt := by decide

/- `RSA_verify` is called for it. -/
theorem verifyFile_footerOnly :
    verifyFile (fun _ => true) [()] footerOnly =
      .ok (true, [⟨(), ⟨0, 28⟩, footerOnly.bytes.take 20⟩]) := by
  have hLocate : locate footerOnly = some ⟨0, 28⟩ := by decide +kernel
  simp only [verifyFile, hLocate]
  rfl

/- The signature is looked for 234 bytes in front of the record, and of the file. -/
theorem signature_outside_comment :
    verifyFile (fun _ => true) [()] footerOnly =
      .ok (true, [⟨(), ⟨0, 28⟩, footerOnly.bytes.take 20⟩]) ∧
      RsaCall.signature (⟨(), ⟨0, 28⟩, footerOnly.bytes.take 20⟩ : RsaCall Unit) = -234 ∧
      ¬ RsaCall.InComment ⟨(), ⟨0, 28⟩, footerOnly.bytes.take 20⟩ footerOnly := by
  refine ⟨verifyFile_footerOnly, rfl, ?_⟩
  rintro ⟨start, hStart, -⟩
  cases hStart

variable {buf : Buffer} {file : File} {e : Eocd}

theorem markerAt_iff {i : Nat} : markerAt buf i = true ↔ (buf.drop i).take 4 = Minzip.endsigBytes :=
  beq_iff_eq

/- The marker cannot overlap itself. -/
theorem not_marker_inside {i j : Nat}
    (hMarker : markerAt buf i = true) (hLow : i < j) (hHigh : j < i + 4) :
    (buf.drop j).take 4 ≠ Minzip.endsigBytes := by
  intro hOther
  have hHere := markerAt_iff.mp hMarker
  have hFirst : buf[j]? = some 0x50 := by
    have hHead : ((buf.drop j).take 4)[0]? = some 0x50 := by
      rw [hOther]
      rfl
    rwa [getElem?_take_of_lt (by omega), getElem?_drop, add_zero] at hHead
  have hByte : Minzip.endsigBytes[j - i]? = some 0x50 := by
    rw [← hHere, getElem?_take_of_lt (by omega), getElem?_drop, Nat.add_sub_cancel' (by omega)]
    exact hFirst
  have hCases : j - i = 1 ∨ j - i = 2 ∨ j - i = 3 := by omega
  rcases hCases with hOne | hTwo | hThree
  · rw [hOne] at hByte
    cases hByte
  · rw [hTwo] at hByte
    cases hByte
  · rw [hThree] at hByte
    cases hByte

/- The scan of minzip stops at the verifier's record. -/
theorem Located.findEocd_eq (hLocated : Located file e) :
    Minzip.findEocd file.bytes = .ok (some e.start) := by
  have hEnds := hLocated.ends
  have hHeader := hLocated.header
  simp only [eocdHeaderSize] at hHeader
  unfold Minzip.findEocd
  rw [if_neg (by simp only [Minzip.endhdr]; omega)]
  apply Minzip.scanBack_eq
  · simp only [Minzip.endhdr]
    omega
  · simp only [Minzip.endhdr]
    omega
  · exact markerAt_iff.mp hLocated.marker
  · intro i hLow hHigh
    simp only [Minzip.endhdr] at hHigh
    by_cases hInside : i < e.start + 4
    · exact not_marker_inside hLocated.marker hLow hInside
    · have hNone := hLocated.last i (by omega) (by omega)
      intro hSig
      rw [markerAt_iff.mpr hSig] at hNone
      cases hNone

/- What is read from the record was hashed. -/
theorem Located.readEocd_take (hLocated : Located file e) :
    ∃ numEntries cdOffset, Minzip.readEocd file.bytes e.start =
      .ok ⟨e.start, numEntries, cdOffset⟩ ∧ Minzip.readEocd (file.bytes.take e.signedLen) e.start =
        .ok ⟨e.start, numEntries, cdOffset⟩ := by
  have hEnds := hLocated.ends
  have hHeader := hLocated.header
  simp only [eocdHeaderSize] at hHeader
  have hSigned : e.signedLen = e.start + 20 := rfl
  have hTwo : e.start + Minzip.endsub + 2 ≤ e.signedLen := by
    rw [hSigned, Minzip.endsub]
    omega
  have hFour : e.start + Minzip.endoff + 4 ≤ e.signedLen := by rw [hSigned, Minzip.endoff]
  have hLen : e.signedLen ≤ file.bytes.length := by omega
  refine ⟨ofBytes ((file.bytes.drop (e.start + Minzip.endsub)).take 2), ofBytes
      ((file.bytes.drop (e.start + Minzip.endoff)).take 4), ?_, ?_⟩
  · unfold Minzip.readEocd Minzip.get2LE Minzip.get4LE fetch
    rw [block_eq (by omega), ok_bind, block_eq (by omega), ok_bind]
    rfl
  · unfold Minzip.readEocd Minzip.get2LE Minzip.get4LE
    rw [fetch_take hTwo hLen, fetch_take hFour hLen]
    unfold fetch
    rw [block_eq (by omega), ok_bind, block_eq (by omega), ok_bind]
    rfl

/-
  Where `verify_file` reaches `RSA_verify`: the scan of `parseZipArchive` finds the record that the
  verifier used, the entry count and the directory offset are read alike from the file and from the
  bytes that were hashed, and nothing else is used if the archive is parsed.
-/
theorem minzip_uses_signed_record {κ : Type}
    (rsaVerify : RsaCall κ → Bool) (keys : List κ) (file : File)
    (result : Bool) (calls : List (RsaCall κ)) (call : RsaCall κ)
    (hVerify : verifyFile rsaVerify keys file = .ok (result, calls)) (hCall : call ∈ calls) :
    Minzip.findEocd file.bytes = .ok (some call.eocd.start) ∧
      call.hashed = file.bytes.take call.eocd.signedLen ∧
      ∃ dir, dir.eocd = call.eocd.start ∧ Minzip.readEocd file.bytes call.eocd.start = .ok dir ∧
        Minzip.readEocd call.hashed call.eocd.start = .ok dir ∧
        ∀ dir', Minzip.readDirectory file.bytes = .ok (some dir') → dir' = dir := by
  rcases verifyFile_calls hVerify hCall with ⟨hLocated, hHashed⟩
  rcases hLocated.readEocd_take with ⟨numEntries, cdOffset, hRead, hReadHashed⟩
  have hFind := hLocated.findEocd_eq
  refine ⟨hFind, hHashed, _, rfl, hRead, ?_, ?_⟩
  · rw [hHashed]
    exact hReadHashed
  · intro dir' hDir
    rcases bind_eq_ok.mp hDir with ⟨val, _, hNext⟩
    split at hNext
    · cases hNext
    · split at hNext
      · cases hNext
      · rw [hFind, ok_bind] at hNext
        simp only [hRead, ok_bind] at hNext
        split at hNext
        · cases hNext
        · exact (Option.some.inj (Except.ok.inj hNext)).symm

theorem minzip_uses_signed_record_zeros :
    Minzip.findEocd zeroSigned.bytes = .ok (some 4) ∧ ∃ dir, dir.eocd = 4 ∧
      Minzip.readEocd zeroSigned.bytes 4 = .ok dir ∧
      Minzip.readEocd (zeroSigned.bytes.take 24) 4 = .ok dir := by
  have hAgree := minzip_uses_signed_record (fun _ => true) [()] zeroSigned true
      [⟨(), ⟨4, 284⟩, zeroSigned.bytes.take 24⟩]
      ⟨(), ⟨4, 284⟩, zeroSigned.bytes.take 24⟩
      verifyFile_zeroSigned (mem_singleton.mpr rfl)
  rcases hAgree with ⟨hFind, _, dir, hEocd, hRead, hHashed, _⟩
  exact ⟨hFind, dir, hEocd, hRead, hHashed⟩

end OpenIvi.Recovery.Verifier
