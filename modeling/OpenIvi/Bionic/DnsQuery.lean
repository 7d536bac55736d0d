import OpenIvi.Lib.Buffer

/-
  Query packets of the DNS cache: checking, hashing and comparing them.

  A packet is a buffer and a cursor into it. The end of the packet is the end of the buffer; reading
  `buf[p]?` is the test of a cursor against it together with the access. The loops over names are
  bounded by the length of the packet.

  `Question` is a question as such: the labels of its name, its type and its class. `Query` says
  that a packet asks some questions. A packet that passes the check does, and two such packets
  compare equal exactly when they have the same RD bit and ask the same questions.

  Main declarations:
    * `hashQuery`
    * `Query`
    * `hashQuery_total`
    * `isEqualQuery_spec`
-/

------
-- Checking
------

namespace OpenIvi.Bionic.Dns

open Lib List

abbrev Word := BitVec 32

def dnsHeaderSize : Nat := 12

def dnsTypeA : Buffer := [0, 1]

def dnsTypePtr : Buffer := [0, 12]

def dnsTypeMx : Buffer := [0, 15]

def dnsTypeAaaa : Buffer := [0, 28]

/-
  `DNS_TYPE_ALL`. An octal escape has three digits at most: the text of the source is `\00`, `\037`
  and the digit 7.
-/
def dnsTypeAll : Buffer := [0, 31]

def dnsClassIn : Buffer := [0, 1]

section

variable (buf : Buffer)

/- `_dnsPacket_checkBytes`: the cursor behind the bytes. -/
def checkBytes (p : Nat) (bytes : Buffer) : Option Nat :=
  if buf.length < p + bytes.length then none
  else if (buf.drop p).take bytes.length ≠ bytes then none
  else some (p + bytes.length)

/- One pass of the loop of `_dnsPacket_checkQName`. -/
def checkQNameBody (p : Nat) : Except Fault (Ctl Nat (Option Nat)) :=
  match buf[p]? with
  | none => .ok (.done none)
  | some c =>
    if c = 0 then .ok (.done (some (p + 1)))
    else if 64 ≤ c then .ok (.done none)
    else .ok (.again (p + 1 + c.toNat))

/- `_dnsPacket_checkQName`. -/
def checkQName (p : Nat) : Except Fault (Option Nat) :=
  loop (checkQNameBody buf) (buf.length + 1) p

/- The types of the questions that are cached. -/
def checkType (p : Nat) : Option Nat :=
  checkBytes buf p dnsTypeA <|> checkBytes buf p dnsTypePtr <|> checkBytes buf p dnsTypeMx <|>
    checkBytes buf p dnsTypeAaaa <|>
    checkBytes buf p dnsTypeAll

/- `_dnsPacket_checkQR`. -/
def checkQR (p : Nat) : Except Fault (Option Nat) := do
  match ← checkQName buf p with
  | none => return none
  | some p =>
    match checkType buf p with
    | none => return none
    | some p => return checkBytes buf p dnsClassIn

/- The loop over the questions. -/
def checkQRs (buf : Buffer) : Nat → Nat → Except Fault Bool
| 0, _ => .ok true
| count + 1, p => do
    match ← checkQR buf p with
    | none => return false
    | some p => checkQRs buf count p

/- A number of two bytes, the high one first. -/
def bigEndian (high low : UInt8) : Nat :=
  high.toNat * 256 + low.toNat

/- `_dnsPacket_checkQuery`. -/
def checkQuery : Except Fault Bool := do
  if buf.length < dnsHeaderSize then return false
  else
    let flags ← buf.load 2
    let codes ← buf.load 3
    if flags &&& 0xFC ≠ 0 ∨ codes ≠ 0 then return false
    else
      let qdCount := bigEndian (← buf.load 4) (← buf.load 5)
      let anCount := bigEndian (← buf.load 6) (← buf.load 7)
      let dnCount := bigEndian (← buf.load 8) (← buf.load 9)
      let arCount := bigEndian (← buf.load 10) (← buf.load 11)
      if anCount ≠ 0 ∨ dnCount ≠ 0 ∨ arCount ≠ 0 then
        return false
      else if qdCount = 0 then return false
      else checkQRs buf qdCount dnsHeaderSize

------
-- Hashing
------

def fnvMult : Word := 16777619

def fnvBasis : Word := 2166136261

def hashByte (hash : Word) (c : UInt8) : Word :=
  (hash * fnvMult) ^^^ BitVec.ofNat 32 c.toNat

/- `_dnsPacket_skip`. -/
def skip (p count : Nat) : Nat :=
  min (p + count) buf.length

/- `_dnsPacket_readInt16`. -/
def readInt16 (p : Nat) : Int × Nat :=
  match buf[p]?, buf[p + 1]? with
  | some high, some low => (bigEndian high low, p + 2)
  | _, _ => (-1, p)

/-
  `_dnsPacket_hashBytes`, whose loop never counts down and so takes all bytes up to the end of the
  packet.
-/
def hashBytes (p : Nat) (numBytes : Int) (hash : Word) : Word × Nat :=
  if 0 < numBytes then
    ((buf.drop p).foldl hashByte hash, max p buf.length)
  else (hash, p)

/- One pass of the loop of `_dnsPacket_hashQName`. -/
def hashQNameBody (s : Nat × Word) : Except Fault (Ctl (Nat × Word) (Word × Nat)) :=
  let (p, hash) := s
  match buf[p]? with
  | none => .ok (.done (hash, p))
  | some c =>
    if c = 0 then .ok (.done (hash, p + 1))
    else if 64 ≤ c then .ok (.done (hash, p + 1))
    else if buf.length ≤ p + 1 + c.toNat then
      .ok (.done (hash, p + 1))
    else
      .ok (.again (p + 1 + c.toNat, ((buf.drop (p + 1)).take c.toNat).foldl hashByte hash))

/- `_dnsPacket_hashQName`. -/
def hashQName (p : Nat) (hash : Word) : Except Fault (Word × Nat) :=
  loop (hashQNameBody buf) (buf.length + 1) (p, hash)

/- `_dnsPacket_hashQR`. -/
def hashQR (p : Nat) (hash : Word) : Except Fault (Word × Nat) := do
  let (hash, p) ← hashQName buf p hash
  return hashBytes buf p 4 hash

/- The loop over the questions. -/
def hashQRs (buf : Buffer) : Nat → Nat → Word → Except Fault Word
| 0, _, hash => .ok hash
| count + 1, p, hash => do
    let (hash, p) ← hashQR buf p hash
    hashQRs buf count p hash

/- `_dnsPacket_hashQuery`. -/
def hashQuery : Except Fault Word := do
  let flags ← buf.load 2
  let hash := hashByte fnvBasis (flags &&& 1)
  let p := skip buf 0 4
  let (count, p) := readInt16 buf p
  let p := skip buf p 6
  hashQRs buf count.toNat p hash

end

------
-- Comparing
------

variable (buf1 buf2 : Buffer)

/- One pass of the loop of `_dnsPacket_isEqualDomainName`. -/
def isEqualDomainNameBody (s : Nat × Nat) : Except Fault (Ctl (Nat × Nat) (Option (Nat × Nat))) :=
  let (p1, p2) := s
  match buf1[p1]?, buf2[p2]? with
  | some c1, some c2 =>
    if c1 ≠ c2 then .ok (.done none)
    else if c1 = 0 then
      .ok (.done (some (p1 + 1, p2 + 1)))
    else if 64 ≤ c1 then .ok (.done none)
    else if buf1.length < p1 + 1 + c1.toNat ∨ buf2.length < p2 + 1 + c1.toNat then
      .ok (.done none)
    else if (buf1.drop (p1 + 1)).take c1.toNat ≠ (buf2.drop (p2 + 1)).take c1.toNat then
      .ok (.done none)
    else
      .ok (.again (p1 + 1 + c1.toNat, p2 + 1 + c1.toNat))
  | _, _ => .ok (.done none)

/- `_dnsPacket_isEqualDomainName`. -/
def isEqualDomainName (p1 p2 : Nat) : Except Fault (Option (Nat × Nat)) :=
  loop (isEqualDomainNameBody buf1 buf2) (buf1.length + 1) (p1, p2)

/- `_dnsPacket_isEqualBytes`. -/
def isEqualBytes (p1 p2 numBytes : Nat) : Option (Nat × Nat) :=
  if buf1.length < p1 + numBytes ∨ buf2.length < p2 + numBytes then none
  else if (buf1.drop p1).take numBytes ≠ (buf2.drop p2).take numBytes then none
  else some (p1 + numBytes, p2 + numBytes)

/- `_dnsPacket_isEqualQR`. -/
def isEqualQR (p1 p2 : Nat) : Except Fault (Option (Nat × Nat)) := do
  match ← isEqualDomainName buf1 buf2 p1 p2 with
  | none => return none
  | some (p1, p2) => return isEqualBytes buf1 buf2 p1 p2 (2 + 2)

/- The loop over the questions. -/
def isEqualQRs (buf1 buf2 : Buffer) : Nat → Nat → Nat → Except Fault Bool
| 0, _, _ => .ok true
| count + 1, p1, p2 => do
    match ← isEqualQR buf1 buf2 p1 p2 with
    | none => return false
    | some (p1, p2) => isEqualQRs buf1 buf2 count p1 p2

/- `_dnsPacket_isEqualQuery`. -/
def isEqualQuery : Except Fault Bool := do
  let flags1 ← buf1.load 2
  let flags2 ← buf2.load 2
  if flags1 &&& 1 ≠ flags2 &&& 1 then return false
  else
    let (count1, p1) := readInt16 buf1 (skip buf1 0 4)
    let (count2, p2) := readInt16 buf2 (skip buf2 0 4)
    if count1 ≠ count2 ∨ count1 < 0 then return false
    else
      isEqualQRs buf1 buf2 count1.toNat (skip buf1 p1 6) (skip buf2 p2 6)

------
-- Bytes In A Packet
------

variable {label : Buffer}

/- The bytes are in the packet from `p` on. -/
def At (buf : Buffer) (p : Nat) (bytes : Buffer) : Prop :=
  ∃ rest, buf.drop p = bytes ++ rest

variable {buf : Buffer} {p : Nat} {xs ys : Buffer} {c : UInt8}

theorem at_append : At buf p (xs ++ ys) ↔ At buf p xs ∧ At buf (p + xs.length) ys := by
  constructor
  · rintro ⟨rest, hRest⟩
    refine ⟨⟨ys ++ rest, ?_⟩, ⟨rest, ?_⟩⟩
    · rw [hRest, append_assoc]
    · rw [← drop_drop, hRest, append_assoc, drop_left]
  · rintro ⟨⟨rest, hXs⟩, ⟨rest', hYs⟩⟩
    refine ⟨rest', ?_⟩
    rw [← drop_drop, hXs, drop_left] at hYs
    rw [hXs, hYs, append_assoc]

theorem at_nil (buf : Buffer) (p : Nat) : At buf p [] :=
  ⟨buf.drop p, rfl⟩

theorem at_cons : At buf p (c :: xs) ↔ buf[p]? = some c ∧ At buf (p + 1) xs := by
  rw [show c :: xs = [c] ++ xs from rfl, at_append]
  apply and_congr_left'
  constructor
  · rintro ⟨rest, hRest⟩
    rw [← head?_drop, hRest]
    rfl
  · intro hByte
    rcases List.getElem?_eq_some_iff.mp hByte with ⟨hLt, hEq⟩
    refine ⟨buf.drop (p + 1), ?_⟩
    rw [drop_eq_getElem_cons hLt, hEq]
    rfl

theorem At.take_eq (hAt : At buf p xs) : (buf.drop p).take xs.length = xs := by
  rcases hAt with ⟨rest, hRest⟩
  rw [hRest, take_left]

theorem At.length_le (hAt : At buf p xs) (hSome : xs ≠ []) : p + xs.length ≤ buf.length := by
  rcases hAt with ⟨rest, hRest⟩
  have hLength := congrArg length hRest
  have hPos := length_pos_iff.mpr hSome
  rw [length_drop, length_append] at hLength
  omega

theorem at_take {n : Nat} (hFits : p + n ≤ buf.length) :
    At buf p ((buf.drop p).take n) ∧ ((buf.drop p).take n).length = n := by
  refine ⟨⟨(buf.drop p).drop n, ?_⟩, ?_⟩
  · rw [take_append_drop]
  · rw [length_take, length_drop]
    omega

------
-- Names
------

def ValidLabel (label : Buffer) : Prop :=
  0 < label.length ∧ label.length < 64

def encodeLabel (label : Buffer) : Buffer :=
  UInt8.ofNat label.length :: label

def encodeName (labels : List Buffer) : Buffer :=
  labels.flatMap encodeLabel ++ [0]

theorem length_byte (hValid : ValidLabel label) :
    (UInt8.ofNat label.length).toNat = label.length := by
  have hLt := hValid.2
  rw [UInt8.toNat_ofNat']
  omega

/- The byte of a label is neither 0 nor a pointer. -/
theorem length_byte_bounds (hValid : ValidLabel label) :
    UInt8.ofNat label.length ≠ 0 ∧ ¬ 64 ≤ UInt8.ofNat label.length := by
  have hByte := length_byte hValid
  constructor
  · intro hZero
    rw [hZero] at hByte
    have hPos := hValid.1
    rw [← hByte] at hPos
    exact absurd hPos (by decide)
  · intro hLarge
    have hLarge := UInt8.le_iff_toNat_le.mp hLarge
    rw [hByte] at hLarge
    exact absurd hValid.2 (not_lt.mpr hLarge)

/- A byte that is neither is the length of a label. -/
theorem validLabel_of_byte {c : UInt8}
    (hZero : c ≠ 0) (hSmall : ¬ 64 ≤ c) (hLength : label.length = c.toNat) :
    ValidLabel label ∧ encodeLabel label = c :: label := by
  have hLt : c.toNat < 64 := Nat.not_le.mp hSmall
  have hPos : 0 < c.toNat := by
    rcases Nat.eq_zero_or_pos c.toNat with hEq | hPos
    · exact absurd (UInt8.toNat_inj.mp hEq) hZero
    · exact hPos
  refine ⟨⟨by omega, by omega⟩, ?_⟩
  unfold encodeLabel
  rw [hLength, UInt8.ofNat_toNat]

theorem length_le_encodeName (labels : List Buffer) :
    labels.length < (encodeName labels).length := by
  unfold encodeName
  induction labels with
  | nil => simp
  | cons label labels ih =>
    simp only [flatMap_cons, append_assoc, length_append, encodeLabel, length_cons,
      length_nil] at ih ⊢
    omega

/- The loop went over labels of the packet, or the last one led out of it. -/
def WentOver (buf : Buffer) (p q : Nat) : Prop :=
  buf.length < q ∨ ∃ labels : List Buffer, (∀ l ∈ labels, ValidLabel l) ∧
      At buf p (labels.flatMap encodeLabel) ∧ q = p + (labels.flatMap encodeLabel).length

theorem checkQName_spec (buf : Buffer) (p : Nat) :
    ∃ r, checkQName buf p = .ok r ∧ ∀ q, r = some q → ∃ labels, (∀ l ∈ labels, ValidLabel l) ∧
      At buf p (encodeName labels) ∧ q = p + (encodeName labels).length := by
  apply loop_total (WentOver buf p) (fun q => buf.length - q)
  · intro q hInv
    unfold checkQNameBody
    cases hByte : buf[q]? with
    | none =>
      refine .inl ⟨none, rfl, ?_⟩
      intro q' hSome
      cases hSome
    | some c =>
      have hLt := (List.getElem?_eq_some_iff.mp hByte).1
      rcases hInv with hOut | ⟨labels, hValid, hAt, hQ⟩
      · omega
      · by_cases hZero : c = 0
        · simp only [hZero, if_true]
          refine .inl ⟨some (q + 1), rfl, ?_⟩
          intro q' hSome
          injection hSome with hEq
          refine ⟨labels, hValid, ?_, ?_⟩
          · refine at_append.mpr ⟨hAt, ?_⟩
            rw [← hQ, at_cons, hByte, hZero]
            exact ⟨rfl, at_nil _ _⟩
          · rw [← hEq, hQ, encodeName, length_append]
            rfl
        · by_cases hLarge : 64 ≤ c
          · simp only [hZero, if_false, hLarge, if_true]
            refine .inl ⟨none, rfl, ?_⟩
            intro q' hSome
            cases hSome
          · simp only [hZero, if_false, hLarge]
            refine .inr ⟨_, rfl, ?_, by omega⟩
            rcases lt_or_ge buf.length (q + 1 + c.toNat) with hOut | hFits
            · exact .inl hOut
            · rcases at_take hFits with ⟨hLabel, hLength⟩
              rcases validLabel_of_byte hZero hLarge hLength with ⟨hValidLabel, hEncode⟩
              refine .inr ⟨labels ++ [(buf.drop (q + 1)).take c.toNat], ?_, ?_, ?_⟩
              · intro l hMem
                rcases mem_append.mp hMem with hOld | hNew
                · exact hValid l hOld
                · rw [mem_singleton.mp hNew]
                  exact hValidLabel
              · rw [flatMap_append, at_append]
                refine ⟨hAt, ?_⟩
                rw [← hQ, flatMap_singleton, hEncode]
                exact at_cons.mpr ⟨hByte, hLabel⟩
              · rw [flatMap_append, flatMap_singleton, hEncode, length_append, length_cons, hLength,
                  hQ]
                omega
  · exact .inr ⟨[], by simp, at_nil _ _, rfl⟩
  · exact Nat.lt_succ_of_le (Nat.sub_le _ _)

------
-- Questions
------

/- A question; `kind` is its type and its class. -/
structure Question where
  labels : List Buffer
  kind : Buffer
deriving DecidableEq

structure Question.Valid (q : Question) : Prop where
  labels : ∀ l ∈ q.labels, ValidLabel l
  kind : q.kind.length = 4

def Question.encode (q : Question) : Buffer :=
  encodeName q.labels ++ q.kind

/- The packet asks the questions, with the RD bit `rd` in its header. -/
structure Query (buf : Buffer) (rd : UInt8) (qs : List Question) : Prop where
  header : dnsHeaderSize ≤ buf.length
  flags : ∃ f, buf[2]? = some f ∧ f &&& 1 = rd
  count : ∃ high low, buf[4]? = some high ∧ buf[5]? = some low ∧ bigEndian high low = qs.length
  valid : ∀ q ∈ qs, q.Valid
  questions : At buf dnsHeaderSize (qs.flatMap Question.encode)

theorem checkBytes_some {bytes : Buffer} {q : Nat} (hCheck : checkBytes buf p bytes = some q) :
    At buf p bytes ∧ q = p + bytes.length := by
  unfold checkBytes at hCheck
  split at hCheck
  · cases hCheck
  next hFits =>
    split at hCheck
    · cases hCheck
    next hEq =>
      injection hCheck with hQ
      have hTake := at_take (not_lt.mp hFits)
      rw [not_not.mp hEq] at hTake
      exact ⟨hTake.1, hQ.symm⟩

/- The type of a question has two bytes. -/
theorem checkType_some {q : Nat} (hCheck : checkType buf p = some q) :
    ∃ bytes : Buffer, bytes.length = 2 ∧ At buf p bytes ∧ q = p + 2 := by
  have hFound : ∀ bytes : Buffer, bytes.length = 2 → checkBytes buf p bytes = some q →
      ∃ bytes : Buffer, bytes.length = 2 ∧ At buf p bytes ∧ q = p + 2 := by
    intro bytes hLength hBytes
    rcases checkBytes_some hBytes with ⟨hAt, hQ⟩
    rw [hLength] at hQ
    exact ⟨bytes, hLength, hAt, hQ⟩
  unfold checkType at hCheck
  simp only [Option.orElse_eq_orElse, Option.orElse_eq_or, Option.or_eq_some_iff] at hCheck
  rcases hCheck with hA | ⟨_, hPtr | ⟨_, hMx | ⟨_, hRest⟩⟩⟩
  · exact hFound dnsTypeA rfl hA
  · exact hFound dnsTypePtr rfl hPtr
  · exact hFound dnsTypeMx rfl hMx
  · rcases hRest with hAaaa | ⟨_, hAll⟩
    · exact hFound dnsTypeAaaa rfl hAaaa
    · exact hFound dnsTypeAll rfl hAll

theorem checkQR_spec (buf : Buffer) (p : Nat) :
    ∃ r, checkQR buf p = .ok r ∧ ∀ q, r = some q →
      ∃ question : Question, question.Valid ∧ At buf p question.encode ∧
        q = p + question.encode.length := by
  rcases checkQName_spec buf p with ⟨r, hName, hSpec⟩
  unfold checkQR
  rw [hName, ok_bind]
  cases r with
  | none => exact ⟨none, rfl, nofun⟩
  | some q =>
    rcases hSpec q rfl with ⟨labels, hValid, hAt, hQ⟩
    cases hType : checkType buf q with
    | none =>
      simp only [hType]
      exact ⟨none, rfl, nofun⟩
    | some q' =>
      simp only [hType]
      refine ⟨_, rfl, ?_⟩
      intro q'' hClass
      rcases checkType_some hType with ⟨type, hLength, hTypeAt, hQ'⟩
      rcases checkBytes_some hClass with ⟨hClassAt, hQ''⟩
      have hClassLength : dnsClassIn.length = 2 := rfl
      refine ⟨⟨labels, type ++ dnsClassIn⟩, ⟨hValid, ?_⟩, ?_, ?_⟩
      · rw [length_append, hLength, hClassLength]
      · refine at_append.mpr ⟨hAt, ?_⟩
        rw [← hQ]
        refine at_append.mpr ⟨hTypeAt, ?_⟩
        rw [hLength, ← hQ']
        exact hClassAt
      · simp only [Question.encode, length_append, hLength, hClassLength, hQ'', hQ', hQ]
        omega

theorem checkQRs_spec (buf : Buffer) :
    ∀ count p, ∃ b, checkQRs buf count p = .ok b ∧ (b = true →
      ∃ qs : List Question, qs.length = count ∧ (∀ q ∈ qs, q.Valid) ∧
        At buf p (qs.flatMap Question.encode)) := by
  intro count
  induction count with
  | zero =>
    intro p
    refine ⟨true, rfl, ?_⟩
    intro _
    exact ⟨[], rfl, by simp, at_nil _ _⟩
  | succ count ih =>
    intro p
    rcases checkQR_spec buf p with ⟨r, hCheck, hSpec⟩
    unfold checkQRs
    rw [hCheck, ok_bind]
    cases r with
    | none => exact ⟨false, rfl, nofun⟩
    | some p' =>
      rcases hSpec p' rfl with ⟨q, hValid, hAt, hP⟩
      rcases ih p' with ⟨b, hRest, hRestSpec⟩
      refine ⟨b, hRest, ?_⟩
      intro hTrue
      rcases hRestSpec hTrue with ⟨qs, hLength, hAll, hQs⟩
      refine ⟨q :: qs, congrArg (· + 1) hLength, ?_, ?_⟩
      · intro q' hMem
        rcases mem_cons.mp hMem with hEq | hMem
        · rw [hEq]
          exact hValid
        · exact hAll q' hMem
      · refine at_append.mpr ⟨hAt, ?_⟩
        rw [← hP]
        exact hQs

theorem getElem?_of_header {i : Nat} (hHeader : dnsHeaderSize ≤ buf.length)
    (hI : i < dnsHeaderSize) : buf[i]? = some (buf.getD i 0) := by
  rw [getD_eq_getElem?_getD, getElem?_eq_getElem (lt_of_lt_of_le hI hHeader)]
  rfl

/- The check returns, and accepts only queries. -/
theorem checkQuery_spec (hHeader : dnsHeaderSize ≤ buf.length) :
    ∃ b, checkQuery buf = .ok b ∧ (b = true → ∃ rd qs, Query buf rd qs) := by
  have hAt {i : Nat} (hI : i < dnsHeaderSize) := getElem?_of_header hHeader hI
  have hLoad {i : Nat} (hI : i < dnsHeaderSize) := Buffer.load_eq (hAt hI)
  unfold checkQuery
  rw [if_neg (not_lt.mpr hHeader)]
  simp (disch := decide) only [hLoad, ok_bind]
  split
  · exact ⟨false, rfl, nofun⟩
  · split
    · exact ⟨false, rfl, nofun⟩
    · split
      · exact ⟨false, rfl, nofun⟩
      · rcases checkQRs_spec buf _ dnsHeaderSize with ⟨b, hCheck, hSpec⟩
        refine ⟨b, hCheck, ?_⟩
        intro hTrue
        rcases hSpec hTrue with ⟨qs, hLength, hValid, hQRs⟩
        exact ⟨_, qs, hHeader, ⟨_, hAt (by decide), rfl⟩,
          ⟨_, _, hAt (by decide), hAt (by decide), hLength.symm⟩, hValid, hQRs⟩

------
-- Hashing Returns
------

theorem hashQName_total (buf : Buffer) (p : Nat) (hash : Word) :
    ∃ r, hashQName buf p hash = .ok r := by
  have hTotal : ∃ r, hashQName buf p hash = .ok r ∧ True := by
    apply loop_total (fun _ => True) (fun s : Nat × Word => buf.length - s.1)
    · intro s _
      rcases s with ⟨q, h⟩
      simp only [hashQNameBody]
      cases hByte : buf[q]? with
      | none => exact .inl ⟨_, rfl, trivial⟩
      | some c =>
        by_cases hZero : c = 0
        · simp only [hZero, if_true]
          exact .inl ⟨_, rfl, trivial⟩
        · by_cases hLarge : 64 ≤ c
          · simp only [hZero, if_false, hLarge, if_true]
            exact .inl ⟨_, rfl, trivial⟩
          · by_cases hOut : buf.length ≤ q + 1 + c.toNat
            · simp only [hZero, hLarge, if_false, hOut, if_true]
              exact .inl ⟨_, rfl, trivial⟩
            · simp only [hZero, hLarge, if_false, hOut]
              exact .inr ⟨_, rfl, trivial, by
                omega⟩
    · exact trivial
    · exact Nat.lt_succ_of_le (Nat.sub_le _ _)
  rcases hTotal with ⟨r, hR, _⟩
  exact ⟨r, hR⟩

theorem hashQRs_total (buf : Buffer) : ∀ count p hash, ∃ h, hashQRs buf count p hash = .ok h := by
  intro count
  induction count with
  | zero =>
    intro p hash
    exact ⟨hash, rfl⟩
  | succ count ih =>
    intro p hash
    rcases hashQName_total buf p hash with ⟨r, hName⟩
    rcases ih (hashBytes buf r.2 4 r.1).2 (hashBytes buf r.2 4 r.1).1 with ⟨h, hRest⟩
    refine ⟨h, ?_⟩
    unfold hashQRs hashQR
    rw [hName]
    exact hRest

theorem hashQuery_total {buf : Buffer} (hHeader : dnsHeaderSize ≤ buf.length) :
    ∃ h, hashQuery buf = .ok h := by
  have hLoad := Buffer.load_eq (getElem?_of_header (i := 2) hHeader (by decide))
  unfold hashQuery
  rw [hLoad]
  exact hashQRs_total buf _ _ _

------
-- Comparing
------

variable {buf1 buf2 : Buffer}

theorem encodeName_cons (label : Buffer) (labels : List Buffer) :
    encodeName (label :: labels) = UInt8.ofNat label.length :: (label ++ encodeName labels) := by
  simp [encodeName, encodeLabel]

variable {p1 p2 : Nat}

/- One pass over labels of the same length. -/
theorem isEqualDomainNameBody_cons {l1 l2 : Buffer}
    {ls1 ls2 : List Buffer} (hValid1 : ValidLabel l1) (hLength : l1.length = l2.length)
    (hAt1 : At buf1 p1 (encodeName (l1 :: ls1))) (hAt2 : At buf2 p2 (encodeName (l2 :: ls2))) :
    isEqualDomainNameBody buf1 buf2 (p1, p2) = if l1 = l2 then
      .ok (.again (p1 + 1 + l1.length, p2 + 1 + l2.length))
      else .ok (.done none) := by
  rw [encodeName_cons, at_cons, at_append] at hAt1 hAt2
  rcases hAt1 with ⟨hByte1, hLabel1, _⟩
  rcases hAt2 with ⟨hByte2, hLabel2, _⟩
  have hBounds := length_byte_bounds hValid1
  have hLen := length_byte hValid1
  have hSome1 : l1 ≠ [] := length_pos_iff.mp hValid1.1
  have hSome2 : l2 ≠ [] := length_pos_iff.mp (hLength ▸ hValid1.1)
  have hFits1 := hLabel1.length_le hSome1
  have hFits2 := hLabel2.length_le hSome2
  have hTake1 := hLabel1.take_eq
  have hTake2 := hLabel2.take_eq
  rw [← hLength] at hByte2 hFits2 hTake2 ⊢
  have hInside : ¬ (buf1.length < p1 + 1 + l1.length ∨ buf2.length < p2 + 1 + l1.length) := by omega
  simp only [isEqualDomainNameBody, hByte1, hByte2, ne_eq, not_true, if_false, hBounds.1, hBounds.2,
    hLen, hInside, hTake1, hTake2]
  by_cases hEq : l1 = l2
  · simp only [hEq, not_true, if_false, if_true]
  · simp only [hEq, not_false_eq_true, if_true, if_false]

theorem loop_isEqualDomainName (labels1 : List Buffer) :
    ∀ (labels2 : List Buffer) (p1 p2 fuel : Nat), (∀ l ∈ labels1, ValidLabel l) →
      (∀ l ∈ labels2, ValidLabel l) → At buf1 p1 (encodeName labels1) →
      At buf2 p2 (encodeName labels2) → labels1.length < fuel →
      loop (isEqualDomainNameBody buf1 buf2) fuel (p1, p2) = .ok (if labels1 = labels2 then
        some (p1 + (encodeName labels1).length, p2 + (encodeName labels2).length)
        else none) := by
  induction labels1 with
  | nil =>
    intro labels2 p1 p2 fuel _ hValid2 hAt1 hAt2 hFuel
    obtain ⟨fuel, rfl⟩ : ∃ n, fuel = n + 1 := ⟨fuel - 1, by omega⟩
    have hByte1 : buf1[p1]? = some 0 := (at_cons.mp hAt1).1
    cases labels2 with
    | nil =>
      have hByte2 : buf2[p2]? = some 0 := (at_cons.mp hAt2).1
      simp only [loop, isEqualDomainNameBody, hByte1, hByte2, ne_eq, not_true, if_false, if_true]
      rfl
    | cons l2 ls2 =>
      rw [encodeName_cons, at_cons] at hAt2
      have hNe := (length_byte_bounds (hValid2 l2 mem_cons_self)).1
      simp only [loop, isEqualDomainNameBody, hByte1, hAt2.1, ne_eq, Ne.symm hNe, not_false_eq_true,
        if_true]
      rfl
  | cons l1 ls1 ih =>
    intro labels2 p1 p2 fuel hValid1 hValid2 hAt1 hAt2 hFuel
    obtain ⟨fuel, rfl⟩ : ∃ n, fuel = n + 1 := ⟨fuel - 1, by omega⟩
    have hLabel1 := hValid1 l1 mem_cons_self
    cases labels2 with
    | nil =>
      have hByte2 : buf2[p2]? = some 0 := (at_cons.mp hAt2).1
      rw [encodeName_cons, at_cons] at hAt1
      have hNe := (length_byte_bounds hLabel1).1
      simp only [loop, isEqualDomainNameBody, hAt1.1, hByte2, ne_eq, hNe, not_false_eq_true,
        if_true]
      rfl
    | cons l2 ls2 =>
      have hLabel2 := hValid2 l2 mem_cons_self
      by_cases hLength : l1.length = l2.length
      · rw [loop, isEqualDomainNameBody_cons hLabel1 hLength hAt1 hAt2]
        by_cases hEq : l1 = l2
        · subst hEq
          rw [encodeName_cons, at_cons, at_append] at hAt1 hAt2
          simp only [if_true]
          rw [ih ls2 _ _ fuel (fun l hMem => hValid1 l (mem_cons_of_mem l1 hMem))
            (fun l hMem => hValid2 l (mem_cons_of_mem l1 hMem))
            hAt1.2.2 hAt2.2.2
            (Nat.lt_of_succ_lt_succ hFuel)]
          simp only [cons.injEq, true_and, encodeName_cons, length_cons, length_append]
          congr 3
          · congr 1 <;> omega
        · simp only [hEq, if_false, cons.injEq, false_and]
      · rw [encodeName_cons, at_cons] at hAt1 hAt2
        have hNe : UInt8.ofNat l1.length ≠ UInt8.ofNat l2.length := by
          intro hEq
          have hNat := congrArg UInt8.toNat hEq
          rw [length_byte hLabel1, length_byte hLabel2] at hNat
          exact hLength hNat
        have hLists : l1 :: ls1 ≠ l2 :: ls2 := by
          intro hEq
          injection hEq with hHead
          exact hLength (congrArg length hHead)
        simp only [loop, isEqualDomainNameBody, hAt1.1, hAt2.1, ne_eq, hNe, not_false_eq_true,
          if_true, hLists, if_false]

theorem isEqualBytes_spec {bytes1 bytes2 : Buffer}
    (hLength1 : bytes1.length = 4) (hLength2 : bytes2.length = 4)
    (hAt1 : At buf1 p1 bytes1) (hAt2 : At buf2 p2 bytes2) :
    isEqualBytes buf1 buf2 p1 p2 (2 + 2) = if bytes1 = bytes2 then some (p1 + 4, p2 + 4)
      else none := by
  have hSome1 : bytes1 ≠ [] := by
    intro hNil
    rw [hNil] at hLength1
    cases hLength1
  have hSome2 : bytes2 ≠ [] := by
    intro hNil
    rw [hNil] at hLength2
    cases hLength2
  have hFits1 := hAt1.length_le hSome1
  have hFits2 := hAt2.length_le hSome2
  have hTake1 := hAt1.take_eq
  have hTake2 := hAt2.take_eq
  rw [hLength1] at hFits1 hTake1
  rw [hLength2] at hFits2 hTake2
  have hInside : ¬ (buf1.length < p1 + 4 ∨ buf2.length < p2 + 4) := by omega
  unfold isEqualBytes
  simp only [Nat.reduceAdd, hInside, if_false, hTake1, hTake2, ne_eq]
  by_cases hEq : bytes1 = bytes2
  · simp only [hEq, not_true, if_false, if_true]
  · simp only [hEq, not_false_eq_true, if_true, if_false]

theorem isEqualQR_spec {q1 q2 : Question} (hValid1 : q1.Valid)
    (hValid2 : q2.Valid) (hAt1 : At buf1 p1 q1.encode) (hAt2 : At buf2 p2 q2.encode) :
    isEqualQR buf1 buf2 p1 p2 = .ok (if q1 = q2 then
      some (p1 + q1.encode.length, p2 + q2.encode.length)
      else none) := by
  rcases q1 with ⟨labels1, kind1⟩
  rcases q2 with ⟨labels2, kind2⟩
  rcases at_append.mp hAt1 with ⟨hName1, hKind1⟩
  rcases at_append.mp hAt2 with ⟨hName2, hKind2⟩
  have hLength1 : kind1.length = 4 := hValid1.kind
  have hLength2 : kind2.length = 4 := hValid2.kind
  have hCount := length_le_encodeName labels1
  have hFits : p1 + (encodeName labels1).length ≤ buf1.length :=
    hName1.length_le (by simp [encodeName])
  unfold isEqualQR isEqualDomainName
  rw [loop_isEqualDomainName labels1 labels2 _ _ _ hValid1.labels hValid2.labels hName1 hName2
    (by omega), ok_bind]
  by_cases hLabels : labels1 = labels2
  · subst hLabels
    simp only [if_true]
    rw [isEqualBytes_spec hLength1 hLength2 hKind1 hKind2]
    simp only [Question.mk.injEq, true_and, Question.encode, length_append, hLength1, hLength2,
      add_assoc]
    rfl
  · simp only [hLabels, if_false, Question.mk.injEq, false_and]
    rfl

theorem isEqualQRs_spec (qs1 : List Question) :
    ∀ (qs2 : List Question) (p1 p2 : Nat), qs1.length = qs2.length →
      (∀ q ∈ qs1, q.Valid) → (∀ q ∈ qs2, q.Valid) → At buf1 p1 (qs1.flatMap Question.encode) →
      At buf2 p2 (qs2.flatMap Question.encode) →
      isEqualQRs buf1 buf2 qs1.length p1 p2 = .ok (decide (qs1 = qs2)) := by
  induction qs1 with
  | nil =>
    intro qs2 p1 p2 hLength _ _ _ _
    have hNil : qs2 = [] := length_eq_zero_iff.mp hLength.symm
    rw [hNil]
    rfl
  | cons q1 qs1 ih =>
    intro qs2 p1 p2 hLength hValid1 hValid2 hAt1 hAt2
    cases qs2 with
    | nil => cases hLength
    | cons q2 qs2 =>
      rw [flatMap_cons, at_append] at hAt1 hAt2
      rw [length_cons, isEqualQRs, isEqualQR_spec (hValid1 q1 mem_cons_self)
        (hValid2 q2 mem_cons_self) hAt1.1 hAt2.1, ok_bind]
      by_cases hEq : q1 = q2
      · subst hEq
        simp only [if_true, cons.injEq, true_and]
        exact ih qs2 _ _ (Nat.succ.inj hLength) (fun q hMem => hValid1 q (mem_cons_of_mem q1 hMem))
          (fun q hMem => hValid2 q (mem_cons_of_mem q1 hMem))
          hAt1.2 hAt2.2
      · simp only [hEq, if_false, cons.injEq, false_and, decide_false]
        rfl

/- The header of a query is read as it was written. -/
theorem Query.readInt16_eq {buf : Buffer} {rd : UInt8}
    {qs : List Question} (hQuery : Query buf rd qs) :
    readInt16 buf (skip buf 0 4) = ((qs.length : Int), 6) ∧ skip buf 6 6 = dnsHeaderSize := by
  have hHeader := hQuery.header
  simp only [dnsHeaderSize] at hHeader
  have hSkip : skip buf 0 4 = 4 := by
    unfold skip
    omega
  rcases hQuery.count with ⟨high, low, hHigh, hLow, hCount⟩
  constructor
  · rw [hSkip]
    simp only [readInt16, hHigh, hLow, hCount]
  · unfold skip dnsHeaderSize
    omega

/- Queries compare equal if they have the same RD bit and the same questions. -/
theorem isEqualQuery_spec {rd1 rd2 : UInt8} {qs1 qs2 : List Question} (hQuery1 : Query buf1 rd1 qs1)
    (hQuery2 : Query buf2 rd2 qs2) :
    isEqualQuery buf1 buf2 = .ok (decide (rd1 = rd2 ∧ qs1 = qs2)) := by
  rcases hQuery1.flags with ⟨f1, hAt1, hRd1⟩
  rcases hQuery2.flags with ⟨f2, hAt2, hRd2⟩
  unfold isEqualQuery
  rw [Buffer.load_eq hAt1, ok_bind, Buffer.load_eq hAt2, ok_bind, hRd1, hRd2,
    hQuery1.readInt16_eq.1, hQuery2.readInt16_eq.1]
  simp only [hQuery1.readInt16_eq.2, hQuery2.readInt16_eq.2]
  by_cases hRd : rd1 = rd2
  · simp only [hRd, ne_eq, not_true, if_false, true_and]
    by_cases hCount : qs1.length = qs2.length
    · have hSame : ¬ (¬ (qs1.length : Int) = qs2.length ∨ (qs1.length : Int) < 0) := by omega
      rw [if_neg hSame, Int.toNat_natCast]
      exact isEqualQRs_spec qs1 qs2 _ _ hCount hQuery1.valid
        hQuery2.valid hQuery1.questions hQuery2.questions
    · have hDiffer : ¬ (qs1.length : Int) = qs2.length ∨ (qs1.length : Int) < 0 := by omega
      have hNe : qs1 ≠ qs2 := by
        intro hEq
        exact hCount (congrArg length hEq)
      rw [if_pos hDiffer, decide_eq_false hNe]
      rfl
  · simp only [hRd, ne_eq, not_false_eq_true, if_true, false_and, decide_false]
    rfl

end OpenIvi.Bionic.Dns
