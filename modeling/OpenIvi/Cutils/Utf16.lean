import OpenIvi.Lib.Buffer

/-
  Strings in UTF-16 and in the modified UTF-8 of Java.

  A `size_t` has 32 bits, and a `char` is a byte. The reader of a string gets the memory it is in
  and an offset, and the writers get the memory they write to.

  UTF-16 survives the way through modified UTF-8. `encode` are the bytes that stand for some units.
  The counter and the writer agree with it, and the reader takes the bytes of one unit at a time.

  Main declarations:
    * `strncpy16to8`
    * `encode`
    * `getUtf32FromUtf8_encodeUnit`
    * `utf16_survives_utf8`
-/

------
-- From UTF-16 To UTF-8
------

namespace OpenIvi.Cutils

open Lib List

def sizeMax : Nat := 2 ^ 32 - 1

/- What the loops of `strnlen16to8` add for a unit. -/
def unitLength (uic : Nat) : Nat :=
  if uic > 0x07ff then 3
  else if uic > 0x7f ∨ uic = 0 then 2
  else 1

/- The loop for the usual case. -/
def countFast : List UInt16 → Nat → Nat
| [], utf8Len => utf8Len
| u :: us, utf8Len =>
  countFast us ((utf8Len + unitLength u.toNat) % 2 ^ 32)

/- The loop that looks for overflows. -/
def countSlow : List UInt16 → Nat → Nat
| [], utf8Len =>
  if utf8Len = sizeMax then sizeMax - 1 else utf8Len
| u :: us, utf8Cur =>
  let utf8Len := (utf8Cur + unitLength u.toNat) % 2 ^ 32
  if utf8Len < utf8Cur then sizeMax - 1
  else countSlow us utf8Len

def strnlen16to8 (utf16Str : List UInt16) : Nat :=
  if utf16Str.length < (sizeMax - 1) / 3 then
    countFast utf16Str 0
  else countSlow utf16Str 0

/- The loop of `strncpy16to8`. -/
def copyUnits : List UInt16 → Buffer → Nat → Except Fault (Buffer × Nat)
| [], utf8Str, cur => .ok (utf8Str, cur)
| u :: us, utf8Str, cur =>
  let uic := u.toNat
  if uic > 0x07ff then do
    let utf8Str ← Cells.store utf8Str cur (.ofNat (uic >>> 12 ||| 0xe0))
    let utf8Str ← Cells.store utf8Str (cur + 1) (.ofNat ((uic >>> 6 &&& 0x3f) ||| 0x80))
    let utf8Str ← Cells.store utf8Str (cur + 2) (.ofNat (uic &&& 0x3f ||| 0x80))
    copyUnits us utf8Str (cur + 3)
  else if uic > 0x7f ∨ uic = 0 then do
    let utf8Str ← Cells.store utf8Str cur (.ofNat (uic >>> 6 ||| 0xc0))
    let utf8Str ← Cells.store utf8Str (cur + 1) (.ofNat (uic &&& 0x3f ||| 0x80))
    copyUnits us utf8Str (cur + 2)
  else do
    let utf8Str ← Cells.store utf8Str cur (.ofNat uic)
    if uic = 0 then return (utf8Str, cur + 1)
    else copyUnits us utf8Str (cur + 1)

def strncpy16to8 (utf8Str : Buffer) (utf16Str : List UInt16) : Except Fault Buffer := do
  let (utf8Str, cur) ← copyUnits utf16Str utf8Str 0
  Cells.store utf8Str cur 0

------
-- From UTF-8 To UTF-16
------

def utf16ReplacementChar : Nat := 0xfffd

def unicodeUpperLimit : Nat := 0x10fffd

def utf8SeqLength (ch : Nat) : Nat :=
  (0xe5000000 >>> (ch >>> 3 &&& 0x1e) &&& 3) + 1

def leaderMask : List Nat := [0xff, 0x1f, 0x0f, 0x07]

def utf8ShiftAndMask (unicode byte : Nat) : Nat :=
  unicode <<< 6 % 2 ^ 32 ||| (0x3f &&& byte)

/- The loop over the bytes behind the leader. -/
def getTrail (utf8Str : Buffer) : Nat → Nat → Nat → Except Fault (Nat × Nat)
| 0, ret, p => .ok (ret, p)
| n + 1, ret, p => do
    let byte ← utf8Str.load p
    if byte = 0 then return (utf16ReplacementChar, p)
    else if byte.toNat &&& 0xc0 ≠ 0x80 then
      return (utf16ReplacementChar, p)
    else
      getTrail utf8Str n (utf8ShiftAndMask ret byte.toNat) (p + 1)

/- `getUtf32FromUtf8`: the character, and where the next one starts. -/
def getUtf32FromUtf8 (utf8Str : Buffer) (p : Nat) : Except Fault (Nat × Nat) := do
  let byte ← utf8Str.load p
  if byte.toNat &&& 0xc0 = 0x80 then
    return (utf16ReplacementChar, p + 1)
  else
    let seqLen := utf8SeqLength byte.toNat
    let ret := byte.toNat &&& (leaderMask[seqLen - 1]?).getD 0
    if byte = 0 then return (ret, p)
    else getTrail utf8Str (seqLen - 1) ret (p + 1)

/- Store a character at `dest`, which is returned. -/
def putUtf32 (utf16Str : List UInt16) (dest ret : Nat) : Except Fault (List UInt16 × Nat) :=
  if ret ≤ 0xffff then do
    let utf16Str ← Cells.store utf16Str dest (.ofNat ret)
    return (utf16Str, dest + 1)
  else if ret ≤ unicodeUpperLimit then do
    let utf16Str ← Cells.store utf16Str dest (.ofNat (0xd800 ||| (ret - 0x10000) >>> 10))
    let utf16Str ← Cells.store utf16Str (dest + 1) (.ofNat (0xdc00 ||| (ret - 0x10000 &&& 0x3ff)))
    return (utf16Str, dest + 2)
  else do
    let utf16Str ← Cells.store utf16Str dest (.ofNat utf16ReplacementChar)
    return (utf16Str, dest + 1)

/- One pass of the loop of `strcpy8to16`. -/
def copyCharBody (utf8Str : Buffer) (s : Nat × List UInt16 × Nat) :
    Except Fault (Ctl (Nat × List UInt16 × Nat) (List UInt16 × Nat)) := do
  let (p, utf16Str, dest) := s
  let byte ← utf8Str.load p
  if byte = 0 then return .done (utf16Str, dest)
  else
    let (ret, p) ← getUtf32FromUtf8 utf8Str p
    let (utf16Str, dest) ← putUtf32 utf16Str dest ret
    return .again (p, utf16Str, dest)

/- `strcpy8to16`: the units, and `*out_len`. -/
def strcpy8to16 (utf16Str : List UInt16) (utf8Str : Buffer) : Except Fault (List UInt16 × Nat) :=
  loop (copyCharBody utf8Str) (utf8Str.length + 1) (0, utf16Str, 0)

------
-- The Bytes Of A Unit
------

/- A byte that continues a character. -/
def trailByte (n : Nat) : UInt8 :=
  .ofNat (0x80 + n % 64)

/- The bytes of one unit. -/
def encodeUnit (u : UInt16) : List UInt8 :=
  let uic := u.toNat
  if uic > 0x07ff then
    [.ofNat (0xe0 + uic / 4096), trailByte (uic / 64), trailByte uic]
  else if uic > 0x7f ∨ uic = 0 then
    [.ofNat (0xc0 + uic / 64), trailByte uic]
  else [.ofNat uic]

/- The bytes of a string, without the terminator. -/
def encode (us : List UInt16) : List UInt8 :=
  us.flatMap encodeUnit

theorem encode_cons (u : UInt16) (us : List UInt16) :
    encode (u :: us) = encodeUnit u ++ encode us :=
  flatMap_cons

theorem or_high {k m n : Nat} (hLow : n < 2 ^ k) : n ||| 2 ^ k * m = 2 ^ k * m + n := by
  rw [Nat.or_comm, Nat.two_pow_add_eq_or_of_lt hLow]

theorem and_mask (n : Nat) : n &&& 0x3f = n % 64 :=
  Nat.and_two_pow_sub_one_eq_mod n 6

theorem or_trail (n : Nat) : UInt8.ofNat (n &&& 0x3f ||| 0x80) = trailByte n := by
  rw [and_mask, trailByte]
  congr 1
  exact or_high (k := 6) (m := 2) (Nat.mod_lt n (by decide))

@[simp] theorem length_encodeUnit (u : UInt16) : (encodeUnit u).length = unitLength u.toNat := by
  unfold encodeUnit unitLength
  dsimp only
  split
  · rfl
  · split <;> rfl

theorem unitLength_bounds (uic : Nat) : 0 < unitLength uic ∧ unitLength uic ≤ 3 := by
  unfold unitLength
  split
  · decide
  · split <;> decide

theorem length_encode (us : List UInt16) :
    us.length ≤ (encode us).length ∧ (encode us).length ≤ 3 * us.length := by
  induction us with
  | nil => exact ⟨Nat.le_refl 0, Nat.le_refl 0⟩
  | cons u us ih =>
    have hBounds := unitLength_bounds u.toNat
    rw [encode_cons, length_append, length_encodeUnit, length_cons]
    omega

------
-- The Writer
------

variable {u : UInt16} {us : List UInt16}

theorem countFast_eq {n : Nat} (hFits : n + (encode us).length < 2 ^ 32) :
    countFast us n = n + (encode us).length := by
  induction us generalizing n with
  | nil => rfl
  | cons u us ih =>
    rw [encode_cons, length_append, length_encodeUnit] at hFits ⊢
    rw [countFast, Nat.mod_eq_of_lt (by omega), ih (by omega)]
    omega

theorem strnlen16to8_eq (hLen : us.length < 2 ^ 30) : strnlen16to8 us = (encode us).length := by
  have hLe := (length_encode us).2
  have hFast : us.length < (sizeMax - 1) / 3 := by
    rw [sizeMax]
    omega
  rw [strnlen16to8, if_pos hFast, countFast_eq (by omega), zero_add]

variable {dst : Buffer} {written : List UInt8}

/- The bytes of one unit are put behind the others. -/
theorem copyUnits_cons (us : List UInt16)
    (hRoom : written.length + unitLength u.toNat ≤ dst.length) :
    copyUnits (u :: us) (Cells.filled dst written) written.length = copyUnits us
      (Cells.filled dst (written ++ encodeUnit u))
      (written ++ encodeUnit u).length := by
  rw [length_append, length_encodeUnit]
  unfold unitLength at hRoom ⊢
  rw [copyUnits, encodeUnit]
  have hLt := u.toNat_lt
  by_cases hLong : u.toNat > 0x07ff
  · simp only [hLong, if_true] at hRoom ⊢
    have hLead : u.toNat >>> 12 ||| 0xe0 = 0xe0 + u.toNat / 4096 := by
      rw [Nat.shiftRight_eq_div_pow]
      exact or_high (k := 5) (m := 7) (by omega)
    rw [hLead, or_trail, or_trail, Nat.shiftRight_eq_div_pow,
      Cells.store_filled _ rfl (by omega), ok_bind,
      Cells.store_filled _ (by simp) (by omega), ok_bind,
      Cells.store_filled _ (by simp) (by omega), ok_bind]
    simp only [append_assoc, cons_append, nil_append]
  · simp only [hLong, if_false] at hRoom ⊢
    by_cases hShort : u.toNat > 0x7f ∨ u.toNat = 0
    · simp only [hShort, if_true] at hRoom ⊢
      have hLead : u.toNat >>> 6 ||| 0xc0 = 0xc0 + u.toNat / 64 := by
        rw [Nat.shiftRight_eq_div_pow]
        exact or_high (k := 5) (m := 6) (by omega)
      rw [hLead, or_trail, Cells.store_filled _ rfl (by omega), ok_bind,
        Cells.store_filled _ (by simp) (by omega), ok_bind]
      simp only [append_assoc, cons_append, nil_append]
    · simp only [hShort, if_false] at hRoom ⊢
      have hNot : u.toNat ≠ 0 := by omega
      rw [Cells.store_filled _ rfl (by omega), ok_bind, if_neg hNot]

theorem copyUnits_eq (hRoom : written.length + (encode us).length ≤ dst.length) :
    copyUnits us (Cells.filled dst written) written.length =
      .ok (Cells.filled dst (written ++ encode us), (written ++ encode us).length) := by
  induction us generalizing written with
  | nil => rw [copyUnits, encode, flatMap_nil, append_nil]
  | cons u us ih =>
    rw [encode_cons, length_append, length_encodeUnit] at hRoom
    rw [copyUnits_cons us (by omega), ih, encode_cons, append_assoc]
    rw [length_append, length_encodeUnit]
    omega

theorem strncpy16to8_eq (hRoom : (encode us).length < dst.length) :
    strncpy16to8 dst us = .ok (Cells.filled dst (encode us ++ [0])) := by
  have hCopy : copyUnits us (Cells.filled dst []) 0 =
      .ok (Cells.filled dst (encode us), (encode us).length) :=
    copyUnits_eq (by
      rw [length_nil]
      omega)
  change copyUnits us dst 0 = _ at hCopy
  rw [strncpy16to8, hCopy, ok_bind]
  exact Cells.store_filled 0 rfl hRoom

------
-- The Reader
------

variable {s front back : Buffer} {p : Nat}

theorem load_next {b : UInt8} (hStr : s = front ++ b :: back)
    (hP : p = front.length) : s.load p = .ok b := by
  apply Buffer.load_eq
  rw [hStr, hP, getElem?_append_right le_rfl, Nat.sub_self]
  rfl

theorem toNat_trailByte (n : Nat) : (trailByte n).toNat = 0x80 + n % 64 := by
  apply UInt8.toNat_ofNat_of_lt'
  change 0x80 + n % 64 < 256
  omega

theorem trailByte_ne_zero (n : Nat) : trailByte n ≠ 0 := by
  intro hZero
  have hNat := toNat_trailByte n
  rw [hZero] at hNat
  change 0 = 0x80 + n % 64 at hNat
  omega

/- A byte that continues a character adds six bits. -/
theorem getTrail_succ {n ret k : Nat} (hStr : s = front ++ trailByte k :: back)
    (hP : p = front.length) (hFits : ret < 2 ^ 26) :
    getTrail s (n + 1) ret p = getTrail s n (ret * 64 + k % 64) (p + 1) := by
  have hMod : k % 64 < 64 := Nat.mod_lt k (by decide)
  have hMark : (trailByte k).toNat &&& 0xc0 = 0x80 := by
    have hAll : ∀ m < 64, (0x80 + m) &&& 0xc0 = 0x80 := by decide
    rw [toNat_trailByte]
    exact hAll _ hMod
  have hBits : utf8ShiftAndMask ret (trailByte k).toNat = ret * 64 + k % 64 := by
    rw [utf8ShiftAndMask, Nat.shiftLeft_eq, Nat.mod_eq_of_lt (by omega), Nat.and_comm, and_mask,
      toNat_trailByte, Nat.mul_comm ret, show (0x80 + k % 64) % 64 = k % 64 by omega]
    exact (Nat.two_pow_add_eq_or_of_lt hMod ret).symm
  rw [getTrail, load_next hStr hP, ok_bind, if_neg (trailByte_ne_zero k),
    if_neg (not_not_intro hMark), hBits]

/-
  The number begins a character with so many bytes behind it, and these are the bits that it has of
  the character.
-/
@[mk_iff] structure Leads (b trail bits : Nat) : Prop where
  first : b &&& 0xc0 ≠ 0x80
  behind : utf8SeqLength b - 1 = trail
  masked : b &&& (leaderMask[trail]?).getD 0 = bits

instance (b trail bits : Nat) : Decidable (Leads b trail bits) :=
  decidable_of_iff' _ (leads_iff ..)

theorem leads_three : ∀ t < 16, Leads (0xe0 + t) 2 t := by
  decide

theorem leads_two : ∀ t < 32, Leads (0xc0 + t) 1 t := by
  decide

theorem leads_one : ∀ t < 128, Leads t 0 t := by
  decide +kernel

theorem getUtf32FromUtf8_leader {n trail bits : Nat} (hStr : s = front ++ UInt8.ofNat n :: back)
    (hP : p = front.length) (hByte : n < 256) (hPos : 0 < n) (hLeads : Leads n trail bits) :
    getUtf32FromUtf8 s p = getTrail s trail bits (p + 1) := by
  have hNat : (UInt8.ofNat n).toNat = n := UInt8.toNat_ofNat_of_lt' hByte
  have hZero : UInt8.ofNat n ≠ 0 := by
    intro hEq
    rw [hEq] at hNat
    exact absurd hNat (ne_of_lt hPos)
  simp only [getUtf32FromUtf8, load_next hStr hP, ok_bind, hNat, if_neg hLeads.first, hLeads.behind,
    hLeads.masked, if_neg hZero]

/- The reader takes the bytes of one unit. -/
theorem getUtf32FromUtf8_encodeUnit (hStr : s = front ++ (encodeUnit u ++ back))
    (hP : p = front.length) :
    getUtf32FromUtf8 s p = .ok (u.toNat, p + (encodeUnit u).length) := by
  have hLt := u.toNat_lt
  rw [length_encodeUnit]
  unfold encodeUnit at hStr
  unfold unitLength
  by_cases hLong : u.toNat > 0x07ff
  · simp only [hLong, if_true, cons_append, nil_append] at hStr ⊢
    have hLeads : Leads (0xe0 + u.toNat / 4096) 2 (u.toNat / 4096) := leads_three _ (by omega)
    have hSecond : s = front ++ [.ofNat (0xe0 + u.toNat / 4096)] ++
        trailByte (u.toNat / 64) :: (trailByte u.toNat :: back) := by
      simp [hStr]
    have hThird : s = front ++ [.ofNat (0xe0 + u.toNat / 4096),
        trailByte (u.toNat / 64)] ++ trailByte u.toNat :: back := by
      simp [hStr]
    rw [getUtf32FromUtf8_leader hStr hP (by omega) (by omega) hLeads,
      getTrail_succ hSecond (by simp [hP]) (by omega),
      getTrail_succ hThird (by simp [hP]) (by omega), getTrail]
    congr 2
    omega
  · simp only [hLong, if_false] at hStr ⊢
    by_cases hShort : u.toNat > 0x7f ∨ u.toNat = 0
    · simp only [hShort, if_true, cons_append, nil_append] at hStr ⊢
      have hLeads : Leads (0xc0 + u.toNat / 64) 1 (u.toNat / 64) := leads_two _ (by omega)
      have hSecond : s = front ++ [.ofNat (0xc0 + u.toNat / 64)] ++ trailByte u.toNat :: back := by
        simp [hStr]
      rw [getUtf32FromUtf8_leader hStr hP (by omega) (by omega) hLeads,
        getTrail_succ hSecond (by simp [hP]) (by omega), getTrail]
      congr 2
      omega
    · simp only [hShort, if_false, cons_append, nil_append] at hStr ⊢
      have hLeads : Leads u.toNat 0 u.toNat := leads_one _ (by omega)
      rw [getUtf32FromUtf8_leader hStr hP (by omega) (by omega) hLeads, getTrail]

/- No byte of a unit is zero. -/
theorem ne_zero_of_mem_encodeUnit {b : UInt8} (hMem : b ∈ encodeUnit u) : b ≠ 0 := by
  have hLt := u.toNat_lt
  have hByte : ∀ n, 0 < n → n < 256 → UInt8.ofNat n ≠ 0 := by
    intro n hPos hSmall hEq
    have hNat : (UInt8.ofNat n).toNat = n := UInt8.toNat_ofNat_of_lt' hSmall
    rw [hEq] at hNat
    exact absurd hNat (ne_of_lt hPos)
  unfold encodeUnit at hMem
  by_cases hLong : u.toNat > 0x07ff
  · simp only [hLong, if_true, mem_cons, not_mem_nil, or_false] at hMem
    rcases hMem with rfl | rfl | rfl
    · exact hByte _ (by omega) (by omega)
    all_goals exact trailByte_ne_zero _
  · simp only [hLong, if_false] at hMem
    by_cases hShort : u.toNat > 0x7f ∨ u.toNat = 0
    · simp only [hShort, if_true, mem_cons, not_mem_nil, or_false] at hMem
      rcases hMem with rfl | rfl
      · exact hByte _ (by omega) (by omega)
      · exact trailByte_ne_zero _
    · simp only [hShort, if_false, mem_cons, not_mem_nil, or_false] at hMem
      rw [hMem]
      exact hByte _ (by omega) (by omega)

theorem encodeUnit_ne_nil (u : UInt16) : encodeUnit u ≠ [] := by
  apply ne_nil_of_length_pos
  rw [length_encodeUnit]
  exact (unitLength_bounds u.toNat).1

variable {dst written : List UInt16}

/- One pass of the loop stores one unit. -/
theorem copyCharBody_encodeUnit (hStr : s = front ++ (encodeUnit u ++ back))
    (hP : p = front.length) (hRoom : written.length < dst.length) :
    copyCharBody s (p, Cells.filled dst written, written.length) =
      .ok (.again (p + (encodeUnit u).length, Cells.filled dst (written ++ [u]),
        (written ++ [u]).length)) := by
  rcases exists_cons_of_ne_nil (encodeUnit_ne_nil u) with ⟨b, bs, hBytes⟩
  have hZero : b ≠ 0 := by
    apply ne_zero_of_mem_encodeUnit
    rw [hBytes]
    exact mem_cons_self
  have hFirst : s = front ++ b :: (bs ++ back) := by rw [hStr, hBytes, cons_append]
  have hUnit : u.toNat ≤ 0xffff := Nat.le_of_lt_succ u.toNat_lt
  simp only [copyCharBody, load_next hFirst hP, ok_bind, if_neg hZero,
    getUtf32FromUtf8_encodeUnit hStr hP, putUtf32, if_pos hUnit, UInt16.ofNat_toNat,
    Cells.store_filled u rfl hRoom, pure_bind]
  rw [length_append, length_singleton]
  rfl

/- By induction on the units that are left. -/
theorem copyChar_returns {us : List UInt16}
    (hStr : s = front ++ (encode us ++ 0 :: back)) (hP : p = front.length)
    (hRoom : written.length + us.length ≤ dst.length) :
    Returns (copyCharBody s) (us.length + 1) (p, Cells.filled dst written, written.length)
      (Cells.filled dst (written ++ us), (written ++ us).length) := by
  induction us generalizing front p written with
  | nil =>
    rw [append_nil]
    have hFirst : s = front ++ 0 :: back := hStr
    refine .done ?_
    simp only [copyCharBody, load_next hFirst hP, ok_bind, if_true]
    rfl
  | cons u us ih =>
    rw [length_cons] at hRoom
    rw [encode_cons, append_assoc] at hStr
    have hRest : s = front ++ encodeUnit u ++ (encode us ++ 0 :: back) := by rw [hStr, append_assoc]
    have hNext := ih hRest (show p + (encodeUnit u).length = _ by
        rw [hP, length_append])
      (show (written ++ [u]).length + us.length ≤ _ by
        rw [length_append, length_singleton]
        omega)
    rw [append_assoc, singleton_append] at hNext
    exact .again (copyCharBody_encodeUnit hStr hP (by omega)) hNext

------
-- The Round Trip
------

/-
  For all units: the writer puts as many bytes as the counter says, none of them zero, and a
  terminator behind them, and the reader of the result stores the units and their number.
-/
theorem utf16_survives_utf8 (utf16Str : List UInt16)
    (hLen : utf16Str.length < 2 ^ 30) (utf8Str : Buffer)
    (hBytes : strnlen16to8 utf16Str < utf8Str.length)
    (dest : List UInt16) (hUnits : utf16Str.length ≤ dest.length) :
    ∃ bytes, bytes.length = strnlen16to8 utf16Str ∧ (∀ b ∈ bytes, b ≠ 0) ∧
      strncpy16to8 utf8Str utf16Str = .ok (bytes ++ 0 :: utf8Str.drop (bytes.length + 1)) ∧
      strcpy8to16 dest (bytes ++ 0 :: utf8Str.drop (bytes.length + 1)) =
        .ok (utf16Str ++ dest.drop utf16Str.length, utf16Str.length) := by
  rw [strnlen16to8_eq hLen] at hBytes ⊢
  refine ⟨encode utf16Str, rfl, ?_, ?_, ?_⟩
  · intro b hMem
    rcases mem_flatMap.mp hMem with ⟨u, _, hB⟩
    exact ne_zero_of_mem_encodeUnit hB
  · rw [strncpy16to8_eq hBytes, Cells.filled, length_append, length_singleton, append_assoc,
      singleton_append]
  · have hRoom : ([] : List UInt16).length + utf16Str.length ≤ dest.length := by
      rw [length_nil]
      omega
    have hReturns := copyChar_returns (s := encode utf16Str ++
      0 :: utf8Str.drop ((encode utf16Str).length + 1)) rfl
      (Eq.refl ([] : Buffer).length) hRoom
    have hPasses := (length_encode utf16Str).1
    refine hReturns.loop_eq ?_
    rw [length_append, length_cons]
    omega

/- A zero, a surrogate alone and a letter. -/
theorem utf16_survives_utf8_sample :
    ∃ bytes, bytes.length = 6 ∧ strncpy16to8 (replicate 8 7) [0, 0xd800, 0x41] =
      .ok (bytes ++ [0, 7]) ∧
      strcpy8to16 [0, 0, 0] (bytes ++ [0, 7]) = .ok ([0, 0xd800, 0x41], 3) := by
  rcases utf16_survives_utf8 [0, 0xd800, 0x41] (by decide)
    (replicate 8 7) (by decide) [0, 0, 0] (by decide)
    with ⟨bytes, hLen, _, hWrite, hRead⟩
  have hSix : bytes.length = 6 := hLen
  rw [hSix] at hWrite hRead
  exact ⟨bytes, hSix, hWrite, hRead⟩

end OpenIvi.Cutils
