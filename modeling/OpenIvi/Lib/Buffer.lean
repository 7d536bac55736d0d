import Mathlib.Data.Nat.Find
import Mathlib.Tactic.Ring
import OpenIvi.Lib.Loop

/-
  Byte buffers with the block operations of `string.h`.

  A buffer is the list of its bytes; its length never changes. Every access that would leave the
  buffer is the fault `outOfBounds`.

  Cells are written one behind the other. `filled cells written` are cells whose first ones hold the
  values written so far. The next store goes behind them.

  Bitmaps are in bytes, lowest bit first. A bit is changed by a change of its byte. `Marks` says
  that the bits of a range were set and no others.

  Integers are stored in little-endian order. `toBytes` writes the low bytes of an integer,
  `ofBytes` is the natural number that bytes stand for, and `toSigned` is the signed reading of a
  number of a given width. `fetch` reads a number in the middle of a buffer.

  Main declarations:
    * `Buffer.load`
    * `Cells.store_filled`
    * `Bitmap.Marks.trans`
    * `LittleEndian.readRecord_record`
-/

------
-- Block Operations
------

namespace OpenIvi.Lib

open List

variable {c : UInt8}

/- A byte buffer is the list of its bytes. -/
abbrev Buffer := List UInt8

/- A string is the bytes in front of its NUL. -/
abbrev Str := List UInt8

/- The bytes of a text. -/
def str (s : String) : Str :=
  s.toUTF8.data.toList

namespace Buffer

/- Read one byte. -/
def load (buf : Buffer) (i : Nat) : Except Fault UInt8 :=
  match buf[i]? with
  | some b => .ok b
  | none => .error .outOfBounds

/- Read `n` bytes from `off` on. -/
def block (buf : Buffer) (off n : Nat) : Except Fault (List UInt8) :=
  if off + n ≤ buf.length then
    .ok ((buf.drop off).take n)
  else
    .error .outOfBounds

/- Overwrite the bytes from `off` on by the given ones. -/
def splice (dst : Buffer) (off : Nat) (bytes : List UInt8) : Buffer :=
  dst.take off ++ bytes ++ dst.drop (off + bytes.length)

/-
  Copy `n` bytes from `src` at `srcOff` to `dst` at `dstOff`. The source bytes are read before any
  is written.
-/
def memcpy (dst : Buffer) (dstOff : Nat) (src : Buffer) (srcOff n : Nat) : Except Fault Buffer :=
  if dstOff + n ≤ dst.length ∧ srcOff + n ≤ src.length then
    .ok (dst.splice dstOff ((src.drop srcOff).take n))
  else
    .error .outOfBounds

/- Set `n` bytes from `off` on to `c`. -/
def memset (dst : Buffer) (off : Nat) (c : UInt8) (n : Nat) : Except Fault Buffer :=
  if off + n ≤ dst.length then
    .ok (dst.splice off (replicate n c))
  else
    .error .outOfBounds

/- The index of the first `c` among `n` bytes from `off`. -/
def memchr (buf : Buffer) (off : Nat) (c : UInt8) (n : Nat) : Except Fault (Option Nat) :=
  if off + n ≤ buf.length then
    .ok ((((buf.drop off).take n).findIdx? (· == c)).map (off + ·))
  else
    .error .outOfBounds

/- `i` is the first index at or above `off` that holds `c`. -/
structure FirstFrom (buf : Buffer) (off : Nat) (c : UInt8) (i : Nat) : Prop where
  ge : off ≤ i
  holds : buf[i]? = some c
  first : ∀ j, off ≤ j → j < i → buf[j]? ≠ some c

end Buffer

------
-- Laws Of The Block Operations
------

namespace Buffer

variable {buf dst : Buffer} {i off n : Nat}

theorem load_eq {b : UInt8} (hByte : buf[i]? = some b) : buf.load i = .ok b := by
  simp [load, hByte]

theorem block_eq (hFits : off + n ≤ buf.length) :
    buf.block off n = .ok ((buf.drop off).take n) := by
  simp [block, hFits]

variable {bytes : List UInt8}

@[simp] theorem length_splice (hFits : off + bytes.length ≤ dst.length) :
    (dst.splice off bytes).length = dst.length := by
  simp only [splice, length_append, length_take, length_drop]
  omega

theorem length_fill (c : UInt8) (hFits : off + n ≤ dst.length) :
    (dst.splice off (replicate n c)).length = dst.length := by
  apply length_splice
  rw [length_replicate]
  exact hFits

theorem splice_zero (dst : Buffer) (bytes : List UInt8) :
    dst.splice 0 bytes = bytes ++ dst.drop bytes.length := by
  simp [splice]

theorem take_splice_zero (dst : Buffer) (bytes : List UInt8) :
    (dst.splice 0 bytes).take bytes.length = bytes := by
  exact take_left

theorem getElem?_splice_of_ge (hFits : off + bytes.length ≤ dst.length)
    (hAbove : off + bytes.length ≤ i) : (dst.splice off bytes)[i]? = dst[i]? := by
  have hLen : (dst.take off ++ bytes).length = off + bytes.length := by
    simp only [length_append, length_take]
    omega
  rw [splice, getElem?_append_right (by omega), hLen, getElem?_drop]
  congr 1
  omega

theorem getElem?_splice_of_mem (hFits : off + bytes.length ≤ dst.length) (hGe : off ≤ i)
    (hLt : i < off + bytes.length) : (dst.splice off bytes)[i]? = bytes[i - off]? := by
  have hLen : (dst.take off).length = off := by
    simp only [length_take]
    omega
  rw [splice, getElem?_append_left (by
      simp only [length_append, hLen]
      exact hLt), getElem?_append_right (by omega), hLen]

theorem getElem?_fill_of_mem (c : UInt8)
    (hFits : off + n ≤ dst.length) (hGe : off ≤ i) (hLt : i < off + n) :
    (dst.splice off (replicate n c))[i]? = some c := by
  have hLen : (replicate n c).length = n := length_replicate
  rw [getElem?_splice_of_mem (by omega) hGe (by omega), getElem?_replicate_of_lt (by omega)]

theorem take_splice (hFits : off ≤ dst.length) :
    (dst.splice off bytes).take off = dst.take off := by
  have hLen : (dst.take off).length = off := by
    simp only [length_take]
    omega
  rw [splice, append_assoc, take_append_of_le_length (by omega), take_of_length_le (by omega)]

theorem memcpy_eq {src : Buffer} {dstOff srcOff : Nat}
    (hDst : dstOff + n ≤ dst.length) (hSrc : srcOff + n ≤ src.length) :
    memcpy dst dstOff src srcOff n = .ok (dst.splice dstOff ((src.drop srcOff).take n)) := by
  simp [memcpy, hDst, hSrc]

theorem memset_eq (c : UInt8) (hFits : off + n ≤ dst.length) :
    memset dst off c n = .ok (dst.splice off (replicate n c)) := by
  simp [memset, hFits]

/- `memchr` finds nothing where the byte does not occur. -/
theorem memchr_eq_none (hFits : off + n ≤ buf.length)
    (hAbsent : ∀ i, off ≤ i → i < off + n → buf[i]? ≠ some c) : memchr buf off c n = .ok none := by
  have hFind : ((buf.drop off).take n).findIdx? (· == c) = none := by
    rw [findIdx?_eq_none_iff]
    intro b hMem
    rcases mem_iff_getElem?.mp hMem with ⟨j, hj⟩
    have hjn : j < n := by
      by_contra hGe
      rw [getElem?_take_eq_none (by omega)] at hj
      cases hj
    rw [getElem?_take_of_lt hjn, getElem?_drop] at hj
    have hNe := hAbsent (off + j) (by omega) (by omega)
    rw [hj] at hNe
    simpa using hNe
  simp [memchr, hFits, hFind]

/- `memchr` finds the first occurrence. -/
theorem memchr_eq_some (hFits : off + n ≤ buf.length)
    (hFirst : FirstFrom buf off c i) (hLt : i < off + n) : memchr buf off c n = .ok (some i) := by
  have hGe := hFirst.ge
  have hFind : ((buf.drop off).take n).findIdx? (· == c) = some (i - off) := by
    have hLen : i - off < ((buf.drop off).take n).length := by
      simp only [length_take, length_drop]
      omega
    rw [findIdx?_eq_some_iff_getElem]
    refine ⟨hLen, ?_, ?_⟩
    · have hAt : buf[off + (i - off)]? = some c := by
        rw [Nat.add_sub_cancel' hGe]
        exact hFirst.holds
      have hEq : ((buf.drop off).take n)[i - off]? = some c := by
        rw [getElem?_take_of_lt (by omega), getElem?_drop, hAt]
      rw [getElem?_eq_getElem hLen] at hEq
      simpa using hEq
    · intro j hj
      have hjLen : j < ((buf.drop off).take n).length := by omega
      have hNe := hFirst.first (off + j) (by omega) (by omega)
      have hEq : ((buf.drop off).take n)[j]? = buf[off + j]? := by
        rw [getElem?_take_of_lt (by omega), getElem?_drop]
      rw [getElem?_eq_getElem hjLen] at hEq
      rw [← hEq] at hNe
      simpa using hNe
  simp [memchr, hFits, hFind, Nat.add_sub_cancel' hGe]

theorem firstFrom_or_absent (buf : Buffer) (off : Nat) (c : UInt8) :
    (∃ i, FirstFrom buf off c i) ∨ ∀ i, off ≤ i → buf[i]? ≠ some c := by
  by_cases hSome : ∃ i, off ≤ i ∧ buf[i]? = some c
  · rcases Nat.find_spec hSome with ⟨hGe, hHolds⟩
    refine .inl ⟨Nat.find hSome, hGe, hHolds, ?_⟩
    intro j hj hLt hByte
    exact Nat.find_min hSome hLt ⟨hj, hByte⟩
  · right
    intro i hi hByte
    exact hSome ⟨i, hi, hByte⟩

theorem FirstFrom.exists_of_mem (hMem : c ∈ buf) : ∃ i, FirstFrom buf 0 c i := by
  rcases mem_iff_getElem?.mp hMem with ⟨i, hByte⟩
  rcases firstFrom_or_absent buf 0 c with hFirst | hAbsent
  · exact hFirst
  · exact absurd hByte (hAbsent i (Nat.zero_le i))

end Buffer

/- A slot of a list with a new last element. -/
theorem getElem?_snoc_cases {α : Type} {l : List α} {i : Nat} {a b : α}
    (hAt : (l ++ [a])[i]? = some b) :
    (i = l.length ∧ b = a) ∨ (i < l.length ∧ l[i]? = some b) := by
  rcases lt_or_ge i l.length with hLt | hGe
  · rw [getElem?_append_left hLt] at hAt
    exact .inr ⟨hLt, hAt⟩
  · rw [getElem?_append_right hGe] at hAt
    have hZero := (List.getElem?_eq_some_iff.mp hAt).1
    have hI : i = l.length := by
      simp only [length_singleton] at hZero
      omega
    subst hI
    rw [Nat.sub_self] at hAt
    exact .inl ⟨rfl, (Option.some.inj hAt).symm⟩

end OpenIvi.Lib

namespace OpenIvi.Lib.Cells

open List

variable {α : Type}

/- Put a value into a cell. -/
def store (cells : List α) (i : Nat) (a : α) : Except Fault (List α) :=
  if i < cells.length then .ok (cells.set i a)
  else .error .outOfBounds

/- The cells with values over the first ones. -/
def filled (cells written : List α) : List α :=
  written ++ cells.drop written.length

variable {cells written : List α}

theorem store_filled {i : Nat} (a : α) (hIndex : i = written.length) (hRoom : i < cells.length) :
    store (filled cells written) i a = .ok (filled cells (written ++ [a])) := by
  subst hIndex
  have hLen : written.length < (filled cells written).length := by
    rw [filled, length_append, length_drop]
    omega
  have hNext : cells.drop written.length = cells[written.length] :: cells.drop
      (written.length + 1) :=
    drop_eq_getElem_cons hRoom
  rw [store, if_pos hLen, filled, hNext, set_append_right _ _ le_rfl, Nat.sub_self,
    set_cons_zero, filled, length_append, length_singleton, append_assoc, singleton_append]

end OpenIvi.Lib.Cells

------
-- Bits Of A Byte
------

open List BitVec

namespace OpenIvi.Lib.Bitmap

/- The bit in its byte. -/
def mask (i : Nat) : UInt8 :=
  1 <<< UInt8.ofNat (i % 8)

theorem toBitVec_mask (i : Nat) : (mask i).toBitVec = BitVec.twoPow 8 (i % 8) := by
  have hAll : ∀ k : Fin 8, ((1 : UInt8) <<< UInt8.ofNat k.val).toBitVec =
      BitVec.twoPow 8 k.val := by
    decide
  exact hAll ⟨i % 8, Nat.mod_lt i (by decide)⟩

theorem getLsbD_mask (i j : Nat) : (mask i).toBitVec.getLsbD (j % 8) = decide (i % 8 = j % 8) := by
  rw [toBitVec_mask, getLsbD_twoPow]
  have hSmall : i % 8 < 8 := Nat.mod_lt i (by decide)
  simp [hSmall]

theorem and_mask_ne_zero_iff (byte : UInt8) (i : Nat) :
    byte &&& mask i ≠ 0 ↔ byte.toBitVec.getLsbD (i % 8) = true := by
  have hSmall : i % 8 < 8 := Nat.mod_lt i (by decide)
  rw [ne_eq, ← UInt8.toBitVec_inj, UInt8.toBitVec_and, toBitVec_mask, and_twoPow]
  by_cases hBit : byte.toBitVec.getLsbD (i % 8) = true
  · rw [if_pos hBit]
    refine ⟨fun _ => hBit, ?_⟩
    intro _ hZero
    have hOne := congrArg (fun b => b.getLsbD (i % 8)) hZero
    simp [hSmall] at hOne
  · simp [hBit]

------
-- Bits Of A Buffer
------

/- The bit is set. -/
def test (bitmap : Buffer) (i : Nat) : Bool :=
  (bitmap.getD (i / 8) 0).toBitVec.getLsbD (i % 8)

/- Exactly the bits from `a` up to `b` were set. -/
structure Marks (bitmap bitmap' : Buffer) (a b : Nat) : Prop where
  length : bitmap'.length = bitmap.length
  test_eq : ∀ k, test bitmap' k = (test bitmap k || (decide (a ≤ k) && decide (k < b)))

theorem Marks.refl (bitmap : Buffer) (a : Nat) : Marks bitmap bitmap a a where
  length := rfl
  test_eq := by
    intro k
    have hNone : ¬ (a ≤ k ∧ k < a) := by omega
    rw [← Bool.decide_and, decide_eq_false hNone, Bool.or_false]

theorem Marks.trans {bitmap bitmap' bitmap'' : Buffer} {a b c : Nat}
    (hFirst : Marks bitmap bitmap' a b)
    (hSecond : Marks bitmap' bitmap'' b c) (hFrom : a ≤ b) (hTo : b ≤ c) :
    Marks bitmap bitmap'' a c where
  length := hSecond.length.trans hFirst.length
  test_eq := by
    intro k
    rw [hSecond.test_eq, hFirst.test_eq, Bool.or_assoc]
    congr 1
    simp only [← Bool.decide_and, ← Bool.decide_or]
    apply decide_eq_decide.mpr
    omega

variable {bitmap : Buffer} {byte : UInt8} {i : Nat}

theorem test_eq_of_byte (hByte : bitmap[i / 8]? = some byte) :
    test bitmap i = byte.toBitVec.getLsbD (i % 8) := by
  rw [test, getD_eq_getElem?_getD, hByte, Option.getD_some]

theorem test_set (hByte : bitmap[i / 8]? = some byte) (new : UInt8) (k : Nat) :
    test (bitmap.set (i / 8) new) k = if k / 8 = i / 8 then new.toBitVec.getLsbD (k % 8)
      else test bitmap k := by
  have hLess : i / 8 < bitmap.length := (List.getElem?_eq_some_iff.mp hByte).1
  simp only [test, getD_eq_getElem?_getD]
  by_cases hSame : k / 8 = i / 8
  · rw [if_pos hSame, hSame, getElem?_set_self hLess, Option.getD_some]
  · rw [if_neg hSame, getElem?_set_ne (Ne.symm hSame)]

theorem eq_of_div_mod {k : Nat} (hDiv : k / 8 = i / 8) : i % 8 = k % 8 ↔ k = i := by
  omega

section

variable (hByte : bitmap[i / 8]? = some byte)

include hByte

theorem marks_or_mask : Marks bitmap (bitmap.set (i / 8) (byte ||| mask i)) i (i + 1) where
  length := length_set ..
  test_eq := by
    intro k
    have hRange : (i ≤ k ∧ k < i + 1) ↔ k = i := by omega
    rw [test_set hByte, ← Bool.decide_and, decide_eq_decide.mpr hRange]
    by_cases hDiv : k / 8 = i / 8
    · rw [if_pos hDiv, UInt8.toBitVec_or, getLsbD_or, getLsbD_mask,
        test_eq_of_byte (hDiv ▸ hByte), decide_eq_decide.mpr (eq_of_div_mod hDiv)]
    · have hNe : k ≠ i := fun hEq => hDiv (by rw [hEq])
      rw [if_neg hDiv, decide_eq_false hNe, Bool.or_false]

theorem marks_full_byte (hAligned : i % 8 = 0) :
    Marks bitmap (bitmap.set (i / 8) 255) i (i + 8) where
  length := length_set ..
  test_eq := by
    intro k
    have hRange : (i ≤ k ∧ k < i + 8) ↔ k / 8 = i / 8 := by omega
    have hFull : ∀ b : Fin 8, (255 : UInt8).toBitVec.getLsbD b.val = true := by decide
    rw [test_set hByte, ← Bool.decide_and, decide_eq_decide.mpr hRange]
    by_cases hDiv : k / 8 = i / 8
    · rw [if_pos hDiv, decide_eq_true hDiv, Bool.or_true]
      exact hFull ⟨k % 8, Nat.mod_lt k (by decide)⟩
    · rw [if_neg hDiv, decide_eq_false hDiv, Bool.or_false]

theorem test_and_not_mask (k : Nat) :
    test (bitmap.set (i / 8) (byte &&& ~~~mask i)) k = (test bitmap k && !decide (k = i)) := by
  have hSmall : k % 8 < 8 := Nat.mod_lt k (by decide)
  rw [test_set hByte]
  by_cases hDiv : k / 8 = i / 8
  · rw [if_pos hDiv, UInt8.toBitVec_and, UInt8.toBitVec_not, getLsbD_and, getLsbD_not,
      getLsbD_mask, test_eq_of_byte (hDiv ▸ hByte), decide_eq_decide.mpr (eq_of_div_mod hDiv),
      decide_eq_true hSmall, Bool.true_and]
  · have hNe : k ≠ i := fun hEq => hDiv (by rw [hEq])
    rw [if_neg hDiv, decide_eq_false hNe, Bool.not_false, Bool.and_true]

theorem byte_eq_zero (hAligned : i % 8 = 0)
    (hClear : ∀ k, i ≤ k → k < i + 8 → test bitmap k = false) : byte = 0 := by
  rw [← UInt8.toBitVec_inj]
  apply eq_of_getLsbD_eq
  intro j hJ
  have hBit := hClear (i + j) (by omega) (by omega)
  have hDiv : (i + j) / 8 = i / 8 := by omega
  have hMod : (i + j) % 8 = j := by omega
  rw [test_eq_of_byte (hDiv ▸ hByte), hMod] at hBit
  rw [hBit]
  simp

end

end OpenIvi.Lib.Bitmap

------
-- Integers And Their Bytes
------

namespace OpenIvi.Lib.LittleEndian

open List

variable {width : Nat}

/- The lowest `width` bytes, the lowest one first. -/
def toBytes : Nat → Int → List UInt8
| 0, _ => []
| width + 1, v =>
  UInt8.ofNat (v % 256).toNat :: toBytes width (v / 256)

/- The number that the bytes stand for. -/
def ofBytes : List UInt8 → Nat
| [] => 0
| b :: bs => b.toNat + 256 * ofBytes bs

/- The signed reading of a number of `width` bytes. -/
def toSigned (width : Nat) (n : Nat) : Int :=
  Int.bmod n (256 ^ width)

/- The number in the `width` bytes from `off` on. -/
def fetch (buf : Buffer) (width off : Nat) : Except Fault Nat := do
  let bytes ← buf.block off width
  return ofBytes bytes

/- Fields of given widths, one behind the other. -/
def record (fields : List (Nat × Nat)) : List UInt8 :=
  fields.flatMap fun field => toBytes field.1 field.2

/- Read fields of the given widths. -/
def readRecord : List Nat → List UInt8 → Except Fault (List Nat × List UInt8)
| [], input => .ok ([], input)
| width :: widths, input =>
  if input.length < width then .error .aborted
  else do
    let (values, rest) ← readRecord widths (input.drop width)
    .ok (ofBytes (input.take width) :: values, rest)

------
-- What Is Written Is Read Back
------

@[simp] theorem length_toBytes (width : Nat) (v : Int) : (toBytes width v).length = width := by
  induction width generalizing v with
  | zero => rfl
  | succ width ih => simp [toBytes, ih]

theorem toBytes_natCast (width n : Nat) :
    toBytes (width + 1) n = UInt8.ofNat n :: toBytes width (n / 256 : Nat) := by
  have hByte : UInt8.ofNat ((n : Int) % 256).toNat = UInt8.ofNat n := by
    rw [← UInt8.toNat_inj, UInt8.toNat_ofNat', UInt8.toNat_ofNat']
    omega
  rw [toBytes, hByte, Int.natCast_ediv]
  rfl

/- The lowest byte and the others, modulo their range. -/
theorem emod_pow_succ (width : Nat) (v : Int) :
    v % 256 ^ (width + 1) = v % 256 + 256 * (v / 256 % 256 ^ width) := by
  have hByte := Int.emod_add_mul_ediv v 256
  have hRest := Int.emod_add_mul_ediv (v / 256) (256 ^ width)
  have hSplit : v = v % 256 + 256 * (v / 256 % 256 ^ width) +
      256 ^ (width + 1) * (v / 256 / 256 ^ width) := by
    calc
      v = v % 256 + 256 * (v / 256) := hByte.symm
      _ = v % 256 + 256 * (v / 256 % 256 ^ width + 256 ^ width * (v / 256 / 256 ^ width)) := by
          rw [hRest]
      _ = _ := by ring
  conv_lhs => rw [hSplit]
  rw [Int.add_mul_emod_self_left]
  exact Int.emod_eq_of_lt (by omega) (by omega)

/- The bytes stand for the integer modulo their range. -/
theorem ofBytes_toBytes (width : Nat) (v : Int) :
    (ofBytes (toBytes width v) : Int) = v % 256 ^ width := by
  induction width generalizing v with
  | zero => simp [toBytes, ofBytes]
  | succ width ih =>
    have hNonneg := Int.emod_nonneg v (show (256 : Int) ≠ 0 by decide)
    have hHead : ((UInt8.ofNat (v % 256).toNat).toNat : Int) = v % 256 := by
      rw [UInt8.toNat_ofNat_of_lt' (by simp; omega)]
      exact Int.toNat_of_nonneg hNonneg
    rw [emod_pow_succ, ← ih, ← hHead]
    rfl

theorem ofBytes_toBytes_of_lt {n : Nat}
    (hFits : n < 256 ^ width) : ofBytes (toBytes width n) = n := by
  have hBytes := ofBytes_toBytes width n
  rw [Int.emod_eq_of_lt (Int.natCast_nonneg n) (by exact_mod_cast hFits)] at hBytes
  exact_mod_cast hBytes

theorem toSigned_ofBytes_toBytes {v : Int} (hLow : -(256 ^ width : Nat) ≤ 2 * v)
    (hHigh : 2 * v < (256 ^ width : Nat)) : toSigned width (ofBytes (toBytes width v)) = v := by
  have hBytes := ofBytes_toBytes width v
  have hPow : ((256 : Int) ^ width) = ((256 ^ width : Nat) : Int) := by
    rfl
  rw [toSigned, hBytes, hPow, Int.emod_bmod]
  exact Int.bmod_eq_of_le_mul_two (by omega) (by omega)

theorem toBytes_ofBytes (bytes : List UInt8) : toBytes bytes.length (ofBytes bytes) = bytes := by
  induction bytes with
  | nil => rfl
  | cons b bytes ih =>
    have hLt := b.toNat_lt
    have hLow : (((b.toNat + 256 * ofBytes bytes : Nat) : Int) % 256).toNat = b.toNat := by omega
    have hHigh : ((b.toNat + 256 * ofBytes bytes : Nat) : Int) / 256 = (ofBytes bytes : Int) := by
      omega
    rw [length_cons, toBytes, ofBytes, hLow, hHigh, ih, UInt8.ofNat_toNat]

theorem fetch_append {front bytes back buf : Buffer}
    {off : Nat} (hBuf : buf = front ++ (bytes ++ back))
    (hOff : off = front.length) (hWidth : bytes.length = width) :
    fetch buf width off = .ok (ofBytes bytes) := by
  have hFits : off + width ≤ buf.length := by simp [hBuf, hOff, hWidth]
  have hBlock : (buf.drop off).take width = bytes := by
    rw [hBuf, hOff, drop_left, ← hWidth, take_left]
  simp only [fetch, Buffer.block_eq hFits, hBlock, ok_bind]
  rfl

theorem fetch_take {buf : Buffer} {off n : Nat} (hFits : off + width ≤ n) (hLen : n ≤ buf.length) :
    fetch (buf.take n) width off = fetch buf width off := by
  unfold fetch
  rw [Buffer.block_eq (by
      rw [length_take]
      omega), Buffer.block_eq (by omega), drop_take, take_take, min_eq_left (by omega)]

/- A record is read back, its fields modulo their ranges. -/
theorem readRecord_record (fields : List (Nat × Nat)) (rest : List UInt8) :
    readRecord (fields.map Prod.fst) (record fields ++ rest) =
      .ok (fields.map fun f => f.2 % 256 ^ f.1, rest) := by
  induction fields with
  | nil => rfl
  | cons field fields ih =>
    have hSplit : record (field :: fields) ++ rest =
        toBytes field.1 field.2 ++ (record fields ++ rest) := by
      simp [record]
    have hValue : ofBytes (toBytes field.1 field.2) = field.2 % 256 ^ field.1 := by
      have hBytes := ofBytes_toBytes field.1 field.2
      exact_mod_cast hBytes
    have hLength := length_toBytes field.1 field.2
    have hFits : ¬ (toBytes field.1 field.2 ++ (record fields ++ rest)).length < field.1 := by
      rw [length_append]
      omega
    rw [hSplit, map_cons, readRecord, if_neg hFits, drop_left' hLength, take_left' hLength, ih,
      hValue]
    rfl

end OpenIvi.Lib.LittleEndian
