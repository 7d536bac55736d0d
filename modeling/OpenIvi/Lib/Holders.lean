import Mathlib.Data.List.Basic
import Mathlib.Data.Nat.Bitwise
import Mathlib.Data.UInt
import Mathlib.Logic.Function.Basic

/-
  The threads that hold a lock for readers and writers.

  Every acquisition of the lock that was not given back is in a list, with the thread and the mode.
  A writer excludes all others: if there is a writer, the list has nothing but the acquisitions of
  this writer.

  A word may hold the count of the holders and flags. The count is in the low `k` bits of the word
  and the flags are bits above them. Flags are set and cleared with masks; the count goes up and
  down with the whole word, which does not touch the flags as long as the count does not wrap.

  Main declarations:
    * `KernelIds`
    * `Exclusive`
    * `Exclusive.release`
    * `Packed.count_sub_one`
-/

namespace OpenIvi.Lib

open List

/- The ids that the kernel gave to the threads. -/
structure KernelIds (τ : Type) where
  id : τ → Int
  injective : Function.Injective id
  positive : ∀ t, 0 < id t
  bounded : ∀ t, id t < 2 ^ 31

/- One thread alone. -/
def oneThread : KernelIds Unit where
  id := fun _ => 1
  injective := fun _ _ _ => rfl
  positive := fun _ => Int.one_pos
  bounded := fun _ => by decide

/- How a lock is held. -/
inductive Mode
| read
| write
deriving DecidableEq

namespace Holders

variable {τ : Type}

/- If a thread writes, it is the only one with the lock. -/
def Exclusive (holders : List (τ × Mode)) : Prop :=
  ∀ t, (t, Mode.write) ∈ holders → ∀ h ∈ holders, h = (t, Mode.write)

/- A thread gives an acquisition back. -/
def release [DecidableEq τ] (holders : List (τ × Mode)) (t : τ) : List (τ × Mode) :=
  if (t, Mode.write) ∈ holders then
    holders.erase (t, Mode.write)
  else holders.erase (t, Mode.read)

variable {holders : List (τ × Mode)} {t : τ}

theorem exclusive_write (hOwn : ∀ h ∈ holders, h = (t, Mode.write)) :
    Exclusive ((t, Mode.write) :: holders) := by
  have hAll : ∀ h ∈ (t, Mode.write) :: holders, h = (t, Mode.write) := by
    rw [forall_mem_cons]
    exact ⟨rfl, hOwn⟩
  intro u hU
  have hSame := hAll _ hU
  rw [hSame]
  exact hAll

theorem mem_cons_of_ne {u : τ} (hOther : u ≠ t) (held m : Mode) :
    (u, m) ∈ (t, held) :: holders ↔ (u, m) ∈ holders := by
  rw [mem_cons]
  constructor
  · rintro (hEq | hOld)
    · exact absurd (congrArg Prod.fst hEq) hOther
    · exact hOld
  · exact .inr

variable [DecidableEq τ]

theorem mem_of_mem_release {h : τ × Mode} (hMem : h ∈ release holders t) : h ∈ holders := by
  unfold release at hMem
  split at hMem
  all_goals exact mem_of_mem_erase hMem

theorem mem_release_of_ne {u : τ} (hOther : u ≠ t) (m : Mode) :
    (u, m) ∈ release holders t ↔ (u, m) ∈ holders := by
  have hNe : ∀ held, (u, m) ≠ (t, held) := by
    intro held hEq
    exact hOther (congrArg Prod.fst hEq)
  unfold release
  split <;> exact mem_erase_of_ne (hNe _)

theorem Exclusive.release (hExclusive : Exclusive holders) (t : τ) :
    Exclusive (Holders.release holders t) := by
  intro u hU h hH
  exact hExclusive u (mem_of_mem_release hU) h (mem_of_mem_release hH)

theorem length_release {m : Mode} (hHeld : (t, m) ∈ holders) :
    (Holders.release holders t).length = holders.length - 1 := by
  unfold Holders.release
  by_cases hWrite : (t, Mode.write) ∈ holders
  · rw [if_pos hWrite, length_erase_of_mem hWrite]
  · rw [if_neg hWrite]
    cases m with
    | read => exact length_erase_of_mem hHeld
    | write => exact absurd hHeld hWrite

end Holders

end OpenIvi.Lib

namespace OpenIvi.Lib.Packed

variable {w k i : Nat} {v : BitVec w}

/- The number in the low bits. -/
def count (k : Nat) (v : BitVec w) : Nat :=
  v.toNat % 2 ^ k

theorem toNat_and_mask (hK : k ≤ w) (v : BitVec w) :
    (v &&& BitVec.ofNat w (2 ^ k - 1)).toNat = count k v := by
  have hPow : 2 ^ k ≤ 2 ^ w := Nat.pow_le_pow_right (by decide) hK
  have hPos := Nat.two_pow_pos k
  rw [BitVec.toNat_and, BitVec.toNat_ofNat,
    Nat.mod_eq_of_lt (by omega), Nat.and_two_pow_sub_one_eq_mod]
  rfl

theorem and_twoPow_ne_zero (hI : i < w) (v : BitVec w) :
    v &&& BitVec.twoPow w i ≠ 0 ↔ v.getLsbD i = true := by
  rw [BitVec.and_twoPow]
  have hPow : BitVec.twoPow w i ≠ 0 := by
    intro hZero
    have hBit := congrArg (BitVec.getLsbD · i) hZero
    simp [hI] at hBit
  cases hFlag : v.getLsbD i with
  | false => simp
  | true => simpa using hPow

theorem flag_eq_testBit (hI : k ≤ i) (v : BitVec w) :
    v.getLsbD i = (v.toNat / 2 ^ k).testBit (i - k) := by
  rw [Nat.testBit_div_two_pow, Nat.sub_add_cancel hI]
  rfl

/- The word can go up by one. -/
theorem toNat_add_one (hK : k ≤ w) (hRoom : count k v + 1 < 2 ^ k) :
    (v + 1).toNat = v.toNat + 1 := by
  have hLess := v.isLt
  have hSplit : 2 ^ w = 2 ^ k * 2 ^ (w - k) := by rw [← Nat.pow_add, Nat.add_sub_cancel' hK]
  have hDiv := Nat.div_add_mod v.toNat (2 ^ k)
  have hQuot : v.toNat / 2 ^ k < 2 ^ (w - k) := by
    apply Nat.div_lt_of_lt_mul
    rwa [← hSplit]
  have hNext : 2 ^ k * (v.toNat / 2 ^ k + 1) ≤ 2 ^ k * 2 ^ (w - k) := Nat.mul_le_mul_left _ hQuot
  unfold count at hRoom
  rw [Nat.mul_add, Nat.mul_one, ← hSplit] at hNext
  have hSum : v.toNat + 1 < 2 ^ w := by omega
  have hOne : (1 : BitVec w).toNat = 1 := by
    have hWide : 1 < 2 ^ w := by omega
    exact Nat.mod_eq_of_lt hWide
  rw [BitVec.toNat_add, hOne, Nat.mod_eq_of_lt hSum]

theorem count_add_one (hK : k ≤ w) (hRoom : count k v + 1 < 2 ^ k) :
    count k (v + 1) = count k v + 1 := by
  unfold count at hRoom ⊢
  rw [toNat_add_one hK hRoom, Nat.add_mod, Nat.mod_eq_of_lt (by omega : 1 < 2 ^ k),
    Nat.mod_eq_of_lt hRoom]

theorem flag_add_one (hK : k ≤ w) (hI : k ≤ i)
    (hRoom : count k v + 1 < 2 ^ k) : (v + 1).getLsbD i = v.getLsbD i := by
  have hDiv : (v.toNat + 1) / 2 ^ k = v.toNat / 2 ^ k := by
    rw [Nat.succ_div_of_mod_ne_zero]
    have hCount := count_add_one hK hRoom
    unfold count at hCount
    rw [toNat_add_one hK hRoom] at hCount
    omega
  rw [flag_eq_testBit hI, flag_eq_testBit hI, toNat_add_one hK hRoom, hDiv]

theorem toNat_sub_one (hSome : 0 < count k v) : (v - 1).toNat = v.toNat - 1 := by
  have hLe := Nat.mod_le v.toNat (2 ^ k)
  unfold count at hSome
  have hOne : (1 : BitVec w).toNat = 1 := by
    have hWide : 1 < 2 ^ w := by omega
    exact Nat.mod_eq_of_lt hWide
  rw [BitVec.toNat_sub_of_le, hOne]
  rw [BitVec.le_def, hOne]
  omega

theorem count_sub_one (hSome : 0 < count k v) : count k (v - 1) = count k v - 1 := by
  have hDiv := Nat.div_add_mod v.toNat (2 ^ k)
  have hEq := toNat_sub_one hSome
  unfold count at hSome ⊢
  have hSplit : v.toNat - 1 = 2 ^ k * (v.toNat / 2 ^ k) + (v.toNat % 2 ^ k - 1) := by omega
  rw [hEq, hSplit, Nat.mul_add_mod, Nat.mod_eq_of_lt (by omega)]

theorem flag_sub_one (hK : k ≤ w) (hI : k ≤ i)
    (hSome : 0 < count k v) : (v - 1).getLsbD i = v.getLsbD i := by
  have hCount := count_sub_one hSome
  have hLess : count k v < 2 ^ k := Nat.mod_lt _ (Nat.two_pow_pos k)
  have hBack : v - 1 + 1 = v := BitVec.sub_add_cancel v 1
  have hFlag := flag_add_one hK hI (by omega : count k (v - 1) + 1 < 2 ^ k)
  rw [hBack] at hFlag
  exact hFlag.symm

theorem count_congr {u : BitVec w} (hSame : ∀ j, j < k → u.getLsbD j = v.getLsbD j) :
    count k u = count k v := by
  unfold count
  apply Nat.eq_of_testBit_eq
  intro j
  rw [Nat.testBit_mod_two_pow, Nat.testBit_mod_two_pow]
  by_cases hJ : j < k
  · have hBit := hSame j hJ
    rw [BitVec.getLsbD, BitVec.getLsbD] at hBit
    rw [hBit]
  · simp [hJ]

theorem count_or_twoPow (hI : k ≤ i) (v : BitVec w) :
    count k (v ||| BitVec.twoPow w i) = count k v := by
  apply count_congr
  intro j hJ
  have hNe : i ≠ j := by omega
  simp [hNe]

theorem count_and_not_twoPow (hI : k ≤ i) (hW : k ≤ w) (v : BitVec w) :
    count k (v &&& ~~~ BitVec.twoPow w i) = count k v := by
  apply count_congr
  intro j hJ
  have hNe : j ≠ i := by omega
  have hIn : j < w := by omega
  simp [hNe, hIn]

end OpenIvi.Lib.Packed
