import Mathlib.Data.Nat.Basic
import Mathlib.Data.List.Basic
import Mathlib.Tactic.Ring

/-!
# Naturals as big-endian bytes

`bigEndian k m` is the `k` low bytes of `m`, the most significant first. Every list of `k`
bytes is one (`exists_bigEndian`), the two ways of splitting off a byte are
`bigEndian_succ` and `bigEndian_succ_last`, and the step of a reader that adds shifted
bytes is `ofNat_shift_add`.
-/

set_option autoImplicit false

namespace Mccpp.Library

/-- The `k` low bytes of `m`, most significant first. -/
def bigEndian : ℕ → ℕ → List (BitVec 8)
  | 0, _ => []
  | k + 1, m => BitVec.ofNat 8 (m / 256 ^ k) :: bigEndian k m

@[simp] theorem bigEndian_zero (m : ℕ) : bigEndian 0 m = [] := rfl

theorem bigEndian_succ (k m : ℕ) :
    bigEndian (k + 1) m = BitVec.ofNat 8 (m / 256 ^ k) :: bigEndian k m := rfl

@[simp] theorem length_bigEndian (k m : ℕ) : (bigEndian k m).length = k := by
  induction k with
  | zero => rfl
  | succ k ih => rw [bigEndian_succ, List.length_cons, ih]

theorem bigEndian_succ_last (k m : ℕ) :
    bigEndian (k + 1) m = bigEndian k (m / 256) ++ [BitVec.ofNat 8 m] := by
  induction k with
  | zero => simp [bigEndian_succ]
  | succ k ih =>
    rw [bigEndian_succ, ih, bigEndian_succ k (m / 256), List.cons_append, Nat.div_div_eq_div_mul,
      pow_succ, Nat.mul_comm]

/-- INTERNAL: bytes above the `k` low ones do not matter. -/
theorem bigEndian_add_mul (k m c : ℕ) : bigEndian k (m + c * 256 ^ k) = bigEndian k m := by
  induction k generalizing c with
  | zero => rfl
  | succ k ih =>
    have hpos : 0 < 256 ^ k := Nat.pow_pos (by omega)
    have hsplit : c * 256 ^ (k + 1) = c * 256 * 256 ^ k := by ring
    have hbyte : BitVec.ofNat 8 (m / 256 ^ k + c * 256) = BitVec.ofNat 8 (m / 256 ^ k) := by
      apply BitVec.eq_of_toNat_eq
      simp
    rw [bigEndian_succ, bigEndian_succ, hsplit, ih, Nat.add_mul_div_right _ _ hpos, hbyte]

theorem exists_bigEndian (bs : List (BitVec 8)) :
    ∃ m < 256 ^ bs.length, bigEndian bs.length m = bs := by
  induction bs with
  | nil => exact ⟨0, by simp, rfl⟩
  | cons b bs ih =>
    obtain ⟨m, hm, hbs⟩ := ih
    have hpos : 0 < 256 ^ bs.length := Nat.pow_pos (by omega)
    have hb : b.toNat < 256 := b.isLt
    refine ⟨m + b.toNat * 256 ^ bs.length, ?_, ?_⟩
    · calc m + b.toNat * 256 ^ bs.length
          < 256 ^ bs.length + b.toNat * 256 ^ bs.length := by omega
        _ = (b.toNat + 1) * 256 ^ bs.length := by ring
        _ ≤ 256 * 256 ^ bs.length := Nat.mul_le_mul_right _ hb
        _ = 256 ^ (b :: bs).length := by rw [List.length_cons, pow_succ]; ring
    · rw [List.length_cons, bigEndian_succ, bigEndian_add_mul, hbs,
        Nat.add_mul_div_right _ _ hpos, Nat.div_eq_of_lt hm, Nat.zero_add, BitVec.ofNat_toNat,
        BitVec.setWidth_eq]

/-- INTERNAL: adding the byte at position `k` to the value of the bytes below it. -/
theorem ofNat_shift_add (w k m : ℕ) :
    (BitVec.ofNat 8 (m / 256 ^ k)).setWidth w <<< (8 * k) + BitVec.ofNat w (m % 256 ^ k) =
      BitVec.ofNat w (m % 256 ^ (k + 1)) := by
  have hpow : (2 : ℕ) ^ (8 * k) = 256 ^ k := by rw [pow_mul]; norm_num
  have hmod : m % 256 ^ (k + 1) = m / 256 ^ k % 256 * 256 ^ k + m % 256 ^ k := by
    rw [pow_succ, Nat.mod_mul, Nat.add_comm, Nat.mul_comm]
  apply BitVec.eq_of_toNat_eq
  rw [hmod]
  simp only [BitVec.toNat_add, BitVec.toNat_shiftLeft, BitVec.toNat_setWidth, BitVec.toNat_ofNat,
    Nat.shiftLeft_eq, hpow, Nat.reducePow, Nat.mod_mul_mod, Nat.add_mod, Nat.mod_mod]

end Mccpp.Library
