import Mathlib.Algebra.GroupWithZero.Nat
import Mathlib.Data.Nat.Basic

/-!
# Bytes and `size_t`

A `std::byte` is a `BitVec 8`. A `size_t` is a natural number below `2 ^ 64`; only the
sums and differences the source computes are given here, reduced as the machine does.
-/

set_option autoImplicit false

namespace Mccpp.Model

/-- `std::byte`. -/
abbrev Byte : Type := BitVec 8

/-- The number of `size_t` values. Irreducible, so that it is never counted out in unary. -/
@[irreducible] def sizeModulus : ℕ := 2 ^ 64

theorem sizeModulus_eq : sizeModulus = 2 ^ 64 := by unfold sizeModulus; rfl

theorem sizeModulus_eq_literal : sizeModulus = 18446744073709551616 := by
  unfold sizeModulus
  rfl

/-- `a + b` on `size_t`. -/
def sizeAdd (a b : ℕ) : ℕ := (a + b) % sizeModulus

/-- `a - b` on `size_t`. -/
def sizeSub (a b : ℕ) : ℕ := (a + sizeModulus - b) % sizeModulus

theorem sizeAdd_of_lt {a b : ℕ} (h : a + b < sizeModulus) : sizeAdd a b = a + b :=
  Nat.mod_eq_of_lt h

theorem sizeSub_of_le {a b : ℕ} (ha : a < sizeModulus) (h : b ≤ a) : sizeSub a b = a - b := by
  have hsplit : a + sizeModulus - b = (a - b) + sizeModulus := by omega
  rw [sizeSub, hsplit, Nat.add_mod_right]
  exact Nat.mod_eq_of_lt (by omega)

/-- INTERNAL: an addition wraps at most once. -/
theorem sizeAdd_cases {a b : ℕ} (ha : a < sizeModulus) (hb : b < sizeModulus) :
    a + b < sizeModulus ∧ sizeAdd a b = a + b ∨
      sizeModulus ≤ a + b ∧ sizeAdd a b + sizeModulus = a + b := by
  by_cases h : a + b < sizeModulus
  · exact Or.inl ⟨h, sizeAdd_of_lt h⟩
  · have hwrap : sizeAdd a b = a + b - sizeModulus := by
      rw [sizeAdd, Nat.mod_eq_sub_mod (by omega)]
      exact Nat.mod_eq_of_lt (by omega)
    exact Or.inr ⟨by omega, by omega⟩

/-- INTERNAL: a subtraction wraps exactly when it would go below zero. -/
theorem sizeSub_cases {a b : ℕ} (ha : a < sizeModulus) (hb : b < sizeModulus) :
    b ≤ a ∧ sizeSub a b = a - b ∨ a < b ∧ sizeSub a b + b = a + sizeModulus := by
  by_cases h : b ≤ a
  · exact Or.inl ⟨h, sizeSub_of_le ha h⟩
  · have hwrap : sizeSub a b = a + sizeModulus - b := Nat.mod_eq_of_lt (by omega)
    exact Or.inr ⟨by omega, by omega⟩

/-! ## Lengths of type `int32_t` -/

/-- INTERNAL: a positive `int32_t` is the same number as a `size_t`. -/
theorem toNat_of_toInt_pos {length : BitVec 32} (h : 0 < length.toInt) :
    length.toInt.toNat = length.toNat := by
  rw [BitVec.toInt_eq_toNat_cond] at h ⊢
  have := length.isLt
  split at h <;> omega

theorem toInt_ofNat_length {n : ℕ} (h : n < 2 ^ 31) :
    (BitVec.ofNat 32 n).toNat = n ∧ (BitVec.ofNat 32 n).toInt = n := by
  have hn : (BitVec.ofNat 32 n).toNat = n := Nat.mod_eq_of_lt (by omega)
  rw [BitVec.toInt_eq_toNat_cond, hn]
  exact ⟨rfl, if_pos (by omega)⟩

/-- INTERNAL: a length that is not rejected as too small is below `2 ^ 31`. -/
theorem toNat_lt_of_toInt_pos {length : BitVec 32} (h : ¬length.toInt ≤ 0) :
    0 < length.toInt ∧ length.toNat < 2 ^ 31 := by
  have hlt := length.isLt
  rw [BitVec.toInt_eq_toNat_cond] at h ⊢
  split at h <;> omega

end Mccpp.Model
