import Mccpp.Library.BigEndian
import Mathlib.Data.Nat.Digits.Defs

/-!
# Naturals as hexadecimal digits

`hexDigits k m` is the `k` low digits of `m`, the most significant first and in lower case. It is
what zero padding makes of the digits of a number that has no more than `k` of them
(`leftpad_toDigits`). Digits side by side are the digits of the number that is put together
(`hexDigits_add`), two of them are a byte of the big-endian bytes (`hexDigits_bigEndian`), and
numbers with the same digits are the same (`hexDigits_inj`).
-/

set_option autoImplicit false

namespace Mccpp.Library

/-- The `k` low hexadecimal digits of `m`, most significant first. -/
def hexDigits : ℕ → ℕ → List Char
  | 0, _ => []
  | k + 1, m => Nat.digitChar (m / 16 ^ k % 16) :: hexDigits k m

@[simp] theorem hexDigits_zero (m : ℕ) : hexDigits 0 m = [] := rfl

theorem hexDigits_succ (k m : ℕ) :
    hexDigits (k + 1) m = Nat.digitChar (m / 16 ^ k % 16) :: hexDigits k m := rfl

@[simp] theorem length_hexDigits (k m : ℕ) : (hexDigits k m).length = k := by
  induction k with
  | zero => rw [hexDigits_zero, List.length_nil]
  | succ k ih => rw [hexDigits_succ, List.length_cons, ih]

/-- INTERNAL: the upper digits are those of the quotient. -/
theorem hexDigits_add (j k m : ℕ) :
    hexDigits (j + k) m = hexDigits j (m / 16 ^ k) ++ hexDigits k m := by
  induction j with
  | zero => rw [Nat.zero_add, hexDigits_zero, List.nil_append]
  | succ j ih =>
    rw [Nat.add_right_comm, hexDigits_succ, hexDigits_succ, ih, List.cons_append,
      Nat.div_div_eq_div_mul, pow_add, Nat.mul_comm]

/-- INTERNAL: digits above the `k` low ones do not matter. -/
theorem hexDigits_mod {k l : ℕ} (h : k ≤ l) (m : ℕ) : hexDigits k (m % 16 ^ l) = hexDigits k m := by
  induction k with
  | zero => rw [hexDigits_zero, hexDigits_zero]
  | succ k ih =>
    have hdigit : m % 16 ^ l / 16 ^ k % 16 = m / 16 ^ k % 16 := by
      obtain ⟨d, rfl⟩ := Nat.exists_eq_add_of_le h
      have hpow : 16 ^ (k + 1 + d) = 16 ^ k * (16 * 16 ^ d) := by ring
      rw [hpow, Nat.mod_mul_right_div_self, Nat.mod_mul_right_mod]
    rw [hexDigits_succ, hexDigits_succ, hdigit, ih (Nat.le_of_succ_le h)]

theorem digitChar_inj {a b : ℕ} (ha : a < 16) (hb : b < 16)
    (h : Nat.digitChar a = Nat.digitChar b) : a = b := by
  have hall : ∀ a < 16, ∀ b < 16, Nat.digitChar a = Nat.digitChar b → a = b := by decide
  exact hall a ha b hb h

/-- INTERNAL: numbers of at most `k` digits are told apart by them. -/
theorem hexDigits_inj {k m n : ℕ} (hm : m < 16 ^ k) (hn : n < 16 ^ k)
    (h : hexDigits k m = hexDigits k n) : m = n := by
  induction k generalizing m n with
  | zero =>
    rw [pow_zero] at hm hn
    omega
  | succ k ih =>
    have hpos : 0 < 16 ^ k := Nat.pow_pos (by omega)
    rw [pow_succ] at hm hn
    have hquot : ∀ {a : ℕ}, a < 16 ^ k * 16 → a / 16 ^ k < 16 := fun ha =>
      Nat.div_lt_of_lt_mul ha
    rw [hexDigits_succ, hexDigits_succ, Nat.mod_eq_of_lt (hquot hm),
      Nat.mod_eq_of_lt (hquot hn)] at h
    obtain ⟨hhead, htail⟩ := List.cons.inj h
    have hhigh : m / 16 ^ k = n / 16 ^ k := digitChar_inj (hquot hm) (hquot hn) hhead
    have hlow : m % 16 ^ k = n % 16 ^ k := by
      apply ih (Nat.mod_lt _ hpos) (Nat.mod_lt _ hpos)
      rw [hexDigits_mod (Nat.le_refl k), hexDigits_mod (Nat.le_refl k)]
      exact htail
    rw [← Nat.div_add_mod m (16 ^ k), ← Nat.div_add_mod n (16 ^ k), hhigh, hlow]

/-- INTERNAL: every character is one of the sixteen digits. -/
theorem mem_hexDigits {k m : ℕ} {c : Char} (h : c ∈ hexDigits k m) :
    c ∈ "0123456789abcdef".toList := by
  induction k with
  | zero => cases h
  | succ k ih =>
    rw [hexDigits_succ, List.mem_cons] at h
    rcases h with rfl | h
    · have hlt : m / 16 ^ k % 16 < 16 := Nat.mod_lt _ (by omega)
      generalize m / 16 ^ k % 16 = d at hlt
      revert d
      decide
    · exact ih h

theorem hexDigits_zero_right (k : ℕ) : hexDigits k 0 = List.replicate k '0' := by
  induction k with
  | zero => rw [hexDigits_zero, List.replicate_zero]
  | succ k ih => rw [hexDigits_succ, ih, Nat.zero_div, List.replicate_succ]; rfl

/-- INTERNAL: **zero padding**. The digits of a number, filled up with zeros to a width that is
enough for it. -/
theorem leftpad_toDigits {k m : ℕ} (hk : 0 < k) (hm : m < 16 ^ k) :
    (Nat.toDigits 16 m).leftpad k '0' = hexDigits k m := by
  induction k generalizing m with
  | zero => omega
  | succ k ih =>
    by_cases hsmall : m < 16
    · have hlow : hexDigits 1 m = [Nat.digitChar m] := by
        rw [hexDigits_succ, hexDigits_zero, pow_zero, Nat.div_one, Nat.mod_eq_of_lt hsmall]
      have hhigh : m / 16 ^ 1 = 0 := by rw [pow_one]; exact Nat.div_eq_of_lt hsmall
      rw [Nat.toDigits_of_lt_base hsmall, hexDigits_add, hhigh, hexDigits_zero_right, hlow]
      simp [List.leftpad]
    · have hk' : 0 < k := by
        rcases Nat.eq_zero_or_pos k with rfl | hpos
        · rw [Nat.zero_add, pow_one] at hm
          omega
        · exact hpos
      have hquot : m / 16 < 16 ^ k := by
        rw [pow_succ] at hm
        exact Nat.div_lt_of_lt_mul (by rw [Nat.mul_comm]; exact hm)
      have hlow : hexDigits 1 m = [Nat.digitChar (m % 16)] := by
        rw [hexDigits_succ, hexDigits_zero, pow_zero, Nat.div_one]
      have hpad : ∀ (l : List Char) (c : Char),
          (l ++ [c]).leftpad (k + 1) '0' = l.leftpad k '0' ++ [c] := by
        intro l c
        simp [List.leftpad]
      rw [Nat.toDigits_of_base_le (by omega) (by omega), hpad, ih hk' hquot, hexDigits_add, hlow,
        pow_one]

/-- Two digits for each byte. -/
def hexText (bytes : List (BitVec 8)) : List Char := bytes.flatMap fun b => hexDigits 2 b.toNat

/-- INTERNAL: two digits for each byte of the big-endian bytes. -/
theorem hexDigits_bigEndian (k m : ℕ) : hexDigits (2 * k) m = hexText (bigEndian k m) := by
  unfold hexText
  induction k with
  | zero => rw [Nat.mul_zero, hexDigits_zero, bigEndian_zero, List.flatMap_nil]
  | succ k ih =>
    have hwidth : 2 * (k + 1) = 2 + 2 * k := by omega
    have hpow : 16 ^ (2 * k) = 256 ^ k := by rw [pow_mul]; norm_num
    have hbyte : (BitVec.ofNat 8 (m / 256 ^ k)).toNat = m / 256 ^ k % 16 ^ 2 := by
      rw [BitVec.toNat_ofNat]; norm_num
    rw [hwidth, hexDigits_add, hpow, bigEndian_succ, List.flatMap_cons, hbyte,
      hexDigits_mod (Nat.le_refl 2), ih]

end Mccpp.Library
