import Mathlib.Algebra.Order.Ring.Nat
import Mccpp.Library.BigEndian

/-!
# Numbers as strings of bits

`bitString k m` is the `k` low bits of `m`, the most significant first, and `number` is the value of
such a string. A number splits into its high and its low bits (`bitString_add`), so the bits between
two places of a number are those of a quotient (`take_drop_bitString`). Numbers that stand one after
another are one string of bits, from which `group` takes the number with a given offset and width
(`flatMap_group`: groups of one width are the whole string).
-/

set_option autoImplicit false

namespace Mccpp.Library

/-- The `k` low bits of `m`, most significant first. -/
def bitString : ℕ → ℕ → List Bool
  | 0, _ => []
  | k + 1, m => m.testBit k :: bitString k m

/-- The value of bits, most significant first. -/
def number : List Bool → ℕ
  | [] => 0
  | b :: l => b.toNat * 2 ^ l.length + number l

/-- The bits of a word. -/
def bits {w : ℕ} (x : BitVec w) : List Bool := bitString w x.toNat

/-- The number formed by `w` bits from an offset on. -/
def group (l : List Bool) (offset w : ℕ) : ℕ := number ((l.drop offset).take w)

@[simp] theorem length_bitString (k m : ℕ) : (bitString k m).length = k := by
  induction k with
  | zero => rfl
  | succ k ih => simp [bitString, ih]

@[simp] theorem length_bits {w : ℕ} (x : BitVec w) : (bits x).length = w := length_bitString w x.toNat

theorem number_append (l m : List Bool) : number (l ++ m) = number l * 2 ^ m.length + number m := by
  induction l with
  | nil => simp [number]
  | cons b l ih =>
    rw [List.cons_append, number, number, ih, List.length_append, Nat.pow_add]
    ring

theorem number_lt (l : List Bool) : number l < 2 ^ l.length := by
  induction l with
  | nil => simp [number]
  | cons b l ih =>
    rw [number, List.length_cons, Nat.pow_succ]
    cases b <;> simp <;> omega

@[simp] theorem number_bitString (k m : ℕ) : number (bitString k m) = m % 2 ^ k := by
  induction k with
  | zero => simp [bitString, number, Nat.mod_one]
  | succ k ih =>
    rw [bitString, number, ih, length_bitString, Nat.toNat_testBit, Nat.pow_succ, Nat.mod_mul,
      Nat.mul_comm, Nat.add_comm]

@[simp] theorem number_bits {w : ℕ} (x : BitVec w) : number (bits x) = x.toNat := by
  rw [bits, number_bitString, Nat.mod_eq_of_lt x.isLt]

/-- INTERNAL: the high and the low bits. -/
theorem bitString_add (n j m : ℕ) :
    bitString (n + j) m = bitString n (m / 2 ^ j) ++ bitString j m := by
  induction n with
  | zero => simp [bitString]
  | succ n ih =>
    rw [Nat.succ_add, bitString, bitString, ih, Nat.testBit_div_two_pow, List.cons_append]

/-- INTERNAL: bits above the `k` low ones do not matter. -/
theorem bitString_mod (k m : ℕ) : bitString k (m % 2 ^ k) = bitString k m := by
  have hall : ∀ n ≤ k, bitString n (m % 2 ^ k) = bitString n m := by
    intro n hn
    induction n with
    | zero => rfl
    | succ n ih =>
      rw [bitString, bitString, ih (by omega), Nat.testBit_mod_two_pow]
      simp [show n < k by omega]
  exact hall k (le_refl k)

/-- INTERNAL: a string is the bits of its value. -/
theorem bitString_number (l : List Bool) : bitString l.length (number l) = l := by
  induction l with
  | nil => rfl
  | cons b l ih =>
    have hdiv : (b.toNat * 2 ^ l.length + number l) / 2 ^ l.length = b.toNat := by
      rw [Nat.add_comm, Nat.add_mul_div_right _ _ (Nat.two_pow_pos _),
        Nat.div_eq_of_lt (number_lt l), Nat.zero_add]
    have hmod : (b.toNat * 2 ^ l.length + number l) % 2 ^ l.length = number l := by
      rw [Nat.mul_add_mod', Nat.mod_eq_of_lt (number_lt l)]
    rw [number, List.length_cons, Nat.add_comm l.length 1, bitString_add, hdiv,
      ← bitString_mod l.length, hmod, ih]
    cases b <;> rfl

/-- INTERNAL: the bits between two places. -/
theorem take_drop_bitString {k o n : ℕ} (h : o + n ≤ k) (m : ℕ) :
    ((bitString k m).drop o).take n = bitString n (m / 2 ^ (k - o - n)) := by
  obtain ⟨j, rfl⟩ : ∃ j, k = o + (n + j) := ⟨k - o - n, by omega⟩
  have hj : o + (n + j) - o - n = j := by omega
  rw [bitString_add, List.drop_left' (length_bitString _ _), bitString_add,
    List.take_left' (length_bitString _ _), hj]

/-- INTERNAL: the bytes of a number, most significant first, have its bits. -/
theorem flatMap_bigEndian (k m : ℕ) : (bigEndian k m).flatMap bits = bitString (8 * k) m := by
  induction k with
  | zero => rfl
  | succ k ih =>
    have hpow : (2 : ℕ) ^ (8 * k) = 256 ^ k := by rw [pow_mul]; norm_num
    have hbyte : bits (BitVec.ofNat 8 (m / 256 ^ k)) = bitString 8 (m / 256 ^ k) := by
      rw [bits, BitVec.toNat_ofNat, bitString_mod]
    rw [bigEndian_succ, List.flatMap_cons, ih, hbyte, Nat.mul_succ, Nat.add_comm (8 * k) 8,
      bitString_add, hpow]

theorem group_lt (l : List Bool) (offset w : ℕ) : group l offset w < 2 ^ w := by
  have hlength : ((l.drop offset).take w).length ≤ w := List.length_take_le _ _
  exact lt_of_lt_of_le (number_lt _) (Nat.pow_le_pow_right (by omega) hlength)

/-- INTERNAL: what stands behind a group does not count. -/
theorem group_append {l : List Bool} {offset w : ℕ} (h : offset + w ≤ l.length) (m : List Bool) :
    group (l ++ m) offset w = group l offset w := by
  rw [group, List.drop_append_of_le_length (by omega), List.take_append_of_le_length, group]
  rw [List.length_drop]
  omega

/-- INTERNAL: groups of one width, one after another, are the whole string. -/
theorem flatMap_group {w n : ℕ} {l : List Bool} (h : l.length = n * w) :
    ((List.range n).flatMap fun i => bitString w (group l (i * w) w)) = l := by
  induction n generalizing l with
  | zero =>
    have hnil : l = [] := List.length_eq_zero_iff.mp (by simpa using h)
    simp [hnil]
  | succ n ih =>
    have hlong : w ≤ l.length := by
      rw [h]
      exact Nat.le_mul_of_pos_left w (Nat.succ_pos n)
    have htake : (l.take w).length = w := by
      rw [List.length_take]
      omega
    have hdrop : (l.drop w).length = n * w := by
      rw [List.length_drop, h, Nat.succ_mul, Nat.add_sub_cancel]
    have hfirst : bitString w (group l (0 * w) w) = l.take w := by
      have hnumber := bitString_number (l.take w)
      rw [htake] at hnumber
      rw [group, Nat.zero_mul, List.drop_zero, hnumber]
    have hnext (i : ℕ) : group l ((i + 1) * w) w = group (l.drop w) (i * w) w := by
      rw [group, group, List.drop_drop, Nat.succ_mul, Nat.add_comm]
    rw [List.range_succ_eq_map, List.flatMap_cons, List.flatMap_map, hfirst]
    simp only [Nat.succ_eq_add_one, hnext]
    rw [ih hdrop, List.take_append_drop]

end Mccpp.Library
