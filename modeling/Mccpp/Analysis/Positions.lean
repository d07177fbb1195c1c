import Mccpp.Model.Position
import Mccpp.Analysis.ReaderRules

/-!
# Positions are packed without loss

`raw` puts the low bits of the coordinates side by side (`raw_eq_append`), and the constructor from
a raw value cuts the same fields out of it and extends their signs (`ofRaw_eq`). So packing what was
unpacked gives the same value back, and a coordinate that fits its field survives.
-/

set_option autoImplicit false

namespace Mccpp.Analysis

open Mccpp.Library Mccpp.Model Mccpp.Model.PacketM

/-! ## Fields -/

/-- INTERNAL: a mask of the low `k` bits cuts off the others. -/
theorem and_mask_eq {w k : ℕ} (v mask : BitVec w) (hmask : mask.toNat = 2 ^ k - 1) :
    v &&& mask = (v.setWidth k).setWidth w := by
  apply BitVec.eq_of_toNat_eq
  rw [BitVec.toNat_and, hmask, Nat.and_two_pow_sub_one_eq_mod, BitVec.toNat_setWidth,
    BitVec.toNat_setWidth]
  have hle : v.toNat % 2 ^ k ≤ v.toNat := Nat.mod_le _ _
  exact (Nat.mod_eq_of_lt (Nat.lt_of_le_of_lt hle v.isLt)).symm

theorem setWidth_signExtend {w k n : ℕ} (v : BitVec w) (hk : k ≤ w) (hn : k ≤ n) :
    (v.signExtend n).setWidth k = v.setWidth k := by
  apply BitVec.eq_of_getLsbD_eq
  intro i hi
  have hiw : i < w := by omega
  have hin : i < n := by omega
  simp only [BitVec.getLsbD_setWidth, BitVec.getLsbD_signExtend, hi, hiw, hin, decide_true,
    Bool.true_and, if_true]

/-- INTERNAL: what `raw` takes of a coordinate. -/
theorem field_eq (k : ℕ) (hk : k ≤ 32) (m : BitVec 32) (mask : BitVec 64)
    (hmask : mask.toNat = 2 ^ k - 1) : m.signExtend 64 &&& mask = (m.setWidth k).setWidth 64 := by
  rw [and_mask_eq _ mask hmask, setWidth_signExtend m hk (by omega)]

/-- INTERNAL: **the fields lie side by side**.
SOURCE: proto/packet.hh:31-35 -/
theorem raw_eq_append (x y z : BitVec 32) :
    (Position.construct x y z).raw = x.setWidth 26 ++ z.setWidth 26 ++ y.setWidth 12 := by
  unfold Position.raw Position.construct
  rw [field_eq 26 (by omega) x _ rfl, field_eq 26 (by omega) z _ rfl, field_eq 12 (by omega) y _ rfl]
  apply BitVec.eq_of_getLsbD_eq
  intro i hi
  simp only [BitVec.getLsbD_or, BitVec.getLsbD_shiftLeft, BitVec.getLsbD_setWidth,
    BitVec.getLsbD_append]
  by_cases hy : i < 12
  · have h12 : i < 38 := by omega
    simp [hy, h12, hi]
  · by_cases hz : i - 12 < 26
    · have h38 : i < 38 := by omega
      have h64 : i - 12 < 64 := by omega
      simp [hy, hz, h38, h64, hi]
    · have h38 : ¬i < 38 := by omega
      have h64 : i - 38 < 64 := by omega
      have hsub : i - 12 - 26 = i - 38 := by omega
      simp [hy, hz, h38, h64, hi, hsub]

/-- INTERNAL: `sign_extend<N>` looks at the low `N` bits alone.
SOURCE: proto/packet.hh:43-57 -/
theorem signExtend_eq {n : ℕ} (hpos : 0 < n) (hn : n ≤ 32) (v : BitVec 32) :
    Position.signExtend n v = (v.setWidth n).signExtend 32 := by
  have harith : (0xffffffff#32).sshiftRight 1 = 0xffffffff#32 := by decide
  unfold Position.signExtend
  rw [if_pos harith]
  apply BitVec.eq_of_getLsbD_eq
  intro i hi
  rw [BitVec.getLsbD_sshiftRight, BitVec.getLsbD_signExtend, BitVec.msb_eq_getLsbD_last,
    BitVec.msb_eq_getLsbD_last]
  simp only [BitVec.getLsbD_shiftLeft, BitVec.getLsbD_setWidth]
  have hge : ¬32 ≤ i := by omega
  have hlast : n - 1 < n := by omega
  by_cases hlow : i < n
  · have hin : 32 - n + i < 32 := by omega
    have hshift : ¬32 - n + i < 32 - n := by omega
    have hsub : 32 - n + i - (32 - n) = i := by omega
    simp [hge, hlow, hin, hshift, hsub, hi]
  · have hout : ¬32 - n + i < 32 := by omega
    have htop : ¬31 < 32 - n := by omega
    have hsub : 31 - (32 - n) = n - 1 := by omega
    simp [hge, hlow, hout, htop, hsub, hi, hlast]

/-- INTERNAL: what the constructor takes of a raw value.
SOURCE: proto/packet.hh:22-26 -/
theorem unpacked_eq {k : ℕ} (hpos : 0 < k) (hk : k ≤ 32) (raw mask : BitVec 64) (offset : ℕ)
    (hmask : mask.toNat = 2 ^ k - 1) :
    Position.signExtend k ((raw >>> offset &&& mask).setWidth 32) =
      (raw.extractLsb' offset k).signExtend 32 := by
  have hcut : ((raw >>> offset &&& mask).setWidth 32).setWidth k = raw.extractLsb' offset k := by
    rw [and_mask_eq _ mask hmask]
    apply BitVec.eq_of_getLsbD_eq
    intro i hi
    have h32 : i < 32 := by omega
    have h64 : i < 64 := by omega
    simp only [BitVec.getLsbD_setWidth, BitVec.getLsbD_ushiftRight, BitVec.getLsbD_extractLsb', hi,
      h32, h64, decide_true, Bool.true_and]
  rw [signExtend_eq hpos hk, hcut]

theorem ofRaw_eq (raw : BitVec 64) :
    Position.ofRaw raw = .construct ((raw.extractLsb' 38 26).signExtend 32)
      ((raw.extractLsb' 0 12).signExtend 32) ((raw.extractLsb' 12 26).signExtend 32) := by
  have hy := unpacked_eq (k := 12) (by omega) (by omega) raw 0xfff 0 rfl
  rw [BitVec.ushiftRight_zero] at hy
  unfold Position.ofRaw
  rw [unpacked_eq (k := 26) (by omega) (by omega) raw 0x3ffffff 38 rfl,
    unpacked_eq (k := 26) (by omega) (by omega) raw 0x3ffffff 12 rfl, hy]
  rfl

/-! ## Round trips -/

/-- INTERNAL: a field that is extended to a coordinate is the field of that coordinate. -/
theorem setWidth_signExtend_self {k : ℕ} (hk : k ≤ 32) (f : BitVec k) :
    (f.signExtend 32).setWidth k = f := by
  rw [setWidth_signExtend f (Nat.le_refl k) hk, BitVec.setWidth_eq]

/-- INTERNAL: a coordinate that fits a field is what the field is extended to. -/
theorem signExtend_setWidth_self {k : ℕ} (hk : k + 1 ≤ 32) (m : BitVec 32)
    (hlow : -2 ^ k ≤ m.toInt) (hhigh : m.toInt < 2 ^ k) :
    (m.setWidth (k + 1)).signExtend 32 = m := by
  have hwidth : m.setWidth (k + 1) = m.signExtend (k + 1) :=
    (BitVec.signExtend_eq_setWidth_of_le m hk).symm
  apply BitVec.eq_of_toInt_eq
  rw [BitVec.toInt_signExtend_of_le hk, hwidth, BitVec.toInt_signExtend_eq_toInt_bmod_of_le m hk]
  apply Int.bmod_eq_of_le
  · rw [Nat.pow_succ]
    push_cast
    omega
  · rw [Nat.pow_succ]
    push_cast
    omega

/-- The fields of a packed position. -/
theorem extract_raw (x y z : BitVec 32) :
    (Position.construct x y z).raw.extractLsb' 38 26 = x.setWidth 26 ∧
      (Position.construct x y z).raw.extractLsb' 12 26 = z.setWidth 26 ∧
      (Position.construct x y z).raw.extractLsb' 0 12 = y.setWidth 12 := by
  rw [raw_eq_append]
  refine ⟨?_, ?_, ?_⟩
  · apply BitVec.eq_of_getLsbD_eq
    intro i hi
    have hy : ¬38 + i < 12 := by omega
    have hz : ¬38 + i - 12 < 26 := by omega
    have hsub : 38 + i - 12 - 26 = i := by omega
    simp only [BitVec.getLsbD_extractLsb', BitVec.getLsbD_append, hi, hy, hz, hsub, decide_true,
      Bool.true_and, if_false]
  · apply BitVec.eq_of_getLsbD_eq
    intro i hi
    have hy : ¬12 + i < 12 := by omega
    have hsub : 12 + i - 12 = i := by omega
    simp only [BitVec.getLsbD_extractLsb', BitVec.getLsbD_append, hi, hy, hsub, decide_true,
      Bool.true_and, if_false, if_true]
  · apply BitVec.eq_of_getLsbD_eq
    intro i hi
    simp only [BitVec.getLsbD_extractLsb', BitVec.getLsbD_append, Nat.zero_add, hi, decide_true,
      Bool.true_and, if_true]

theorem raw_ofRaw (r : BitVec 64) : (Position.ofRaw r).raw = r := by
  rw [ofRaw_eq, raw_eq_append, setWidth_signExtend_self (by omega),
    setWidth_signExtend_self (by omega), setWidth_signExtend_self (by omega)]
  apply BitVec.eq_of_getLsbD_eq
  intro i hi
  simp only [BitVec.getLsbD_append, BitVec.getLsbD_extractLsb']
  by_cases hy : i < 12
  · simp [hy]
  · by_cases hz : i - 12 < 26
    · have hsum : 12 + (i - 12) = i := by omega
      simp [hy, hz, hsum]
    · have hx : i - 12 - 26 < 26 := by omega
      have hsum : 38 + (i - 12 - 26) = i := by omega
      simp [hy, hz, hx, hsum]

theorem ofRaw_raw {x y z : BitVec 32} (hx : -2 ^ 25 ≤ x.toInt ∧ x.toInt < 2 ^ 25)
    (hz : -2 ^ 25 ≤ z.toInt ∧ z.toInt < 2 ^ 25) (hy : -2 ^ 11 ≤ y.toInt ∧ y.toInt < 2 ^ 11) :
    Position.ofRaw (Position.construct x y z).raw = .construct x y z := by
  obtain ⟨hfieldX, hfieldZ, hfieldY⟩ := extract_raw x y z
  rw [ofRaw_eq, hfieldX, hfieldZ, hfieldY, signExtend_setWidth_self (by omega) x hx.1 hx.2,
    signExtend_setWidth_self (by omega) z hz.1 hz.2, signExtend_setWidth_self (by omega) y hy.1 hy.2]

/-- SOURCE: proto/packet.hh:18-63 — **positions are packed without loss**. Every raw value is the
raw value of the position it is unpacked to; coordinates within the ranges of their fields are
unpacked from what they are packed to; and whatever the coordinates are, the upper `26` bits are the
low bits of `x` alone, the next `26` those of `z`, and the lowest `12` those of `y`. -/
theorem position_codec :
    (∀ r, (Position.ofRaw r).raw = r) ∧
    (∀ x y z : BitVec 32, -2 ^ 25 ≤ x.toInt → x.toInt < 2 ^ 25 → -2 ^ 25 ≤ z.toInt →
      z.toInt < 2 ^ 25 → -2 ^ 11 ≤ y.toInt → y.toInt < 2 ^ 11 →
      (Position.ofRaw (Position.construct x y z).raw).x = x ∧
        (Position.ofRaw (Position.construct x y z).raw).y = y ∧
        (Position.ofRaw (Position.construct x y z).raw).z = z) ∧
    (∀ x y z : BitVec 32, (Position.construct x y z).raw.extractLsb' 38 26 = x.setWidth 26 ∧
      (Position.construct x y z).raw.extractLsb' 12 26 = z.setWidth 26 ∧
      (Position.construct x y z).raw.extractLsb' 0 12 = y.setWidth 12) := by
  refine ⟨raw_ofRaw, ?_, extract_raw⟩
  intro x y z hx hx' hz hz' hy hy'
  rw [ofRaw_raw ⟨hx, hx'⟩ ⟨hz, hz'⟩ ⟨hy, hy'⟩]
  exact ⟨rfl, rfl, rfl⟩

/-- INTERNAL: the least coordinates that fit. -/
theorem position_codec_least :
    (Position.ofRaw (Position.construct (-33554432) (-2048) (-33554432)).raw).x = -33554432 ∧
      (Position.ofRaw (Position.construct (-33554432) (-2048) (-33554432)).raw).y = -2048 ∧
      (Position.ofRaw (Position.construct (-33554432) (-2048) (-33554432)).raw).z = -33554432 :=
  position_codec.2.1 (-33554432) (-2048) (-33554432) (by decide) (by decide) (by decide) (by decide)
    (by decide) (by decide)

end Mccpp.Analysis
