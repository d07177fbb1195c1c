import Mccpp.Library.Fallible
import Mccpp.Interface.BlockVariants

/-!
# Flags of variants

A rotation is stored as `value / 90 % 4`, which C++ rounds toward zero: for a negative rotation that
is no full turn it is negative, and sets all the bits of the flags above its own (`packed_decodes`).
-/

set_option autoImplicit false

namespace Mccpp.Analysis

open Mccpp.Library Mccpp.Model Mccpp.Interface

/-! ## Quarter turns -/

/-- The number that is stored for a rotation. -/
def turnsOf (v : ℤ) : ℤ := ((intOf v).tdiv 90).tmod 4

/-- The numbers of quarter turns that are left of a full one, in either direction. -/
def turnRange : List ℤ := [-3, -2, -1, 0, 1, 2, 3]

theorem turnsOf_bounds (v : ℤ) : -3 ≤ turnsOf v ∧ turnsOf v ≤ 3 := by
  unfold turnsOf
  have hlt := Int.tmod_lt_of_pos ((intOf v).tdiv 90) (show (0 : ℤ) < 4 by decide)
  have hgt := Int.lt_tmod_of_pos ((intOf v).tdiv 90) (show (0 : ℤ) < 4 by decide)
  omega

theorem turnsOf_mem (v : ℤ) : turnsOf v ∈ turnRange := by
  obtain ⟨hlow, hhigh⟩ := turnsOf_bounds v
  simp only [turnRange, List.mem_cons, List.not_mem_nil, or_false]
  omega

/-- INTERNAL: what an `int` loses of a rotation is full turns. -/
theorem intOf_modEq {v : ℤ} (hv : 90 ∣ v) (hint : 90 ∣ intOf v) : ∃ k, intOf v = v + 360 * k := by
  have hdvd : (4294967296 : ℤ) ∣ intOf v - v := by
    have h := @Int.dvd_bmod_sub_self v (2 ^ 32)
    simpa [intOf] using h
  have height : (8 : ℤ) ∣ intOf v - v := Int.dvd_trans (by decide) hdvd
  have hninety : (90 : ℤ) ∣ intOf v - v := Int.dvd_sub hint hv
  obtain ⟨k, hk⟩ : (360 : ℤ) ∣ intOf v - v := by
    clear hdvd
    omega
  exact ⟨k, Int.sub_eq_iff_eq_add'.mp hk⟩

/-- INTERNAL: **rounding toward zero keeps the sign**, and the turn modulo a full one. -/
theorem turnsOf_spec {v : ℤ} (hv : 90 ∣ v) (hint : 90 ∣ intOf v) :
    (∃ k, v = 90 * turnsOf v + 360 * k) ∧ (0 ≤ turnsOf v ↔ 0 ≤ intOf v ∨ 360 ∣ v) := by
  obtain ⟨k, hk⟩ := intOf_modEq hv hint
  obtain ⟨m, hm⟩ := hint
  have hturns : turnsOf v = m.tmod 4 := by
    rw [turnsOf, hm, Int.mul_tdiv_cancel_left m (by decide)]
  have hdiv := Int.tmod_add_mul_tdiv m 4
  rw [← hturns] at hdiv
  obtain ⟨hlow, hhigh⟩ := turnsOf_bounds v
  have hpos : 0 ≤ m → 0 ≤ turnsOf v := by
    intro h
    rw [hturns]
    exact Int.tmod_nonneg 4 h
  have hneg : m ≤ 0 → turnsOf v ≤ 0 := by
    intro h
    have hminus := Int.tmod_nonneg 4 (show 0 ≤ -m by omega)
    rw [Int.neg_tmod] at hminus
    omega
  refine ⟨⟨m.tdiv 4 - k, by omega⟩, ?_⟩
  constructor
  · intro h
    by_cases hm0 : 0 ≤ m
    · exact Or.inl (by omega)
    · have h0 := hneg (by omega)
      exact Or.inr (by omega)
  · rintro (h | h)
    · exact hpos (by omega)
    · by_cases hm0 : 0 ≤ m
      · exact hpos hm0
      · omega

/-! ## Packing -/

/-- The flags of these quarter turns. -/
def packed (a b : ℤ) (uvlock : Bool) : BitVec 8 :=
  let flags := orFlags (orFlags 0 (BitVec.ofInt 32 a <<< 0)) (BitVec.ofInt 32 b <<< 2)
  if uvlock then orFlags flags 0x10 else flags

/-- INTERNAL: **a negative number of turns sets every bit above its field**, and nothing else leaks.
SOURCE: resource/block_state.cc:25-41, resource/block_state.hh:11-21 -/
theorem packed_decodes : ∀ a ∈ turnRange, ∀ b ∈ turnRange, ∀ uvlock,
    ((packed a b uvlock &&& 0x3).toNat : ℤ) % 4 = a % 4 ∧
      (((packed a b uvlock >>> 2 &&& 0x3).toNat : ℤ) % 4 = b % 4 ∧
          (decide (packed a b uvlock &&& 0x10 ≠ 0)) = uvlock ↔
        (0 ≤ a ∨ b % 4 = 3 ∧ uvlock = true) ∧ (0 ≤ b ∨ uvlock = true)) := by
  decide

theorem orFlags_zero (flags : BitVec 8) : orFlags flags 0 = flags := by
  have hor : flags.setWidth 32 ||| 0 = flags.setWidth 32 := BitVec.or_zero
  unfold orFlags
  rw [hor, BitVec.setWidth_setWidth_of_le flags (by decide), BitVec.setWidth_eq]

section Reading

variable {json : JsonNumbers} (hjson : NlohmannLaws json)
include hjson

/-- INTERNAL: what is read of a number.
SOURCE: resource/block_state.cc:26-29 -/
theorem quarterTurns_ok {v : ℤ} (hreads : ReadsTurns v) :
    quarterTurns json (.int v) = .ok (BitVec.ofInt 32 (turnsOf v)) := by
  have hinteger := (hjson.isNumberInteger v).mpr hreads.held
  have hvalue : (BitVec.ofInt 32 v).toInt = intOf v := BitVec.toInt_ofInt v
  have hninety : (90 : BitVec 32).toInt = 90 := by decide
  have hfour : (4 : BitVec 32).toInt = 4 := by decide
  have hdivisible : (BitVec.ofInt 32 v).srem 90 = 0 := by
    apply BitVec.eq_of_toInt_eq
    rw [BitVec.toInt_srem, hvalue, hninety]
    exact Int.tmod_eq_zero_of_dvd hreads.quarters
  have hturns : ((BitVec.ofInt 32 v).sdiv 90).srem 4 = BitVec.ofInt 32 (turnsOf v) := by
    obtain ⟨hlow, hhigh⟩ := turnsOf_bounds v
    apply BitVec.eq_of_toInt_eq
    rw [BitVec.toInt_srem, BitVec.toInt_sdiv_of_ne_or_ne _ _ (Or.inr (by decide)), hvalue, hninety,
      hfour, BitVec.toInt_ofInt_eq_self (by decide) (by omega) (by omega)]
    rfl
  simp only [quarterTurns, hinteger, if_true, hjson.getInt v hinteger, hdivisible, hturns]

/-- INTERNAL: any other number fails an assertion.
SOURCE: resource/block_state.cc:26-28 -/
theorem quarterTurns_error {v : ℤ} (hreads : ¬ReadsTurns v) :
    ∃ failure, quarterTurns json (.int v) = .error failure := by
  by_cases hinteger : json.isNumberInteger v = true
  · have hvalue : (BitVec.ofInt 32 v).toInt = intOf v := BitVec.toInt_ofInt v
    have hdivisible : ¬(BitVec.ofInt 32 v).srem 90 = 0 := by
      intro h
      have hint := congrArg BitVec.toInt h
      rw [BitVec.toInt_srem, hvalue] at hint
      exact hreads ⟨(hjson.isNumberInteger v).mp hinteger, Int.dvd_of_tmod_eq_zero hint⟩
    simp only [quarterTurns, hinteger, if_true, hjson.getInt v hinteger, if_neg hdivisible]
    exact ⟨_, rfl⟩
  · simp only [quarterTurns, if_neg hinteger]
    exact ⟨_, rfl⟩

variable {member : Option JsonValue} {v : ℤ}
  (hmember : member = some (.int v) ∨ member = none ∧ v = 0)
include hmember

/-- INTERNAL: a rotation that is not there counts as `0`.
SOURCE: resource/block_state.cc:24-38 -/
theorem readRotation_ok (hreads : ReadsTurns v) (shift : ℕ) (flags : BitVec 8) :
    readRotation json shift flags member =
      .ok (orFlags flags (BitVec.ofInt 32 (turnsOf v) <<< shift)) := by
  rcases hmember with rfl | ⟨rfl, rfl⟩
  · simp only [readRotation, quarterTurns_ok hjson hreads]
    rfl
  · have hzero : BitVec.ofInt 32 (turnsOf 0) <<< shift = 0 := by
      have hturns : BitVec.ofInt 32 (turnsOf 0) = 0 := by decide
      rw [hturns]
      exact BitVec.zero_shiftLeft shift
    rw [hzero, orFlags_zero]
    rfl

theorem readRotation_error (hreads : ¬ReadsTurns v) (shift : ℕ) (flags : BitVec 8) :
    ∃ failure, readRotation json shift flags member = .error failure := by
  rcases hmember with rfl | ⟨rfl, rfl⟩
  · obtain ⟨failure, hfailure⟩ := quarterTurns_error hjson hreads
    simp only [readRotation, hfailure]
    exact ⟨failure, rfl⟩
  · exact absurd ⟨by decide, by decide⟩ hreads

end Reading

theorem readUvlock_ok {member : Option JsonValue} {uvlock : Bool}
    (hmember : member = some (.bool uvlock) ∨ member = none ∧ uvlock = false) (flags : BitVec 8) :
    readUvlock flags member = .ok (if uvlock then orFlags flags 0x10 else flags) := by
  rcases hmember with rfl | ⟨rfl, rfl⟩ <;> rfl

/-! ## Decoding -/

theorem toNat_and_three_lt (flags : BitVec 8) : (flags &&& 0x3).toNat < 4 := by
  rw [BitVec.toNat_and]
  exact Nat.and_lt_two_pow _ (show (3 : BitVec 8).toNat < 2 ^ 2 by decide)

theorem rotationX_lt (v : BlockStateVariant) : v.rotationX < 360 := by
  have h := toNat_and_three_lt v.flags
  unfold BlockStateVariant.rotationX
  omega

theorem rotationY_lt (v : BlockStateVariant) : v.rotationY < 360 := by
  have h := toNat_and_three_lt (v.flags >>> 2)
  unfold BlockStateVariant.rotationY
  omega

/-- INTERNAL: a number of quarter turns is the rotation modulo a full turn. -/
theorem mul_ninety_modEq_iff {v k a : ℤ} (hv : v = 90 * a + 360 * k) (n : ℕ) :
    ((n * 90 : ℕ) : ℤ) ≡ v [ZMOD 360] ↔ (n : ℤ) % 4 = a % 4 := by
  unfold Int.ModEq
  omega

/-- INTERNAL: **what the flags of two rotations and a lock decode to**. -/
theorem decodesBack_iff {key : List Char} {x y : ℤ} {uvlock : Bool} (hx : 90 ∣ x) (hy : 90 ∣ y)
    (hxReads : ReadsTurns x) (hyReads : ReadsTurns y) :
    DecodesBack x y uvlock ⟨key, packed (turnsOf x) (turnsOf y) uvlock⟩ ↔ KeepsApart x y uvlock := by
  obtain ⟨⟨kx, hkx⟩, hxSign⟩ := turnsOf_spec hx hxReads.quarters
  obtain ⟨⟨ky, hky⟩, hySign⟩ := turnsOf_spec hy hyReads.quarters
  obtain ⟨hxField, hrest⟩ := packed_decodes _ (turnsOf_mem x) _ (turnsOf_mem y) uvlock
  have hthree : turnsOf y % 4 = 3 ↔ y ≡ 270 [ZMOD 360] := by
    unfold Int.ModEq
    omega
  rw [hxSign, hySign, hthree] at hrest
  constructor
  · rintro ⟨-, ⟨-, hrotation⟩, hlock⟩
    rw [BlockStateVariant.rotationY, mul_ninety_modEq_iff hky] at hrotation
    obtain ⟨hxKept, hyKept⟩ := hrest.mp ⟨hrotation, hlock⟩
    exact ⟨or_assoc.mp hxKept, or_assoc.mp hyKept⟩
  · rintro ⟨hxKept, hyKept⟩
    obtain ⟨hyField, hlock⟩ := hrest.mpr ⟨or_assoc.mpr hxKept, or_assoc.mpr hyKept⟩
    refine ⟨⟨rotationX_lt _, ?_⟩, ⟨rotationY_lt _, ?_⟩, hlock⟩
    · rw [BlockStateVariant.rotationX, mul_ninety_modEq_iff hkx]
      exact hxField
    · rw [BlockStateVariant.rotationY, mul_ninety_modEq_iff hky]
      exact hyField

/-- INTERNAL: every variant of a file is made from its own members alone.
SOURCE: resource/block_state.cc:14-43 -/
theorem blockState_eq_ok_iff {json : JsonNumbers} {variants : List (List Char × VariantItem)}
    {made : List BlockStateVariant} :
    blockState json (.object (some (.object variants))) = .ok made ↔
      List.Forall₂ (fun variant v => blockStateVariant json variant.1 variant.2 = .ok v)
        variants made :=
  mapM_eq_ok_iff

/-- SOURCE: resource/block_state.cc:18-42, resource/block_state.hh:7-22 — **when the flags decode
back**. For rotations by quarter turns of any size and sign, and either lock, the variant that
`block_state` makes has the rotations modulo a full turn and the lock if and only if both rotations
are read as quarter turns from an `int`, and the fields keep apart: a negative rotation that is no
full turn sets the bits above its field. -/
theorem flags_decode_iff {json : JsonNumbers} (hjson : NlohmannLaws json) (key : List Char)
    {item : VariantItem} {x y : ℤ} {uvlock : Bool} (hgives : Gives item x y uvlock) (hx : 90 ∣ x)
    (hy : 90 ∣ y) :
    (∃ v, blockStateVariant json key item = .ok v ∧ DecodesBack x y uvlock v) ↔
      ReadsTurns x ∧ ReadsTurns y ∧ KeepsApart x y uvlock := by
  by_cases hxReads : ReadsTurns x
  · have hxRead := readRotation_ok hjson hgives.x hxReads 0 0
    by_cases hyReads : ReadsTurns y
    · have hyRead := readRotation_ok hjson hgives.y hyReads 2
      have hvariant : blockStateVariant json key item =
          .ok ⟨key, packed (turnsOf x) (turnsOf y) uvlock⟩ := by
        rw [blockStateVariant, readX, hxRead]
        simp only [readY, hyRead, readUvlock_ok hgives.uvlock, bind, Except.bind]
        rfl
      rw [hvariant]
      simp only [Except.ok.injEq, exists_eq_left', hxReads, hyReads, true_and]
      exact decodesBack_iff hx hy hxReads hyReads
    · obtain ⟨failure, hfailure⟩ := readRotation_error hjson hgives.y hyReads 2
        (orFlags 0 (BitVec.ofInt 32 (turnsOf x) <<< 0))
      have hvariant : blockStateVariant json key item = .error failure := by
        rw [blockStateVariant, readX, hxRead]
        simp only [readY, hfailure, bind, Except.bind]
      simp [hvariant, hyReads]
  · obtain ⟨failure, hfailure⟩ := readRotation_error hjson hgives.x hxReads 0 0
    have hvariant : blockStateVariant json key item = .error failure := by
      rw [blockStateVariant, readX, hfailure]
      rfl
    simp [hvariant, hxReads]

/-- `nlohmann::json` on numbers. -/
def jsonNumbers : JsonNumbers where
  isNumberInteger v := decide (-2 ^ 63 ≤ v ∧ v < 2 ^ 64)
  getInt v := BitVec.ofInt 32 v

theorem nlohmannLaws_jsonNumbers : NlohmannLaws jsonNumbers where
  isNumberInteger v := by simp [jsonNumbers]
  getInt _ _ := rfl

/-- A variant with both rotations and a lock. -/
def rotatedItem (x y : ℤ) (uvlock : Bool) : VariantItem :=
  ⟨some (.int x), some (.int y), some (.bool uvlock)⟩

theorem gives_rotatedItem (x y : ℤ) (uvlock : Bool) : Gives (rotatedItem x y uvlock) x y uvlock :=
  ⟨Or.inl rfl, Or.inl rfl, Or.inl rfl⟩

theorem flags_decode_three_quarters :
    ∃ v, blockStateVariant jsonNumbers [] (rotatedItem 270 90 true) = .ok v ∧
      DecodesBack 270 90 true v := by
  apply (flags_decode_iff nlohmannLaws_jsonNumbers [] (gives_rotatedItem 270 90 true)
    (by decide) (by decide)).mpr
  exact ⟨⟨by decide, by decide⟩, ⟨by decide, by decide⟩, ⟨Or.inl (by decide), Or.inl (by decide)⟩⟩

/-- SOURCE: resource/block_state.cc:27-30 — a quarter turn back around x: the flags are all set, and
read as one around y and as a lock, too. -/
theorem negative_rotation_leaks :
    blockStateVariant jsonNumbers [] (rotatedItem (-90) 0 false) = .ok ⟨[], 0xff⟩ ∧
      (⟨[], 0xff⟩ : BlockStateVariant).rotationX = 270 ∧
      (⟨[], 0xff⟩ : BlockStateVariant).rotationY = 270 ∧
      (⟨[], 0xff⟩ : BlockStateVariant).uvlock = true ∧
      ¬∃ v, blockStateVariant jsonNumbers [] (rotatedItem (-90) 0 false) = .ok v ∧
        DecodesBack (-90) 0 false v := by
  have hvariant : blockStateVariant jsonNumbers [] (rotatedItem (-90) 0 false) =
      .ok ⟨[], 0xff⟩ := rfl
  refine ⟨hvariant, by decide, by decide, by decide, ?_⟩
  rintro ⟨v, hv, hdecodes⟩
  rw [hvariant] at hv
  obtain rfl := Except.ok.inj hv
  have hlock := hdecodes.uvlock
  revert hlock
  decide

end Mccpp.Analysis
