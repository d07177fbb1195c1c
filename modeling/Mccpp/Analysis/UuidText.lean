import Mccpp.Library.Hex
import Mccpp.Model.Formatting
import Mccpp.Analysis.FieldCodec

/-!
# The text of a uuid

The text is five groups of hexadecimal digits cut out of the two halves with shifts and masks; on
the wire the halves are sixteen bytes in big-endian order. Side by side the groups are the digits
of the halves (`digits_formatUuid`), and so the digits of the bytes.
-/

set_option autoImplicit false

namespace Mccpp.Analysis

open Mccpp.Library Mccpp.Model Mccpp.Model.PacketM

/-! ## The groups -/

/-- INTERNAL: a field that its value does not outgrow shows the digits of the value. -/
theorem formatHex_eq {width value : ℕ} (hwidth : 0 < width) (hvalue : value < 16 ^ width) :
    formatHex width value = hexDigits width value :=
  leftpad_toDigits hwidth hvalue

/-- INTERNAL: a field that shows the value above `16 ^ k`. -/
theorem formatHex_shift (width k : ℕ) (v : BitVec 64) (hwidth : 0 < width)
    (hv : v.toNat / 16 ^ k < 16 ^ width) :
    formatHex width (v >>> (4 * k)).toNat = hexDigits width (v.toNat / 16 ^ k) := by
  have hpow : 2 ^ (4 * k) = 16 ^ k := by rw [pow_mul]; norm_num
  rw [BitVec.toNat_ushiftRight, Nat.shiftRight_eq_div_pow, hpow]
  exact formatHex_eq hwidth hv

/-- INTERNAL: a field that shows the lower `4 * width` bits. -/
theorem formatHex_mask (width : ℕ) (v mask : BitVec 64) (hwidth : 0 < width)
    (hmask : mask.toNat = 2 ^ (4 * width) - 1) :
    formatHex width (v &&& mask).toNat = hexDigits width v.toNat := by
  have hpow : 2 ^ (4 * width) = 16 ^ width := by rw [pow_mul]; norm_num
  rw [BitVec.toNat_and, hmask, Nat.and_two_pow_sub_one_eq_mod, hpow,
    formatHex_eq hwidth (Nat.mod_lt _ (Nat.pow_pos (by omega))), hexDigits_mod (Nat.le_refl width)]

/-- INTERNAL: the five groups are digits of the two halves.
SOURCE: uuid.hh:40-43 -/
theorem formatUuid_eq (u : BitVec 64 × BitVec 64) :
    formatUuid u =
      hexDigits 8 (u.1.toNat / 16 ^ 8) ++ '-' :: (hexDigits 4 (u.1.toNat / 16 ^ 4) ++
        '-' :: (hexDigits 4 u.1.toNat ++ '-' :: (hexDigits 4 (u.2.toNat / 16 ^ 12) ++
          '-' :: hexDigits 12 u.2.toNat))) := by
  have hhigh : u.1.toNat < 16 ^ 8 * 16 ^ 8 := u.1.isLt
  have hlow : u.2.toNat < 16 ^ 12 * 16 ^ 4 := u.2.isLt
  have hmiddle : (u.1 >>> 16).toNat = u.1.toNat / 16 ^ 4 := by
    rw [BitVec.toNat_ushiftRight, Nat.shiftRight_eq_div_pow]
    norm_num
  have h₁ := formatHex_shift 8 8 u.1 (by omega) (Nat.div_lt_of_lt_mul hhigh)
  have h₂ := formatHex_mask 4 (u.1 >>> 16) 0xffff (by omega) rfl
  have h₃ := formatHex_mask 4 u.1 0xffff (by omega) rfl
  have h₄ := formatHex_shift 4 12 u.2 (by omega) (Nat.div_lt_of_lt_mul hlow)
  have h₅ := formatHex_mask 12 u.2 0xffffffffffff (by omega) rfl
  rw [hmiddle] at h₂
  unfold formatUuid
  rw [h₁, h₂, h₃, h₄, h₅]
  simp only [List.append_assoc, List.cons_append]

/-! ## The dashes -/

theorem dash_notMem (k m : ℕ) : '-' ∉ hexDigits k m := by
  intro h
  have hdigit := mem_hexDigits h
  revert hdigit
  decide

/-- INTERNAL: where the dashes are, when the first one is behind a group of digits. -/
theorem getElem?_dash (k m : ℕ) (rest : List Char) (i : ℕ) :
    (hexDigits k m ++ '-' :: rest)[i]? = some '-' ↔
      i = k ∨ k < i ∧ rest[i - (k + 1)]? = some '-' := by
  by_cases hlt : i < k
  · have hbound : i < (hexDigits k m).length := by rw [length_hexDigits]; exact hlt
    rw [List.getElem?_append_left hbound]
    constructor
    · intro hdash
      exact absurd (List.mem_of_getElem? hdash) (dash_notMem k m)
    · intro h
      omega
  · have hbound : (hexDigits k m).length ≤ i := by rw [length_hexDigits]; omega
    rw [List.getElem?_append_right hbound, length_hexDigits]
    rcases Nat.eq_or_lt_of_le (Nat.le_of_not_lt hlt) with rfl | hgt
    · rw [Nat.sub_self]
      simp
    · obtain ⟨j, rfl⟩ := Nat.exists_eq_add_of_lt hgt
      have hsub : k + j + 1 - k = j + 1 := by omega
      have hsub' : k + j + 1 - (k + 1) = j := by omega
      rw [hsub, hsub', List.getElem?_cons_succ]
      constructor
      · intro h
        exact Or.inr ⟨by omega, h⟩
      · rintro (h | ⟨_, h⟩)
        · omega
        · exact h

theorem filter_hexDigits (k m : ℕ) :
    (hexDigits k m).filter (fun c => c ≠ '-') = hexDigits k m := by
  rw [List.filter_eq_self]
  intro c hc
  apply decide_eq_true
  rintro rfl
  exact dash_notMem k m hc

/-- INTERNAL: without the dashes the text is the digits of the two halves. -/
theorem digits_formatUuid (u : BitVec 64 × BitVec 64) :
    (formatUuid u).filter (fun c => c ≠ '-') = hexDigits 16 u.1.toNat ++ hexDigits 16 u.2.toNat := by
  have hhigh : hexDigits 16 u.1.toNat = hexDigits 8 (u.1.toNat / 16 ^ 8) ++
      (hexDigits 4 (u.1.toNat / 16 ^ 4) ++ hexDigits 4 u.1.toNat) := by
    rw [← hexDigits_add 4 4, ← hexDigits_add 8 8]
  have hlow : hexDigits 16 u.2.toNat =
      hexDigits 4 (u.2.toNat / 16 ^ 12) ++ hexDigits 12 u.2.toNat := by
    rw [← hexDigits_add 4 12]
  rw [formatUuid_eq, hhigh, hlow]
  simp only [List.filter_append, List.filter_cons, filter_hexDigits, ne_eq, not_true, decide_false,
    Bool.false_eq_true, if_false, List.append_assoc]

/-! ## The wire -/

/-- The bytes that a uuid is on the wire. -/
def uuidBytes (u : BitVec 64 × BitVec 64) : List Byte :=
  bigEndian 8 u.1.toNat ++ bigEndian 8 u.2.toNat

/-- SOURCE: proto/packet.hh:83-86 -/
theorem writes_writeUuid (u : BitVec 64 × BitVec 64) :
    Writes (WriterM.writeUuid u) (uuidBytes u) :=
  (writes_integer 8 rfl u.1).bind (writes_integer 8 rfl u.2)

/-- SOURCE: proto/packet.hh:146-150 -/
theorem reads_readUuid {σ : Type} (u : BitVec 64 × BitVec 64) :
    Reads (readUuid : PacketM σ (BitVec 64 × BitVec 64)) (uuidBytes u) u := by
  apply (reads_readIntN 8 rfl u.1).bind
  exact (reads_readIntN 8 rfl u.2).map _

/-- SOURCE: uuid.hh:30-45, proto/packet.hh:83-86, 146-150 — **the text of a uuid is its bytes**. It
has `36` characters, of which the dashes are those at `8`, `13`, `18` and `23`; without them it is
the digits of the `16` bytes that are written for the uuid, so different uuids have different
texts. Reading these bytes gives back the uuid, and so its text. -/
theorem uuid_text (u : BitVec 64 × BitVec 64) :
    (formatUuid u).length = 36 ∧
    (∀ i, (formatUuid u)[i]? = some '-' ↔ i = 8 ∨ i = 13 ∨ i = 18 ∨ i = 23) ∧
    (∃ bytes, (WriterM.writeUuid u).run [] = .ok ((), bytes) ∧ bytes.length = 16 ∧
      (formatUuid u).filter (fun c => c ≠ '-') = hexText bytes ∧
      ∀ (σ : Type) (s : σ) (n : ℕ) (rest : List Byte), 16 ≤ n →
        (readUuid s n).run (bytes ++ rest) = some ((.ok u, s, n - 16), rest)) ∧
    ∀ v, formatUuid v = formatUuid u → v = u := by
  have hlength : (uuidBytes u).length = 16 := by
    unfold uuidBytes
    rw [List.length_append, length_bigEndian, length_bigEndian]
  refine ⟨?_, fun i => ?_, ⟨uuidBytes u, ?_, hlength, ?_, ?_⟩, fun v htext => ?_⟩
  · rw [formatUuid_eq]
    simp only [List.length_append, List.length_cons, length_hexDigits]
  · have hlast : ∀ j, (hexDigits 12 u.2.toNat)[j]? ≠ some '-' := fun j hdash =>
      dash_notMem _ _ (List.mem_of_getElem? hdash)
    rw [formatUuid_eq, getElem?_dash, getElem?_dash, getElem?_dash, getElem?_dash]
    simp only [hlast, and_false, or_false]
    omega
  · exact writes_writeUuid u []
  · have hbytes : ∀ m, hexDigits 16 m = hexText (bigEndian 8 m) := hexDigits_bigEndian 8
    rw [digits_formatUuid, hbytes, hbytes]
    unfold hexText uuidBytes
    rw [List.flatMap_append]
  · intro σ s n rest hn
    rw [← hlength]
    exact reads_readUuid u s n rest (by rw [hlength]; exact hn)
  · have hdigits := digits_formatUuid v
    rw [htext, digits_formatUuid] at hdigits
    obtain ⟨hhigh, hlow⟩ := List.append_inj hdigits (by simp)
    have hfirst := hexDigits_inj u.1.isLt v.1.isLt hhigh
    have hsecond := hexDigits_inj u.2.isLt v.2.isLt hlow
    exact Prod.ext (BitVec.eq_of_toNat_eq hfirst.symm) (BitVec.eq_of_toNat_eq hsecond.symm)

/-- INTERNAL: a uuid with zeros at the front of a group is written and read back. -/
theorem uuid_text_of_zeros :
    ∃ bytes, (WriterM.writeUuid (0x0123456700000001, 0x00000000000000ff)).run [] =
        .ok ((), bytes) ∧
      (readUuid () 16).run (bytes ++ []) =
        some ((.ok (0x0123456700000001, 0x00000000000000ff), (), 0), []) := by
  obtain ⟨_, _, ⟨bytes, hwrite, _, _, hread⟩, _⟩ := uuid_text (0x0123456700000001, 0x00000000000000ff)
  exact ⟨bytes, hwrite, hread Unit () 16 [] (Nat.le_refl 16)⟩

end Mccpp.Analysis
