import Mccpp.Interface.Field
import Mccpp.Analysis.LayoutRules

/-!
# Fields are read as they were written

The writer puts the bytes of each field behind its buffer (`Writes`), the reader takes exactly
these bytes off again (`Reads`), so a sequence of fields comes back as it was. The one field
whose bytes depend on its value is the variable length integer: with `position` bits read, the
loop of the reader holds `V % 2 ^ position` and the loop of the writer is left with
`V / 2 ^ position`.
-/

set_option autoImplicit false

namespace Mccpp.Analysis

open Mccpp.Library Mccpp.Model Mccpp.Model.PacketM Mccpp.Interface

variable {σ : Type}

/-! ## Groups of seven bits -/

theorem toNat_segmentBits {w : ℕ} (hw : 8 ≤ w) (value : BitVec w) :
    (value &&& segmentBits.setWidth w).toNat = value.toNat % 128 := by
  have hmask : (segmentBits.setWidth w).toNat = 2 ^ 7 - 1 := by
    rw [BitVec.toNat_setWidth]
    exact Nat.mod_eq_of_lt (Nat.lt_of_lt_of_le (by decide : (127 : ℕ) < 2 ^ 8)
      (Nat.pow_le_pow_right (by omega) hw))
  rw [BitVec.toNat_and, hmask, Nat.and_two_pow_sub_one_eq_mod]

/-- INTERNAL: the test of the writer for the last group. -/
theorem no_more_groups_iff {w : ℕ} (hw : 8 ≤ w) (value : BitVec w) :
    value &&& ~~~segmentBits.setWidth w = 0 ↔ value.toNat < 128 := by
  have hlow : value.toNat < 128 ↔ value &&& segmentBits.setWidth w = value := by
    rw [← BitVec.toNat_inj, toNat_segmentBits hw]
    omega
  rw [hlow]
  constructor
  · intro h
    apply BitVec.eq_of_getLsbD_eq
    intro i hi
    have hbit : (value &&& ~~~segmentBits.setWidth w).getLsbD i = (0 : BitVec w).getLsbD i := by
      rw [h]
    simp only [BitVec.getLsbD_and, BitVec.getLsbD_not, hi, decide_true, Bool.true_and] at hbit ⊢
    cases hv : value.getLsbD i <;> cases hs : (segmentBits.setWidth w).getLsbD i <;>
      simp_all
  · intro h
    rw [← h, BitVec.and_assoc]
    apply BitVec.eq_of_getLsbD_eq
    intro i hi
    simp [hi]

theorem no_continueBit_iff (b : Byte) : b &&& continueBit = 0 ↔ b.toNat < 128 := by
  have hall : ∀ b : Byte, b &&& continueBit = 0 ↔ b.toNat < 128 := by decide +kernel
  exact hall b

theorem toNat_lastGroup {w : ℕ} {value : BitVec w} (h : value.toNat < 128) :
    (value.setWidth 8).toNat = value.toNat := by
  rw [BitVec.toNat_setWidth]
  exact Nat.mod_eq_of_lt (by omega)

theorem toNat_moreGroup {w : ℕ} (hw : 8 ≤ w) (value : BitVec w) :
    ((value &&& segmentBits.setWidth w ||| continueBit.setWidth w).setWidth 8).toNat =
      value.toNat % 128 + 128 := by
  have hbit : (continueBit.setWidth w).toNat = 2 ^ 7 * 1 := by
    rw [BitVec.toNat_setWidth]
    exact Nat.mod_eq_of_lt (Nat.lt_of_lt_of_le (by decide : (128 : ℕ) < 2 ^ 8)
      (Nat.pow_le_pow_right (by omega) hw))
  have hlt : value.toNat % 128 < 2 ^ 7 := Nat.mod_lt _ (by omega)
  rw [BitVec.toNat_setWidth, BitVec.toNat_or, toNat_segmentBits hw, hbit, Nat.or_comm,
    ← Nat.two_pow_add_eq_or_of_lt hlt]
  omega

/-- INTERNAL: the reader puts a group behind the bits it has. -/
theorem toNat_addGroup {w : ℕ} (hw : 8 ≤ w) {value : BitVec w} {V position g : ℕ} {b : Byte}
    (hvalue : value.toNat = V % 2 ^ position) (hb : b.toNat % 128 = g)
    (hfit : g * 2 ^ position < 2 ^ w) :
    (value ||| (b &&& segmentBits).setWidth w <<< position).toNat =
      V % 2 ^ position + g * 2 ^ position := by
  have hgroup : ((b &&& segmentBits).setWidth w).toNat = g := by
    have hbyte : (b &&& segmentBits).toNat = g := by
      have := toNat_segmentBits (le_refl 8) b
      rw [BitVec.setWidth_eq] at this
      rw [this, hb]
    rw [BitVec.toNat_setWidth, hbyte]
    refine Nat.mod_eq_of_lt (Nat.lt_of_lt_of_le (by omega : g < 2 ^ 8) ?_)
    exact Nat.pow_le_pow_right (by omega) hw
  rw [BitVec.toNat_or, BitVec.toNat_shiftLeft, hgroup, hvalue, Nat.shiftLeft_eq,
    Nat.mod_eq_of_lt hfit, Nat.or_comm, Nat.mul_comm,
    ← Nat.two_pow_add_eq_or_of_lt (Nat.mod_lt _ (Nat.two_pow_pos _))]
  omega

/-! ## Variable length integers -/

/-- INTERNAL: **the reader's loop gets back what the writer's loop writes**.
SOURCE: proto/varint.hh:19-61 -/
theorem spells_writeVarintLoop {w : ℕ} (hw : 8 ≤ w) (V : BitVec w) {fuel position : ℕ}
    {value left : BitVec w} (hvalue : value.toNat = V.toNat % 2 ^ position)
    (hleft : left.toNat = V.toNat / 2 ^ position) (hpos : position < w)
    (hfuel : w ≤ position + 7 * fuel) :
    SpellsVarint value position (writeVarintLoop fuel left) V := by
  induction fuel generalizing position value left with
  | zero => omega
  | succ fuel ih =>
    have hpow : 0 < 2 ^ position := Nat.two_pow_pos position
    have hV := V.isLt
    have hsplit := Nat.div_add_mod V.toNat (2 ^ position)
    rw [Nat.mul_comm] at hsplit
    rw [writeVarintLoop]
    by_cases hlast : left.toNat < 128
    · -- the last group
      rw [if_pos ((no_more_groups_iff hw left).mpr hlast), spells_varint_cons]
      have hbyte := toNat_lastGroup hlast
      have hadd := toNat_addGroup hw (b := left.setWidth 8) hvalue
        (g := left.toNat) (by rw [hbyte]; omega) (by rw [hleft]; omega)
      have hdone : (left.setWidth 8 : Byte) &&& continueBit = 0 := by
        rw [no_continueBit_iff, hbyte]
        exact hlast
      unfold asyncReadStep
      rw [if_pos hdone]
      refine ⟨rfl, ?_⟩
      apply BitVec.eq_of_toNat_eq
      rw [hadd, hleft]
      omega
    · -- a group with more behind it
      rw [if_neg fun h => hlast ((no_more_groups_iff hw left).mp h), spells_varint_cons]
      have hbyte := toNat_moreGroup hw left
      have hshift : 2 ^ (position + 7) = 2 ^ position * 128 := by rw [Nat.pow_add]
      have hnext : position + 7 < w := by
        by_contra hge
        have hle : 2 ^ w ≤ 2 ^ (position + 7) := Nat.pow_le_pow_right (by omega) (by omega)
        have hmul : 128 * 2 ^ position ≤ left.toNat * 2 ^ position :=
          Nat.mul_le_mul_right _ (by omega)
        rw [← hleft] at hsplit
        omega
      have hgroup : left.toNat % 128 * 2 ^ position < 2 ^ w := by
        have hmul : left.toNat % 128 * 2 ^ position ≤ left.toNat * 2 ^ position :=
          Nat.mul_le_mul_right _ (Nat.mod_le _ _)
        rw [← hleft] at hsplit
        omega
      have hadd := toNat_addGroup hw hvalue
        (b := (left &&& segmentBits.setWidth w ||| continueBit.setWidth w).setWidth 8)
        (g := left.toNat % 128) (by rw [hbyte]; omega) hgroup
      have hmore : ¬((left &&& segmentBits.setWidth w ||| continueBit.setWidth w).setWidth 8 : Byte)
          &&& continueBit = 0 := by
        rw [no_continueBit_iff, hbyte]
        omega
      simp only [asyncReadStep]
      rw [if_neg hmore, if_neg (by omega)]
      refine ih ?_ ?_ hnext (by omega)
      · rw [hadd, hshift, Nat.mod_mul, hleft, Nat.mul_comm (2 ^ position)]
      · rw [BitVec.toNat_ushiftRight, hleft, Nat.shiftRight_eq_div_pow, Nat.div_div_eq_div_mul,
          hshift]

/-- INTERNAL: `varint::write` writes what the reader spells. -/
theorem spells_varintWrite (v : BitVec 32) : varintFormat.Spells (varintWrite v) v :=
  spells_writeVarintLoop (by omega) v (by simp [Nat.mod_one]) (by simp) (by omega) (by omega)

/-- INTERNAL: the loop takes the bytes that spell a value, whatever remains behind them.
SOURCE: proto/varint.hh:37-61 -/
theorem reads_readVarintLoop {w fuel : ℕ} {value : BitVec w} {position : ℕ} {bs : List Byte}
    {v : BitVec w} (h : SpellsVarint value position bs v) (hfuel : w ≤ position + 7 * fuel)
    (hpos : position < w) :
    Reads (readVarintLoop w fuel value position : PacketM σ (BitVec w)) bs v := by
  induction bs generalizing fuel value position with
  | nil => exact h.elim
  | cons b bs ih =>
    obtain ⟨fuel, rfl⟩ := Nat.exists_eq_succ_of_ne_zero (by omega : fuel ≠ 0)
    rw [spells_varint_cons] at h
    refine (reads_readByte b).bind ?_
    cases hb : asyncReadStep value position b with
    | done value =>
      rw [hb] at h
      obtain ⟨rfl, rfl⟩ := h
      exact reads_pure v
    | more value position =>
      rw [hb] at h
      obtain ⟨hp, hlt⟩ := asyncReadStep_more hb
      exact ih h (by omega) hlt
    | invalid =>
      rw [hb] at h
      exact h.elim

theorem reads_readVarint (v : BitVec 32) :
    Reads (readVarint : PacketM σ (BitVec 32)) (varintWrite v) v :=
  reads_readVarintLoop (spells_varintWrite v) (by omega) (by omega)

/-! ## Writing a field -/

/-- `m` puts `bs` behind the buffer. -/
def Writes (m : WriterM Unit) (bs : List Byte) : Prop :=
  ∀ buffer, m buffer = .ok ((), buffer ++ bs)

theorem writes_pure : Writes (pure ()) [] := by
  intro buffer
  rw [List.append_nil]
  rfl

theorem Writes.bind {m m' : WriterM Unit} {bs cs : List Byte} (hm : Writes m bs)
    (hm' : Writes m' cs) : Writes (do m; m') (bs ++ cs) := by
  intro buffer
  rw [← List.append_assoc]
  show (m buffer >>= fun r => m' r.2) = _
  rw [hm buffer]
  exact hm' (buffer ++ bs)

theorem writes_emplaceBack (b : Byte) : Writes (WriterM.emplaceBack b) [b] := fun _ => rfl

theorem writes_writeBytes (data : List Byte) : Writes (WriterM.writeBytes data false) data :=
  fun _ => rfl

theorem writes_writeVarint (v : BitVec 32) : Writes (WriterM.writeVarint v) (varintWrite v) := by
  have hall : ∀ bs : List Byte, Writes (bs.forM WriterM.emplaceBack) bs := by
    intro bs
    induction bs with
    | nil => exact writes_pure
    | cons b bs ih => exact (writes_emplaceBack b).bind ih
  exact hall _

/-- INTERNAL: the bytes of a number in memory, the other way round, are big-endian.
SOURCE: proto/packet.cc:55-62, proto/packet.hh:98-101 -/
theorem asBytes_reverse {w : ℕ} (k : ℕ) (hw : w = 8 * k) (v : BitVec w) :
    (asBytes v).reverse = bigEndian k v.toNat := by
  have hbyte : ∀ i, (v >>> (8 * i)).setWidth 8 = BitVec.ofNat 8 (v.toNat / 256 ^ i) := by
    intro i
    apply BitVec.eq_of_toNat_eq
    rw [BitVec.toNat_setWidth, BitVec.toNat_ushiftRight, Nat.shiftRight_eq_div_pow,
      BitVec.toNat_ofNat, pow_mul]
    norm_num
  have hall : ∀ k, ((List.range k).map fun i => (v >>> (8 * i)).setWidth 8).reverse =
      bigEndian k v.toNat := by
    intro k
    induction k with
    | zero => rfl
    | succ k ih =>
      rw [List.range_succ, List.map_append, List.reverse_append, ih, List.map_singleton,
        List.reverse_singleton, List.singleton_append, hbyte, bigEndian_succ]
  have hk : w / 8 = k := by omega
  unfold asBytes
  rw [hk]
  exact hall k

theorem writes_integer {w : ℕ} (k : ℕ) (hw : w = 8 * k) (v : BitVec w) :
    Writes (WriterM.writeBytes (asBytes v) true) (bigEndian k v.toNat) := by
  intro buffer
  rw [← asBytes_reverse k hw]
  rfl

/-- INTERNAL: a string within the limit of the writer, which is four bytes a code point.
SOURCE: proto/packet.cc:63-81 -/
theorem writes_writeString {max : ℕ} {v : List Byte} (hmax : max ≤ 32767)
    (hlen : v.length ≤ max * 4) : Writes (WriterM.writeString max v) (Field.encodeString v) := by
  have hlong : ¬v.length > max * 4 := by omega
  unfold WriterM.writeString
  rw [if_neg (by simpa using hmax), if_neg hlong]
  exact (writes_writeVarint _).bind (writes_writeBytes v)

theorem writes_write {f : Field} (h : f.Fits) : Writes f.write f.encode := by
  cases f with
  | varint v => exact writes_writeVarint v
  | bool v => exact writes_emplaceBack _
  | u8 v => exact writes_emplaceBack v
  | u16 v => exact writes_integer 2 rfl v
  | u32 v => exact writes_integer 4 rfl v
  | u64 v => exact writes_integer 8 rfl v
  | i8 v => exact writes_emplaceBack v
  | i16 v => exact writes_integer 2 rfl v
  | i32 v => exact writes_integer 4 rfl v
  | i64 v => exact writes_integer 8 rfl v
  | uuid v => exact (writes_integer 8 rfl v.1).bind (writes_integer 8 rfl v.2)
  | bytes v => exact writes_writeBytes v
  | string max v => exact writes_writeString h.1 (Nat.le_trans h.2 (by omega))
  | identifier v => exact writes_writeString (le_refl _) (Nat.le_trans h (by omega))

/-! ## Reading a field -/

theorem reads_readBool (v : Bool) :
    Reads (readBool : PacketM σ Bool) [if v then 0x01 else 0x00] v := by
  refine (reads_readByte _).bind ?_
  cases v <;> exact reads_pure _

theorem reads_readU8 (v : BitVec 8) : Reads (readU8 : PacketM σ (BitVec 8)) [v] v := by
  have hbytes : bigEndian 1 v.toNat = [v] := by
    rw [bigEndian_succ, bigEndian_zero, pow_zero, Nat.div_one, BitVec.ofNat_toNat,
      BitVec.setWidth_eq]
  rw [← hbytes]
  exact reads_readIntN 1 rfl v

theorem reads_readByteArray (bs : List Byte) :
    Reads (readByteArray bs.length : PacketM σ (List Byte)) bs bs := by
  intro s n rest hn
  simp only [readByteArray, bind_apply, remaining, require, setRemaining, hn, decide_true, if_true,
    Pull.bind_done, andThen_ok, pure_apply]
  exact run_times_pullByte bs rest s (n - bs.length)

/-- INTERNAL: a string within the limit of the reader.
SOURCE: proto/packet.cc:195-217 -/
theorem reads_readString {max : ℕ} {v : List Byte} (hmax : max ≤ 32767) (hlen : v.length ≤ max) :
    Reads (readString max : PacketM σ (List Byte)) (Field.encodeString v) v := by
  obtain ⟨hnat, hint⟩ := toInt_ofNat_length (n := v.length) (by omega)
  have hrequire : (require (max ≤ 32767) "max_code_points <= 32767" : PacketM σ Unit) = pure () := by
    unfold require
    rw [if_pos (decide_eq_true hmax)]
  unfold readString
  rw [hrequire, pure_bind_eq]
  refine (reads_readVarint _).bind ?_
  rw [if_neg (by omega), if_neg (by omega), hnat]
  exact reads_readCharArray v

theorem reads_read {f : Field} (h : f.Fits) :
    Reads (f.kind.read : PacketM σ Field) f.encode f := by
  cases f with
  | varint v => exact (reads_readVarint v).map _
  | bool v => exact (reads_readBool v).map _
  | u8 v => exact (reads_readU8 v).map _
  | u16 v => exact (reads_readIntN 2 rfl v).map _
  | u32 v => exact (reads_readIntN 4 rfl v).map _
  | u64 v => exact (reads_readIntN 8 rfl v).map _
  | i8 v => exact (reads_readU8 v).map _
  | i16 v => exact (reads_readIntN 2 rfl v).map _
  | i32 v => exact (reads_readIntN 4 rfl v).map _
  | i64 v => exact (reads_readIntN 8 rfl v).map _
  | uuid v => exact ((reads_readIntN 8 rfl v.1).bind ((reads_readIntN 8 rfl v.2).map _)).map _
  | bytes v => exact (reads_readByteArray v).map _
  | string max v => exact (reads_readString h.1 h.2).map _
  | identifier v => exact (reads_readString (le_refl _) h).map _

/-! ## All fields -/

theorem writes_writeAll {fields : List Field} (h : ∀ f ∈ fields, f.Fits) :
    Writes (Field.writeAll fields) (fields.flatMap Field.encode) := by
  induction fields with
  | nil => exact writes_pure
  | cons f fields ih =>
    rw [List.forall_mem_cons] at h
    rw [List.flatMap_cons]
    exact (writes_write h.1).bind (ih h.2)

theorem reads_readAll {fields : List Field} (h : ∀ f ∈ fields, f.Fits) :
    Reads (FieldKind.readAll (fields.map Field.kind) : PacketM σ (List Field))
      (fields.flatMap Field.encode) fields := by
  induction fields with
  | nil => exact reads_pure []
  | cons f fields ih =>
    rw [List.forall_mem_cons] at h
    rw [List.flatMap_cons]
    exact (reads_read h.1).bind ((ih h.2).map _)

/-- SOURCE: proto/packet.cc:9-217, proto/packet.hh:65-172 — **fields are read as they were
written**. For every sequence of fields, the writer makes a buffer of it, and a reader over
that buffer and whatever follows it returns the same fields, has nothing remaining, and leaves
all that follows. -/
theorem field_codec_round_trip (fields : List Field) (h : ∀ f ∈ fields, f.Fits) (s : σ)
    (after : List Byte) :
    ∃ buffer, Field.writeAll fields [] = .ok ((), buffer) ∧
      ((FieldKind.readAll (fields.map Field.kind) : PacketM σ (List Field)) s buffer.length).run
        (buffer ++ after) = some ((.ok fields, s, 0), after) := by
  refine ⟨fields.flatMap Field.encode, writes_writeAll h [], ?_⟩
  have hread := reads_readAll (σ := σ) h s (fields.flatMap Field.encode).length after (le_refl _)
  rwa [Nat.sub_self] at hread

theorem field_codec_round_trip_negative :
    ∃ buffer, Field.writeAll [.varint (-1), .bool true, .i16 (-2), .string 16 [72, 105],
        .bytes [1, 2, 3], .uuid (7, -7)] [] = .ok ((), buffer) ∧
      ((FieldKind.readAll [.varint, .bool, .i16, .string 16, .bytes 3, .uuid] :
        PacketM Unit (List Field)) () buffer.length).run (buffer ++ [255, 255]) =
        some ((.ok [.varint (-1), .bool true, .i16 (-2), .string 16 [72, 105], .bytes [1, 2, 3],
          .uuid (7, -7)], (), 0), [255, 255]) :=
  field_codec_round_trip [.varint (-1), .bool true, .i16 (-2), .string 16 [72, 105],
    .bytes [1, 2, 3], .uuid (7, -7)] (by simp [Field.Fits]) () [255, 255]

end Mccpp.Analysis
