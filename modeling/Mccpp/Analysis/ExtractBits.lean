import Mccpp.Library.BitString
import Mccpp.Library.Fallible
import Mccpp.Analysis.FieldCodec
import Mccpp.Analysis.SectionFraming

/-!
# Extracting bits

`extract_bits` takes the number of an entry from one word, or its high bits from one and its low
bits from the next (`group_flatMap_bits`). For entries of `4` to `8` bits the one operation that C++
leaves undefined is a shift by `64` whose result is masked with `0`, so that the value is the group
of bits whatever the shift does (`extractBitsIn_eq`), and the entries of a section are its bits cut
into groups (`entries_are_groups`). Over all widths no operation is undefined exactly when an entry
lies in two words with at most `30` bits in each (`extract_bits_defined_iff`).
-/

set_option autoImplicit false

namespace Mccpp.Analysis

open Mccpp.Library Mccpp.Model Mccpp.Model.PacketM Mccpp.Interface

/-! ## The operations -/

/-- INTERNAL: a mask of up to `30` bits.
SOURCE: src/utility/extract_bits.hh:13,16 -/
theorem onesMask_of_le : ∀ n ≤ 30, onesMask n = .ok (BitVec.ofNat 64 (2 ^ n - 1)) := by
  decide

/-- INTERNAL: a mask of more bits is undefined. -/
theorem onesMask_of_gt {n : ℕ} (hn : 30 < n) : ∃ e, onesMask n = .error e := by
  rw [onesMask]
  split_ifs with hwide hover
  · exact ⟨_, rfl⟩
  · exact ⟨_, rfl⟩
  · have hlast : n = 31 := by omega
    rw [hlast] at hover
    exact absurd (by decide) hover

/-- INTERNAL: a mask takes the low bits. -/
theorem toNat_and_ones {n : ℕ} (hn : n ≤ 64) (word : BitVec 64) :
    (word &&& BitVec.ofNat 64 (2 ^ n - 1)).toNat = word.toNat % 2 ^ n := by
  have hpow : 2 ^ n ≤ 2 ^ 64 := Nat.pow_le_pow_right (by omega) hn
  have hpos : 0 < 2 ^ n := Nat.two_pow_pos n
  rw [BitVec.toNat_and, BitVec.toNat_ofNat, Nat.mod_eq_of_lt (by omega),
    Nat.and_two_pow_sub_one_eq_mod]

/-- INTERNAL: the two words of an entry are in the vector. -/
theorem words_of_entry {data : List (BitVec 64)} {offset width : ℕ} (hpos : 1 ≤ width)
    (hrange : offset + width ≤ 64 * (data.length - 1)) :
    ∃ x y, wordAt data (offset / 64) = .ok x ∧ wordAt data (offset / 64 + 1) = .ok y ∧
      ∃ rest, data.drop (offset / 64) = x :: y :: rest := by
  have hlt : offset / 64 + 1 < data.length := by omega
  refine ⟨data[offset / 64], data[offset / 64 + 1], ?_, ?_, data.drop (offset / 64 + 1 + 1), ?_⟩
  · rw [wordAt, List.getElem?_eq_getElem (by omega)]
  · rw [wordAt, List.getElem?_eq_getElem hlt]
  · rw [List.drop_eq_getElem_cons (by omega), List.drop_eq_getElem_cons hlt]

/-! ## The value -/

/-- INTERNAL: words before do not count. -/
theorem drop_flatMap_bits (data : List (BitVec 64)) (n : ℕ) :
    (data.flatMap bits).drop (64 * n) = (data.drop n).flatMap bits := by
  induction n generalizing data with
  | zero => simp
  | succ n ih =>
    cases data with
    | nil => simp
    | cons x data =>
      have hsum : 64 * (n + 1) = (bits x).length + 64 * n := by
        rw [length_bits]
        omega
      rw [List.flatMap_cons, hsum, List.drop_length_add_append, ih, List.drop_succ_cons]

/-- INTERNAL: **an entry is the end of one word and the start of the next**. -/
theorem group_flatMap_bits {data : List (BitVec 64)} {offset width : ℕ} {x y : BitVec 64}
    {rest : List (BitVec 64)} (hdata : data.drop (offset / 64) = x :: y :: rest) {first : ℕ}
    (hfirst : first = if width > 64 - offset % 64 then 64 - offset % 64 else width)
    (hwidth : width ≤ 64) :
    group (data.flatMap bits) offset width =
      x.toNat / 2 ^ (64 - offset % 64 - first) % 2 ^ first * 2 ^ (width - first) +
        y.toNat / 2 ^ (64 - (width - first)) % 2 ^ (width - first) := by
  have hoffset : offset = 64 * (offset / 64) + offset % 64 := by omega
  have hfit : offset % 64 + first ≤ 64 := by
    rw [hfirst]
    split_ifs <;> omega
  have hsecond : width - ((bits x).drop (offset % 64)).length = width - first := by
    rw [List.length_drop, length_bits, hfirst]
    split_ifs <;> omega
  have hhigh : ((bits x).drop (offset % 64)).take width =
      bitString first (x.toNat / 2 ^ (64 - offset % 64 - first)) := by
    rw [← take_drop_bitString hfit, ← bits]
    by_cases hwide : width > 64 - offset % 64
    · rw [if_pos hwide] at hfirst
      rw [List.take_of_length_le (by rw [List.length_drop, length_bits]; omega),
        List.take_of_length_le (by rw [List.length_drop, length_bits]; omega)]
    · rw [if_neg hwide] at hfirst
      rw [hfirst]
  have hlow : ((bits y ++ rest.flatMap bits).take (width - first)) =
      bitString (width - first) (y.toNat / 2 ^ (64 - (width - first))) := by
    have hshort : width - first ≤ (bits y).length := by
      rw [length_bits]
      omega
    have htake := take_drop_bitString (k := 64) (o := 0) (n := width - first) (by omega) y.toNat
    rw [List.take_append_of_le_length hshort]
    simpa [bits] using htake
  rw [group, hoffset, ← List.drop_drop, drop_flatMap_bits, hdata, List.flatMap_cons,
    List.flatMap_cons, ← hoffset, List.drop_append_of_le_length (by rw [length_bits]; omega),
    List.take_append, hsecond, hhigh, hlow, number_append, number_bitString, number_bitString,
    length_bitString]

/-- INTERNAL: a shift that is masked with `0` can yield anything. -/
theorem toNat_shifted_and_ones (wide : BitVec 64 → ℕ → BitVec 64) {n : ℕ} (hn : n ≤ 30)
    (word : BitVec 64) :
    ∃ shifted, shiftRight (fun word n => .ok (wide word n)) word (64 - n) = .ok shifted ∧
      (shifted &&& BitVec.ofNat 64 (2 ^ n - 1)).toNat = word.toNat / 2 ^ (64 - n) % 2 ^ n := by
  rw [shiftRight]
  by_cases hzero : n = 0
  · rw [if_neg (by omega)]
    refine ⟨_, rfl, ?_⟩
    rw [toNat_and_ones (by omega), hzero, Nat.pow_zero, Nat.mod_one, Nat.mod_one]
  · rw [if_pos (by omega)]
    refine ⟨_, rfl, ?_⟩
    rw [toNat_and_ones (by omega), BitVec.toNat_ushiftRight, Nat.shiftRight_eq_div_pow]

/-- INTERNAL: the high bits above the low ones. -/
theorem shiftLeft_or_eq {n A S : ℕ} {high low : BitVec 64} (hhigh : high.toNat = A)
    (hlow : low.toNat = S) (hS : S < 2 ^ n) (hfit : A * 2 ^ n + 2 ^ n ≤ 2 ^ 64) :
    high <<< n ||| low = BitVec.ofNat 64 (A * 2 ^ n + S) := by
  apply BitVec.eq_of_toNat_eq
  rw [BitVec.toNat_or, BitVec.toNat_shiftLeft, hhigh, hlow, BitVec.toNat_ofNat,
    Nat.mod_eq_of_lt (by omega : A * 2 ^ n + S < 2 ^ 64), Nat.shiftLeft_eq,
    Nat.mod_eq_of_lt (by omega), ← Nat.shiftLeft_eq, Nat.shiftLeft_add_eq_or_of_lt hS]

/-- INTERNAL: **the value is the group of bits**, with at most `30` bits in each word.
SOURCE: src/utility/extract_bits.hh:9-21 -/
theorem extractBitsIn_eq {data : List (BitVec 64)} {offset width first : ℕ} (hpos : 1 ≤ width)
    (hrange : offset + width ≤ 64 * (data.length - 1))
    (hfirst : first = if width > 64 - offset % 64 then 64 - offset % 64 else width)
    (hhigh : first ≤ 30) (hlow : width - first ≤ 30) (wide : BitVec 64 → ℕ → BitVec 64) :
    extractBitsIn (fun word n => .ok (wide word n)) data offset width =
      .ok (BitVec.ofNat 64 (group (data.flatMap bits) offset width)) := by
  obtain ⟨x, y, hx, hy, rest, hdata⟩ := words_of_entry hpos hrange
  have hone : 1 ≤ first ∧ offset % 64 + first ≤ 64 := by
    rw [hfirst]
    split_ifs <;> omega
  obtain ⟨shifted, hshifted, hand⟩ := toNat_shifted_and_ones wide hlow y
  have hword : shiftRight (fun word n => .ok (wide word n)) x (64 - offset % 64 - first) =
      .ok (x >>> (64 - offset % 64 - first)) := by
    rw [shiftRight, if_pos (by omega)]
  have hleft (word : BitVec 64) : shiftLeft word (width - first) = .ok (word <<< (width - first)) := by
    rw [shiftLeft, if_pos (by omega)]
  simp only [extractBitsIn, ← hfirst, onesMask_of_le first hhigh, onesMask_of_le _ hlow, hx, hy,
    hword, hshifted, hleft, bind, Except.bind]
  rw [group_flatMap_bits hdata hfirst (by omega)]
  congr 1
  have hA : x.toNat / 2 ^ (64 - offset % 64 - first) % 2 ^ first < 2 ^ first :=
    Nat.mod_lt _ (Nat.two_pow_pos _)
  apply shiftLeft_or_eq _ hand (Nat.mod_lt _ (Nat.two_pow_pos _))
  · calc x.toNat / 2 ^ (64 - offset % 64 - first) % 2 ^ first * 2 ^ (width - first) +
          2 ^ (width - first)
        = (x.toNat / 2 ^ (64 - offset % 64 - first) % 2 ^ first + 1) * 2 ^ (width - first) := by
          rw [Nat.succ_mul]
      _ ≤ 2 ^ first * 2 ^ (width - first) := Nat.mul_le_mul_right _ hA
      _ = 2 ^ (first + (width - first)) := (Nat.pow_add _ _ _).symm
      _ ≤ 2 ^ 64 := Nat.pow_le_pow_right (by omega) (by omega)
  · rw [toNat_and_ones (by omega), BitVec.toNat_ushiftRight, Nat.shiftRight_eq_div_pow]

/-- INTERNAL: an entry of up to `8` bits.
SOURCE: src/utility/extract_bits.hh:9-21, src/world/chunk.cc:58-61 -/
theorem extractBitsIn_of_entry {data : List (BitVec 64)} {offset width : ℕ} (hpos : 1 ≤ width)
    (hsmall : width ≤ 8) (hrange : offset + width ≤ 64 * (data.length - 1))
    (wide : BitVec 64 → ℕ → BitVec 64) :
    extractBitsIn (fun word n => .ok (wide word n)) data offset width =
      .ok (BitVec.ofNat 64 (group (data.flatMap bits) offset width)) := by
  apply extractBitsIn_eq hpos hrange rfl
  · split_ifs <;> omega
  · split_ifs <;> omega

/-! ## The entries of a section -/

/-- INTERNAL: the words have the bits of the bytes that spell them. -/
theorem flatMap_bits_words {n : ℕ} {raw : List Byte} {words : List (BitVec 64)}
    (h : ((numberFormat 64).times n).Spells raw words) :
    words.length = n ∧ words.flatMap bits = raw.flatMap bits := by
  induction n generalizing raw words with
  | zero =>
    obtain ⟨rfl, rfl⟩ := h
    exact ⟨rfl, rfl⟩
  | succ n ih =>
    obtain ⟨us, vs, v, rfl, hv, rest, hrest, rfl⟩ := h
    obtain ⟨hlength, hbits⟩ := ih hrest
    have hus : us = bigEndian 8 v.toNat := hv
    refine ⟨by simp [hlength], ?_⟩
    rw [List.flatMap_cons, List.flatMap_append, hbits, hus, flatMap_bigEndian, ← bits]

/-- INTERNAL: **the entries of some words are their bits cut into groups**.
SOURCE: src/world/chunk.cc:46-61 -/
theorem entries_of_words {words : List (BitVec 64)} {width : ℕ} (hpos : 1 ≤ width)
    (hsmall : width ≤ 8) (hlength : words.length = 4096 * width / 64)
    (wide : BitVec 64 → ℕ → BitVec 64) :
    ∃ values : List (BitVec 64),
      ((List.range 4096).map fun i => extractBitsIn (fun word n => .ok (wide word n)) (words ++ [0])
        (i * width) width) = values.map .ok ∧
      (∀ v ∈ values, v.toNat < 2 ^ width) ∧
      values.flatMap (fun v => bitString width v.toNat) = words.flatMap bits := by
  have htotal : (words.flatMap bits).length = 4096 * width := by
    rw [List.length_flatMap]
    simp [hlength]
    omega
  have hend (i : ℕ) (hi : i < 4096) : i * width + width ≤ 4096 * width := by
    rw [← Nat.succ_mul]
    exact Nat.mul_le_mul_right _ hi
  have hvalue (i : ℕ) : (BitVec.ofNat 64 (group (words.flatMap bits) (i * width) width)).toNat =
      group (words.flatMap bits) (i * width) width := by
    have hlt := group_lt (words.flatMap bits) (i * width) width
    have hpow : 2 ^ width ≤ 2 ^ 8 := Nat.pow_le_pow_right (by omega) hsmall
    rw [BitVec.toNat_ofNat, Nat.mod_eq_of_lt (by omega)]
  refine ⟨(List.range 4096).map fun i =>
    BitVec.ofNat 64 (group (words.flatMap bits) (i * width) width), ?_, ?_, ?_⟩
  · rw [List.map_map]
    apply List.map_congr_left
    intro i hi
    have hlt := hend i (List.mem_range.mp hi)
    rw [extractBitsIn_of_entry hpos hsmall (by simp [hlength]; omega), List.flatMap_append,
      group_append (by omega), Function.comp_apply]
  · intro v hv
    obtain ⟨i, -, rfl⟩ := List.mem_map.mp hv
    rw [hvalue]
    exact group_lt _ _ _
  · rw [List.flatMap_map]
    simp only [hvalue]
    exact flatMap_group htotal

/-- INTERNAL: a result that is thrown away. -/
theorem run_bind_unit {σ α : Type} (p : PacketM σ α) (s : σ) (n : ℕ) (bs : List Byte) :
    ((p >>= fun _ => pure ()) s n).run bs =
      ((p s n).run bs).map fun r => ((r.1.1.map fun _ => (), r.1.2), r.2) := by
  rw [bind_apply, Pull.run_bind]
  cases (p s n).run bs with
  | none => rfl
  | some r =>
    obtain ⟨⟨result, s', n'⟩, left⟩ := r
    cases result <;> rfl

/-- INTERNAL: the entries do not matter for the rest of `load_blocks`.
SOURCE: src/world/chunk.cc:33-65 -/
theorem loadEntries_bind (wide : BitVec 64 → ℕ → Except Undefined (BitVec 64)) (width : ℕ) :
    (do
      let paletteLength ← readVarint
      if paletteLength.toInt < 0 then fail (.decodeError "invalid palette length")
      else
        let _palette ← times paletteLength.toNat readVarint
        let _dataArrayLength ← readVarint
        let _dataArray ← times (4096 * width / 64) readU64
        pure ()) = (loadEntries wide width >>= fun _ => pure ()) := by
  rw [loadEntries, bind_assoc_eq]
  congr 1
  funext paletteLength
  split_ifs
  · rfl
  · simp only [bind_assoc_eq]
    rfl

/-- INTERNAL: `load_blocks` for `1` to `8` bits an entry.
SOURCE: src/world/chunk.cc:20-65 -/
theorem run_loadBlocks {b : Byte} (hpos : 1 ≤ b.toNat) (hsmall : b.toNat ≤ 8)
    (wide : BitVec 64 → ℕ → Except Undefined (BitVec 64)) (c : Chunk) (rest : List Byte) :
    (loadBlocks c (b :: rest).length).run (b :: rest) =
      ((loadEntries wide (max 4 b.toNat) c rest.length).run rest).map fun r =>
        ((r.1.1.map fun _ => (), r.1.2), r.2) := by
  have hzero : ¬ b = 0 := by
    rintro rfl
    exact absurd hpos (by decide)
  have hwidth : (if b.toNat < 4 then 4 else b.toNat) = max 4 b.toNat := by
    split_ifs <;> omega
  have hread : (readU8 c (b :: rest).length).run (b :: rest) = some ((.ok b, c, rest.length), rest) :=
    reads_readU8 b c (b :: rest).length rest (by simp)
  rw [loadBlocks, bind_apply, Pull.run_bind, hread, Option.bind_some, andThen_ok, if_neg hzero,
    if_pos hsmall, ← run_bind_unit, ← loadEntries_bind, ← hwidth]

/-- What `load_blocks` reads behind the bits of an entry, and the values of `entry`. -/
def packedEntries (wide : BitVec 64 → ℕ → Except Undefined (BitVec 64)) (width : ℕ) :
    ByteFormat (List (Except Undefined (BitVec 64))) :=
  varintFormat.bind fun count =>
    if count.toInt < 0 then .refuse
    else (varintFormat.times count.toNat).bind fun _ => varintFormat.bind fun _ =>
      ((numberFormat 64).times (4096 * width / 64)).map fun words =>
        (List.range 4096).map fun i => extractBitsIn wide (words ++ [0]) (i * width) width

/-- INTERNAL: the loop runs over the words that were read. -/
theorem follows_loadEntries (wide : BitVec 64 → ℕ → Except Undefined (BitVec 64)) (width : ℕ) :
    Follows (loadEntries wide width) (.lift (packedEntries wide width)) := by
  rw [loadEntries]
  apply follows_readVarint.lift_bind
  intro count
  split_ifs
  · exact follows_lift_throw rfl
  · exact (follows_readVarint.lift_times _).lift_bind fun _ =>
      follows_readVarint.lift_bind fun _ => ((follows_readIntN 8 rfl).lift_times _).lift_map _

/-- INTERNAL: the words that were read are the last thing before what is left. -/
theorem words_of_packedEntries {wide : BitVec 64 → ℕ → Except Undefined (BitVec 64)} {width : ℕ}
    {used : List Byte} {entries : List (Except Undefined (BitVec 64))}
    (h : (packedEntries wide width).Spells used entries) :
    ∃ head raw words, used = head ++ raw ∧
      ((numberFormat 64).times (4096 * width / 64)).Spells raw words ∧
      entries = (List.range 4096).map fun i =>
        extractBitsIn wide (words ++ [0]) (i * width) width := by
  obtain ⟨cs, _, count, rfl, -, h⟩ := h
  beta_reduce at h
  split_ifs at h
  · exact h.elim
  · obtain ⟨ps, _, _, rfl, -, ls, raw, _, rfl, -, words, hwords, heq⟩ := h
    exact ⟨cs ++ (ps ++ ls), raw, words, by simp, hwords, heq.symm⟩

/-- SOURCE: src/utility/extract_bits.hh:9-21, src/world/chunk.cc:20-65 — **an entry is the number
formed by its bits, and the entries of a section are the bits of its words cut into groups**,
whatever a shift by `64` yields. -/
theorem entries_are_groups :
    (∀ (data : List (BitVec 64)) (offset width : ℕ), 4 ≤ width → width ≤ 8 →
      offset + width ≤ 64 * (data.length - 1) → ∀ wide : BitVec 64 → ℕ → BitVec 64,
        extractBitsIn (fun word n => .ok (wide word n)) data offset width =
          .ok (BitVec.ofNat 64 (group (data.flatMap bits) offset width))) ∧
    ∀ b : Byte, 1 ≤ b.toNat → b.toNat ≤ 8 → ∀ (c : Chunk) (rest : List Byte)
      (wide : BitVec 64 → ℕ → BitVec 64),
      (loadBlocks c (b :: rest).length).run (b :: rest) =
        ((loadEntries (fun word n => .ok (wide word n)) (max 4 b.toNat) c rest.length).run rest).map
          (fun r => ((r.1.1.map fun _ => (), r.1.2), r.2)) ∧
      ∀ entries s left, (loadEntries (fun word n => .ok (wide word n)) (max 4 b.toNat) c
          rest.length).run rest = some ((.ok entries, s), left) →
        ∃ (head raw : List Byte) (values : List (BitVec 64)), rest = head ++ raw ++ left ∧
          8 * raw.length = 4096 * max 4 b.toNat ∧ entries = values.map .ok ∧ entries.length = 4096 ∧ (∀ v ∈ values, v.toNat < 2 ^ max 4 b.toNat) ∧
          values.flatMap (fun v => bitString (max 4 b.toNat) v.toNat) = raw.flatMap bits := by
  refine ⟨?_, ?_⟩
  · intro data offset width hfour height hrange wide
    exact extractBitsIn_of_entry (by omega) height hrange wide
  · intro b hpos hsmall c rest wide
    refine ⟨run_loadBlocks hpos hsmall _ c rest, ?_⟩
    intro entries s left hrun
    obtain ⟨-, used, rfl, _, hspells, heq⟩ :=
      ((follows_loadEntries _ _).sound c rest _ _ hrun).1 entries rfl
    obtain rfl := (Prod.mk.inj heq).1
    obtain ⟨head, raw, words, rfl, hwords, hentries⟩ := words_of_packedEntries hspells
    obtain ⟨hlength, hbits⟩ := flatMap_bits_words hwords
    have hraw : 8 * raw.length = 4096 * max 4 b.toNat := by
      rw [length_times_words hwords]
      omega
    obtain ⟨values, hvalues, hlt, hflat⟩ :=
      @entries_of_words words (max 4 b.toNat) (by omega) (by omega) hlength wide
    refine ⟨head, raw, values, rfl, hraw, hentries.trans hvalues, ?_, hlt, hflat.trans hbits⟩
    rw [hentries, List.length_map, List.length_range]

/-! ## Undefined operations -/

/-- INTERNAL: no operation is undefined only with `1` to `30` bits in each word. -/
theorem le_of_defined {data : List (BitVec 64)} {offset width first : ℕ} {r : BitVec 64}
    (hfirst : first = if width > 64 - offset % 64 then 64 - offset % 64 else width)
    (h : extractBitsIn (fun _ _ => .error .shiftAmount) data offset width = .ok r) :
    first ≤ 30 ∧ width - first ≤ 30 ∧ 1 ≤ width - first := by
  simp only [extractBitsIn, ← hfirst] at h
  obtain ⟨_, hmask, h⟩ := bind_eq_ok_iff.mp h
  obtain ⟨_, -, h⟩ := bind_eq_ok_iff.mp h
  obtain ⟨_, -, h⟩ := bind_eq_ok_iff.mp h
  obtain ⟨_, hmask', h⟩ := bind_eq_ok_iff.mp h
  obtain ⟨_, -, h⟩ := bind_eq_ok_iff.mp h
  obtain ⟨_, hshift, -⟩ := bind_eq_ok_iff.mp h
  have hle {n : ℕ} {mask : BitVec 64} (hn : onesMask n = .ok mask) : n ≤ 30 := by
    by_contra hgt
    obtain ⟨e, he⟩ := onesMask_of_gt (Nat.lt_of_not_le hgt)
    rw [he] at hn
    cases hn
  refine ⟨hle hmask, hle hmask', ?_⟩
  by_contra hzero
  rw [shiftRight, if_neg (by omega)] at hshift
  cases hshift

/-- SOURCE: src/utility/extract_bits.hh:9-21 — **no operation is undefined if and only if the entry
lies in two words, with at most `30` bits in each**. -/
theorem extract_bits_defined_iff {data : List (BitVec 64)} {offset width : ℕ} (hpos : 1 ≤ width)
    (hwidth : width ≤ 64) (hrange : offset + width ≤ 64 * (data.length - 1)) :
    (∃ r, extractBitsIn (fun _ _ => .error .shiftAmount) data offset width = .ok r) ↔
      34 ≤ offset % 64 ∧ 64 < offset % 64 + width ∧ offset % 64 + width ≤ 94 := by
  constructor
  · rintro ⟨r, h⟩
    obtain ⟨hhigh, hlow, hone⟩ := le_of_defined rfl h
    split_ifs at hhigh hlow hone with hwide <;> omega
  · rintro ⟨hstart, htwo, hend⟩
    obtain ⟨x, y, hx, hy, -⟩ := words_of_entry hpos hrange
    have hfirst : (if width > 64 - offset % 64 then 64 - offset % 64 else width) =
        64 - offset % 64 := if_pos (by omega)
    have hright (word : BitVec 64) (n : ℕ) (hn : n < 64) :
        shiftRight (fun _ _ => .error .shiftAmount) word n = .ok (word >>> n) := by
      rw [shiftRight, if_pos hn]
    have hleft (word : BitVec 64) : shiftLeft word (width - (64 - offset % 64)) =
        .ok (word <<< (width - (64 - offset % 64))) := by
      rw [shiftLeft, if_pos (by omega)]
    simp only [extractBitsIn, hfirst, onesMask_of_le (64 - offset % 64) (by omega),
      onesMask_of_le (width - (64 - offset % 64)) (by omega), hx, hy,
      hright x (64 - offset % 64 - (64 - offset % 64)) (by omega),
      hright y (64 - (width - (64 - offset % 64))) (by omega), hleft, bind, Except.bind]
    exact ⟨_, rfl⟩

/-- An entry of eight bits in two words. -/
theorem extract_bits_defined_of_straddling :
    ∃ r, extractBitsIn (fun _ _ => .error .shiftAmount) [0, 0, 0] 60 8 = .ok r :=
  (extract_bits_defined_iff (by decide) (by decide) (by decide)).mpr (by decide)

/-- SOURCE: src/utility/extract_bits.hh:17, test/client/extract_bits.cc:8 — an entry in one word
shifts the next word by `64`. -/
theorem extract_bits_undefined_of_first :
    0 + 8 ≤ 64 * (([0x0123456789abcdef, 0x1032547698badcfe, 0] : List (BitVec 64)).length - 1) ∧
      extractBitsIn (fun _ _ => .error .shiftAmount)
        [0x0123456789abcdef, 0x1032547698badcfe, 0] 0 8 = .error .shiftAmount := by
  decide

end Mccpp.Analysis
