import Mccpp.Interface.Section
import Mccpp.Analysis.LayoutRules

/-!
# The framing of sections

`load_blocks` reads the declared number of words and takes no notice of it: it skips as many
words as the entries take, and nothing at all behind the bits when an entry has more than
eight. It frames a section exactly when the section declares at most eight bits and the number
of words that goes with them (`section_framed_iff`).
-/

set_option autoImplicit false

namespace Mccpp.Analysis

open Mccpp.Library Mccpp.Model Mccpp.Model.PacketM Mccpp.Interface

theorem follows_loadBlocks : Follows loadBlocks blocksLayout := by
  unfold loadBlocks
  refine (follows_readIntN 1 rfl).bind fun bits => ?_
  split
  · exact follows_readVarint.bind fun value => (follows_set _).bind fun _ =>
      follows_readVarint.lift_map _
  · rename_i hbits
    split
    · refine follows_readVarint.lift_bind fun count => ?_
      split
      · exact follows_lift_throw rfl
      · have hwords : wordCount bits = 4096 * (if bits.toNat < 4 then 4 else bits.toNat) / 64 := by
          unfold wordCount entryBits
          rw [if_neg hbits]
        rw [hwords]
        exact (follows_readVarint.lift_times _).lift_bind fun _ =>
          follows_readVarint.lift_bind fun _ => ((follows_readIntN 8 rfl).lift_times _).lift_map _
    · exact follows_pure ()

theorem metered_set {σ : Type} (s : σ) : Metered (set s : PacketM σ Unit) :=
  fun _ _ _ _ => (Pull.within_done _ _ _).mpr (accounted_ok.mpr rfl)

theorem metered_loadBlocks : Metered loadBlocks := by
  unfold loadBlocks
  refine (metered_readIntN 8).bind fun bits => ?_
  split
  · exact metered_readVarint.bind fun value => (metered_set _).bind fun _ =>
      metered_readVarint.bind fun _ => metered_pure ()
  · split
    · refine metered_readVarint.bind fun count => ?_
      split
      · exact metered_fail (by simp)
      · exact (metered_readVarint.times _).bind fun _ => metered_readVarint.bind fun _ =>
          ((metered_readIntN 64).times _).bind fun _ => metered_pure ()
    · exact metered_pure ()

/-! ## Lengths -/

theorem spells_bits {us : List Byte} {bits : BitVec 8} :
    (numberFormat 8).Spells us bits ↔ us = [bits] := by
  have hbytes : bigEndian 1 bits.toNat = [bits] := by
    rw [bigEndian_succ, bigEndian_zero, pow_zero, Nat.div_one, BitVec.ofNat_toNat,
      BitVec.setWidth_eq]
  show us = bigEndian (8 / 8) bits.toNat ↔ _
  rw [show 8 / 8 = 1 from rfl, hbytes]

theorem varint_ne_nil {us : List Byte} {v : BitVec 32} (h : varintFormat.Spells us v) : us ≠ [] := by
  rintro rfl
  exact h

theorem length_times_words {n : ℕ} {us : List Byte} {words : List (BitVec 64)}
    (h : ((numberFormat 64).times n).Spells us words) : us.length = 8 * n := by
  induction n generalizing us words with
  | zero =>
    obtain ⟨rfl, _⟩ := h
    rfl
  | succ n ih =>
    obtain ⟨vs, ws, v, rfl, hv, _, hw, _⟩ := h
    have hlen : vs.length = 8 := by
      rw [hv, length_bigEndian]
    rw [List.length_append, hlen, ih hw]
    omega

/-- INTERNAL: any words of enough bytes are spelled, and fewer bytes break the reader. -/
theorem words_or_cut (n : ℕ) (bs : List Byte) :
    (8 * n ≤ bs.length ∧ ∃ us left words, bs = us ++ left ∧
        ((numberFormat 64).times n).Spells us words) ∨
      ((numberFormat 64).times n).Breaks bs .cutOff := by
  induction n generalizing bs with
  | zero => exact Or.inl ⟨Nat.zero_le _, [], bs, [], rfl, rfl, rfl⟩
  | succ n ih =>
    by_cases hlen : bs.length < 8
    · exact Or.inr (Or.inl ⟨rfl, hlen⟩)
    · have htake : (bs.take 8).length = 8 := by
        rw [List.length_take]
        omega
      obtain ⟨v, hv⟩ := spells_numberFormat (w := 64) (k := 8) rfl htake
      have hsplit := List.take_append_drop 8 bs
      rcases ih (bs.drop 8) with ⟨hlong, us, left, words, hus, hspells⟩ | hbreaks
      · rw [List.length_drop] at hlong
        refine Or.inl ⟨by omega, bs.take 8 ++ us, left, v :: words, ?_, ?_⟩
        · rw [List.append_assoc, ← hus, hsplit]
        · exact ⟨bs.take 8, us, v, rfl, hv, words, hspells, rfl⟩
      · exact Or.inr (Or.inr ⟨bs.take 8, bs.drop 8, v, hsplit.symm, hv, hbreaks⟩)

/-! ## What the layout takes -/

/-- INTERNAL: for at most eight bits, a section is its header and the words of its entries.
SOURCE: world/chunk.cc:20-65 -/
theorem spells_blocksLayout {c c' : Chunk} {us : List Byte}
    (h : (blocksLayout c).Spells us ((), c')) :
    (∃ bits : BitVec 8, 8 < bits.toNat ∧ us = [bits]) ∨
      ∃ header words bits length, us = header ++ words ∧ bits.toNat ≤ 8 ∧
        sectionHeader.Spells header (bits, length) ∧ words.length = 8 * wordCount bits := by
  obtain ⟨bs, vs, ⟨bits, _⟩, rfl, ⟨_, hbits, hpair⟩, h⟩ := h
  cases hpair
  dsimp only at h
  split at h
  · rename_i hzero
    obtain ⟨ws, _, ⟨value, _⟩, rfl, ⟨_, hvalue, hpair⟩, xs, ys, _, rfl, ⟨rfl, _⟩, _, ⟨length, hlength, _⟩,
      _⟩ := h
    cases hpair
    refine Or.inr ⟨bs ++ (ws ++ ([] ++ ys)), [], bits, length, ?_, ?_, ?_, ?_⟩
    · rw [List.append_nil]
    · rw [hzero]
      exact Nat.zero_le _
    · refine ⟨bs, ws ++ ys, bits, rfl, hbits, ws, ys, (), rfl, ?_, length, hlength, rfl⟩
      rw [paletteFormat, if_pos hzero]
      exact ⟨_, hvalue, rfl⟩
    · rw [hzero]
      rfl
  · rename_i hzero
    split at h
    · rename_i hfew
      obtain ⟨_, ⟨cs, ws, count, rfl, hcount, h⟩, _⟩ := h
      beta_reduce at h
      split at h
      · exact h.elim
      · rename_i hnonneg
        obtain ⟨ps, _, palette, rfl, hpalette, ls, ws, length, rfl, hlength, words, hwords, _⟩ := h
        refine Or.inr ⟨bs ++ (cs ++ ps ++ ls), ws, bits, length, ?_, hfew, ?_,
          length_times_words hwords⟩
        · simp only [List.append_assoc]
        · refine ⟨bs, cs ++ ps ++ ls, bits, rfl, hbits, cs ++ ps, ls, (), rfl, ?_, length, hlength,
            rfl⟩
          rw [paletteFormat, if_neg hzero, if_pos hfew]
          refine ⟨cs, ps, count, rfl, hcount, ?_⟩
          beta_reduce
          rw [if_neg hnonneg]
          exact ⟨palette, hpalette, rfl⟩
    · rename_i hmany
      obtain ⟨rfl, _⟩ := h
      refine Or.inl ⟨bits, by omega, ?_⟩
      rw [List.append_nil]
      exact spells_bits.mp hbits

/-- INTERNAL: behind a header of at most eight bits the layout takes the words of the entries,
or breaks where they are cut off.
SOURCE: world/chunk.cc:20-65 -/
theorem blocksLayout_of_header (c : Chunk) {header : List Byte} (rest : List Byte) {bits : BitVec 8}
    {length : BitVec 32} (hheader : sectionHeader.Spells header (bits, length))
    (hfew : bits.toNat ≤ 8) :
    (∃ words left c', rest = words ++ left ∧ (blocksLayout c).Spells (header ++ words) ((), c')) ∨
      (blocksLayout c).Breaks (header ++ rest) .cutOff := by
  obtain ⟨bs, _, bits', rfl, hbits, ps, ls, _, rfl, hpalette, length', hlength, hpair⟩ := hheader
  cases hpair
  by_cases hzero : bits = 0
  · rw [paletteFormat, if_pos hzero] at hpalette
    obtain ⟨value, hvalue, _⟩ := hpalette
    refine Or.inl ⟨[], rest, ⟨fun _ => blockFromGlobalPalette value⟩, rfl, bs, ps ++ ls, (bits, c),
      List.append_nil _, ⟨bits, hbits, rfl⟩, ?_⟩
    dsimp only
    rw [if_pos hzero]
    exact ⟨ps, ls, (value, c), rfl, ⟨value, hvalue, rfl⟩, [], ls, _, rfl, ⟨rfl, rfl⟩, (),
      ⟨length, hlength, rfl⟩, rfl⟩
  · rw [paletteFormat, if_neg hzero, if_pos hfew] at hpalette
    obtain ⟨cs, ps, count, rfl, hcount, hpalette⟩ := hpalette
    beta_reduce at hpalette
    split at hpalette
    · exact hpalette.elim
    · rename_i hnonneg
      obtain ⟨palette, hpalette, _⟩ := hpalette
      rcases words_or_cut (wordCount bits) rest with ⟨_, words, left, vs, rfl, hwords⟩ | hbreaks
      · refine Or.inl ⟨words, left, c, rfl, bs, cs ++ (ps ++ (ls ++ words)), (bits, c), by simp,
          ⟨bits, hbits, rfl⟩, ?_⟩
        dsimp only
        rw [if_neg hzero, if_pos hfew]
        refine ⟨(), ⟨cs, ps ++ (ls ++ words), count, rfl, hcount, ?_⟩, rfl⟩
        beta_reduce
        rw [if_neg hnonneg]
        exact ⟨ps, ls ++ words, palette, rfl, hpalette, ls, words, length, rfl, hlength, vs, hwords,
          rfl⟩
      · refine Or.inr (Or.inr ⟨bs, cs ++ (ps ++ (ls ++ rest)), (bits, c), by simp,
          ⟨bits, hbits, rfl⟩, ?_⟩)
        dsimp only
        rw [if_neg hzero, if_pos hfew]
        refine Or.inr ⟨cs, ps ++ (ls ++ rest), count, rfl, hcount, ?_⟩
        beta_reduce
        rw [if_neg hnonneg]
        exact Or.inr ⟨ps, ls ++ rest, palette, rfl, hpalette,
          Or.inr ⟨ls, rest, length, rfl, hlength, hbreaks⟩⟩

/-! ## When sections are framed -/

/-- The section has at most eight bits an entry, and declares the number of words that goes with
them, as far as these fields are there. -/
structure DeclaresItsWords (bs : List Byte) : Prop where
  bits : ∀ b rest, bs = b :: rest → b.toNat ≤ 8
  words : ∀ header rest bits length, bs = header ++ rest →
    sectionHeader.Spells header (bits, length) → Fits bits length

theorem header_bits {header : List Byte} {bits : BitVec 8} {length : BitVec 32}
    (h : sectionHeader.Spells header (bits, length)) :
    ∃ b bs, header = bits :: b :: bs := by
  obtain ⟨us, _, bits', rfl, hbits, ps, ls, _, rfl, _, length', hlength, hpair⟩ := h
  cases hpair
  rw [spells_bits.mp hbits]
  cases ps with
  | nil =>
    cases ls with
    | nil => exact absurd rfl (varint_ne_nil hlength)
    | cons b ls => exact ⟨b, ls, rfl⟩
  | cons b ps => exact ⟨b, ps ++ ls, rfl⟩

/-- INTERNAL: more than eight bits are taken for a whole section.
SOURCE: world/chunk.cc:33-65 -/
theorem run_of_many_bits (c : Chunk) {b : Byte} (hb : ¬b.toNat ≤ 8) (rest : List Byte) :
    (loadBlocks c (b :: rest).length).run (b :: rest) = some ((.ok (), c, rest.length), rest) := by
  refine follows_loadBlocks.reads c [b] rest () c ?_
  refine ⟨[b], [], (b, c), rfl, ⟨b, spells_bits.mpr rfl, rfl⟩, ?_⟩
  have hzero : ¬b = 0 := by
    rintro rfl
    exact hb (Nat.zero_le 8)
  dsimp only
  rw [if_neg hzero, if_neg hb]
  exact ⟨rfl, rfl⟩

/-- INTERNAL: a section of more than eight bits is not framed, whatever follows.
SOURCE: world/chunk.cc:33-65 -/
theorem not_framed_of_many_bits (c : Chunk) {b : Byte} (hb : ¬b.toNat ≤ 8) (rest : List Byte) :
    ¬FramesSection c (b :: rest) := by
  rintro ⟨r, left, hrun, hreturns, _⟩
  rw [run_of_many_bits c hb rest] at hrun
  cases hrun
  obtain ⟨_, header, words, bits, length, hbs, hheader, _⟩ := hreturns rfl
  obtain ⟨b', bs', rfl⟩ := header_bits hheader
  have hlen := congrArg List.length hbs
  simp only [List.length_cons, List.length_append] at hlen
  omega

/-- SOURCE: world/chunk.cc:20-65 — **when a section is framed**. Over every bytes and every
chunk, `load_blocks` takes exactly what the section declares, and throws when the declared
number of words does not fit, if and only if the section has at most eight bits an entry and
declares the number of words that goes with them. -/
theorem section_framed_iff (c : Chunk) (bs : List Byte) :
    FramesSection c bs ↔ DeclaresItsWords bs := by
  constructor
  · rintro ⟨r, left, hrun, hreturns, hthrows⟩
    have hfew : ∀ b rest, bs = b :: rest → b.toNat ≤ 8 := by
      rintro b rest rfl
      by_contra hmany
      exact not_framed_of_many_bits c hmany rest ⟨r, left, hrun, hreturns, hthrows⟩
    refine ⟨hfew, fun header rest bits length hbs hheader => ?_⟩
    by_contra hfit
    obtain ⟨what, herror⟩ := hthrows header rest bits length hbs hheader hfit
    obtain ⟨b, bs', hcons⟩ := header_bits hheader
    have hbits := hfew bits (b :: bs' ++ rest) (by rw [hbs, hcons]; rfl)
    rcases blocksLayout_of_header c rest hheader hbits with
      ⟨words, left', c', rfl, hspells⟩ | hbreaks
    · have hread := follows_loadBlocks.reads c (header ++ words) left' () c' hspells
      rw [List.append_assoc, ← hbs, hrun] at hread
      cases hread
      cases herror
    · obtain ⟨e, s', n, left', hfail, hk⟩ := follows_loadBlocks.fails c (header ++ rest) _ hbreaks
      rw [← hbs, hrun] at hfail
      cases hfail
      cases herror
      cases hk
  · rintro ⟨hfew, hfits⟩
    obtain ⟨r, left, hrun, _⟩ := metered_loadBlocks.run c bs
    refine ⟨r, left, hrun, fun hok => ?_, fun header rest bits length hbs hheader hfit => ?_⟩
    · obtain ⟨hcount, used, rfl, hspells⟩ := (follows_loadBlocks.sound c bs r left hrun).1 () hok
      rcases spells_blocksLayout hspells with ⟨bits, hmany, rfl⟩ |
        ⟨header, words, bits, length, rfl, _, hheader, hwords⟩
      · have := hfew bits left rfl
        omega
      · have hfit : length.toInt = wordCount bits :=
          hfits header (words ++ left) bits length (List.append_assoc _ _ _) hheader
        refine ⟨hcount, header, words, bits, length, rfl, hheader, ?_⟩
        rw [hfit, hwords]
        push_cast
        rfl
    · exact absurd (hfits header rest bits length hbs hheader) hfit

/-- SOURCE: world/chunk.cc:33-65 — a section of fifteen bits that declares one word: the byte
of the declared length and the word are left for the next section. -/
theorem section_of_fifteen_bits_not_framed :
    ¬FramesSection ⟨fun _ => ⟨true, ⟨0, 0, 0⟩⟩⟩ [15, 1, 0, 0, 0, 0, 0, 0, 0, 7] :=
  not_framed_of_many_bits _ (by decide) _

end Mccpp.Analysis
