import Mccpp.Interface.HexDump
import Mccpp.Model.Formatting
import Mathlib.Data.List.Forall2

/-!
# The columns of a dump

A line prints `(w - 1) / 4` separators between the groups of its `w` bytes, but the padding of a
short line is computed for `w / 4` of them. Where `w` is a multiple of four below sixteen the
characters are one column to the left (`length_numbers`), and the dump is not aligned if there is
another line (`dumps_iff`).
-/

set_option autoImplicit false

namespace Mccpp.Analysis

open Mccpp.Library Mccpp.Model Mccpp.Interface

variable (span : List Byte)

/-! ## Parts of a line -/

/-- INTERNAL: a byte is two digits. -/
theorem formatHex_byte (b : Byte) : formatHex 2 b.toNat = hexDigits 2 b.toNat :=
  leftpad_toDigits (by omega) (by have := b.isLt; omega)

/-- INTERNAL: one more byte, with the separator in front of it. -/
theorem formatGroups_succ (l w : ℕ) :
    formatGroups span l (w + 1) = formatGroups span l w ++
      ((if w ≠ 0 ∧ w % 4 = 0 then [' '] else []) ++ hexDigits 2 (span.getD (l + w) 0).toNat) := by
  unfold formatGroups
  rw [List.range_succ, List.flatMap_append, List.flatMap_singleton, formatHex_byte]

/-- INTERNAL: the numbers of `w` bytes, with a separator in front of every fourth but the first.
SOURCE: utility/format.hh:35-40 -/
theorem length_formatGroups (l w : ℕ) : (formatGroups span l w).length = 2 * w + (w - 1) / 4 := by
  induction w with
  | zero => simp [formatGroups]
  | succ w ih =>
    rw [formatGroups_succ, List.length_append, List.length_append, length_hexDigits, ih]
    split
    · rename_i h
      rw [List.length_singleton]
      omega
    · rename_i h
      rw [List.length_nil]
      omega

theorem space_notMem (k m : ℕ) : ' ' ∉ hexDigits k m := by
  intro h
  have hdigit := mem_hexDigits h
  revert hdigit
  decide

theorem newline_notMem (k m : ℕ) : '\n' ∉ hexDigits k m := by
  intro h
  have hdigit := mem_hexDigits h
  revert hdigit
  decide

theorem take_drop_succ {l w : ℕ} (h : l + w < span.length) :
    (span.drop l).take (w + 1) = (span.drop l).take w ++ [span.getD (l + w) 0] := by
  have hbound : w < (span.drop l).length := by rw [List.length_drop]; omega
  have hget : span.getD (l + w) 0 = (span.drop l)[w] := by
    rw [List.getElem_drop, List.getD_eq_getElem?_getD, List.getElem?_eq_getElem h, Option.getD_some]
  rw [List.take_succ_eq_append_getElem hbound, hget]

/-- INTERNAL: without the separators the groups are the digits of the bytes. -/
theorem digits_formatGroups (l w : ℕ) (h : l + w ≤ span.length) :
    (formatGroups span l w).filter (fun c => c ≠ ' ') = hexText ((span.drop l).take w) := by
  induction w with
  | zero => simp [formatGroups, hexText]
  | succ w ih =>
    have hdigits : (hexDigits 2 (span.getD (l + w) 0).toNat).filter (fun c => c ≠ ' ') =
        hexDigits 2 (span.getD (l + w) 0).toNat := by
      rw [List.filter_eq_self]
      intro c hc
      apply decide_eq_true
      rintro rfl
      exact space_notMem _ _ hc
    have hseparator : (if w ≠ 0 ∧ w % 4 = 0 then [' '] else []).filter (fun c => c ≠ ' ') = [] := by
      split <;> simp
    rw [formatGroups_succ, List.filter_append, List.filter_append, hseparator, hdigits,
      List.nil_append, ih (by omega), take_drop_succ span (by omega)]
    unfold hexText
    rw [List.flatMap_append, List.flatMap_singleton]

/-- INTERNAL: the characters of the bytes. -/
theorem formatChars_eq (l w : ℕ) (h : l + w ≤ span.length) :
    formatChars span l w = ((span.drop l).take w).map shownAs := by
  induction w with
  | zero => simp [formatChars]
  | succ w ih =>
    have hlast : formatChars span l (w + 1) =
        formatChars span l w ++ [shownAs (span.getD (l + w) 0)] := by
      unfold formatChars shownAs isprint
      rw [List.range_succ, List.map_append, List.map_singleton]
      simp only [decide_eq_true_eq]
    rw [hlast, ih (by omega), take_drop_succ span (by omega), List.map_append, List.map_singleton]

/-! ## A line -/

/-- The number of bytes on line `r`. -/
def lineWidth (r : ℕ) : ℕ := min 16 (span.length - 16 * r)

/-- What a line puts in front of the characters of its `w` bytes. -/
def numbersPart (l w : ℕ) : List Char :=
  formatGroups span l w ++
    (if w < 16 then List.replicate (sizeSub (sizeSub (16 * 2 + 3) (2 * w)) (w / 4)) ' ' else []) ++
    [' ']

variable {span}

theorem formatLine_eq (r : ℕ) :
    formatLine span (16 * r) =
      numbersPart span (16 * r) (lineWidth span r) ++
        formatChars span (16 * r) (lineWidth span r) := by
  have hwidth : (if span.length - 16 * r > 16 then 16 else span.length - 16 * r) =
      lineWidth span r := by
    unfold lineWidth
    split <;> omega
  unfold formatLine numbersPart
  dsimp only
  rw [hwidth, List.append_assoc _ [' ']]
  rfl

/-- INTERNAL: **where the characters begin**. The padding counts a separator too many when the
last group is full.
SOURCE: utility/format.hh:42-49 -/
theorem length_numbersPart (l : ℕ) {w : ℕ} (hpos : 0 < w) (hw : w ≤ 16) :
    (numbersPart span l w).length = if w < 16 ∧ w % 4 = 0 then 35 else 36 := by
  unfold numbersPart
  rw [List.length_append, List.length_append, length_formatGroups, List.length_singleton]
  by_cases hshort : w < 16
  · have hmodulus := sizeModulus_eq_literal
    have hinner : sizeSub (16 * 2 + 3) (2 * w) = 35 - 2 * w := sizeSub_of_le (by omega) (by omega)
    have houter : sizeSub (35 - 2 * w) (w / 4) = 35 - 2 * w - w / 4 :=
      sizeSub_of_le (by omega) (by omega)
    rw [if_pos hshort, hinner, houter, List.length_replicate]
    split
    · omega
    · omega
  · rw [if_neg hshort, List.length_nil]
    split
    · omega
    · omega

theorem length_dumpRow (r : ℕ) : (dumpRow span r).length = lineWidth span r := by
  unfold dumpRow lineWidth
  rw [List.length_take, List.length_drop]

theorem take_lineWidth (r : ℕ) : (span.drop (16 * r)).take (lineWidth span r) = dumpRow span r := by
  unfold dumpRow lineWidth
  rcases Nat.le_total 16 (span.length - 16 * r) with h | h
  · rw [Nat.min_eq_left h]
  · rw [Nat.min_eq_right h, List.take_of_length_le (by rw [List.length_drop]),
      List.take_of_length_le (by rw [List.length_drop]; exact h)]

theorem lineWidth_bounds {r : ℕ} (hr : 16 * r < span.length) :
    0 < lineWidth span r ∧ lineWidth span r ≤ 16 ∧ 16 * r + lineWidth span r ≤ span.length := by
  unfold lineWidth
  omega

theorem length_formatLine (r : ℕ) :
    (formatLine span (16 * r)).length =
      (numbersPart span (16 * r) (lineWidth span r)).length + lineWidth span r := by
  rw [formatLine_eq, List.length_append]
  simp [formatChars]

theorem charColumn_formatLine (r : ℕ) :
    charColumn (dumpRow span r) (formatLine span (16 * r)) =
      (numbersPart span (16 * r) (lineWidth span r)).length := by
  unfold charColumn
  rw [length_formatLine, length_dumpRow]
  omega

/-- INTERNAL: a line shows its row. -/
theorem showsRow_formatLine {r : ℕ} (hr : 16 * r < span.length) :
    ShowsRow (dumpRow span r) (formatLine span (16 * r)) := by
  obtain ⟨_, _, hfits⟩ := lineWidth_bounds hr
  constructor
  · rw [charColumn_formatLine, formatLine_eq, List.take_left]
    unfold numbersPart
    rw [List.filter_append, List.filter_append, digits_formatGroups span _ _ hfits, take_lineWidth]
    split <;> simp
  · rw [charColumn_formatLine, formatLine_eq, List.drop_left,
      formatChars_eq span _ _ hfits, take_lineWidth]

/-- INTERNAL: no line is broken. -/
theorem newline_notMem_formatLine {r : ℕ} (hr : 16 * r < span.length) :
    '\n' ∉ formatLine span (16 * r) := by
  have hgroups : ∀ l w, '\n' ∉ formatGroups span l w := by
    intro l w
    induction w with
    | zero => simp [formatGroups]
    | succ w ih =>
      rw [formatGroups_succ, List.mem_append, List.mem_append]
      rintro (h | h | h)
      · exact ih h
      · split at h
        · simp at h
        · cases h
      · exact newline_notMem _ _ h
  have hshown : ∀ b, shownAs b ≠ '\n' := by decide
  obtain ⟨_, _, hfits⟩ := lineWidth_bounds hr
  rw [formatLine_eq, List.mem_append, formatChars_eq span _ _ hfits, numbersPart, List.mem_append,
    List.mem_append]
  rintro (((h | h) | h) | h)
  · exact hgroups _ _ h
  · split at h
    · have hspace := (List.mem_replicate.mp h).2
      revert hspace
      decide
    · cases h
  · simp at h
  · obtain ⟨b, _, hb⟩ := List.mem_map.mp h
    exact hshown b hb

/-! ## The text -/

/-- INTERNAL: the lines behind the first one, each with a line break in front.
SOURCE: utility/format.hh:28-31 -/
theorem formatLines_eq (fuel r : ℕ) (hr : 0 < r) (hfuel : span.length ≤ 16 * r + fuel) :
    formatLines span fuel (16 * r) =
      (List.range' r ((span.length + 15) / 16 - r)).flatMap
        fun i => '\n' :: formatLine span (16 * i) := by
  induction fuel generalizing r with
  | zero =>
    have hnone : (span.length + 15) / 16 - r = 0 := by omega
    rw [hnone]
    rfl
  | succ fuel ih =>
    unfold formatLines
    by_cases hmore : 16 * r < span.length
    · have hcount : (span.length + 15) / 16 - r = (span.length + 15) / 16 - (r + 1) + 1 := by omega
      have hnonzero : 16 * r ≠ 0 := by omega
      have hnext : 16 * r + 16 = 16 * (r + 1) := by omega
      rw [if_pos hmore, if_pos hnonzero, hnext, ih (r + 1) (by omega) (by omega), hcount,
        List.range'_succ, List.flatMap_cons]
      rfl
    · have hnone : (span.length + 15) / 16 - r = 0 := by omega
      rw [if_neg hmore, hnone]
      rfl

theorem intercalate_cons_eq {α : Type} (a : α) (l : List α) (ls : List (List α)) :
    [a].intercalate (l :: ls) = l ++ ls.flatMap (a :: ·) := by
  induction ls generalizing l with
  | nil => simp [List.intercalate]
  | cons l' ls ih =>
    rw [List.intercalate_cons_cons, ih, List.flatMap_cons]
    simp

/-- INTERNAL: **the lines of the text**. -/
theorem textLines_formatSpan :
    textLines (formatSpan true span) =
      (List.range ((span.length + 15) / 16)).map fun r => formatLine span (16 * r) := by
  unfold formatSpan
  rw [if_pos rfl]
  rcases Nat.eq_zero_or_pos span.length with hempty | hpos
  · rw [hempty]
    rfl
  · obtain ⟨n, hn⟩ := Nat.exists_eq_succ_of_ne_zero (Nat.ne_of_gt hpos)
    have hcount : (span.length + 15) / 16 = (span.length + 15) / 16 - 1 + 1 := by omega
    have hlines : (List.range ((span.length + 15) / 16)).map (fun r => formatLine span (16 * r)) =
        formatLine span 0 ::
          (List.range' 1 ((span.length + 15) / 16 - 1)).map fun r => formatLine span (16 * r) := by
      rw [List.range_eq_range', hcount, List.range'_succ, List.map_cons, Nat.add_sub_cancel]
    have htext : formatLines span span.length 0 =
        ['\n'].intercalate
          ((List.range ((span.length + 15) / 16)).map fun r => formatLine span (16 * r)) := by
      have hrest := @formatLines_eq span n 1 (by omega) (by omega)
      rw [hlines, intercalate_cons_eq, List.flatMap_map, ← hrest, hn]
      conv_lhs => unfold formatLines
      rw [if_pos hpos, if_neg (by simp), List.nil_append, Nat.zero_add]
    have hnonempty : formatLines span span.length 0 ≠ [] := by
      rw [htext, hlines, intercalate_cons_eq]
      intro hnil
      have hlength := congrArg List.length (List.append_eq_nil_iff.mp hnil).1
      have hwidth := (@lineWidth_bounds span 0 (by omega)).1
      rw [@length_formatLine span 0, List.length_nil] at hlength
      omega
    unfold textLines
    rw [if_neg hnonempty, htext, List.splitOn_intercalate]
    · intro line hline
      obtain ⟨r, hr, rfl⟩ := List.mem_map.mp hline
      rw [List.mem_range] at hr
      exact newline_notMem_formatLine (by omega)
    · rw [hlines]
      simp

/-- INTERNAL: what holds of the rows and their lines. -/
theorem forall₂_lines_iff (p : List Byte → List Char → Prop) :
    List.Forall₂ p (dumpRows span) (textLines (formatSpan true span)) ↔
      ∀ r, 16 * r < span.length → p (dumpRow span r) (formatLine span (16 * r)) := by
  rw [textLines_formatSpan, dumpRows, List.forall₂_map_left_iff, List.forall₂_map_right_iff,
    List.forall₂_same]
  constructor
  · intro h r hr
    exact h r (List.mem_range.mpr (by omega))
  · intro h r hr
    rw [List.mem_range] at hr
    exact h r (by omega)

theorem flatten_dumpRows : (dumpRows span).flatten = span := by
  have hrows : ∀ k, ((List.range k).map (dumpRow span)).flatten = span.take (16 * k) := by
    intro k
    induction k with
    | zero => simp
    | succ k ih =>
      rw [List.range_succ, List.map_append, List.flatten_append, ih, Nat.mul_succ, List.take_add]
      simp [dumpRow]
  unfold dumpRows
  rw [hrows, List.take_of_length_le (by omega)]

/-- INTERNAL: the first line is full when there is a second one, and the characters of a full line
begin in column `36`. -/
theorem aligned_iff :
    Aligned span (formatSpan true span) ↔
      span.length ≤ 16 ∨ span.length % 16 = 0 ∨ span.length % 4 ≠ 0 := by
  have hcolumn : ∀ r, 16 * r < span.length →
      charColumn (dumpRow span r) (formatLine span (16 * r)) =
        if lineWidth span r < 16 ∧ lineWidth span r % 4 = 0 then 35 else 36 := by
    intro r hr
    obtain ⟨hpos, hle, _⟩ := lineWidth_bounds hr
    rw [charColumn_formatLine, length_numbersPart _ hpos hle]
  unfold Aligned
  simp only [forall₂_lines_iff]
  constructor
  · rintro ⟨column, hall⟩
    by_contra hnot
    have hfirst := hall 0 (by omega)
    have hlast := hall (span.length / 16) (by omega)
    rw [hcolumn _ (by omega)] at hfirst hlast
    unfold lineWidth at hfirst hlast
    rw [if_neg (by omega)] at hfirst
    rw [if_pos (by omega)] at hlast
    omega
  · intro hcondition
    by_cases hsingle : span.length ≤ 16
    · refine ⟨if lineWidth span 0 < 16 ∧ lineWidth span 0 % 4 = 0 then 35 else 36, fun r hr => ?_⟩
      have hzero : r = 0 := by omega
      rw [hcolumn r hr, hzero]
    · refine ⟨36, fun r hr => ?_⟩
      rw [hcolumn r hr]
      unfold lineWidth
      rw [if_neg (by omega)]

/-- SOURCE: utility/format.hh:24-67 — **when a dump is one**. There is always a line for every
sixteen bytes begun, and it shows the digits of its bytes in order and their characters. The
characters begin in the same column on all lines, so that the text is a dump, if and only if there
is one line at most, or the last line has sixteen bytes, or its last group has less than four. -/
theorem dumps_iff (span : List Byte) :
    ((textLines (formatSpan true span)).length = (span.length + 15) / 16 ∧
      ShowsRows span (formatSpan true span)) ∧
    (Dumps span (formatSpan true span) ↔
      span.length ≤ 16 ∨ span.length % 16 = 0 ∨ span.length % 4 ≠ 0) := by
  have hcount : (textLines (formatSpan true span)).length = (span.length + 15) / 16 := by
    rw [textLines_formatSpan, List.length_map, List.length_range]
  have hrows : ShowsRows span (formatSpan true span) :=
    (forall₂_lines_iff ShowsRow).mpr fun r hr => showsRow_formatLine hr
  refine ⟨⟨hcount, hrows⟩, ?_⟩
  rw [← aligned_iff]
  exact ⟨fun h => h.aligned, fun h => ⟨hcount, hrows, flatten_dumpRows, h⟩⟩

/-- INTERNAL: of twenty bytes, the last four have their characters one column to the left. -/
theorem dump_of_twenty_unaligned : ¬∀ span : List Byte, Dumps span (formatSpan true span) := by
  intro h
  have haligned := aligned_iff.mp (h (List.replicate 20 0x41)).aligned
  rw [List.length_replicate] at haligned
  omega

end Mccpp.Analysis
