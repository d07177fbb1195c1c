import Mccpp.Library.Segments
import Mccpp.Interface.BlockVariants

/-!
# Names and flags of variants

`parse_variant_kv_pairs` takes one segment of the name in each round, so it stops, and fails at the
first segment without `=` that it comes to (`parseVariantKvPairs_next`). It does not come to an empty one
after a final comma.
-/

set_option autoImplicit false

namespace Mccpp.Analysis

open Mccpp.Library Mccpp.Model Mccpp.Interface

/-! ## Names of variants -/

theorem substrTo_of_not_mem {text : List Char} {c : Char} (h : c ∉ text) : substrTo text c = text := by
  unfold substrTo
  rw [List.idxOf?_eq_none_iff.mpr h]

theorem substrTo_append {text : List Char} {c : Char} (h : c ∉ text) (rest : List Char) :
    substrTo (text ++ c :: rest) c = text := by
  unfold substrTo
  rw [idxOf?_append_cons h]
  exact List.take_left

/-- The assertion of `parse_variant_kv_pairs`. -/
def noEquals : DataFailure := .assertFailed "equals_pos != std::string_view::npos"

theorem parseVariantKvPairs_nil (fuel : ℕ) : parseVariantKvPairs (fuel + 1) [] = some (.ok []) := rfl

/-- INTERNAL: a round on a segment without `=`.
SOURCE: main.cc:18-20 -/
theorem parseVariantKvPairs_bad {variant text : List Char} (hne : variant ≠ [])
    (htext : substrTo variant ',' = text) (hbad : '=' ∉ text) (fuel : ℕ) :
    parseVariantKvPairs (fuel + 1) variant = some (.error noEquals) := by
  have hempty : ¬variant.isEmpty = true := by simpa using hne
  rw [parseVariantKvPairs, if_neg hempty]
  simp only [htext, List.idxOf?_eq_none_iff.mpr hbad]
  rfl

/-- INTERNAL: a round on a pair.
SOURCE: main.cc:18-27 -/
theorem parseVariantKvPairs_pair {variant key value : List Char}
    (htext : substrTo variant ',' = key ++ '=' :: value) (hkey : '=' ∉ key) (fuel : ℕ) :
    parseVariantKvPairs (fuel + 1) variant =
      (parseVariantKvPairs fuel
        (if (key ++ '=' :: value).length < variant.length then
          variant.drop ((key ++ '=' :: value).length + 1) else [])).map
        fun list => list.map fun pairs => (key, value) :: pairs := by
  have hempty : ¬variant.isEmpty = true := by
    intro h
    rw [List.isEmpty_iff] at h
    subst h
    simp [substrTo] at htext
  rw [parseVariantKvPairs, if_neg hempty]
  simp only [htext, idxOf?_append_cons hkey, List.take_left]
  congr 3
  simp

/-- INTERNAL: the last segment. -/
theorem parseVariantKvPairs_last {key value : List Char} (hkey : ',' ∉ key) (hvalue : ',' ∉ value)
    (hequals : '=' ∉ key) (fuel : ℕ) :
    parseVariantKvPairs (fuel + 2) (key ++ '=' :: value) = some (.ok [(key, value)]) := by
  have htext : substrTo (key ++ '=' :: value) ',' = key ++ '=' :: value :=
    substrTo_of_not_mem (by simp [hkey, hvalue])
  rw [parseVariantKvPairs_pair htext hequals, if_neg (Nat.lt_irrefl _), parseVariantKvPairs_nil]
  rfl

/-- INTERNAL: a segment before others. -/
theorem parseVariantKvPairs_next {key value : List Char} (hkey : ',' ∉ key) (hvalue : ',' ∉ value)
    (hequals : '=' ∉ key) (rest : List Char) (fuel : ℕ) :
    parseVariantKvPairs (fuel + 1) (key ++ '=' :: value ++ ',' :: rest) =
      (parseVariantKvPairs fuel rest).map fun list => list.map fun pairs => (key, value) :: pairs := by
  have htext : substrTo (key ++ '=' :: value ++ ',' :: rest) ',' = key ++ '=' :: value :=
    substrTo_append (by simp [hkey, hvalue]) rest
  have hrest : (key ++ '=' :: value ++ ',' :: rest).drop ((key ++ '=' :: value).length + 1) = rest :=
    List.drop_length_add_append 1
  rw [parseVariantKvPairs_pair htext hequals, if_pos (by simp), hrest]

/-- INTERNAL: **what is written is read back**, by induction on the pairs.
SOURCE: main.cc:15-30 -/
theorem parseVariantKvPairs_variantText {pairs : List (List Char × List Char)}
    (hpairs : ∀ pair ∈ pairs, PlainPair pair) {fuel : ℕ} (hfuel : (variantText pairs).length < fuel) :
    parseVariantKvPairs fuel (variantText pairs) = some (.ok pairs) := by
  induction pairs generalizing fuel with
  | nil =>
    obtain ⟨fuel, rfl⟩ := Nat.exists_eq_add_of_le' hfuel
    rfl
  | cons pair pairs ih =>
    have hpair := hpairs pair List.mem_cons_self
    have hrest := fun other hother => hpairs other (List.mem_cons_of_mem pair hother)
    cases pairs with
    | nil =>
      have htext : variantText [pair] = pair.1 ++ '=' :: pair.2 := by simp [variantText]
      rw [htext] at hfuel ⊢
      simp at hfuel
      obtain ⟨fuel, rfl⟩ := Nat.exists_eq_add_of_le' (show 2 ≤ fuel by omega)
      exact parseVariantKvPairs_last hpair.key.1 hpair.value hpair.key.2 fuel
    | cons next pairs =>
      have htext : variantText (pair :: next :: pairs) =
          pair.1 ++ '=' :: pair.2 ++ ',' :: variantText (next :: pairs) := by
        simp [variantText, List.intercalate_cons_cons]
      rw [htext] at hfuel ⊢
      simp at hfuel
      obtain ⟨fuel, rfl⟩ := Nat.exists_eq_add_of_le' (show 1 ≤ fuel by omega)
      rw [parseVariantKvPairs_next hpair.key.1 hpair.value hpair.key.2, ih hrest (by omega)]
      rfl

theorem eq_of_singleton_eq {α : Type} {a b : α} {before after : List α}
    (h : [a] = before ++ b :: after) : before = [] ∧ b = a ∧ after = [] := by
  cases before with
  | nil =>
    obtain ⟨rfl, rfl⟩ := List.cons.inj h
    exact ⟨rfl, rfl, rfl⟩
  | cons c before =>
    have hlength := congrArg List.length h
    simp at hlength

theorem hasBadSegment_last {text : List Char} (h : ',' ∉ text) : HasBadSegment text ↔ '=' ∉ text := by
  unfold HasBadSegment
  rw [List.splitOn_eq_singleton h]
  constructor
  · rintro ⟨before, segment, after, heq, hbad, -⟩
    obtain ⟨-, rfl, -⟩ := eq_of_singleton_eq heq
    exact hbad
  · intro hbad
    exact ⟨[], text, [], rfl, hbad, by simp⟩

/-- INTERNAL: an empty rest does not count. -/
theorem hasBadSegment_next {first : List Char} (hfirst : ',' ∉ first) (rest : List Char) :
    HasBadSegment (first ++ ',' :: rest) ↔ '=' ∉ first ∨ rest ≠ [] ∧ HasBadSegment rest := by
  unfold HasBadSegment
  rw [List.splitOn_append_cons_self_of_not_mem hfirst]
  constructor
  · rintro ⟨before, segment, after, heq, hbad, hend⟩
    cases before with
    | nil =>
      obtain ⟨rfl, -⟩ := List.cons.inj heq
      exact Or.inl hbad
    | cons head before =>
      obtain ⟨rfl, hrest⟩ := List.cons.inj heq
      refine Or.inr ⟨?_, before, segment, after, hrest, hbad, ?_⟩
      · rintro rfl
        obtain ⟨-, hsegment, hafter⟩ := eq_of_singleton_eq hrest
        exact hend ⟨by simp, hsegment, hafter⟩
      · rintro ⟨-, hsegment, hafter⟩
        exact hend ⟨by simp, hsegment, hafter⟩
  · rintro (hbad | ⟨hne, before, segment, after, heq, hbad, hend⟩)
    · exact ⟨[], first, _, rfl, hbad, by simp⟩
    · refine ⟨first :: before, segment, after, by rw [heq]; rfl, hbad, ?_⟩
      rintro ⟨-, rfl, rfl⟩
      cases before with
      | nil =>
        apply hne
        have hjoin : [','].intercalate (rest.splitOn ',') = rest := List.intercalate_splitOn ','
        rw [heq] at hjoin
        exact hjoin.symm
      | cons head before => exact hend ⟨by simp, rfl, rfl⟩

/-- INTERNAL: **the loop stops**, at the first segment without `=` that it comes to, or with all pairs.
SOURCE: main.cc:15-30 -/
theorem parseVariantKvPairs_stops {variant : List Char} (hne : variant ≠ []) {fuel : ℕ}
    (hfuel : variant.length < fuel) :
    (HasBadSegment variant → parseVariantKvPairs fuel variant = some (.error noEquals)) ∧
      (¬HasBadSegment variant → ∃ pairs, parseVariantKvPairs fuel variant = some (.ok pairs)) := by
  induction variant using @segments_induction Char _ ',' generalizing fuel with
  | last text hmem =>
    rw [hasBadSegment_last hmem]
    constructor
    · intro hbad
      obtain ⟨fuel, rfl⟩ := Nat.exists_eq_add_of_le' (show 1 ≤ fuel by omega)
      exact parseVariantKvPairs_bad hne (substrTo_of_not_mem hmem) hbad fuel
    · intro hequals
      obtain ⟨key, value, rfl, hkey⟩ := List.eq_append_cons_of_mem (not_not.mp hequals)
      simp at hmem hfuel
      obtain ⟨fuel, rfl⟩ := Nat.exists_eq_add_of_le' (show 2 ≤ fuel by omega)
      exact ⟨_, parseVariantKvPairs_last hmem.1 hmem.2 hkey fuel⟩
  | next first rest hfirst ih =>
    rw [hasBadSegment_next hfirst]
    simp at hfuel
    obtain ⟨fuel, rfl⟩ := Nat.exists_eq_add_of_le' (show 1 ≤ fuel by omega)
    by_cases hequals : '=' ∈ first
    · obtain ⟨key, value, rfl, hkey⟩ := List.eq_append_cons_of_mem hequals
      rw [List.mem_append, List.mem_cons, not_or, not_or] at hfirst
      rw [parseVariantKvPairs_next hfirst.1 hfirst.2.2 hkey]
      by_cases hrest : rest = []
      · subst hrest
        obtain ⟨fuel, rfl⟩ := Nat.exists_eq_add_of_le' (show 1 ≤ fuel by omega)
        rw [parseVariantKvPairs_nil]
        simp
        exact ⟨_, rfl⟩
      · obtain ⟨hbad, hgood⟩ := @ih hrest fuel (by omega)
        constructor
        · rintro (h | ⟨-, h⟩)
          · exact absurd hequals h
          · rw [hbad h]
            rfl
        · intro h
          rw [not_or, not_and] at h
          obtain ⟨pairs, hpairs⟩ := hgood (h.2 hrest)
          rw [hpairs]
          exact ⟨_, rfl⟩
    · have hstep := parseVariantKvPairs_bad hne (substrTo_append hfirst rest) hequals fuel
      constructor
      · intro _
        exact hstep
      · intro h
        exact absurd (Or.inl hequals) h

/-- SOURCE: main.cc:15-30 — **the pairs of a variant**. Pairs that are written as `key=value` with
commas between them are read back, in order, where no key has a comma or `=` and no value a comma;
no text is no pairs. On every other text the loop stops, too, after fewer rounds than the text has
characters and one more, and the assertion fails if and only if a segment that is not an empty one after
a final comma has no `=`. -/
theorem parse_variant_kv_pairs_spec :
    (∀ pairs, (∀ pair ∈ pairs, PlainPair pair) → ∀ fuel > (variantText pairs).length,
      parseVariantKvPairs fuel (variantText pairs) = some (.ok pairs)) ∧
    (∀ fuel > 0, parseVariantKvPairs fuel [] = some (.ok [])) ∧
    ∀ variant, variant ≠ [] → ∀ fuel > variant.length,
      (∃ result, parseVariantKvPairs fuel variant = some result) ∧
        ((∃ condition, parseVariantKvPairs fuel variant =
          some (.error (.assertFailed condition))) ↔ HasBadSegment variant) := by
  refine ⟨fun pairs hpairs fuel hfuel => parseVariantKvPairs_variantText hpairs hfuel, ?_, ?_⟩
  · intro fuel hfuel
    obtain ⟨fuel, rfl⟩ := Nat.exists_eq_add_of_le' hfuel
    exact parseVariantKvPairs_nil fuel
  · intro variant hne fuel hfuel
    obtain ⟨hbad, hgood⟩ := parseVariantKvPairs_stops hne hfuel
    by_cases h : HasBadSegment variant
    · have hrun := hbad h
      exact ⟨⟨_, hrun⟩, fun _ => h, fun _ => ⟨_, hrun⟩⟩
    · obtain ⟨pairs, hrun⟩ := hgood h
      refine ⟨⟨_, hrun⟩, ?_, fun hbad => absurd hbad h⟩
      rintro ⟨condition, hfail⟩
      rw [hrun] at hfail
      cases hfail

theorem parse_variant_kv_pairs_two :
    parseVariantKvPairs 8 "a=1,b==".toList = some (.ok [(['a'], ['1']), (['b'], ['='])]) ∧
      parseVariantKvPairs 1 [] = some (.ok []) ∧
      ∃ condition, parseVariantKvPairs 5 ",a=1".toList =
        some (.error (.assertFailed condition)) := by
  obtain ⟨hpairs, hempty, hstops⟩ := parse_variant_kv_pairs_spec
  refine ⟨?_, hempty 1 Nat.one_pos, ?_⟩
  · have hplain : ∀ pair ∈ [(['a'], ['1']), (['b'], ['='])], PlainPair pair := by
      intro pair hmem
      simp only [List.mem_cons, List.not_mem_nil, or_false] at hmem
      rcases hmem with rfl | rfl <;> exact ⟨by decide, by decide⟩
    exact hpairs _ hplain 8 (by decide)
  · apply (hstops ",a=1".toList (by decide) 5 (by decide)).2.mpr
    exact ⟨[], [], ["a=1".toList], by decide, by decide, by simp⟩

end Mccpp.Analysis
