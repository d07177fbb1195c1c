import Mathlib.Data.List.Basic

/-!
# Texts cut at a separator

A text without the separator is one segment; every other text is its first segment, the separator,
and a text that is cut in turn.
-/

set_option autoImplicit false

namespace Mccpp.Library

variable {α : Type} [DecidableEq α] {sep : α}

/-- INTERNAL: the first segment of a text with a separator. -/
theorem splitOn_of_mem {text : List α} (hmem : sep ∈ text) :
    text.splitOn sep = text.takeWhile (· ≠ sep) ::
      (text.dropWhile (· ≠ sep)).tail.splitOn sep := by
  induction text with
  | nil => cases hmem
  | cons c text ih =>
    by_cases hc : c = sep
    · subst hc
      simp [List.splitOn_cons_eq_if_modifyHead]
    · have hrest : sep ∈ text := (List.mem_cons.mp hmem).resolve_left (Ne.symm hc)
      rw [List.splitOn_cons_eq_if_modifyHead, ih hrest]
      simp [hc]

/-- INTERNAL: the first separator is behind the first segment. -/
theorem idxOf?_append_cons {first : List α} (hfirst : sep ∉ first) (rest : List α) :
    (first ++ sep :: rest).idxOf? sep = some first.length := by
  induction first with
  | nil => simp [List.idxOf?_cons]
  | cons c first ih =>
    rw [List.mem_cons, not_or] at hfirst
    simp [List.idxOf?_cons, Ne.symm hfirst.1, ih hfirst.2]

/-- INTERNAL: a text determines its first segment and what is behind the first separator. -/
theorem append_cons_inj {first first' rest rest' : List α} (hfirst : sep ∉ first)
    (hfirst' : sep ∉ first') :
    first ++ sep :: rest = first' ++ sep :: rest' ↔ first = first' ∧ rest = rest' := by
  constructor
  · intro h
    have hplace := idxOf?_append_cons hfirst rest
    rw [h, idxOf?_append_cons hfirst' rest', Option.some.injEq] at hplace
    obtain ⟨hfirsts, hrests⟩ := List.append_inj h hplace.symm
    exact ⟨hfirsts, (List.cons.inj hrests).2⟩
  · rintro ⟨rfl, rfl⟩
    rfl

/-- INTERNAL: **induction over the segments** of a text. -/
theorem segments_induction {P : List α → Prop} (last : ∀ text, sep ∉ text → P text)
    (next : ∀ first rest, sep ∉ first → P rest → P (first ++ sep :: rest)) (text : List α) :
    P text := by
  by_cases hmem : sep ∈ text
  · obtain ⟨first, rest, heq, hfirst⟩ := List.eq_append_cons_of_mem hmem
    rw [heq]
    exact next first rest hfirst (segments_induction last next rest)
  · exact last text hmem
termination_by text.length
decreasing_by
  rw [heq, List.length_append, List.length_cons]
  omega

end Mccpp.Library
