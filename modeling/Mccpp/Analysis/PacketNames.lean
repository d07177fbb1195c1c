import Mathlib
import Mccpp.Interface.GeneratedPackets

/-!
# The names of packet types

The two regular expressions of `camel_to_snake`, whose matches take away from one another what they match, put an
underscore exactly where the one rule `startsWord` says. What the first leaves out is found by the second. So a
name of words becomes these words with underscores between them, and can be taken apart again.
-/

set_option autoImplicit false

namespace Mccpp.Analysis

open Mccpp.Model Mccpp.Model.PacketTypes Mccpp.Interface

/-! ## Characters -/

theorem isAsciiUpper_eq_isUpper (c : Char) : isAsciiUpper c = c.isUpper := by
  rw [Bool.eq_iff_iff]
  simp only [isAsciiUpper, Char.isUpper, Char.le_def, Bool.and_eq_true, decide_eq_true_eq, ge_iff_le]

theorem not_isAsciiUpper_of_small {c : Char} (h : (isAsciiLower c || isAsciiDigit c) = true) :
    isAsciiUpper c = false := by
  simp only [isAsciiLower, isAsciiDigit, isAsciiUpper, Char.le_def, Bool.or_eq_true, Bool.and_eq_true,
    decide_eq_true_eq, UInt32.le_iff_toNat_le, Bool.and_eq_false_iff, decide_eq_false_iff_not] at h ⊢
  simp only [show 'A'.val.toNat = 65 from rfl, show 'Z'.val.toNat = 90 from rfl, show 'a'.val.toNat = 97 from rfl,
    show 'z'.val.toNat = 122 from rfl, show '0'.val.toNat = 48 from rfl, show '9'.val.toNat = 57 from rfl] at h ⊢
  omega

theorem not_small_of_isAsciiUpper {c : Char} (h : isAsciiUpper c = true) :
    (isAsciiLower c || isAsciiDigit c) = false := by
  by_contra hsmall
  rw [Bool.not_eq_false] at hsmall
  rw [not_isAsciiUpper_of_small hsmall] at h
  cases h

/-! ## The two regular expressions -/

theorem head?_camelToSnake0 (inside : Bool) (name : List Char) :
    (camelToSnake0 inside name).head? = name.head? := by
  fun_cases camelToSnake0 inside name <;> rfl

/-- INTERNAL: the second expression looks at one character and the next. -/
theorem camelToSnake1_cons (c : Char) (name : List Char) :
    camelToSnake1 (c :: name) =
      if (isAsciiLower c || isAsciiDigit c) && name.head?.any isAsciiUpper then c :: '_' :: camelToSnake1 name
      else c :: camelToSnake1 name := by
  cases name with
  | nil => simp [camelToSnake1]
  | cons next rest =>
    rw [camelToSnake1, List.head?_cons, Option.any_some]
    by_cases hmatch : ((isAsciiLower c || isAsciiDigit c) && isAsciiUpper next) = true
    · -- What is behind a match begins with a capital, which begins no match.
      rw [if_pos hmatch, if_pos hmatch]
      have hupper : isAsciiUpper next = true := (Bool.and_eq_true_iff.mp hmatch).2
      cases rest with
      | nil => rfl
      | cons d rest =>
        rw [camelToSnake1, not_small_of_isAsciiUpper hupper]
        rfl
    · rw [if_neg hmatch, if_neg hmatch]

theorem camelToSnake1_cons_of_not_small {c : Char} (hc : (isAsciiLower c || isAsciiDigit c) = false)
    (name : List Char) : camelToSnake1 (c :: name) = c :: camelToSnake1 name := by
  rw [camelToSnake1_cons, hc]
  rfl

theorem separated_cons (c : Char) (name : List Char) :
    separated (c :: name) =
      if name.head?.any fun next => startsWord c next name.tail then c :: '_' :: separated name
      else c :: separated name := by
  cases name with
  | nil => rfl
  | cons next rest => rfl

/-- INTERNAL: in front of what is not a capital, no word begins. -/
theorem separated_cons_of_not_upper {c : Char} {name : List Char}
    (hname : name.head?.any isAsciiUpper = false) : separated (c :: name) = c :: separated name := by
  rw [separated_cons]
  cases name with
  | nil => rfl
  | cons next rest =>
    rw [List.head?_cons, Option.any_some] at hname
    rw [List.head?_cons, Option.any_some, startsWord, hname]
    rfl

/-- INTERNAL: **both expressions together follow the rule**, whether or not the first is still inside a match. What
it does not look at there ends in a small letter, so that the second finds the word that follows. -/
theorem camelToSnake1_camelToSnake0 (inside : Bool) (name : List Char) :
    camelToSnake1 (camelToSnake0 inside name) = separated name := by
  induction inside, name using camelToSnake0.induct with
  | case1 => rfl
  | case2 => rfl
  | case3 inside c next rest hinside ih =>
    have hlower : isAsciiLower c = true := (Bool.and_eq_true_iff.mp hinside).2
    rw [camelToSnake0, if_pos hinside, camelToSnake1_cons, ih, head?_camelToSnake0, separated_cons c, List.head?_cons,
      Option.any_some, Option.any_some, startsWord, hlower]
    simp only [Bool.true_or, Bool.and_true, Bool.true_and]
  | case4 inside c next rest hinside hmatch ih =>
    simp only [Bool.and_eq_true] at hmatch
    obtain ⟨⟨hline, hupper⟩, hrest⟩ := hmatch
    have hword : startsWord c next rest = true := by
      rw [startsWord, hupper, hline, hrest]
      simp only [Bool.true_and, Bool.or_true]
    have hnext : rest.head?.any isAsciiUpper = false := by
      cases rest with
      | nil => rfl
      | cons d rest =>
        rw [List.head?_cons, Option.any_some] at hrest ⊢
        apply not_isAsciiUpper_of_small
        rw [hrest, Bool.true_or]
    rw [camelToSnake0, if_neg hinside, if_pos (by simp only [hline, hupper, hrest, Bool.and_self])]
    rw [camelToSnake1_cons, List.head?_cons, Option.any_some, show isAsciiUpper '_' = false from rfl, Bool.and_false,
      if_neg Bool.false_ne_true, camelToSnake1_cons_of_not_small rfl,
      camelToSnake1_cons_of_not_small (not_small_of_isAsciiUpper hupper), ih, separated_cons c, List.head?_cons,
      Option.any_some, List.tail_cons, if_pos hword, separated_cons_of_not_upper hnext]
  | case5 inside c next rest hinside hmatch ih =>
    have hword : startsWord c next rest = ((isAsciiLower c || isAsciiDigit c) && isAsciiUpper next) := by
      simp only [Bool.and_eq_true, not_and] at hmatch
      unfold startsWord
      cases hupper : isAsciiUpper next with
      | false => simp only [Bool.false_and, Bool.and_false]
      | true =>
        cases hline : c != '\n' with
        | false => simp only [Bool.false_and, Bool.or_false, Bool.true_and, Bool.and_true]
        | true =>
          have hrest : rest.head?.any isAsciiLower = false := by
            simpa using hmatch ⟨hline, hupper⟩
          rw [hrest]
          simp only [Bool.and_false, Bool.or_false, Bool.true_and, Bool.and_true]
    rw [camelToSnake0, if_neg hinside, if_neg hmatch, camelToSnake1_cons, ih, head?_camelToSnake0, separated_cons c,
      List.head?_cons, Option.any_some, Option.any_some, List.tail_cons, hword]

/-! ## Names of words -/

/-- INTERNAL: no word begins among small letters. -/
theorem separated_small {small : List Char} (h : ∀ c ∈ small, (isAsciiLower c || isAsciiDigit c) = true) :
    separated small = small := by
  induction small with
  | nil => rfl
  | cons c small ih =>
    have hrest : ∀ d ∈ small, (isAsciiLower d || isAsciiDigit d) = true := fun d hd =>
      h d (List.mem_cons_of_mem c hd)
    rw [separated_cons_of_not_upper, ih hrest]
    cases small with
    | nil => rfl
    | cons d small => exact not_isAsciiUpper_of_small (hrest d List.mem_cons_self)

/-- INTERNAL: a capital letter behind small ones begins a word. -/
theorem separated_small_append {small : List Char} (hne : small ≠ [])
    (h : ∀ c ∈ small, (isAsciiLower c || isAsciiDigit c) = true) {capital : Char}
    (hcapital : isAsciiUpper capital = true) (rest : List Char) :
    separated (small ++ capital :: rest) = small ++ '_' :: separated (capital :: rest) := by
  induction small with
  | nil => exact absurd rfl hne
  | cons c small ih =>
    have hrest : ∀ d ∈ small, (isAsciiLower d || isAsciiDigit d) = true := fun d hd =>
      h d (List.mem_cons_of_mem c hd)
    cases small with
    | nil =>
      have hword : startsWord c capital rest = true := by
        rw [startsWord, hcapital, h c List.mem_cons_self, Bool.true_or, Bool.true_and]
      rw [List.singleton_append, separated_cons c, List.head?_cons, Option.any_some, List.tail_cons, if_pos hword]
      rfl
    | cons d small =>
      have hd : isAsciiUpper d = false := not_isAsciiUpper_of_small (hrest d List.mem_cons_self)
      rw [List.cons_append, separated_cons_of_not_upper, ih (List.cons_ne_nil d small) hrest]
      · rfl
      · exact hd

theorem separated_word {word : List Char} (h : IsWord word) : separated word = word := by
  obtain ⟨capital, small, rfl, _, hne⟩ := h.capital
  have hsmall : ∀ c ∈ small, (isAsciiLower c || isAsciiDigit c) = true := h.small
  rw [separated_cons_of_not_upper, separated_small hsmall]
  cases small with
  | nil => exact absurd rfl hne
  | cons d small => exact not_isAsciiUpper_of_small (hsmall d List.mem_cons_self)

theorem separated_word_append {word : List Char} (h : IsWord word) {capital : Char}
    (hcapital : isAsciiUpper capital = true) (rest : List Char) :
    separated (word ++ capital :: rest) = word ++ '_' :: separated (capital :: rest) := by
  obtain ⟨first, small, rfl, _, hne⟩ := h.capital
  rw [List.cons_append, separated_cons_of_not_upper, separated_small_append hne h.small hcapital]
  · rfl
  · cases small with
    | nil => exact absurd rfl hne
    | cons d small => exact not_isAsciiUpper_of_small (h.small d List.mem_cons_self)

/-- INTERNAL: words in a row are separated from one another. -/
theorem separated_flatten {words : List (List Char)} (h : ∀ word ∈ words, IsWord word) :
    separated words.flatten = ['_'].intercalate words := by
  induction words with
  | nil => rfl
  | cons word words ih =>
    have hrest : ∀ word ∈ words, IsWord word := fun next hnext => h next (List.mem_cons_of_mem word hnext)
    have hword : IsWord word := h word List.mem_cons_self
    cases words with
    | nil => rw [List.flatten_cons, List.flatten_nil, List.append_nil, separated_word hword, List.intercalate_singleton]
    | cons next words =>
      obtain ⟨capital, small, hnext, hcapital, _⟩ := (hrest next List.mem_cons_self).capital
      have hflatten : (next :: words).flatten = capital :: (small ++ words.flatten) := by
        rw [List.flatten_cons, hnext]
        rfl
      rw [List.intercalate_cons_cons, ← ih hrest, List.flatten_cons, hflatten,
        separated_word_append hword hcapital, List.append_assoc]
      rfl

/-! ## Small letters -/

theorem toLower_eq_of_small {c : Char} (h : (isAsciiLower c || isAsciiDigit c) = true) : c.toLower = c := by
  apply Char.toLower_eq_of_not_isUpper
  rw [← isAsciiUpper_eq_isUpper, not_isAsciiUpper_of_small h]
  exact Bool.false_ne_true

theorem toUpper_eq_of_capital {c : Char} (h : isAsciiUpper c = true) : c.toUpper = c := by
  rw [isAsciiUpper_eq_isUpper] at h
  exact Char.toUpper_eq_of_not_isLower (Char.not_isLower_of_isUpper h)

/-- INTERNAL: a word is known by its small letters. -/
theorem capitalized_map_toLower {word : List Char} (h : IsWord word) :
    capitalized (word.map Char.toLower) = word := by
  obtain ⟨capital, small, rfl, hcapital, _⟩ := h.capital
  have hsmall : small.map Char.toLower = small := by
    calc small.map Char.toLower = small.map id :=
          List.map_congr_left fun c hc => toLower_eq_of_small (h.small c hc)
      _ = small := List.map_id small
  rw [List.map_cons, capitalized, hsmall, Char.toUpper_toLower_eq_toUpper, toUpper_eq_of_capital hcapital]

/-- INTERNAL: no word has an underscore in it. -/
theorem underscore_notMem_word {word : List Char} (h : IsWord word) : '_' ∉ word.map Char.toLower := by
  intro hmem
  obtain ⟨c, hc, hlower⟩ := List.mem_map.mp hmem
  obtain ⟨capital, small, rfl, hcapital, _⟩ := h.capital
  rcases List.mem_cons.mp hc with rfl | hc
  · have hunderscore : c = '_' := by
      calc c = c.toLower.toUpper := by rw [Char.toUpper_toLower_eq_toUpper, toUpper_eq_of_capital hcapital]
        _ = '_' := by
          rw [hlower]
          rfl
    rw [hunderscore] at hcapital
    cases hcapital
  · have hsmall := h.small c hc
    rw [toLower_eq_of_small hsmall] at hlower
    rw [hlower] at hsmall
    cases hsmall

/-! ## `camel_to_snake` -/

theorem camelToSnake_eq (name : List Char) : camelToSnake name = (separated name).map Char.toLower := by
  rw [camelToSnake, camelToSnake1_camelToSnake0]

theorem camelToSnake_flatten {words : List (List Char)} (h : ∀ word ∈ words, IsWord word) :
    camelToSnake words.flatten = ['_'].intercalate (words.map (List.map Char.toLower)) := by
  rw [camelToSnake_eq, separated_flatten h]
  induction words with
  | nil => rfl
  | cons word words ih =>
    cases words with
    | nil => rw [List.map_singleton, List.intercalate_singleton, List.intercalate_singleton]
    | cons next words =>
      have hrest := ih fun word hword => h word (List.mem_cons_of_mem _ hword)
      rw [List.map_cons] at hrest
      rw [List.map_cons, List.map_cons, List.intercalate_cons_cons, List.intercalate_cons_cons, List.map_append,
        List.map_append, hrest]
      rfl

theorem fromSnake_camelToSnake {words : List (List Char)} (h : ∀ word ∈ words, IsWord word) :
    fromSnake (camelToSnake words.flatten) = words.flatten := by
  rw [camelToSnake_flatten h, fromSnake]
  by_cases hwords : words = []
  · rw [hwords]
    rfl
  · rw [List.splitOn_intercalate, List.flatMap_map, List.flatten_eq_flatMap]
    · apply List.flatMap_congr
      intro word hword
      exact capitalized_map_toLower (h word hword)
    · intro lower hlower
      obtain ⟨word, hword, rfl⟩ := List.mem_map.mp hlower
      exact underscore_notMem_word (h word hword)
    · simpa using hwords

/-- SOURCE: generator/utils.py:4-8 — **names of words, and all others, are separated by one rule**. The two
regular expressions put underscores where a word begins as `startsWord` says, whatever the name. So a name of words
becomes their small letters with underscores between them, from which the name comes back. -/
theorem camel_to_snake_separates_words :
    (∀ name, camelToSnake name = (separated name).map Char.toLower) ∧
      ∀ words : List (List Char), (∀ word ∈ words, IsWord word) →
        camelToSnake words.flatten = ['_'].intercalate (words.map (List.map Char.toLower)) ∧
          fromSnake (camelToSnake words.flatten) = words.flatten :=
  ⟨camelToSnake_eq, fun _ h => ⟨camelToSnake_flatten h, fromSnake_camelToSnake h⟩⟩

theorem isWord_cons {c : Char} {rest : List Char} (hc : isAsciiUpper c = true) (hne : rest ≠ [])
    (hrest : rest.all (fun d => isAsciiLower d || isAsciiDigit d) = true) : IsWord (c :: rest) :=
  ⟨⟨c, rest, rfl, hc, hne⟩, List.all_eq_true.mp hrest⟩

theorem camel_to_snake_separates_words_two :
    camelToSnake ["Keep".toList, "Alive2".toList].flatten = "keep_alive2".toList ∧
      fromSnake (camelToSnake ["Keep".toList, "Alive2".toList].flatten) = "KeepAlive2".toList := by
  apply camel_to_snake_separates_words.2
  intro word hword
  simp only [List.mem_cons, List.not_mem_nil, or_false] at hword
  rcases hword with rfl | rfl
  · exact isWord_cons (by decide) (by decide) (by decide)
  · exact isWord_cons (by decide) (by decide) (by decide)

end Mccpp.Analysis
