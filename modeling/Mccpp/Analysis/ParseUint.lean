import Mccpp.Analysis.BlockIteration
import Mccpp.Interface.Numerals
import Mccpp.Library.Fallible

/-!
# Parsing unsigned integers

`parse_uint` refuses a text if it has a character that is no digit, and takes any other for the low 32
bits of its number (`parseUint_of_digits`). So it takes the empty text for `0`, and a number from `2^32`
on for another one; these are the only texts that are not parsed as they denote (`parse_uint_iff`).
-/

set_option autoImplicit false

namespace Mccpp.Analysis

open Mccpp.Library Mccpp.Model Mccpp.Interface

variable {text : List Char}

/-- INTERNAL: a loop that multiplies and adds in `w` bits keeps the low bits of the number. -/
theorem foldl_ofNat (w base : ℕ) (text : List Char) (start : ℕ) :
    text.foldl (fun v c => v * BitVec.ofNat w base + BitVec.ofNat w (c.toNat - '0'.toNat))
        (BitVec.ofNat w start) =
      BitVec.ofNat w (Nat.ofDigitChars base text start) := by
  induction text generalizing start with
  | nil => rfl
  | cons c text ih =>
    rw [List.foldl_cons, Nat.ofDigitChars_cons, ← BitVec.ofNat_mul, ← BitVec.ofNat_add, ih,
      Nat.mul_comm]

theorem not_isDigit_iff (c : Char) : ¬ c.isDigit ↔ c < '0' ∨ '9' < c := by
  rw [Char.isDigit_iff_toNat, not_and_or, not_le, not_le]
  rfl

/-- INTERNAL: **what the loop computes** of digits.
SOURCE: src/main.cc:32-40. -/
theorem parseUint_of_digits (hdigits : ∀ c ∈ text, c.isDigit) :
    parseUint text = .ok (BitVec.ofNat 32 (Nat.ofDigitChars 10 text 0)) := by
  have hbase : BitVec.ofNat 32 10 = 10 := by decide
  have hstart : BitVec.ofNat 32 0 = 0 := by decide
  have hloop := foldl_ofNat 32 10 text 0
  rw [hbase, hstart] at hloop
  have hnone : ¬ ∃ c ∈ text, c < '0' ∨ '9' < c := by
    rintro ⟨c, hc, hrefused⟩
    exact (not_isDigit_iff c).mpr hrefused (hdigits c hc)
  rw [parseUint, foldlM_check, if_neg hnone, hloop]

/-- INTERNAL: a text with another character is refused.
SOURCE: src/main.cc:35-36. -/
theorem parseUint_of_other (hother : ∃ c ∈ text, ¬ c.isDigit) :
    parseUint text =
      .error (.invalidArgument "str does not represent a valid unsigned integer") := by
  obtain ⟨c, hc, hnot⟩ := hother
  have hsome : ∃ c ∈ text, c < '0' ∨ '9' < c := ⟨c, hc, (not_isDigit_iff c).mp hnot⟩
  rw [parseUint, foldlM_check, if_pos hsome]

/-- INTERNAL: a text that is returned has digits only, and is taken for the low bits of its number. -/
theorem parseUint_eq_ok_iff {n : BitVec 32} :
    parseUint text = .ok n ↔
      (∀ c ∈ text, c.isDigit) ∧ BitVec.ofNat 32 (Nat.ofDigitChars 10 text 0) = n := by
  by_cases hdigits : ∀ c ∈ text, c.isDigit
  · rw [parseUint_of_digits hdigits, Except.ok.injEq]
    exact (and_iff_right hdigits).symm
  · have hother : ∃ c ∈ text, ¬ c.isDigit := by
      simpa using hdigits
    rw [parseUint_of_other hother]
    constructor
    · intro h
      cases h
    · rintro ⟨hall, _⟩
      exact absurd hall hdigits

/-- INTERNAL: where the number fits, the low bits are the number. -/
theorem ofNat_ofDigitChars_eq_iff (hfits : Nat.ofDigitChars 10 text 0 < 2 ^ 32) {n : BitVec 32} :
    BitVec.ofNat 32 (Nat.ofDigitChars 10 text 0) = n ↔ Nat.ofDigitChars 10 text 0 = n.toNat := by
  rw [← BitVec.toNat_inj, BitVec.toNat_ofNat, Nat.mod_eq_of_lt hfits]

/-- INTERNAL: every number has a numeral. -/
theorem denotes_toDigits (n : ℕ) : Denotes (Nat.toDigits 10 n) n where
  nonempty := Nat.toDigits_ne_nil
  digits _ hc := Nat.isDigit_of_mem_toDigits (by decide) (by decide) hc
  value := Nat.ofDigitChars_ten_toDigits

/-- INTERNAL: the numbers of the data are read.
SOURCE: src/main.cc:32-40. -/
theorem parseUint_toDigits (n : ℕ) : parseUint (Nat.toDigits 10 n) = .ok (BitVec.ofNat 32 n) := by
  rw [parseUint_eq_ok_iff, Nat.ofDigitChars_ten_toDigits]
  exact ⟨(denotes_toDigits n).digits, rfl⟩

/-- INTERNAL: a value that the text of a variant matches is what the text is taken for.
SOURCE: src/main.cc:60-65. -/
theorem matchProperty_eq_none_int {t : BlockTables} {variant : List (List Char × List Char)}
    {prop : BitVec 8} {value : ℕ} {key : List Char} (henum : t.isEnum prop = false)
    (hbool : t.isBool prop = false) (hint : t.isInt prop = true)
    (hfind : variant.find? (fun pair => pair.1 = t.key prop) = some (key, text)) :
    matchProperty t variant prop value = .ok none ↔ ∃ number, parseUint text = .ok number ∧
      number.toNat = (if t.isInt1 prop then 1 else 0) + value := by
  simp only [matchProperty, hfind, henum, hbool, hint, if_true, Bool.false_eq_true, if_false]
  rw [bind_eq_ok_iff]
  apply exists_congr
  intro number
  apply and_congr_right
  intro _
  rw [Except.ok.injEq]
  split <;> simp_all

/-- INTERNAL: what is parsed as it denotes is matched as it denotes. -/
theorem matchesAsDenoted_of_parses (hparses : ParsesAsDenoted text) : MatchesAsDenoted text := by
  intro t variant prop value key henum hbool hint hfind hpasses
  obtain ⟨number, hnumber, hvalue⟩ :=
    (matchProperty_eq_none_int henum hbool hint hfind).mp hpasses
  rw [← hvalue]
  exact (hparses.returns number).mp hnumber

/-- INTERNAL: a text with another character denotes nothing and is refused. -/
theorem parsesAsDenoted_of_other (hother : ∃ c ∈ text, ¬ c.isDigit) : ParsesAsDenoted text where
  returns n := by
    rw [parseUint_of_other hother]
    constructor
    · intro h
      cases h
    · intro hdenotes
      obtain ⟨c, hc, hnot⟩ := hother
      exact absurd (hdenotes.digits c hc) hnot
  throws _ := ⟨_, parseUint_of_other hother⟩

/-- INTERNAL: digits whose number fits denote what they are taken for. -/
theorem parsesAsDenoted_of_fits (hdigits : ∀ c ∈ text, c.isDigit) (hnonempty : text ≠ [])
    (hfits : Nat.ofDigitChars 10 text 0 < 2 ^ 32) : ParsesAsDenoted text where
  returns n := by
    rw [parseUint_eq_ok_iff, ofNat_ofDigitChars_eq_iff hfits]
    constructor
    · rintro ⟨_, hvalue⟩
      exact ⟨hnonempty, hdigits, hvalue⟩
    · intro hdenotes
      exact ⟨hdigits, hdenotes.value⟩
  throws hnone := by
    have hvalue := (ofNat_ofDigitChars_eq_iff hfits).mp rfl
    exact absurd ⟨hnonempty, hdigits, hvalue⟩ (hnone (BitVec.ofNat 32 (Nat.ofDigitChars 10 text 0)))

/-- SOURCE: src/main.cc:32-40, src/main.cc:60-65 — **`parse_uint` returns the numbers that texts denote
and throws for every other text, if and only if the text has a character that is no digit, or it is not
empty and its number is below `2^32`**. Then no value of an integer property is matched that the text
does not denote. -/
theorem parse_uint_iff (text : List Char) :
    ParsesAsDenoted text ∧ MatchesAsDenoted text ↔
      (∃ c ∈ text, ¬ c.isDigit) ∨ text ≠ [] ∧ Nat.ofDigitChars 10 text 0 < 2 ^ 32 := by
  constructor
  · rintro ⟨hparses, _⟩
    by_cases hother : ∃ c ∈ text, ¬ c.isDigit
    · exact Or.inl hother
    · have hdigits : ∀ c ∈ text, c.isDigit := by simpa using hother
      have hdenotes := (hparses.returns _).mp (parseUint_of_digits hdigits)
      refine Or.inr ⟨hdenotes.nonempty, ?_⟩
      rw [hdenotes.value]
      exact BitVec.isLt _
  · intro hcondition
    have hparses : ParsesAsDenoted text := by
      by_cases hother : ∃ c ∈ text, ¬ c.isDigit
      · exact parsesAsDenoted_of_other hother
      · obtain ⟨hnonempty, hfits⟩ := hcondition.resolve_left hother
        apply parsesAsDenoted_of_fits _ hnonempty hfits
        simpa using hother
    exact ⟨hparses, matchesAsDenoted_of_parses hparses⟩

/-- SOURCE: src/main.cc:32-40, src/main.cc:60-65 — the empty text is taken for `0`, `4294967298` for
`2`, and states of a block match these texts of a variant. -/
theorem not_parses_empty :
    parseUint [] = .ok 0 ∧ parseUint "4294967298".toList = .ok 2 ∧
    ¬ ParsesAsDenoted [] ∧ ¬ ParsesAsDenoted "4294967298".toList ∧ ¬ MatchesAsDenoted [] ∧
    matchBlockState (levelTables 4) 0 [("level".toList, [])] = .ok true ∧
    matchBlockState (levelTables 4) 2 [("level".toList, "4294967298".toList)] = .ok true := by
  refine ⟨rfl, by decide, ?_, ?_, ?_, by decide, by decide⟩
  · intro hparses
    have hdenotes := (hparses.returns 0).mp rfl
    exact hdenotes.nonempty rfl
  · intro hparses
    have hdenotes := (hparses.returns 2).mp (by decide)
    have hvalue := hdenotes.value
    revert hvalue
    decide
  · intro hmatches
    have hdenotes := hmatches (levelTables 4) [("level".toList, [])] 0 0 "level".toList (by decide)
      (by decide) (by decide) (by decide) (by decide)
    exact hdenotes.nonempty rfl

end Mccpp.Analysis
