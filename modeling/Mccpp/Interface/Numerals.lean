import Mccpp.Model.BlockData

/-!
# Numerals

A text denotes a number when it is a decimal numeral for it: digits and nothing else, and at least
one of them. Zeros may be in front. A text is parsed as it denotes when the numbers of 32 bits are what
it is taken for, and matched as it denotes when no other value of an integer property agrees with it.
-/

set_option autoImplicit false

namespace Mccpp.Interface

open Mccpp.Model

/-- The text is a decimal numeral of the number. -/
structure Denotes (text : List Char) (n : ℕ) : Prop where
  nonempty : text ≠ []
  digits : ∀ c ∈ text, c.isDigit
  value : Nat.ofDigitChars 10 text 0 = n

/-- `parse_uint` returns the number that the text denotes, and throws where there is none that fits. -/
structure ParsesAsDenoted (text : List Char) : Prop where
  returns : ∀ n : BitVec 32, parseUint text = .ok n ↔ Denotes text n.toNat
  throws : (∀ n : BitVec 32, ¬ Denotes text n.toNat) →
    ∃ what, parseUint text = .error (.invalidArgument what)

/-- A value of an integer property that the text of a variant matches is the one it denotes. -/
def MatchesAsDenoted (text : List Char) : Prop :=
  ∀ (t : BlockTables) variant prop value key, t.isEnum prop = false → t.isBool prop = false →
    t.isInt prop = true → variant.find? (fun pair => pair.1 = t.key prop) = some (key, text) →
    matchProperty t variant prop value = .ok none →
    Denotes text ((if t.isInt1 prop then 1 else 0) + value)

end Mccpp.Interface
