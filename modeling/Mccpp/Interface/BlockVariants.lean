import Mathlib.Data.Int.ModEq
import Mccpp.Interface.BlockTable
import Mccpp.Model.BlockVariants

/-!
# Variants and the states of a block

The flags of a variant hold its two rotations, modulo a full turn, and the lock of its texture
coordinates (`DecodesBack`). The name of a variant is a list of pairs `key=value` with commas between
them. The states of a block are examined when the loop meets each of them once and no other.
-/

set_option autoImplicit false

namespace Mccpp.Interface

open Mccpp.Model

/-! ## Flags -/

/-- The documented behaviour of `nlohmann::json`: a number is an integer when 64 bits hold it, signed
or unsigned, and is converted as by `static_cast`. -/
structure NlohmannLaws (json : JsonNumbers) : Prop where
  isNumberInteger : ∀ v, json.isNumberInteger v = true ↔ -2 ^ 63 ≤ v ∧ v < 2 ^ 64
  getInt : ∀ v, json.isNumberInteger v = true → json.getInt v = BitVec.ofInt 32 v

/-- The variant has these rotations and this lock; what it does not have is `0` or `false`. -/
structure Gives (item : VariantItem) (x y : ℤ) (uvlock : Bool) : Prop where
  x : item.x = some (.int x) ∨ item.x = none ∧ x = 0
  y : item.y = some (.int y) ∨ item.y = none ∧ y = 0
  uvlock : item.uvlock = some (.bool uvlock) ∨ item.uvlock = none ∧ uvlock = false

/-- The flags decode back to the rotations, modulo a full turn, and the lock. -/
structure DecodesBack (x y : ℤ) (uvlock : Bool) (v : BlockStateVariant) : Prop where
  rotationX : v.rotationX < 360 ∧ (v.rotationX : ℤ) ≡ x [ZMOD 360]
  rotationY : v.rotationY < 360 ∧ (v.rotationY : ℤ) ≡ y [ZMOD 360]
  uvlock : v.uvlock = uvlock

/-- The integer that is left in an `int`. -/
def intOf (v : ℤ) : ℤ := v.bmod (2 ^ 32)

/-- A number of quarter turns that is read as one. -/
structure ReadsTurns (v : ℤ) : Prop where
  held : -2 ^ 63 ≤ v ∧ v < 2 ^ 64
  quarters : 90 ∣ intOf v

/-- The fields of the flags keep apart: a rotation is not negative or a full turn, or the bits that it
sets beyond its field are set anyway. -/
structure KeepsApart (x y : ℤ) (uvlock : Bool) : Prop where
  x : 0 ≤ intOf x ∨ 360 ∣ x ∨ y ≡ 270 [ZMOD 360] ∧ uvlock = true
  y : 0 ≤ intOf y ∨ 360 ∣ y ∨ uvlock = true

/-! ## Names of variants -/

/-- Key and value can be told apart, and from the next pair. -/
structure PlainPair (pair : List Char × List Char) : Prop where
  key : ',' ∉ pair.1 ∧ '=' ∉ pair.1
  value : ',' ∉ pair.2

/-- The name of a variant. -/
def variantText (pairs : List (List Char × List Char)) : List Char :=
  [','].intercalate (pairs.map fun pair => pair.1 ++ '=' :: pair.2)

/-- A segment has no `=`, and is not an empty one after a final comma. -/
def HasBadSegment (variant : List Char) : Prop :=
  ∃ before segment after, variant.splitOn ',' = before ++ segment :: after ∧ '=' ∉ segment ∧
    ¬(before ≠ [] ∧ segment = [] ∧ after = [])

/-! ## The states of a block -/

/-- The state of this number, from another one on. -/
def stateBehind (state : BitVec 16) (n : ℕ) : BitVec 16 := state + BitVec.ofNat 16 n

/-- The loop reads the table inside it, stops, and examines the states of the block, each once, and no
others; it leaves states out only when it is ended by an exception or an assertion. -/
structure ExaminesOwn (t : BlockTables) (block : BitVec 16) (r : Examination) : Prop where
  inside : r.ending ≠ .outOfRange
  stops : r.ending ≠ .running
  once : r.examined.Nodup
  own : ∀ state ∈ r.examined, t.stateBlock[state.toNat]? = some block
  all : r.ending = .finished →
    ∀ state : BitVec 16, t.stateBlock[state.toNat]? = some block → state ∈ r.examined

/-- The states of the block are next to each other from its first one on, and one of another block
is behind them. -/
def SideBySide (t : BlockTables) (block : BitVec 16) : Prop :=
  ∃ n, (∀ j < n, t.stateBlock[(stateBehind (t.firstState block) j).toNat]? = some block) ∧
    (∃ other, other ≠ block ∧
      t.stateBlock[(stateBehind (t.firstState block) n).toNat]? = some other) ∧
    ∀ state : BitVec 16, t.stateBlock[state.toNat]? = some block →
      ∃ j < n, state = stateBehind (t.firstState block) j

/-- `match_block_state` fails for one of the states of the block, and those before it are states of
the block as well. -/
def FailsBefore (t : BlockTables) (block : BitVec 16)
    (variant : List (List Char × List Char)) : Prop :=
  ∃ n, (∀ j ≤ n, t.stateBlock[(stateBehind (t.firstState block) j).toNat]? = some block) ∧
    ∃ failure, matchBlockState t (stateBehind (t.firstState block) n) variant = .error failure

end Mccpp.Interface
