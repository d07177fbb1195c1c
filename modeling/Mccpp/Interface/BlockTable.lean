import Mccpp.Library.MixedRadix
import Mccpp.Model.BlockData

/-!
# What the block tables mean

The tables are read back when every property that an id can name has the count, the kind and the
values it has in the data, and no loop over the properties of a state divides by zero. The states
of a block are decoded when the loop over the properties of one of them visits them from the last to
the first, with the digits of the place of the state in the block. A variant describes a state when each of its pairs gives every property with its key the value that the
property has in the state. A block table is cartesian when the states of each block are all
combinations of the values of its properties, the last property varying fastest, and the ids are
the places in the tables.
-/

set_option autoImplicit false

namespace Mccpp.Interface

open Mccpp.Library Mccpp.Model

/-! ## Reading the tables back -/

/-- What `block.hh` says about the property is what is in the data. -/
structure PropertyReadsBack (t : BlockTables) (id : BitVec 8) (p : Property) : Prop where
  count : t.count id = p.values.length
  isEnum : t.isEnum id = true ↔ p.kind = .str
  isBool : t.isBool id = true ↔ p.kind = .bool
  isInt0 : t.isInt0 id = true ↔ p.kind = .int ∧ p.values.head? = some (.int 0)
  isInt1 : t.isInt1 id = true ↔ p.kind = .int ∧ p.values.head? = some (.int 1)
  values : p.kind = .str → t.values id = .ok (p.values.map BlockStates.valueText)

/-- The tables are read back without loss. -/
structure ReadsBack (t : BlockTables) (props : List (List Char × Property)) : Prop where
  property : ∀ (id : BitVec 8) name p, props[id.toNat]? = some (name, p) → PropertyReadsBack t id p
  iterates : ∀ (state block : BitVec 16), t.stateBlock[state.toNat]? = some block →
    block.toNat < t.blockProperties.length → ∀ body : BitVec 8 → ℕ → Option Unit,
      ∃ result, t.forState state (fun prop value => .ok (body prop value)) = .ok result

/-! ## Decoding a state -/

/-- The body of a loop for each property and value in turn, up to the first return. -/
def visit {β : Type} (body : BitVec 8 → ℕ → Except DataFailure (Option β)) :
    List (BitVec 8 × ℕ) → Except DataFailure (Option β)
  | [] => .ok none
  | (prop, value) :: rest => do
    match ← body prop value with
    | some result => .ok (some result)
    | none => visit body rest

/-- `((v1*c2 + v2)*c3 + ...)*cn + vn`. -/
def stateNumber (counts values : List ℕ) : ℕ :=
  (counts.zip values).foldl (fun k p => k * p.1 + p.2) 0

/-- The values that the properties of a block have in the state with this number. -/
def stateValues (counts : List ℕ) (k : ℕ) : List ℕ := (digits counts.reverse k).reverse

/-- The numbers of values of the properties of a block. -/
def valueCounts (block : BlockStates.Block) : List ℕ :=
  block.properties.map fun p => p.values.length

/-- The ids of the properties of a block. -/
def propertyIds (block : BlockStates.Block) : List (BitVec 8) :=
  block.properties.map fun p => BitVec.ofNat 8 p.id

/-- Where the properties of the block with this number start in the map. -/
def mapStart (blocks : List BlockStates.Block) (i : ℕ) : ℕ :=
  ((blocks.take i).map fun block => block.properties.length).sum

/-- The states that the table assigns to a block are decoded. -/
structure DecodesStates (t : BlockTables) (blocks : List BlockStates.Block) (id : BitVec 16)
    (block : BlockStates.Block) : Prop where
  visits : ∀ k < (valueCounts block).prod, ∀ state : BitVec 16,
    state.toNat = (t.firstState id).toNat + k → t.stateBlock[state.toNat]? = some id →
      ∀ (β : Type) (body : BitVec 8 → ℕ → Except DataFailure (Option β)),
        t.forState state body =
          visit body ((propertyIds block).zip (stateValues (valueCounts block) k)).reverse
  number : ∀ k < (valueCounts block).prod,
    List.Forall₂ (fun v c => v < c) (stateValues (valueCounts block) k) (valueCounts block) ∧
      k = stateNumber (valueCounts block) (stateValues (valueCounts block) k)
  occurs : ∀ values, List.Forall₂ (fun v c => v < c) values (valueCounts block) →
    ∃! k, k < (valueCounts block).prod ∧ stateValues (valueCounts block) k = values
  own : ∀ map : List (BitVec 8), (∀ i, mapStart blocks id.toNat ≤ i →
      i < mapStart blocks id.toNat + block.properties.length → map[i]? = t.propertyMap[i]?) →
    ∀ state : BitVec 16, t.stateBlock[state.toNat]? = some id →
      ∀ (β : Type) (body : BitVec 8 → ℕ → Except DataFailure (Option β)),
        ({ t with propertyMap := map } : BlockTables).forState state body = t.forState state body

/-! ## Matching a state -/

/-- The text of a value, as in a variant. -/
def textOf : JsonValue → List Char
  | .str value => value
  | .bool value => if value then "true".toList else "false".toList
  | .int value => (if value < 0 then ['-'] else []) ++ Nat.toDigits 10 value.natAbs
  | .float _ | .other => []

/-- The number of states of the blocks. -/
def stateCount (blocks : List BlockStates.Block) : ℕ := (blocks.map fun block => block.states.length).sum

/-- The ids in the data are the places in the tables. -/
structure Numbered (blocks : List BlockStates.Block) : Prop where
  blockIds : ∀ (i : ℕ) (block : BlockStates.Block), blocks[i]? = some block → block.id = i
  fits : stateCount blocks ≤ 2 ^ 16
  stateIds : ∀ (i : ℕ) (block : BlockStates.Block), blocks[i]? = some block →
    ∀ (j : ℕ) (state : BlockStates.State), block.states[j]? = some state →
      state.id = stateCount (blocks.take i) + j

/-- The data of a cartesian table. -/
structure Cartesian (props : List (List Char × Property)) (blocks : List BlockStates.Block) : Prop where
  few : ∀ p ∈ props, p.2.values.length ≤ 15
  ints : ∀ p ∈ props, p.2.kind = .int → ∀ v ∈ p.2.values, ∃ n, v = .int n
  product : ∀ block ∈ blocks, block.states.map BlockStates.State.properties =
    tuples (block.properties.map fun p => p.values.map textOf)
  blockIds : ∀ (i : ℕ) (block : BlockStates.Block), blocks[i]? = some block → block.id = i
  fits : stateCount blocks ≤ 2 ^ 16
  stateIds : ∀ (i : ℕ) (block : BlockStates.Block), blocks[i]? = some block →
    ∀ (j : ℕ) (state : BlockStates.State), block.states[j]? = some state →
      state.id = stateCount (blocks.take i) + j

/-- The values of the variant are texts that the properties they name can take. -/
def Takes (block : BlockStates.Block) (variant : List (List Char × List Char)) : Prop :=
  ∀ pair ∈ variant, ∀ p ∈ block.properties, p.key = pair.1 → pair.2 ∈ p.values.map textOf

/-- Every pair that names a property of the block gives the value it has in the state. -/
def Describes (variant : List (List Char × List Char)) (block : BlockStates.Block) (state : BlockStates.State) : Prop :=
  ∀ pair ∈ variant, ∀ (i : ℕ) p, block.properties[i]? = some p → p.key = pair.1 →
    state.properties[i]? = some pair.2

/-- The variant names no boolean property of the block, and no property of it with two values. -/
def Matchable (block : BlockStates.Block) (variant : List (List Char × List Char)) : Prop :=
  ∀ pair ∈ variant, ∀ p ∈ block.properties, p.key = pair.1 →
    p.kind ≠ .bool ∧ ∀ pair' ∈ variant, pair'.1 = pair.1 → pair'.2 = pair.2

end Mccpp.Interface
