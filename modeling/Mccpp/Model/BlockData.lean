import Mccpp.Model.BlockStates

/-!
# Reading the block tables

`data/block.hh` over the tables, and `match_block_state` of `main.cc`. A range is iterated up to
the iterator that equals its end, which for a 16-bit index is the difference of the two many steps
away. A read outside of a table counts as `0`, or as no text.
-/

set_option autoImplicit false

namespace Mccpp.Model

/-- How code over the tables can stop early. -/
inductive DataFailure where
  /-- `std::invalid_argument`. -/
  | invalidArgument (what : String)
  /-- An `assert` on this condition failed. -/
  | assertFailed (condition : String)
  /-- A division by zero, or its remainder. -/
  | divisionByZero
deriving DecidableEq, Repr

namespace BlockTables

variable (t : BlockTables)

/-! ## `property` -/

def countMask : BitVec 16 := 0x000f
def typeEnum : BitVec 16 := 0x0000
def typeBool : BitVec 16 := 0x0020
def typeInt0 : BitVec 16 := 0x0040
def typeInt1 : BitVec 16 := 0x0060
def typeIsIntMask : BitVec 16 := 0x0040
def typeMask : BitVec 16 := 0x0060
def offsetMask : BitVec 16 := 0xff00
def offsetShift : ℕ := 8

/-- `property(id).flags()`. -/
def flags (id : BitVec 8) : BitVec 16 := t.propertyFlags[id.toNat]?.getD 0

def isEnum (id : BitVec 8) : Bool := t.flags id &&& typeMask = typeEnum
def isBool (id : BitVec 8) : Bool := t.flags id &&& typeMask = typeBool
def isInt0 (id : BitVec 8) : Bool := t.flags id &&& typeMask = typeInt0
def isInt1 (id : BitVec 8) : Bool := t.flags id &&& typeMask = typeInt1
def isInt (id : BitVec 8) : Bool := t.flags id &&& typeIsIntMask ≠ 0

/-- `count()`. -/
def count (id : BitVec 8) : ℕ := (t.flags id &&& countMask).toNat

/-- `key()`. -/
def key (id : BitVec 8) : List Char := t.propertyKey[id.toNat]?.getD []

/-- `values_offset()`. -/
def valuesOffset (id : BitVec 8) : ℕ := ((t.flags id &&& offsetMask) >>> offsetShift).toNat

/-- `begin()`, as an index of the table of values. -/
def valuesBegin (id : BitVec 8) : Except DataFailure ℕ :=
  if t.isEnum id then .ok (t.valuesOffset id) else .error (.assertFailed "is_enum()")

/-- `operator[](i)`. -/
def value (id : BitVec 8) (i : ℕ) : Except DataFailure (List Char) := do
  let first ← t.valuesBegin id
  .ok (t.propertyValues[first + i]?.getD [])

/-- What is between `begin()` and `end()`. -/
def values (id : BitVec 8) : Except DataFailure (List (List Char)) := do
  let first ← t.valuesBegin id
  .ok ((t.propertyValues.drop first).take (t.count id))

/-! ## `block` and `state` -/

/-- `properties_data()`. -/
def propertiesData (block : BitVec 16) : BitVec 16 := t.blockProperties[block.toNat]?.getD 0

/-- `properties_start()`. -/
def propertiesStart (block : BitVec 16) : BitVec 16 := t.propertiesData block &&& 0x7ff

/-- `properties_count()`. -/
def propertiesCount (block : BitVec 16) : BitVec 16 := t.propertiesData block >>> 11

/-- `map()` at this index. -/
def map (index : BitVec 16) : BitVec 8 := t.propertyMap[index.toNat]?.getD 0

/-- `state(id).block()`. -/
def block (state : BitVec 16) : BitVec 16 := t.stateBlock[state.toNat]?.getD 0

/-- `block(id).first_state_id()`. -/
def firstState (block : BitVec 16) : BitVec 16 := t.firstStateId[block.toNat]?.getD 0

/-- A loop over a `block_state_property_iterator` at `index` with `m_value` as given, `n` steps from
the end: `body` gets each property and its value, and may return early. -/
def forProperties {β : Type} (body : BitVec 8 → ℕ → Except DataFailure (Option β)) :
    ℕ → BitVec 16 → BitVec 16 → Except DataFailure (Option β)
  | 0, _, _ => .ok none
  | n + 1, value, index => do
    let prop := t.map index
    if t.count prop = 0 then .error .divisionByZero
    else
      match ← body prop (value.toNat % t.count prop) with
      | some result => .ok (some result)
      | none => forProperties body n (BitVec.ofNat 16 (value.toNat / t.count prop)) (index + 1)

/-- `for (auto prop_value : data::state(id))`. -/
def forState {β : Type} (state : BitVec 16)
    (body : BitVec 8 → ℕ → Except DataFailure (Option β)) : Except DataFailure (Option β) :=
  let block := t.block state
  let first := t.propertiesStart block
  let last := first + t.propertiesCount block
  t.forProperties body (last - first).toNat (state - t.firstState block) first

end BlockTables

/-! ## Matching a state -/

/-- `parse_uint(str)`. -/
def parseUint (str : List Char) : Except DataFailure (BitVec 32) :=
  str.foldlM (fun v c =>
    if c < '0' ∨ '9' < c then
      .error (.invalidArgument "str does not represent a valid unsigned integer")
    else .ok (v * 10 + BitVec.ofNat 32 (c.toNat - '0'.toNat))) 0

/-- The body of the loop of `match_block_state`: `some false` is its `return false`. -/
def matchProperty (t : BlockTables) (variant : List (List Char × List Char)) (prop : BitVec 8)
    (value : ℕ) : Except DataFailure (Option Bool) :=
  match variant.find? fun pair => pair.1 = t.key prop with
  | none => .ok none
  | some (_, text) =>
    if t.isEnum prop then do
      let expected ← t.value prop value
      .ok (if text ≠ expected then some false else none)
    else if t.isBool prop then
      .ok (if text ≠ (if value ≠ 0 then "true".toList else "false".toList) then some false else none)
    else if t.isInt prop then do
      let number ← parseUint text
      .ok (if number.toNat ≠ (if t.isInt1 prop then 1 else 0) + value then some false else none)
    else .error (.assertFailed "prop.is_int()")

/-- `match_block_state(state, variant)`. -/
def matchBlockState (t : BlockTables) (state : BitVec 16)
    (variant : List (List Char × List Char)) : Except DataFailure Bool := do
  match ← t.forState state (matchProperty t variant) with
  | some result => .ok result
  | none => .ok true

end Mccpp.Model
