import Mathlib.Algebra.GroupWithZero.Nat
import Mathlib.Data.Rat.Defs
import Mathlib.Data.List.Basic

/-!
# The generator of the block tables

`generator/block_states.py`, from the decoded JSON files to the tables of the emitted C++ file. An
object is the list of its items in order, with a key only once. `none` is a failed `assert` or an
exception of Python, and in `Emitted.compile` a constant that does not fit the type of its table.
What is read from the files and written nowhere is left out, and the counts of the tables, which are
only logged.
-/

set_option autoImplicit false

namespace Mccpp.Model

/-- A value of a JSON file. -/
inductive JsonValue where
  | str (value : List Char)
  | bool (value : Bool)
  | int (value : ℤ)
  | float (value : ℚ)
  /-- `None`, a list, or a dictionary. -/
  | other
deriving DecidableEq

namespace JsonValue

/-- `isinstance(value, str)`. -/
def isStr : JsonValue → Bool
  | str _ => true
  | _ => false

/-- `value == n`, where `True` and `False` are `1` and `0`. -/
def equalsInt : JsonValue → ℤ → Bool
  | bool b, n => (if b then 1 else 0) = n
  | int m, n => m = n
  | float q, n => q = n
  | _, _ => false

end JsonValue

/-- `Property.kind`. -/
inductive PropertyKind where
  | str
  | bool
  | int
deriving DecidableEq, Repr

/-- `Property`. -/
structure Property where
  id : ℕ
  key : List Char
  kind : PropertyKind
  values : List JsonValue
deriving DecidableEq

/-- A property of `block_properties.json`. -/
structure PropertyItem where
  name : List Char
  key : List Char
  values : List JsonValue
deriving DecidableEq

namespace BlockStates

/-- The body of the loop of `parse_props`. -/
def parseProp (id : ℕ) (item : PropertyItem) : Option Property :=
  if item.values.length < 32 then
    match item.values with
    | .str _ :: _ =>
      if item.values.all JsonValue.isStr then some ⟨id, item.key, .str, item.values⟩ else none
    | .bool _ :: _ =>
      if item.values = [.bool true, .bool false] then
        some ⟨id, item.key, .bool, [.bool true, .bool false]⟩
      else none
    | .int first :: _ =>
      if (first = 0 ∨ first = 1) ∧ ∀ i : Fin item.values.length,
          (item.values.get i).equalsInt (first + i) then
        some ⟨id, item.key, .int, item.values⟩
      else none
    | _ => none
  else none

/-- The loop of `parse_props`, with the number of properties before. -/
def parsePropsFrom : ℕ → List PropertyItem → Option (List (List Char × Property))
  | _, [] => some []
  | id, item :: items => do
    let prop ← parseProp id item
    let props ← parsePropsFrom (id + 1) items
    some ((item.name, prop) :: props)

/-- `total_enum_values`. -/
def totalEnumValues (props : List (List Char × Property)) : ℕ :=
  (props.map fun p => if p.2.kind = .str then p.2.values.length else 0).sum

/-- `parse_props(data)`. -/
def parseProps (data : List PropertyItem) : Option (List (List Char × Property)) := do
  let props ← parsePropsFrom 0 data
  if totalEnumValues props < 256 then some props else none

/-- `BlockState`; `properties` are the texts of its values, in the order of the block's properties. -/
structure State where
  properties : List (List Char)
  id : ℕ
deriving DecidableEq

/-- A block of `blocks.json`. -/
structure BlockItem where
  name : List Char
  id : ℕ
  translationKey : List Char
  defaultStateId : ℕ
  properties : List (List Char)
  states : List State

/-- `Block`. -/
structure Block where
  name : List Char
  id : ℕ
  translationKey : List Char
  defaultStateId : ℕ
  properties : List Property
  states : List State

/-- `props[name]`. -/
def lookup (props : List (List Char × Property)) (name : List Char) : Option Property :=
  (props.find? fun p => p.1 = name).map fun p => p.2

/-- `parse_blocks(data, props)`. -/
def parseBlocks (data : List BlockItem) (props : List (List Char × Property)) :
    Option (List Block) :=
  data.mapM fun item => do
    let properties ← item.properties.mapM (lookup props)
    some ⟨item.name, item.id, item.translationKey, item.defaultStateId, properties, item.states⟩

/-! ## `write_cpp` -/

/-- The tables of the emitted file, as the numbers and texts that are written. -/
structure Emitted where
  propertyFlags : List ℕ
  propertyName : List (List Char)
  propertyKey : List (List Char)
  propertyValues : List (List Char)
  blockName : List (List Char)
  blockTranslationKey : List (List Char)
  firstStateId : List ℕ
  defaultStateId : List ℕ
  blockProperties : List ℕ
  propertyMap : List ℕ
  stateBlock : List ℕ

/-- The flags of a property, where `value_offset` is this. -/
def flagsOf (valueOffset : ℕ) (prop : Property) : ℕ :=
  (match prop.kind with
    | .str => 0x00 ||| valueOffset <<< 8
    | .bool => 0x20
    | .int => if prop.values.head?.any (fun v => v.equalsInt 0) then 0x40 else 0x60) |||
    prop.values.length

/-- The loop that writes the flags. -/
def writeFlags : ℕ → List Property → Option (List ℕ)
  | _, [] => some []
  | valueOffset, prop :: props =>
    if valueOffset < 256 ∧ prop.values.length < 32 then do
      let flags ← writeFlags
        (if prop.kind = .str then valueOffset + prop.values.length else valueOffset) props
      some (flagsOf valueOffset prop :: flags)
    else none

/-- The text of a value that is written into a table. -/
def valueText : JsonValue → List Char
  | .str value => value
  | _ => []

/-- The values of the enums, one after another. -/
def writeValues (props : List Property) : List (List Char) :=
  props.flatMap fun prop => if prop.kind = .str then prop.values.map valueText else []

/-- `block.states[0].id` of every block. -/
def writeFirstStates (blocks : List Block) : Option (List ℕ) :=
  blocks.mapM fun block => block.states.head?.map State.id

/-- The loop that writes where the properties of each block are in the map. -/
def writeProperties : ℕ → List Block → Option (List ℕ)
  | _, [] => some []
  | propOffset, block :: blocks =>
    if propOffset < 2048 ∧ block.properties.length < 8 then do
      let data ← writeProperties (propOffset + block.properties.length) blocks
      some ((propOffset ||| block.properties.length <<< 11) :: data)
    else none

/-- The ids of the properties of each block, from its last to its first. -/
def writePropertyMap (blocks : List Block) : List ℕ :=
  blocks.flatMap fun block => block.properties.reverse.map Property.id

/-- The block of each state. -/
def writeStateBlocks (blocks : List Block) : List ℕ :=
  blocks.flatMap fun block => block.states.map fun _ => block.id

/-- `write_cpp(w, props, blocks)`. -/
def writeCpp (props : List (List Char × Property)) (blocks : List Block) : Option Emitted := do
  let properties := props.map fun p => p.2
  let propertyFlags ← writeFlags 0 properties
  let firstStateId ← writeFirstStates blocks
  let blockProperties ← writeProperties 0 blocks
  some {
    propertyFlags := propertyFlags
    propertyName := props.map fun p => p.1
    propertyKey := properties.map Property.key
    propertyValues := writeValues properties
    blockName := blocks.map Block.name
    blockTranslationKey := blocks.map Block.translationKey
    firstStateId := firstStateId
    defaultStateId := blocks.map Block.defaultStateId
    blockProperties := blockProperties
    propertyMap := writePropertyMap blocks
    stateBlock := writeStateBlocks blocks }

end BlockStates

/-! ## The compiled tables -/

/-- The tables of `data/block_impl.hh`. -/
structure BlockTables where
  propertyFlags : List (BitVec 16)
  propertyName : List (List Char)
  propertyKey : List (List Char)
  propertyValues : List (List Char)
  blockName : List (List Char)
  blockTranslationKey : List (List Char)
  firstStateId : List (BitVec 16)
  defaultStateId : List (BitVec 16)
  blockProperties : List (BitVec 16)
  propertyMap : List (BitVec 8)
  stateBlock : List (BitVec 16)

namespace BlockStates

/-- Constants of an array of `w` bits; one that does not fit is an error. -/
def constants (w : ℕ) (values : List ℕ) : Option (List (BitVec w)) :=
  values.mapM fun value => if value < 2 ^ w then some (BitVec.ofNat w value) else none

/-- The emitted file as C++ reads it. -/
def Emitted.compile (e : Emitted) : Option BlockTables := do
  let propertyFlags ← constants 16 e.propertyFlags
  let firstStateId ← constants 16 e.firstStateId
  let defaultStateId ← constants 16 e.defaultStateId
  let blockProperties ← constants 16 e.blockProperties
  let propertyMap ← constants 8 e.propertyMap
  let stateBlock ← constants 16 e.stateBlock
  some {
    propertyFlags := propertyFlags
    propertyName := e.propertyName
    propertyKey := e.propertyKey
    propertyValues := e.propertyValues
    blockName := e.blockName
    blockTranslationKey := e.blockTranslationKey
    firstStateId := firstStateId
    defaultStateId := defaultStateId
    blockProperties := blockProperties
    propertyMap := propertyMap
    stateBlock := stateBlock }

end BlockStates

end Mccpp.Model
