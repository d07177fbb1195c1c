import Mccpp.Model.BlockData

/-!
# Variants of block states

`block_state` of `resource/`, and the functions of `main.cc` that take a variant apart and look for
the states it matches. `nlohmann::json` is a library: what it says about numbers is a parameter.
A member of a JSON object that is not there is `none`.
-/

set_option autoImplicit false

namespace Mccpp.Model

/-! ## `block_state` -/

/-- What `nlohmann::json` says about a number that is written as an integer. -/
structure JsonNumbers where
  /-- `is_number_integer()`. -/
  isNumberInteger : ℤ → Bool
  /-- `get<int>()`. -/
  getInt : ℤ → BitVec 32

/-- A value of a JSON file that is an object, with what is read of its members, or is not. -/
inductive JsonObject (α : Type) where
  | object (members : α)
  | other

/-- The members of a variant; one that is no object has none. -/
structure VariantItem where
  x : Option JsonValue
  y : Option JsonValue
  uvlock : Option JsonValue

/-- `block_state_variant`. -/
structure BlockStateVariant where
  match' : List Char
  flags : BitVec 8

namespace BlockStateVariant

/-- `rotation_x()`. -/
def rotationX (v : BlockStateVariant) : ℕ := (v.flags &&& 0x3).toNat * 90

/-- `rotation_y()`. -/
def rotationY (v : BlockStateVariant) : ℕ := (v.flags >>> 2 &&& 0x3).toNat * 90

/-- `uvlock()`. -/
def uvlock (v : BlockStateVariant) : Bool := v.flags &&& 0x10 ≠ 0

end BlockStateVariant

/-- `flags |= value`, where `value` is an `int`. -/
def orFlags (flags : BitVec 8) (value : BitVec 32) : BitVec 8 :=
  (flags.setWidth 32 ||| value).setWidth 8

/-- `value / 90 % 4` of a member. -/
def quarterTurns (json : JsonNumbers) : JsonValue → Except DataFailure (BitVec 32)
  | .int v =>
    if json.isNumberInteger v then
      let value := json.getInt v
      if value.srem 90 = 0 then .ok ((value.sdiv 90).srem 4)
      else .error (.assertFailed "value % 90 == 0")
    else .error (.assertFailed "iter->is_number_integer()")
  | _ => .error (.assertFailed "iter->is_number_integer()")

/-- A rotation that is stored at this place of the flags. -/
def readRotation (json : JsonNumbers) (shift : ℕ) (flags : BitVec 8) :
    Option JsonValue → Except DataFailure (BitVec 8)
  | none => .ok flags
  | some member => do
    let value ← quarterTurns json member
    .ok (orFlags flags (value <<< shift))

/-- `variant.find("x")`. -/
def readX (json : JsonNumbers) : BitVec 8 → Option JsonValue → Except DataFailure (BitVec 8) :=
  readRotation json 0

/-- `variant.find("y")`. -/
def readY (json : JsonNumbers) : BitVec 8 → Option JsonValue → Except DataFailure (BitVec 8) :=
  readRotation json 2

/-- `variant.find("uvlock")`. -/
def readUvlock (flags : BitVec 8) : Option JsonValue → Except DataFailure (BitVec 8)
  | none => .ok flags
  | some (.bool value) => .ok (if value then orFlags flags 0x10 else flags)
  | some _ => .error (.assertFailed "iter->is_boolean()")

/-- The body of the loop of `block_state`. -/
def blockStateVariant (json : JsonNumbers) (key : List Char) (variant : VariantItem) :
    Except DataFailure BlockStateVariant := do
  let flags ← readX json 0 variant.x
  let flags ← readY json flags variant.y
  let flags ← readUvlock flags variant.uvlock
  .ok ⟨key, flags⟩

/-- `block_state(fs, node)`, from the parsed file with its member `variants`. -/
def blockState (json : JsonNumbers) :
    JsonObject (Option (JsonObject (List (List Char × VariantItem)))) →
      Except DataFailure (List BlockStateVariant)
  | .other => .error (.assertFailed "json.is_object()")
  | .object none => .ok []
  | .object (some .other) => .error (.assertFailed "variants.is_object()")
  | .object (some (.object variants)) =>
    variants.mapM fun variant => blockStateVariant json variant.1 variant.2

/-! ## `parse_variant_kv_pairs` -/

/-- `text.substr(0, text.find(c))`, where `npos` is the end. -/
def substrTo (text : List Char) (c : Char) : List Char :=
  match text.idxOf? c with
  | some pos => text.take pos
  | none => text

/-- The loop of `parse_variant_kv_pairs`; `none` is a loop that goes on for longer. -/
def parseVariantKvPairs : ℕ → List Char →
    Option (Except DataFailure (List (List Char × List Char)))
  | 0, _ => none
  | fuel + 1, variant =>
    if variant.isEmpty then some (.ok [])
    else
      let text := substrTo variant ','
      match text.idxOf? '=' with
      | none => some (.error (.assertFailed "equals_pos != std::string_view::npos"))
      | some equalsPos =>
        let key := text.take equalsPos
        let value := text.drop (equalsPos + 1)
        (parseVariantKvPairs fuel
          (if text.length < variant.length then variant.drop (text.length + 1) else [])).map
          fun list => list.map fun pairs => (key, value) :: pairs

/-! ## `match_block_states` -/

/-- How the loop over the states ends. -/
inductive LoopEnd where
  | finished
  /-- `impl::state::block` was read at an index that it does not have. -/
  | outOfRange
  /-- `match_block_state` did not return. -/
  | failed (failure : DataFailure)
  /-- It goes on for longer. -/
  | running
deriving DecidableEq

/-- The states that are handed to `match_block_state`, those that are logged, and the end. -/
structure Examination where
  examined : List (BitVec 16)
  logged : List (BitVec 16)
  ending : LoopEnd

/-- The loop of `match_block_states`, from this state. -/
def matchBlockStatesFrom (t : BlockTables) (block : BitVec 16)
    (variant : List (List Char × List Char)) : ℕ → BitVec 16 → Examination
  | 0, _ => ⟨[], [], .running⟩
  | fuel + 1, state =>
    match t.stateBlock[state.toNat]? with
    | none => ⟨[], [], .outOfRange⟩
    | some owner =>
      if owner = block then
        match matchBlockState t state variant with
        | .error failure => ⟨[state], [], .failed failure⟩
        | .ok matched =>
          let rest := matchBlockStatesFrom t block variant fuel (state + 1)
          ⟨state :: rest.examined, (if matched then [state] else []) ++ rest.logged, rest.ending⟩
      else ⟨[], [], .finished⟩

/-- `match_block_states(block, variant)`. -/
def matchBlockStates (t : BlockTables) (fuel : ℕ) (block : BitVec 16)
    (variant : List (List Char × List Char)) : Examination :=
  matchBlockStatesFrom t block variant fuel (t.firstState block)

end Mccpp.Model
