import Mccpp.Model.Nbt

/-!
# Named binary tags, with what the reader does on the way

The constructors of `nbt.cc` once more, with a hook `note` that is told where a tag is begun, where
an element of an array is begun, and what `reserve` is called with. A hook that does nothing gives the
constructors of `Mccpp.Model.Nbt` (`createNoting_silent`).
-/

set_option autoImplicit false

namespace Mccpp.Model

open Mccpp.Library

/-- What the hook is told. -/
inductive NbtEvent where
  /-- `tag::create` is called. -/
  | tag
  /-- An element of an array is about to be read. -/
  | element
  /-- `m_container.reserve(count)`. -/
  | reserve (count : ℕ)
deriving DecidableEq, Repr

namespace Nbt

open PacketM

variable {σ : Type}

/-- `tag_list::tag_list`. -/
def tagListNoting (note : NbtEvent → PacketM σ Unit) (create : Option TagType → PacketM σ Tag) :
    PacketM σ Tag := do
  let type ← readByte
  let length ← readI32
  if length.toInt ≤ 0 then pure (.list [])
  else do
    note (.reserve length.toNat)
    let container ← times length.toNat (create (TagType.ofByte type))
    pure (.list container)

/-- `tag_int_array::tag_int_array` and `tag_long_array::tag_long_array`, for items of `w` bits. -/
def tagArrayNoting (note : NbtEvent → PacketM σ Unit) (w : ℕ) : PacketM σ (List (BitVec w)) := do
  let length ← readI32
  if length.toInt ≤ 0 then pure []
  else do
    note (.reserve length.toNat)
    times length.toNat do
      note .element
      readIntN w

/-- `tag::create(type, s)`, with at most `fuel` nested calls. -/
def createNoting (note : NbtEvent → PacketM σ Unit) : ℕ → Option TagType → PacketM σ Tag
  | 0, _ => fail .diverged
  | fuel + 1, type => do
    note .tag
    match type with
    | some .tagEnd => fail .abort
    | some .tagByte => do pure (.byte (← readI8))
    | some .tagShort => do pure (.short (← readI16))
    | some .tagInt => do pure (.int (← readI32))
    | some .tagLong => do pure (.long (← readI64))
    | some .tagFloat => do pure (.float (← readFloat))
    | some .tagDouble => do pure (.double (← readDouble))
    | some .tagByteArray => fail (.parseError "unimplemented")
    | some .tagString => do pure (.string (← readName))
    | some .tagList => tagListNoting note (createNoting note fuel)
    | some .tagCompound => do
      pure (.compound (← compoundLoop (createNoting note fuel) (fuel + 1)))
    | some .tagIntArray => do pure (.intArray (← tagArrayNoting note 32))
    | some .tagLongArray => do pure (.longArray (← tagArrayNoting note 64))
    | none => fail (.parseError "unknown type")

/-- `nbt::nbt`. -/
def nbtNoting (note : NbtEvent → PacketM σ Unit) : PacketM σ (Option Tag) := do
  let type ← readByte
  if TagType.ofByte type = some .tagEnd then pure none
  else do
    let _name ← readName
    let fuel ← remaining
    let root ← createNoting note (fuel + 1) (TagType.ofByte type)
    pure (some root)

end Nbt

end Mccpp.Model
