import Mccpp.Model.PacketReader

/-!
# Named binary tags

`nbt.hh` and `nbt.cc`: the tag types, the tree the constructors build, and the recursive
reader `tag::create`. A `tag_type(s.read_byte())` that names no enumerator is `none`; it
takes the `default` branch of every `switch`. `tag_byte_array` has no value: its constructor
always throws. Memory is taken to be available, so `reserve` does nothing.

The C++ recursion has no bound of its own. `create` carries one, and the root passes one more
than the bytes that remain, which is never reached (`meteredBelow_create`).
-/

set_option autoImplicit false

namespace Mccpp.Model

/-- `enum tag_type`. -/
inductive TagType where
  | tagEnd
  | tagByte
  | tagShort
  | tagInt
  | tagLong
  | tagFloat
  | tagDouble
  | tagByteArray
  | tagString
  | tagList
  | tagCompound
  | tagIntArray
  | tagLongArray
deriving DecidableEq, Repr

/-- The enumerator a byte names. -/
def TagType.ofByte (b : Byte) : Option TagType :=
  match b.toNat with
  | 0 => some .tagEnd
  | 1 => some .tagByte
  | 2 => some .tagShort
  | 3 => some .tagInt
  | 4 => some .tagLong
  | 5 => some .tagFloat
  | 6 => some .tagDouble
  | 7 => some .tagByteArray
  | 8 => some .tagString
  | 9 => some .tagList
  | 10 => some .tagCompound
  | 11 => some .tagIntArray
  | 12 => some .tagLongArray
  | _ => none

/-- The value of an enumerator. -/
def TagType.toByte : TagType → Byte
  | .tagEnd => 0
  | .tagByte => 1
  | .tagShort => 2
  | .tagInt => 3
  | .tagLong => 4
  | .tagFloat => 5
  | .tagDouble => 6
  | .tagByteArray => 7
  | .tagString => 8
  | .tagList => 9
  | .tagCompound => 10
  | .tagIntArray => 11
  | .tagLongArray => 12

@[simp] theorem TagType.ofByte_toByte (t : TagType) : TagType.ofByte t.toByte = some t := by
  cases t <;> rfl

/-- A `tag` of any of the classes. A `float` and a `double` are their bits, a `std::string`
its bytes. -/
inductive Tag where
  | byte (value : BitVec 8)
  | short (value : BitVec 16)
  | int (value : BitVec 32)
  | long (value : BitVec 64)
  | float (bits : BitVec 32)
  | double (bits : BitVec 64)
  | string (value : List Byte)
  | list (container : List Tag)
  | compound (container : List (List Byte × Tag))
  | intArray (container : List (BitVec 32))
  | longArray (container : List (BitVec 64))

/-- `type()`. -/
def Tag.type : Tag → TagType
  | .byte _ => .tagByte
  | .short _ => .tagShort
  | .int _ => .tagInt
  | .long _ => .tagLong
  | .float _ => .tagFloat
  | .double _ => .tagDouble
  | .string _ => .tagString
  | .list _ => .tagList
  | .compound _ => .tagCompound
  | .intArray _ => .tagIntArray
  | .longArray _ => .tagLongArray

/-- `tag_list::item_type()`, of a list with this `m_container`. -/
def Tag.listItemType : List Tag → TagType
  | [] => .tagEnd
  | tag :: _ => tag.type

/-- `tag_list::item_type_compatible(type)`. -/
def Tag.listItemTypeCompatible (container : List Tag) (type : TagType) : Bool :=
  match container with
  | [] => true
  | tag :: _ => tag.type = type

namespace Nbt

open PacketM

variable {σ : Type}

/-- A 16-bit length and that many bytes, as names and strings are stored. -/
def readName : PacketM σ (List Byte) := do
  let nameLength ← readU16
  readCharArray nameLength.toNat

/-- `tag_list::tag_list`. -/
def tagList (create : Option TagType → PacketM σ Tag) : PacketM σ Tag := do
  let type ← readByte
  let length ← readI32
  if length.toInt ≤ 0 then pure (.list [])
  else do
    let container ← times length.toNat (create (TagType.ofByte type))
    pure (.list container)

/-- The loop of `tag_compound::tag_compound`. -/
def compoundLoop (create : Option TagType → PacketM σ Tag) :
    ℕ → PacketM σ (List (List Byte × Tag))
  | 0 => fail .diverged
  | fuel + 1 => do
    let type ← readByte
    if TagType.ofByte type = some .tagEnd then pure []
    else do
      let name ← readName
      let child ← create (TagType.ofByte type)
      let container ← compoundLoop create fuel
      pure ((name, child) :: container)

/-- `tag_int_array::tag_int_array` and `tag_long_array::tag_long_array`, for items of `w`
bits. -/
def tagArray (w : ℕ) : PacketM σ (List (BitVec w)) := do
  let length ← readI32
  if length.toInt ≤ 0 then pure []
  else times length.toNat (readIntN w)

/-- `tag::create(type, s)`, with at most `fuel` nested calls. -/
def create : ℕ → Option TagType → PacketM σ Tag
  | 0, _ => fail .diverged
  | fuel + 1, type =>
    match type with
    | some .tagEnd => fail .abort
    | some .tagByte => do pure (.byte (← readI8))
    | some .tagShort => do pure (.short (← readI16))
    | some .tagInt => do pure (.int (← readI32))
    | some .tagLong => do pure (.long (← readI64))
    | some .tagFloat => do pure (.float (← readFloat))
    | some .tagDouble => do pure (.double (← readDouble))
    | some .tagByteArray => fail (.parseError "unimplemented")
    | some .tagString => do pure (.string (← readName))
    | some .tagList => tagList (create fuel)
    | some .tagCompound => do pure (.compound (← compoundLoop (create fuel) (fuel + 1)))
    | some .tagIntArray => do pure (.intArray (← tagArray 32))
    | some .tagLongArray => do pure (.longArray (← tagArray 64))
    | none => fail (.parseError "unknown type")

/-- `nbt::nbt`: the root, or `none` where `m_root` is null. The root's name is dropped. -/
def nbt : PacketM σ (Option Tag) := do
  let type ← readByte
  if TagType.ofByte type = some .tagEnd then pure none
  else do
    let _name ← readName
    let fuel ← remaining
    let root ← create (fuel + 1) (TagType.ofByte type)
    pure (some root)

end Nbt

end Mccpp.Model
