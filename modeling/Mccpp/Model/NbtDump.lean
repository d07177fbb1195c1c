import Mccpp.Model.Client

/-!
# Dumping named binary tags

`tag_type_to_string`, the `as_*` casts of `tag`, and `dump_nbt` of `nbt.cc`. A dump is the bytes that
it prints, or what ends the process instead. The texts `fmt` has for a `float` and a `double` are
parameters.

The C++ recursion follows the tree. `dumpTag` carries a bound, and the root is given one more than the
bytes that remained in front of the document, which is never reached (`dumpTag_returns`).
-/

set_option autoImplicit false

namespace Mccpp.Model

/-- What ends the process while a document is dumped. -/
inductive DumpCrash where
  /-- `*m_root` where `m_root` is null. -/
  | nullDereference
  /-- A `static_cast` to a class that the tag is not of. -/
  | badCast
  /-- An `assert` on this condition failed. -/
  | assertFailed (condition : String)
  /-- `abort()`. -/
  | abort
  /-- No such thing in the program: a recursion of the model reached its bound. -/
  | diverged
deriving DecidableEq, Repr

/-- `tag_type_to_string(type)`. -/
def tagTypeToString : TagType → String
  | .tagEnd => "TAG_End"
  | .tagByte => "TAG_Byte"
  | .tagShort => "TAG_Short"
  | .tagInt => "TAG_Int"
  | .tagLong => "TAG_Long"
  | .tagFloat => "TAG_Float"
  | .tagDouble => "TAG_Double"
  | .tagByteArray => "TAG_Byte_Array"
  | .tagString => "TAG_String"
  | .tagList => "TAG_List"
  | .tagCompound => "TAG_Compound"
  | .tagIntArray => "TAG_Int_Array"
  | .tagLongArray => "TAG_Long_Array"

namespace Tag

variable {α : Type}

/-- An `as_*` cast: it asserts the type, and casts to the class that has the member. -/
def castTo (type : TagType) (condition : String) (member : Tag → Option α) (tag : Tag) :
    Except DumpCrash α :=
  if tag.type = type then
    match member tag with
    | some value => .ok value
    | none => .error .badCast
  else .error (.assertFailed condition)

/-- `as_byte().value()`. -/
def asByte : Tag → Except DumpCrash (BitVec 8) :=
  castTo .tagByte "type() == TAG_BYTE" fun
    | .byte value => some value
    | _ => none

/-- `as_short().value()`. -/
def asShort : Tag → Except DumpCrash (BitVec 16) :=
  castTo .tagShort "type() == TAG_SHORT" fun
    | .short value => some value
    | _ => none

/-- `as_int().value()`. -/
def asInt : Tag → Except DumpCrash (BitVec 32) :=
  castTo .tagInt "type() == TAG_INT" fun
    | .int value => some value
    | _ => none

/-- `as_long().value()`. -/
def asLong : Tag → Except DumpCrash (BitVec 64) :=
  castTo .tagLong "type() == TAG_LONG" fun
    | .long value => some value
    | _ => none

/-- `as_float().value()`. -/
def asFloat : Tag → Except DumpCrash (BitVec 32) :=
  castTo .tagFloat "type() == TAG_FLOAT" fun
    | .float bits => some bits
    | _ => none

/-- `as_double().value()`. -/
def asDouble : Tag → Except DumpCrash (BitVec 64) :=
  castTo .tagDouble "type() == TAG_DOUBLE" fun
    | .double bits => some bits
    | _ => none

/-- `as_string().value()`. -/
def asString : Tag → Except DumpCrash (List Byte) :=
  castTo .tagString "type() == TAG_STRING" fun
    | .string value => some value
    | _ => none

/-- The elements of `as_list()`. -/
def asList : Tag → Except DumpCrash (List Tag) :=
  castTo .tagList "type() == TAG_LIST" fun
    | .list container => some container
    | _ => none

/-- The elements of `as_compound()`. -/
def asCompound : Tag → Except DumpCrash (List (List Byte × Tag)) :=
  castTo .tagCompound "type() == TAG_COMPOUND" fun
    | .compound container => some container
    | _ => none

end Tag

namespace Nbt

open PacketM

variable {σ : Type} (floatText : BitVec 32 → List Byte) (doubleText : BitVec 64 → List Byte)

/-- A signed number, and the end of the line. -/
def numberLine {w : ℕ} (value : BitVec w) : List Byte := literalBytes (toString value.toInt ++ "\n")

/-- Bytes between quotes. -/
def quoted (bytes : List Byte) : List Byte := literalBytes "\"" ++ bytes ++ literalBytes "\""

/-- `dump_nbt(tag, indent_count)`, with at most `fuel` nested calls. -/
def dumpTag : ℕ → Tag → ℕ → Except DumpCrash (List Byte)
  | 0, _, _ => .error .diverged
  | fuel + 1, tag, indentCount => do
    let indent := literalBytes (String.ofList (List.replicate (indentCount * 2) ' '))
    let innerIndent := literalBytes (String.ofList (List.replicate ((indentCount + 1) * 2) ' '))
    let head := literalBytes (tagTypeToString tag.type ++ " ")
    match tag.type with
    | .tagByte => do pure (head ++ numberLine (← tag.asByte))
    | .tagShort => do pure (head ++ numberLine (← tag.asShort))
    | .tagInt => do pure (head ++ numberLine (← tag.asInt))
    | .tagLong => do pure (head ++ numberLine (← tag.asLong))
    | .tagFloat => do pure (head ++ floatText (← tag.asFloat) ++ literalBytes "\n")
    | .tagDouble => do pure (head ++ doubleText (← tag.asDouble) ++ literalBytes "\n")
    | .tagByteArray => pure (head ++ literalBytes "TODO\n")
    | .tagString => do pure (head ++ quoted (← tag.asString) ++ literalBytes "\n")
    | .tagList => do
      let children ← tag.asList
      let lines ← children.mapM fun child => do
        let text ← dumpTag fuel child (indentCount + 1)
        pure (innerIndent ++ text)
      pure (head ++ literalBytes "\x7b\n" ++ lines.flatten ++ indent ++ literalBytes "\x7d\n")
    | .tagCompound => do
      let children ← tag.asCompound
      let lines ← children.mapM fun child => do
        let text ← dumpTag fuel child.2 (indentCount + 1)
        pure (innerIndent ++ quoted child.1 ++ literalBytes " " ++ text)
      pure (head ++ literalBytes "\x7b\n" ++ lines.flatten ++ indent ++ literalBytes "\x7d\n")
    | .tagIntArray => pure (head ++ literalBytes "TODO\n")
    | .tagLongArray => pure (head ++ literalBytes "TODO\n")
    | .tagEnd => .error .abort

/-- `dump_nbt(file.root())`. -/
def dumpRoot (fuel : ℕ) : Option Tag → Except DumpCrash (List Byte)
  | none => .error .nullDereference
  | some root => dumpTag floatText doubleText fuel root 0

/-- `dump_nbt(s)`. -/
def dumpNbt : PacketM σ (Except DumpCrash (List Byte)) := do
  let fuel ← remaining
  let file ← nbt
  pure (dumpRoot floatText doubleText (fuel + 1) file)

end Nbt

end Mccpp.Model
