import Mccpp.Interface.ByteFormat
import Mccpp.Model.Nbt

/-!
# The grammar of named binary tags

What the bytes of a document mean, without a reader. `encode` is the standard big-endian
encoding of a tree, defined for every tree and faithful for the `Encodable` ones. `Payload`
is wider: it relates a tree to every spelling of it, and differs from `encode` only where a
list or an array is empty, for then any item type and any length that is not positive do.

`Comes` locates values: a reader that starts at a payload comes, behind whole payloads, to
the payloads of its items and children, so that a defect somewhere in a document is told in
terms of its bytes (`DeclaresEndItems`, `CutOff`).
-/

set_option autoImplicit false

namespace Mccpp.Interface

open Mccpp.Library Mccpp.Model

/-! ## The standard encoding -/

/-- A 16-bit length and that many bytes. -/
def nameBytes (name : List Byte) : List Byte := bigEndian 2 name.length ++ name

/-- A 32-bit length. -/
def lengthBytes (length : BitVec 32) : List Byte := bigEndian 4 length.toNat

/-- The type written in front of the items of a list: `TAG_END` when there are none. -/
def itemType : List Tag → TagType
  | [] => .tagEnd
  | tag :: _ => tag.type

mutual

/-- The payload of a tag. -/
def encode : Tag → List Byte
  | .byte v => bigEndian 1 v.toNat
  | .short v => bigEndian 2 v.toNat
  | .int v => bigEndian 4 v.toNat
  | .long v => bigEndian 8 v.toNat
  | .float v => bigEndian 4 v.toNat
  | .double v => bigEndian 8 v.toNat
  | .string s => nameBytes s
  | .list tags =>
    (itemType tags).toByte :: lengthBytes (BitVec.ofNat 32 tags.length) ++ encodeItems tags
  | .compound children => encodeChildren children
  | .intArray vs =>
    lengthBytes (BitVec.ofNat 32 vs.length) ++ vs.flatMap fun v => bigEndian 4 v.toNat
  | .longArray vs =>
    lengthBytes (BitVec.ofNat 32 vs.length) ++ vs.flatMap fun v => bigEndian 8 v.toNat

/-- The payloads of the items of a list. -/
def encodeItems : List Tag → List Byte
  | [] => []
  | tag :: tags => encode tag ++ encodeItems tags

/-- The named children of a compound, with `TAG_END` behind them. -/
def encodeChildren : List (List Byte × Tag) → List Byte
  | [] => [TagType.tagEnd.toByte]
  | (name, tag) :: children =>
    tag.type.toByte :: nameBytes name ++ encode tag ++ encodeChildren children

end

/-- A named root. -/
def document (name : List Byte) (root : Tag) : List Byte :=
  root.type.toByte :: nameBytes name ++ encode root

mutual

/-- The lengths of the tree fit their fields and its lists have items of one type. -/
inductive Encodable : Tag → Prop
  | byte (v : BitVec 8) : Encodable (.byte v)
  | short (v : BitVec 16) : Encodable (.short v)
  | int (v : BitVec 32) : Encodable (.int v)
  | long (v : BitVec 64) : Encodable (.long v)
  | float (v : BitVec 32) : Encodable (.float v)
  | double (v : BitVec 64) : Encodable (.double v)
  | string (s : List Byte) (h : s.length < 2 ^ 16) : Encodable (.string s)
  | list (tags : List Tag) (h : tags.length < 2 ^ 31)
      (items : EncodableItems (itemType tags) tags) : Encodable (.list tags)
  | compound (children : List (List Byte × Tag)) (h : EncodableChildren children) :
      Encodable (.compound children)
  | intArray (vs : List (BitVec 32)) (h : vs.length < 2 ^ 31) : Encodable (.intArray vs)
  | longArray (vs : List (BitVec 64)) (h : vs.length < 2 ^ 31) : Encodable (.longArray vs)

/-- Every item is encodable and of the given type. -/
inductive EncodableItems : TagType → List Tag → Prop
  | nil (type : TagType) : EncodableItems type []
  | cons (tag : Tag) (tags : List Tag) (head : Encodable tag)
      (tail : EncodableItems tag.type tags) : EncodableItems tag.type (tag :: tags)

/-- Every child is encodable and has a name that fits its field. -/
inductive EncodableChildren : List (List Byte × Tag) → Prop
  | nil : EncodableChildren []
  | cons (name : List Byte) (tag : Tag) (children : List (List Byte × Tag))
      (h : name.length < 2 ^ 16) (head : Encodable tag) (tail : EncodableChildren children) :
      EncodableChildren ((name, tag) :: children)

end

/-! ## Every spelling -/

/-- The spellings of an empty list or array: any item type, and a length that is not
positive. -/
inductive EmptyContainer : TagType → List Byte → Tag → Prop
  | list (item : Byte) (length : BitVec 32) (h : length.toInt ≤ 0) :
      EmptyContainer .tagList (item :: lengthBytes length) (.list [])
  | intArray (length : BitVec 32) (h : length.toInt ≤ 0) :
      EmptyContainer .tagIntArray (lengthBytes length) (.intArray [])
  | longArray (length : BitVec 32) (h : length.toInt ≤ 0) :
      EmptyContainer .tagLongArray (lengthBytes length) (.longArray [])

mutual

/-- The bytes are a payload of the type and spell the tag. -/
inductive Payload : TagType → List Byte → Tag → Prop
  | byte (v : BitVec 8) : Payload .tagByte (bigEndian 1 v.toNat) (.byte v)
  | short (v : BitVec 16) : Payload .tagShort (bigEndian 2 v.toNat) (.short v)
  | int (v : BitVec 32) : Payload .tagInt (bigEndian 4 v.toNat) (.int v)
  | long (v : BitVec 64) : Payload .tagLong (bigEndian 8 v.toNat) (.long v)
  | float (v : BitVec 32) : Payload .tagFloat (bigEndian 4 v.toNat) (.float v)
  | double (v : BitVec 64) : Payload .tagDouble (bigEndian 8 v.toNat) (.double v)
  | string (s : List Byte) (h : s.length < 2 ^ 16) : Payload .tagString (nameBytes s) (.string s)
  | empty (type : TagType) (bytes : List Byte) (tag : Tag) (h : EmptyContainer type bytes tag) :
      Payload type bytes tag
  | list (item : TagType) (length : BitVec 32) (h : 0 < length.toInt) (bytes : List Byte)
      (tags : List Tag) (items : Items item length.toNat bytes tags) :
      Payload .tagList (item.toByte :: lengthBytes length ++ bytes) (.list tags)
  | compound (entries : List Byte) (children : List (List Byte × Tag))
      (h : Entries entries children) :
      Payload .tagCompound (entries ++ [TagType.tagEnd.toByte]) (.compound children)
  | intArray (vs : List (BitVec 32)) (h : vs.length < 2 ^ 31) :
      Payload .tagIntArray (lengthBytes (BitVec.ofNat 32 vs.length) ++
        vs.flatMap fun v => bigEndian 4 v.toNat) (.intArray vs)
  | longArray (vs : List (BitVec 64)) (h : vs.length < 2 ^ 31) :
      Payload .tagLongArray (lengthBytes (BitVec.ofNat 32 vs.length) ++
        vs.flatMap fun v => bigEndian 8 v.toNat) (.longArray vs)

/-- The bytes are that many payloads of the type. -/
inductive Items : TagType → ℕ → List Byte → List Tag → Prop
  | nil (item : TagType) : Items item 0 [] []
  | cons (item : TagType) (count : ℕ) (bytes rest : List Byte) (tag : Tag) (tags : List Tag)
      (head : Payload item bytes tag) (tail : Items item count rest tags) :
      Items item (count + 1) (bytes ++ rest) (tag :: tags)

/-- The bytes are typed and named children. -/
inductive Entries : List Byte → List (List Byte × Tag) → Prop
  | nil : Entries [] []
  | cons (type : TagType) (name bytes rest : List Byte) (tag : Tag)
      (children : List (List Byte × Tag)) (h : name.length < 2 ^ 16)
      (head : Payload type bytes tag) (tail : Entries rest children) :
      Entries (type.toByte :: nameBytes name ++ bytes ++ rest) ((name, tag) :: children)

end

/-- The bytes are a document: `TAG_END` alone, or a named root. -/
inductive Document : List Byte → Option Tag → Prop
  | empty : Document [TagType.tagEnd.toByte] none
  | root (type : TagType) (name bytes : List Byte) (tag : Tag) (h : name.length < 2 ^ 16)
      (payload : Payload type bytes tag) :
      Document (type.toByte :: nameBytes name ++ bytes) (some tag)

/-! ## What a reader comes to -/

/-- A reader of a payload of the first type, with the first bytes before it, comes to a
payload of the second type, with the second bytes before it: to the one it starts at, to an
item of a list behind the earlier items, or to a child of a compound behind the earlier
children. -/
inductive Comes : TagType → List Byte → TagType → List Byte → Prop
  | here (type : TagType) (bytes : List Byte) : Comes type bytes type bytes
  | item (item : TagType) (length : BitVec 32) (h : 0 < length.toInt) (count : ℕ)
      (hcount : count < length.toNat) (earlier later : List Byte) (tags : List Tag)
      (type : TagType) (bytes : List Byte) (items : Items item count earlier tags)
      (next : Comes item later type bytes) :
      Comes .tagList (item.toByte :: lengthBytes length ++ earlier ++ later) type bytes
  | child (childType : TagType) (hchild : childType ≠ .tagEnd) (name : List Byte)
      (hname : name.length < 2 ^ 16) (earlier later : List Byte)
      (children : List (List Byte × Tag)) (type : TagType) (bytes : List Byte)
      (entries : Entries earlier children) (next : Comes childType later type bytes) :
      Comes .tagCompound (earlier ++ (childType.toByte :: nameBytes name ++ later)) type bytes

/-- The bytes end inside a name. -/
inductive NameCut : List Byte → Prop
  | length (bytes : List Byte) (h : bytes.length < 2) : NameCut bytes
  | text (length : BitVec 16) (bytes : List Byte) (h : bytes.length < length.toNat) :
      NameCut (bigEndian 2 length.toNat ++ bytes)

/-- The bytes end inside an array of numbers of `k` bytes. -/
inductive ArrayCut (k : ℕ) : List Byte → Prop
  | length (bytes : List Byte) (h : bytes.length < 4) : ArrayCut k bytes
  | items (length : BitVec 32) (h : 0 < length.toInt) (bytes : List Byte)
      (hbytes : bytes.length < k * length.toNat) : ArrayCut k (lengthBytes length ++ bytes)

/-- The number of bytes of a number. -/
def numberWidth : TagType → Option ℕ
  | .tagByte => some 1
  | .tagShort => some 2
  | .tagInt | .tagFloat => some 4
  | .tagLong | .tagDouble => some 8
  | _ => none

/-- The bytes end inside a field of the payload that is not an item or a child. -/
inductive FieldCut : TagType → List Byte → Prop
  | number (type : TagType) (k : ℕ) (htype : numberWidth type = some k) (bytes : List Byte)
      (h : bytes.length < k) : FieldCut type bytes
  | string (bytes : List Byte) (h : NameCut bytes) : FieldCut .tagString bytes
  | list (bytes : List Byte) (h : bytes.length < 5) : FieldCut .tagList bytes
  | childType (earlier : List Byte) (children : List (List Byte × Tag))
      (entries : Entries earlier children) : FieldCut .tagCompound earlier
  | childName (earlier : List Byte) (children : List (List Byte × Tag))
      (entries : Entries earlier children) (childType : Byte)
      (htype : childType ≠ TagType.tagEnd.toByte) (later : List Byte) (h : NameCut later) :
      FieldCut .tagCompound (earlier ++ childType :: later)
  | intArray (bytes : List Byte) (h : ArrayCut 4 bytes) : FieldCut .tagIntArray bytes
  | longArray (bytes : List Byte) (h : ArrayCut 8 bytes) : FieldCut .tagLongArray bytes

/-- A reader of the payload comes to a field that the bytes end in. -/
def CutOff (type : TagType) (bytes : List Byte) : Prop :=
  ∃ type' bytes', Comes type bytes type' bytes' ∧ FieldCut type' bytes'

/-- A reader of the payload comes to a list that declares a positive number of `TAG_END`
items. -/
def DeclaresEndItems (type : TagType) (bytes : List Byte) : Prop :=
  ∃ (length : BitVec 32) (later : List Byte), 0 < length.toInt ∧
    Comes type bytes .tagList (TagType.tagEnd.toByte :: lengthBytes length ++ later)

/-- The document has a root, and a reader of the root comes to such a list. -/
def DocumentDeclaresEndItems (bytes : List Byte) : Prop :=
  ∃ (type : TagType) (name later : List Byte), type ≠ .tagEnd ∧ name.length < 2 ^ 16 ∧
    bytes = type.toByte :: nameBytes name ++ later ∧ DeclaresEndItems type later

/-- The bytes end before the document does: before its type, inside its name, or inside a
field of its root. -/
inductive DocumentCutOff : List Byte → Prop
  | type : DocumentCutOff []
  | name (type : Byte) (h : type ≠ TagType.tagEnd.toByte) (later : List Byte)
      (hlater : NameCut later) : DocumentCutOff (type :: later)
  | root (type : TagType) (htype : type ≠ .tagEnd) (name : List Byte)
      (hname : name.length < 2 ^ 16) (later : List Byte) (h : CutOff type later) :
      DocumentCutOff (type.toByte :: nameBytes name ++ later)

/-- A document as a format. -/
def documentFormat : ByteFormat (Option Tag) where
  Spells := Document
  Breaks bytes
    | .cutOff => DocumentCutOff bytes
    | .aborts => DocumentDeclaresEndItems bytes

end Mccpp.Interface
