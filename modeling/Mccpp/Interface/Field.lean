import Mccpp.Library.BigEndian
import Mccpp.Model.PacketWriter

/-!
# Fields of a packet

What the fields of a packet are, apart from how they are written and read: each has its bytes
(`encode`), the call of the writer that puts it into a packet (`write`), and a kind, which is
all that the call of the reader that takes it out again depends on (`FieldKind.read`).
-/

set_option autoImplicit false

namespace Mccpp.Interface

open Mccpp.Library Mccpp.Model

/-- A field with its value. -/
inductive Field where
  | varint (v : BitVec 32)
  | bool (v : Bool)
  | u8 (v : BitVec 8)
  | u16 (v : BitVec 16)
  | u32 (v : BitVec 32)
  | u64 (v : BitVec 64)
  | i8 (v : BitVec 8)
  | i16 (v : BitVec 16)
  | i32 (v : BitVec 32)
  | i64 (v : BitVec 64)
  | uuid (v : BitVec 64 × BitVec 64)
  | bytes (v : List Byte)
  | string (max : ℕ) (v : List Byte)
  | identifier (v : List Byte)
deriving DecidableEq

/-- What the reader has to know of a field. -/
inductive FieldKind where
  | varint
  | bool
  | u8
  | u16
  | u32
  | u64
  | i8
  | i16
  | i32
  | i64
  | uuid
  | bytes (n : ℕ)
  | string (max : ℕ)
  | identifier
deriving DecidableEq

namespace Field

def kind : Field → FieldKind
  | varint _ => .varint
  | bool _ => .bool
  | u8 _ => .u8
  | u16 _ => .u16
  | u32 _ => .u32
  | u64 _ => .u64
  | i8 _ => .i8
  | i16 _ => .i16
  | i32 _ => .i32
  | i64 _ => .i64
  | uuid _ => .uuid
  | bytes v => .bytes v.length
  | string max _ => .string max
  | identifier _ => .identifier

/-- A string of a limit that the reader admits, and within it. -/
def Fits : Field → Prop
  | string max v => max ≤ 32767 ∧ v.length ≤ max
  | identifier v => v.length ≤ 32767
  | _ => True

/-- The bytes of a string behind its length. -/
def encodeString (v : List Byte) : List Byte := varintWrite (BitVec.ofNat 32 v.length) ++ v

/-- The bytes of a field. -/
def encode : Field → List Byte
  | varint v => varintWrite v
  | bool v => [if v then 0x01 else 0x00]
  | u8 v | i8 v => [v]
  | u16 v | i16 v => bigEndian 2 v.toNat
  | u32 v | i32 v => bigEndian 4 v.toNat
  | u64 v | i64 v => bigEndian 8 v.toNat
  | uuid v => bigEndian 8 v.1.toNat ++ bigEndian 8 v.2.toNat
  | bytes v => v
  | string _ v | identifier v => encodeString v

/-- The call of the writer. -/
def write : Field → WriterM Unit
  | varint v => WriterM.writeVarint v
  | bool v => WriterM.writeBool v
  | u8 v => WriterM.writeU8 v
  | u16 v => WriterM.writeU16 v
  | u32 v => WriterM.writeU32 v
  | u64 v => WriterM.writeU64 v
  | i8 v => WriterM.writeI8 v
  | i16 v => WriterM.writeI16 v
  | i32 v => WriterM.writeI32 v
  | i64 v => WriterM.writeI64 v
  | uuid v => WriterM.writeUuid v
  | bytes v => WriterM.writeBytes v false
  | string max v => WriterM.writeString max v
  | identifier v => WriterM.writeIdentifier v

/-- Fields one after another. -/
def writeAll : List Field → WriterM Unit
  | [] => pure ()
  | f :: fields => do
    f.write
    writeAll fields

end Field

namespace FieldKind

variable {σ : Type}

/-- The call of the reader. -/
def read : FieldKind → PacketM σ Field
  | varint => do let v ← PacketM.readVarint; pure (.varint v)
  | bool => do let v ← PacketM.readBool; pure (.bool v)
  | u8 => do let v ← PacketM.readU8; pure (.u8 v)
  | u16 => do let v ← PacketM.readU16; pure (.u16 v)
  | u32 => do let v ← PacketM.readU32; pure (.u32 v)
  | u64 => do let v ← PacketM.readU64; pure (.u64 v)
  | i8 => do let v ← PacketM.readI8; pure (.i8 v)
  | i16 => do let v ← PacketM.readI16; pure (.i16 v)
  | i32 => do let v ← PacketM.readI32; pure (.i32 v)
  | i64 => do let v ← PacketM.readI64; pure (.i64 v)
  | uuid => do let v ← PacketM.readUuid; pure (.uuid v)
  | bytes n => do let v ← PacketM.readByteArray n; pure (.bytes v)
  | string max => do let v ← PacketM.readString max; pure (.string max v)
  | identifier => do let v ← PacketM.readIdentifier; pure (.identifier v)

/-- Fields one after another. -/
def readAll : List FieldKind → PacketM σ (List Field)
  | [] => pure []
  | k :: kinds => do
    let f ← k.read
    let fields ← readAll kinds
    pure (f :: fields)

end FieldKind

end Mccpp.Interface
