import Mccpp.Model.PacketReader

/-!
# Writing a packet

`packet_writer` of `proto/packet.{hh,cc}` and `varint_impl::write_impl` of `proto/varint.hh`. A
`packet_writer` is the vector `m_buffer`; code that works on one is a `WriterM`. When it throws,
the writer is gone with its buffer, so a failure leaves nothing behind. The host is
little-endian.
-/

set_option autoImplicit false

namespace Mccpp.Model

/-- Code that works on a `packet_writer`. -/
abbrev WriterM (α : Type) : Type := StateT (List Byte) (Except Failure) α

/-- The loop of `write_impl<TS>`, for a `TS` of `w` bits. The value has no bits left before the
bound `fuel` is reached (`spells_writeVarintLoop`). -/
def writeVarintLoop {w : ℕ} : ℕ → BitVec w → List Byte
  | 0, _ => []
  | fuel + 1, value =>
    if value &&& ~~~segmentBits.setWidth w = 0 then [value.setWidth 8]
    else
      (value &&& segmentBits.setWidth w ||| continueBit.setWidth w).setWidth 8 ::
        writeVarintLoop fuel (value >>> 7)

/-- The bytes of `varint::write(value, ...)`. -/
def varintWrite (value : BitVec 32) : List Byte := writeVarintLoop 32 value

/-- The bytes of `varlong::write(value, ...)`. -/
def varlongWrite (value : BitVec 64) : List Byte := writeVarintLoop 64 value

/-- The bytes of a value in memory. -/
def asBytes {w : ℕ} (value : BitVec w) : List Byte :=
  (List.range (w / 8)).map fun i => (value >>> (8 * i)).setWidth 8

namespace WriterM

/-- `throw e`. -/
def fail {α : Type} (e : Failure) : WriterM α := fun _ => .error e

/-- `m_buffer.emplace_back(b)`. -/
def emplaceBack (b : Byte) : WriterM Unit := modify (· ++ [b])

/-- `write_varint(value)`: the bytes one after another. -/
def writeVarint (value : BitVec 32) : WriterM Unit := (varintWrite value).forM emplaceBack

/-- `write_bytes(data, reverse)`. -/
def writeBytes (data : List Byte) (reverse : Bool) : WriterM Unit :=
  if reverse then modify (· ++ data.reverse) else modify (· ++ data)

/-- `write_bool(value)`. -/
def writeBool (value : Bool) : WriterM Unit := emplaceBack (if value then 0x01 else 0x00)

-- A signed value is the same bits read as two's complement.
def writeU8 (value : BitVec 8) : WriterM Unit := emplaceBack value
def writeU16 (value : BitVec 16) : WriterM Unit := writeBytes (asBytes value) true
def writeU32 (value : BitVec 32) : WriterM Unit := writeBytes (asBytes value) true
def writeU64 (value : BitVec 64) : WriterM Unit := writeBytes (asBytes value) true
def writeI8 (value : BitVec 8) : WriterM Unit := emplaceBack value
def writeI16 (value : BitVec 16) : WriterM Unit := writeBytes (asBytes value) true
def writeI32 (value : BitVec 32) : WriterM Unit := writeBytes (asBytes value) true
def writeI64 (value : BitVec 64) : WriterM Unit := writeBytes (asBytes value) true

/-- `write_string(value, max_code_points)`. -/
def writeString (maxCodePoints : ℕ) (value : List Byte) : WriterM Unit :=
  if ¬maxCodePoints ≤ 32767 then fail (.assertFailed "max_code_points <= 32767")
  else if value.length > maxCodePoints * 4 then fail (.encodeError "invalid string")
  else do
    writeVarint (BitVec.ofNat 32 value.length)
    writeBytes value false

/-- `write_identifier(str)`. -/
def writeIdentifier (value : List Byte) : WriterM Unit := writeString 32767 value

/-- `write_uuid(uuid)`, of `high` and `low`. -/
def writeUuid (uuid : BitVec 64 × BitVec 64) : WriterM Unit := do
  writeU64 uuid.1
  writeU64 uuid.2

end WriterM

end Mccpp.Model
