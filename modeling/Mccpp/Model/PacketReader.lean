import Mccpp.Library.Pull
import Mccpp.Model.Machine

/-!
# Reading a packet

`proto/packet.cc` and `proto/packet.hh`: a `packet_reader` is a count `m_remaining` and a
callback that delivers the next byte. Code that works on one is a `PacketM σ α`: from the
data `σ` it works on and the count it makes a program that pulls bytes, and ends with a
value or a failure and with the data and the count as they are then (what a C++ exception
leaves behind is not rolled back).

The variable length integers of `proto/varint.hh` are here as well, byte by byte
(`asyncReadStep`), because the receive coroutine can stop between two of their bytes.
-/

set_option autoImplicit false

namespace Mccpp.Model

open Mccpp.Library

/-! ## How code can stop early -/

/-- What ends a computation: a C++ exception, or the end of the process. -/
inductive Failure where
  /-- `proto::decode_error`. -/
  | decodeError (what : String)
  /-- `proto::encode_error`. -/
  | encodeError (what : String)
  /-- `proto::protocol_error`. -/
  | protocolError (what : String)
  /-- `nbt::parse_error`. -/
  | parseError (what : String)
  /-- `std::bad_optional_access`. -/
  | badOptionalAccess
  /-- `asio::system_error`. -/
  | systemError
  /-- An `assert` on this condition failed. -/
  | assertFailed (condition : String)
  /-- `abort()`. -/
  | abort
  /-- No such thing in the program: a recursion of the model reached its bound. -/
  | diverged
deriving DecidableEq, Repr

/-- The failure is a C++ exception, so the process goes on. -/
def Failure.isException : Failure → Bool
  | .decodeError _ | .encodeError _ | .protocolError _ | .parseError _ | .badOptionalAccess
  | .systemError => true
  | .assertFailed _ | .abort | .diverged => false

/-- How a computation over data `σ` and a packet reader ends. -/
abbrev Ended (σ α : Type) : Type := Except Failure α × σ × ℕ

/-- A computation over data `σ` and a packet reader with a given `m_remaining`. -/
def PacketM (σ α : Type) : Type := σ → ℕ → Pull Byte (Ended σ α)

namespace PacketM

variable {σ τ α β : Type}

/-- Goes on with `f` after a value, stops after a failure. -/
def andThen (f : α → PacketM σ β) : Ended σ α → Pull Byte (Ended σ β)
  | (.ok a, s, n) => f a s n
  | (.error e, s, n) => .done (.error e, s, n)

instance : Monad (PacketM σ) where
  pure a := fun s n => .done (.ok a, s, n)
  bind p f := fun s n => (p s n).bind (andThen f)

/-- Stops with a failure. -/
def fail (e : Failure) : PacketM σ α := fun s n => .done (.error e, s, n)

/-- `assert(condition)`. -/
def require (condition : Bool) (text : String) : PacketM σ Unit :=
  if condition then pure () else fail (.assertFailed text)

/-- The data worked on. -/
def get : PacketM σ σ := fun s n => .done (.ok s, s, n)

/-- Replaces the data worked on. -/
def set (s : σ) : PacketM σ Unit := fun _ n => .done (.ok (), s, n)

/-- `remaining()`. -/
def remaining : PacketM σ ℕ := fun s n => .done (.ok n, s, n)

/-- `m_remaining = n`. -/
def setRemaining (n : ℕ) : PacketM σ Unit := fun s _ => .done (.ok (), s, n)

/-- `m_read_byte()`: the callback alone. -/
def pullByte : PacketM σ Byte := fun s n => .pull fun b => .done (.ok b, s, n)

/-- Does `p` `n` times and collects what it returns. -/
def times : ℕ → PacketM σ α → PacketM σ (List α)
  | 0, _ => pure []
  | n + 1, p => do
    let a ← p
    let as ← times n p
    pure (a :: as)

/-! ## `packet_reader` -/

/-- `read_byte()`. -/
def readByte : PacketM σ Byte := do
  let remaining ← remaining
  require (0 < remaining) "m_remaining > 0"
  setRemaining (remaining - 1)
  pullByte

/-- `discard(n)`. -/
def discard (n : ℕ) : PacketM σ Unit := do
  let remaining ← remaining
  require (n ≤ remaining) "m_remaining >= n"
  setRemaining (remaining - n)
  let _ ← times n pullByte
  pure ()

/-- `read_byte_array(n)`. -/
def readByteArray (n : ℕ) : PacketM σ (List Byte) := do
  let remaining ← remaining
  require (n ≤ remaining) "m_remaining >= n"
  setRemaining (remaining - n)
  times n pullByte

/-- `read_char_array(n)`. -/
def readCharArray (n : ℕ) : PacketM σ (List Byte) := times n readByte

/-- The loop of `read_int_n<T>` with `8 * k` bits of the `w` still to be read. -/
def readIntLoop (w : ℕ) : ℕ → BitVec w → PacketM σ (BitVec w)
  | 0, v => pure v
  | k + 1, v => do
    let byte ← readByte
    readIntLoop w k (v + byte.setWidth w <<< (8 * k))

/-- `read_int_n<T>()` for a type of `w` bits. -/
def readIntN (w : ℕ) : PacketM σ (BitVec w) := readIntLoop w (w / 8) 0

-- `read_u8()` to `read_i64()`: a signed value is the same bits read as two's complement.
def readU8 : PacketM σ (BitVec 8) := readIntN 8
def readU16 : PacketM σ (BitVec 16) := readIntN 16
def readU32 : PacketM σ (BitVec 32) := readIntN 32
def readU64 : PacketM σ (BitVec 64) := readIntN 64
def readI8 : PacketM σ (BitVec 8) := readIntN 8
def readI16 : PacketM σ (BitVec 16) := readIntN 16
def readI32 : PacketM σ (BitVec 32) := readIntN 32
def readI64 : PacketM σ (BitVec 64) := readIntN 64

/-- The bits of `bytes[0], bytes[1], ...` in native, that is little-endian, order. -/
def bitCastBytes (w : ℕ) : List Byte → BitVec w
  | [] => 0
  | b :: bs => b.setWidth w ||| (bitCastBytes w bs <<< 8)

/-- `read_float_n<T>()` for a type of `w` bits: the bit pattern of the number. The bytes are
stored from the last to the first. -/
def readFloatN (w : ℕ) : PacketM σ (BitVec w) := do
  let remaining ← remaining
  require (w / 8 ≤ remaining) "m_remaining >= sizeof(T)"
  setRemaining (remaining - w / 8)
  let bytes ← times (w / 8) pullByte
  pure (bitCastBytes w bytes.reverse)

def readFloat : PacketM σ (BitVec 32) := readFloatN 32
def readDouble : PacketM σ (BitVec 64) := readFloatN 64

/-- `read_bool()`. -/
def readBool : PacketM σ Bool := do
  let b ← readByte
  if b = 0x00 then pure false
  else if b = 0x01 then pure true
  else fail (.decodeError "invalid boolean")

end PacketM

/-! ## Variable length integers -/

def segmentBits : Byte := 0x7f
def continueBit : Byte := 0x80

/-- Where one more byte takes `async_read_impl`. -/
inductive VarintStep (w : ℕ) where
  /-- The value is complete. -/
  | done (value : BitVec w)
  /-- Another byte belongs to it. -/
  | more (value : BitVec w) (position : ℕ)
  /-- `throw decode_error("invalid varint")`. -/
  | invalid
deriving DecidableEq

/-- One round of the loop of `async_read_impl<TS>`, for a `TS` of `w` bits. -/
def asyncReadStep {w : ℕ} (value : BitVec w) (position : ℕ) (byte : Byte) : VarintStep w :=
  let value := value ||| (byte &&& segmentBits).setWidth w <<< position
  if byte &&& continueBit = 0 then .done value
  else
    let position := position + 7
    if w ≤ position then .invalid else .more value position

/-- The loop of `read_impl<TS>`, for a `TS` of `w` bits, over any callback. The position passes
`w` before the bound `fuel` is reached (`run_varintReadLoop`). -/
def varintReadLoop (w : ℕ) : ℕ → BitVec w → ℕ → Pull Byte (Except Failure (BitVec w))
  | 0, _, _ => .done (.error .diverged)
  | fuel + 1, value, position => .pull fun byte =>
    match asyncReadStep value position byte with
    | .done value => .done (.ok value)
    | .more value position => varintReadLoop w fuel value position
    | .invalid => .done (.error (.decodeError "invalid varint"))

/-- `varint::read(...)` for 32 bits and `varlong::read(...)` for 64. -/
def varintRead (w : ℕ) : Pull Byte (Except Failure (BitVec w)) := varintReadLoop w w 0 0

namespace PacketM

variable {σ : Type}

/-- The loop of `async_read_impl<TS>` over a callback that never suspends. The position
passes `w` before the bound `fuel` is reached (`readVarintLoop_within`). -/
def readVarintLoop (w : ℕ) : ℕ → BitVec w → ℕ → PacketM σ (BitVec w)
  | 0, _, _ => fail .diverged
  | fuel + 1, value, position => do
    let byte ← readByte
    match asyncReadStep value position byte with
    | .done value => pure value
    | .more value position => readVarintLoop w fuel value position
    | .invalid => fail (.decodeError "invalid varint")

/-- `read_varint()`. -/
def readVarint : PacketM σ (BitVec 32) := readVarintLoop 32 32 0 0

/-- `discard_bitset()`. The product is formed as an `int32_t`, wrapping as two's complement, and
becomes a `size_t` by sign extension. -/
def discardBitset : PacketM σ Unit := do
  let count ← readVarint
  if count.toInt < 0 then fail (.decodeError "invalid count for bitset")
  else discard ((count * 8).signExtend 64).toNat

/-- `read_string(max_code_points)`. -/
def readString (maxCodePoints : ℕ) : PacketM σ (List Byte) := do
  require (maxCodePoints ≤ 32767) "max_code_points <= 32767"
  let length ← readVarint
  if length.toInt < 0 then
    fail (.decodeError "got a string with a negative length")
  else if length.toNat > maxCodePoints then
    fail (.decodeError "string length exceeds max_code_points")
  else readCharArray length.toNat

/-- `read_identifier()`. -/
def readIdentifier : PacketM σ (List Byte) := readString 32767

/-- `read_uuid()`: `high` and `low`. -/
def readUuid : PacketM σ (BitVec 64 × BitVec 64) := do
  let high ← readU64
  let low ← readU64
  pure (high, low)

end PacketM

end Mccpp.Model
