import Mccpp.Model.Client
import Mccpp.Model.Position

/-!
# Using a packet reader

Any use that code can make of a `packet_reader`: its operations one after another, where the code
goes on behind an exception, and the same with a second reader that takes its bytes from the first,
as the reader of the sections of a chunk packet does.
-/

set_option autoImplicit false

namespace Mccpp.Interface

open Mccpp.Library Mccpp.Model Mccpp.Model.PacketM

variable {σ α : Type}

/-- The public operations of `packet_reader`. -/
inductive Operation where
  | discard (n : ℕ)
  | discardBitset
  | readByte
  | readVarint
  | readBool
  | readU8
  | readU16
  | readU32
  | readU64
  | readI8
  | readI16
  | readI32
  | readI64
  | readFloat
  | readDouble
  | readIdentifier
  | readPosition
  | readUuid
  | readString (maxCodePoints : ℕ)
  | readByteArray (n : ℕ)
  | readCharArray (n : ℕ)
deriving DecidableEq, Repr

/-- The call, whose value is dropped. -/
def ignoring (p : PacketM σ α) : PacketM σ Unit := do
  let _ ← p
  pure ()

/-- The operation. -/
def Operation.perform : Operation → PacketM σ Unit
  | .discard n => PacketM.discard n
  | .discardBitset => PacketM.discardBitset
  | .readByte => ignoring PacketM.readByte
  | .readVarint => ignoring PacketM.readVarint
  | .readBool => ignoring PacketM.readBool
  | .readU8 => ignoring PacketM.readU8
  | .readU16 => ignoring PacketM.readU16
  | .readU32 => ignoring PacketM.readU32
  | .readU64 => ignoring PacketM.readU64
  | .readI8 => ignoring PacketM.readI8
  | .readI16 => ignoring PacketM.readI16
  | .readI32 => ignoring PacketM.readI32
  | .readI64 => ignoring PacketM.readI64
  | .readFloat => ignoring PacketM.readFloat
  | .readDouble => ignoring PacketM.readDouble
  | .readIdentifier => ignoring PacketM.readIdentifier
  | .readPosition => ignoring PacketM.readPosition
  | .readUuid => ignoring PacketM.readUuid
  | .readString maxCodePoints => ignoring (PacketM.readString maxCodePoints)
  | .readByteArray n => ignoring (PacketM.readByteArray n)
  | .readCharArray n => ignoring (PacketM.readCharArray n)

/-- A result behind a handler of exceptions. -/
def caught : Except Failure Unit → Except Failure Unit
  | .ok () => .ok ()
  | .error e => if e.isException then .ok () else .error e

/-- Code whose exceptions are caught and dropped. -/
def attempt (p : PacketM σ Unit) : PacketM σ Unit := fun s n =>
  (p s n).bind fun r => .done (caught r.1, r.2)

/-- Operations one after another, each going on behind the exceptions of the one before. The run
returns unless an assert fails. -/
def performAll : List Operation → PacketM σ Unit
  | [] => pure ()
  | operation :: operations => do
    attempt operation.perform
    performAll operations

/-! ## A reader on a reader -/

/-- What a nested reader pulls is read from the packet; its count is kept beside the data. -/
def serveKeeping : Pull Byte (Ended σ α) → PacketM (σ × ℕ) α
  | .done (result, s, k) => fun _ n => .done (result, (s, k), n)
  | .pull f => do
    let b ← PacketM.readByte
    serveKeeping (f b)

/-- Code over the nested reader. -/
def onNested (p : PacketM σ α) : PacketM (σ × ℕ) α := fun s n => serveKeeping (p s.1 s.2) s n

/-- Code over the packet's reader, next to a nested one. -/
def onPacket (p : PacketM σ α) : PacketM (σ × ℕ) α := fun s n =>
  (p s.1 n).bind fun r => .done (r.1, (r.2.1, s.2), r.2.2)

/-- The two readers. -/
inductive ReaderSide where
  | packet
  | nested
deriving DecidableEq, Repr

/-- The operation on one of the two readers. -/
def performOn : ReaderSide → Operation → PacketM (σ × ℕ) Unit
  | .packet, operation => onPacket operation.perform
  | .nested, operation => onNested operation.perform

/-- Operations on the two readers, in any order. -/
def performBoth : List (ReaderSide × Operation) → PacketM (σ × ℕ) Unit
  | [] => pure ()
  | step :: steps => do
    attempt (performOn step.1 step.2)
    performBoth steps

/-- The bytes that the nested reader delivered, of those pulled by the operations. -/
def deliveredByNested (pulled : List (ReaderSide × List Byte)) : List Byte :=
  (pulled.filter fun step => step.1 = .nested).flatMap Prod.snd

end Mccpp.Interface
