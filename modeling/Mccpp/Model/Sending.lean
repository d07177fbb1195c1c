import Mccpp.Model.Serverbound

/-!
# Sending a packet

The writing side of `proto/tcp_client.{hh,cc}` and `client::queue_send` of
`proto/client.{hh,cc}`. A function that throws leaves the members as they are at that point, so
each returns them beside its result. `sent` is no member: it records the bytes that the socket
has taken.
-/

set_option autoImplicit false

namespace Mccpp.Model

/-- `m_socket->write_some(offered)`, after the bytes taken so far: the number of bytes it takes,
or nothing when it throws. -/
abbrev Socket : Type := List Byte → List Byte → Option ℕ

/-- The members of `tcp_client` that are written to. -/
structure Outgoing where
  mWriteBuffer : List Byte
  sent : List Byte
deriving DecidableEq

namespace Outgoing

/-- `write_bytes(bytes)`. -/
def writeBytes (o : Outgoing) (bytes : List Byte) : Outgoing :=
  { o with mWriteBuffer := o.mWriteBuffer ++ bytes }

/-- `write_byte(b)`. -/
def writeByte (o : Outgoing) (b : Byte) : Outgoing := o.writeBytes [b]

/-- `client::write_varint(value)`. -/
def writeVarint (o : Outgoing) (value : BitVec 32) : Outgoing :=
  (varintWrite value).foldl writeByte o

/-- The loop of `write_flush()` from `offset` on, for at most `fuel` calls of the socket. -/
def flushLoop (socket : Socket) : ℕ → ℕ → Outgoing → Except Failure Unit × Outgoing
  | 0, _, o => (.error .diverged, o)
  | fuel + 1, offset, o =>
    if offset < o.mWriteBuffer.length then
      match socket o.sent (o.mWriteBuffer.drop offset) with
      | none => (.error .systemError, o)
      | some n => flushLoop socket fuel (offset + n)
          { o with sent := o.sent ++ (o.mWriteBuffer.drop offset).take n }
    else (.ok (), { o with mWriteBuffer := [] })

/-- `write_flush()`. -/
def writeFlush (socket : Socket) (o : Outgoing) : Except Failure Unit × Outgoing :=
  flushLoop socket (o.mWriteBuffer.length + 1) 0 o

/-- `client::queue_send(body)`. -/
def queueSendBody (socket : Socket) (body : List Byte) (o : Outgoing) :
    Except Failure Unit × Outgoing :=
  if body.length > 2097151 then (.error (.encodeError "Packet length exceeded"), o)
  else
    let packetLength := BitVec.ofNat 32 body.length
    writeFlush socket ((o.writeVarint packetLength).writeBytes body)

/-- `queue_send<PacketInfo>(p)`; `id` is the `id` that generated code gives each type. -/
def queueSend (socket : Socket) (id : ServerboundType → BitVec 32) (p : ServerboundPacket)
    (o : Outgoing) : Except Failure Unit × Outgoing :=
  match (do WriterM.writeVarint (id p.type); p.write : WriterM Unit) [] with
  | .error e => (.error e, o)
  | .ok ((), body) => queueSendBody socket body o

end Outgoing

end Mccpp.Model
