import Mccpp.Interface.Field
import Mccpp.Interface.FrameStream
import Mccpp.Model.Sending

/-!
# Frames that are sent

The fields of each packet that is sent, the frame they make, and what a stream of frames is
split into.
-/

set_option autoImplicit false

namespace Mccpp.Interface

open Mccpp.Library Mccpp.Model

/-- The fields of a packet behind its id. -/
def fieldsOf : ServerboundPacket → List Field
  | .clientIntention p =>
    [.varint p.protocolVersion, .string 255 p.serverAddress, .u16 p.serverPort,
      .varint p.nextState.value]
  | .loginCustomQuery p => [.varint p.messageId, .bool false]
  | .hello p => .string 16 p.name :: .bool p.uuid.isSome :: (p.uuid.map Field.uuid).toList
  | .clientInformation p =>
    [.string 16 p.locale, .i8 p.viewDistance, .varint p.chatMode, .bool p.chatColors,
      .u8 p.displayedSkinParts, .varint p.mainHand, .bool p.enableTextFiltering,
      .bool p.allowServerListings]
  | .customPayload p => [.identifier p.channel, .bytes p.data]
  | .keepAlive p => [.i64 p.keepAliveId]
  | .pingRequest p => [.i64 p.payload]
  | .statusRequest => []

/-- A string within the limit of the writer. -/
def Field.Writable : Field → Prop
  | .string max v => max ≤ 32767 ∧ v.length ≤ max * 4
  | .identifier v => v.length ≤ 32767 * 4
  | _ => True

/-- The body of a packet: its id, and its fields. -/
def packetBody (id : ServerboundType → BitVec 32) (p : ServerboundPacket) : List Byte :=
  varintWrite (id p.type) ++ (fieldsOf p).flatMap Field.encode

/-- A body behind its length. -/
def frameBytes (body : List Byte) : List Byte := varintWrite (BitVec.ofNat 32 body.length) ++ body

/-- A socket that takes one byte of what it is offered at least. -/
def Accepting (socket : Socket) : Prop :=
  ∀ taken offered, offered ≠ [] → ∃ n, socket taken offered = some n ∧ 1 ≤ n ∧ n ≤ offered.length

/-- `queue_send(body)` for one body after another. -/
def sendBodies (socket : Socket) : List (List Byte) → Outgoing → Except Failure Unit × Outgoing
  | [], o => (.ok (), o)
  | body :: bodies, o =>
    match o.queueSendBody socket body with
    | (.ok (), o) => sendBodies socket bodies o
    | (.error e, o) => (.error e, o)

/-- The frames from a front on, at most `fuel` of them, and the bytes behind the last. -/
def splitFrames : ℕ → List Byte → List (List Byte) × List Byte
  | 0, stream => ([], stream)
  | fuel + 1, stream =>
    match frontOf 0 0 stream with
    | .frame body rest => ((splitFrames fuel rest).map (body :: ·) id)
    | _ => ([], stream)

/-- What a stream is split into by the grammar of the receiver. -/
def splitStream (stream : List Byte) : List (List Byte) × List Byte :=
  splitFrames stream.length stream

end Mccpp.Interface
