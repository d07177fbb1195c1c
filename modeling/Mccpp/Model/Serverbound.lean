import Mccpp.Model.PacketWriter

/-!
# The packets a client sends

The structs of `proto/serverbound/*/*.hh` and their `write`, and the states of the protocol.
The ids of the packets come from generated code.
-/

set_option autoImplicit false

namespace Mccpp.Model

/-- `proto::generated::connection_state`. -/
inductive ConnectionState where
  | handshaking
  | status
  | login
  | play
deriving DecidableEq, Repr

/-- The types of packets that are sent, each of one state. -/
inductive ServerboundType where
  | clientIntention
  | loginCustomQuery
  | hello
  | clientInformation
  | customPayload
  | keepAlive
  | pingRequest
  | statusRequest
deriving DecidableEq, Repr

/-- The namespace of the type, which is the state it belongs to. -/
def ServerboundType.state : ServerboundType → ConnectionState
  | clientIntention => .handshaking
  | loginCustomQuery | hello => .login
  | clientInformation | customPayload | keepAlive => .play
  | pingRequest | statusRequest => .status

/-- `next_state` of `client_intention_packet`. -/
inductive NextState where
  | status
  | login
deriving DecidableEq, Repr

/-- The value of the enumerator. -/
def NextState.value : NextState → BitVec 32
  | status => 1
  | login => 2

structure ClientIntentionPacket where
  protocolVersion : BitVec 32
  serverAddress : List Byte
  serverPort : BitVec 16
  nextState : NextState
deriving DecidableEq

structure LoginCustomQueryPacket where
  messageId : BitVec 32
deriving DecidableEq

structure HelloPacket where
  name : List Byte
  uuid : Option (BitVec 64 × BitVec 64)
deriving DecidableEq

structure ClientInformationPacket where
  locale : List Byte
  viewDistance : BitVec 8
  chatMode : BitVec 32
  chatColors : Bool
  displayedSkinParts : BitVec 8
  mainHand : BitVec 32
  enableTextFiltering : Bool
  allowServerListings : Bool
deriving DecidableEq

structure CustomPayloadPacket where
  channel : List Byte
  data : List Byte
deriving DecidableEq

structure KeepAlivePacket where
  keepAliveId : BitVec 64
deriving DecidableEq

structure PingRequestPacket where
  payload : BitVec 64
deriving DecidableEq

/-- `packet<PacketInfo>`, for any type that is sent. -/
inductive ServerboundPacket where
  | clientIntention (p : ClientIntentionPacket)
  | loginCustomQuery (p : LoginCustomQueryPacket)
  | hello (p : HelloPacket)
  | clientInformation (p : ClientInformationPacket)
  | customPayload (p : CustomPayloadPacket)
  | keepAlive (p : KeepAlivePacket)
  | pingRequest (p : PingRequestPacket)
  | statusRequest
deriving DecidableEq

namespace ServerboundPacket

open WriterM

/-- `PacketInfo`. -/
def type : ServerboundPacket → ServerboundType
  | clientIntention _ => .clientIntention
  | loginCustomQuery _ => .loginCustomQuery
  | hello _ => .hello
  | clientInformation _ => .clientInformation
  | customPayload _ => .customPayload
  | keepAlive _ => .keepAlive
  | pingRequest _ => .pingRequest
  | statusRequest => .statusRequest

/-- `packet<PacketInfo>::write(s)`. -/
def write : ServerboundPacket → WriterM Unit
  | clientIntention p => do
    writeVarint p.protocolVersion
    writeString 255 p.serverAddress
    writeU16 p.serverPort
    writeVarint p.nextState.value
  | loginCustomQuery p => do
    writeVarint p.messageId
    writeBool false
  | hello p => do
    writeString 16 p.name
    writeBool p.uuid.isSome
    match p.uuid with
    | some uuid => writeUuid uuid
    | none => pure ()
  | clientInformation p => do
    writeString 16 p.locale
    writeI8 p.viewDistance
    writeVarint p.chatMode
    writeBool p.chatColors
    writeU8 p.displayedSkinParts
    writeVarint p.mainHand
    writeBool p.enableTextFiltering
    writeBool p.allowServerListings
  | customPayload p => do
    writeIdentifier p.channel
    writeBytes p.data false
  | keepAlive p => writeI64 p.keepAliveId
  | pingRequest p => writeI64 p.payload
  | statusRequest => pure ()

end ServerboundPacket

end Mccpp.Model
