import Mccpp.Interface.PacketLayout
import Mccpp.Interface.SentFrame

/-!
# Sessions

A session begins when the connection is there, and consists of the packets received since, up to
the first whose handling throws. An `Exchange` is one of these packets with the packets the client
sends in return.
-/

set_option autoImplicit false

namespace Mccpp.Interface

open Mccpp.Library Mccpp.Model

/-- The body of a packet that is received, and the memory in which it may build a column. -/
structure Received where
  body : List Byte
  memory : ℕ

/-- The client behind these packets, unless the handling of one of them throws. -/
def receiveAll (env : Environment) : List Received → Client → Option Client
  | [], c => some c
  | p :: ps, c =>
    match (receivePacket env p.memory c p.body.length).run p.body with
    | some ((.ok (), c, _), _) => receiveAll env ps c
    | _ => none

/-- A packet that is received in a state, and the packets sent in return. -/
structure Exchange where
  state : ConnectionState
  type : ClientboundType
  replies : List ServerboundPacket

/-- What a packet with these bytes behind its id is answered with. -/
inductive Answers : ClientboundType → List Byte → List ServerboundPacket → Prop where
  | customQuery (messageId : BitVec 32) (front rest : List Byte)
      (hid : varintFormat.Spells front messageId) :
      Answers .loginCustomQuery (front ++ rest) [.loginCustomQuery ⟨messageId⟩]
  | keepAlive (keepAliveId : BitVec 64) :
      Answers .keepAlive (bigEndian 8 keepAliveId.toNat) [.keepAlive ⟨keepAliveId⟩]
  | login (arguments : List Byte) :
      Answers .login arguments
        [.customPayload ⟨literalBytes "minecraft:brand", literalBytes "mccpp"⟩,
          .clientInformation ⟨literalBytes "en_US", 10, 2, false, 0, 1, false, false⟩]
  | nothing (type : ClientboundType) (arguments : List Byte)
      (hother : type ≠ .loginCustomQuery ∧ type ≠ .keepAlive ∧ type ≠ .login) :
      Answers type arguments []

/-- The body is a packet of the exchange's type, by the ids of its state, and the replies are the
answer to it. -/
def Exchanged (env : Environment) (body : List Byte) (e : Exchange) : Prop :=
  ∃ front arguments packetId, body = front ++ arguments ∧ varintFormat.Spells front packetId ∧
    env.clientbound e.state packetId = some e.type ∧ Answers e.type arguments e.replies

/-- The state behind these exchanges: the game is on from the first profile. -/
def stateAfter (exchanges : List Exchange) : ConnectionState :=
  if exchanges.any fun e => e.type = .gameProfile then .play else .login

/-- The packets of a session, each with the state it is sent in. -/
def sessionPackets (serverName : List Byte) (serverPort : BitVec 16) (exchanges : List Exchange) :
    List (ConnectionState × ServerboundPacket) :=
  (.handshaking, .clientIntention ⟨761, serverName, serverPort, .login⟩) ::
    (.login, .hello ⟨literalBytes "Foobar", none⟩) ::
      exchanges.flatMap fun e => e.replies.map fun p => (e.state, p)

/-- The frames of these packets, one behind the other. -/
def framesOf (env : Environment) (packets : List ServerboundPacket) : List Byte :=
  packets.flatMap fun p => frameBytes (packetBody env.serverboundId p)

end Mccpp.Interface
