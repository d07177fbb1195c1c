import Mccpp.Model.Client
import Mccpp.Model.Connection

/-!
# The client on its connection

`client/client.{hh,cc}` on top of `proto/client.cc` and `proto/tcp_client.cc`: the socket is connected,
the receive coroutine runs to where it waits, and `on_connect()` sends the first packets. From then on
the reads that complete bring the packets of the server, which the handlers of the client take.
-/

set_option autoImplicit false

namespace Mccpp.Model

namespace Client

/-- `on_packet_received(packet_id, reader)`, where the memory for a new column holds what `memory` says
of the client. -/
def handlePackets (env : Environment) (memory : Client → ℕ) (packetId : BitVec 32) :
    PacketM Client Unit := do
  let c ← PacketM.get
  onPacketReceived env (memory c) packetId

/-- `connect(io, address, port)` up to the end of `on_tcp_connect()`; `storage` is what the storage of
the read buffer held. -/
def connect (env : Environment) (memory : Client → ℕ) (storage : Fin readCapacity → Byte)
    (serverName : List Byte) (serverPort : BitVec 16) :
    Except Halt (Except Failure Unit × Connection Client) := do
  let c ← Connection.start (handlePackets env memory) storage (.connecting serverName serverPort)
  let (result, client) := c.client.onConnect env
  .ok (result, { c with client := client })

/-- Runs of a client: it connects without an exception, and then its reads complete with the pieces.
The last step made `on_readable()` rethrow what is given. -/
inductive Run (env : Environment) (memory : Client → ℕ) (storage : Fin readCapacity → Byte)
    (serverName : List Byte) (serverPort : BitVec 16) :
    List (List Byte) → Connection Client → Option Failure → Prop
  | connect (c : Connection Client)
      (h : connect env memory storage serverName serverPort = .ok (.ok (), c)) :
      Run env memory storage serverName serverPort [] c none
  | complete (pieces : List (List Byte)) (data : List Byte) (c d : Connection Client)
      (r e : Option Failure) (run : Run env memory storage serverName serverPort pieces c r)
      (hdata : c.Deliverable data) (h : c.complete (handlePackets env memory) data = .ok (d, e)) :
      Run env memory storage serverName serverPort (pieces ++ [data]) d e

end Client

end Mccpp.Model
