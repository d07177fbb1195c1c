import Mccpp.Model.ReceiverTask

/-!
# What the tasks of a connection show

The tasks of a connection and the connection as one loop show the same: the same buffer, packets and
client, a coroutine that waits in one where there is one in the other, and the same exception.
-/

set_option autoImplicit false

namespace Mccpp.Interface

open Mccpp.Library Mccpp.Model

variable {σ : Type}

/-- **The tasks show what the connection shows.** -/
structure Shows (handle : BitVec 32 → PacketM σ Unit) (m : ReceiverTasks σ) (c : Connection σ) :
    Prop where
  mBuffer : m.data.mBuffer = c.mBuffer
  offered : m.data.offered = c.offered
  client : m.data.client = c.client
  dispatched : m.data.dispatched = c.dispatched
  mResume : m.mResume.isSome = c.mResume.isSome
  /-- Nothing is running, and what the receive task has thrown is what `on_readable()` rethrows. -/
  idle : m.control = none
  thrown : m.onReadable handle = .ok c.thrown

/-- The data of a connection. -/
def dataOf (c : Connection σ) : Receiver σ := ⟨c.mBuffer, c.offered, c.client, c.dispatched⟩

/-- The calls that wait at a point of the connection. -/
def waitingAt (point : Point) (d : Receiver σ) :
    Calls (Receiver σ) ReceiverPoint (BitVec 32) Failure :=
  match point with
  | .readByte value position =>
    ⟨.waiting false (.asyncReadImpl (.gotByte value position)) [⟨true, .gotLength⟩], d⟩
  | .recvUntil n => ⟨.waiting true (.recvLoop n) [⟨true, .gotPacket n⟩], d⟩

/-- The calls are those of the connection: they wait at its point, or have thrown its exception. -/
inductive CallsOf (c : Connection σ) : Calls (Receiver σ) ReceiverPoint (BitVec 32) Failure → Prop where
  | waits (point : Point) (hresume : c.mResume = some point) (hthrown : c.thrown = none) :
      CallsOf c (waitingAt point (dataOf c))
  | ended (e : Failure) (hresume : c.mResume = none) (hthrown : c.thrown = some e) :
      CallsOf c ⟨.ended (.error e), dataOf c⟩

end Mccpp.Interface
