import Mccpp.Model.Connection
import Mccpp.Model.Coroutine

/-!
# The receive coroutine as a task

The same code as in `Mccpp.Model.Connection`, coroutine by coroutine: `client::receiver_task` of
`proto/client.cc` awaits `async_read_impl` of `proto/varint.hh` and `tcp_client::async_recv_until`, and
these wait for the read buffer of `proto/tcp_client.{hh,cc}`. What is between two `co_await` is a turn.

`varint::read` runs the same `async_read_impl` over a callback that never waits.
-/

set_option autoImplicit false

namespace Mccpp.Model

open Mccpp.Library

/-! ## `async_read_impl` -/

/-- Where `async_read_impl<TS>` is, with its two variables. -/
inductive ReadPoint (w : ℕ) where
  /-- At the top of the loop. -/
  | loop (value : BitVec w) (position : ℕ)
  /-- At `await_resume()` of what the callback has returned. -/
  | gotByte (value : BitVec w) (position : ℕ)
deriving DecidableEq

/-- `async_read_impl<TS>(read_byte_callback)` for a `TS` of `w` bits, where the callback returns
something that waits for `l` and whose `await_resume()` is given. -/
def asyncReadImpl {w : ℕ} {σ C L H : Type} (l : L)
    (awaitResume : σ → Except H (Except Failure Byte × σ)) :
    ReadPoint w → σ → Except H (Turn (ReadPoint w) (BitVec w) Failure C L × σ)
  | .loop value position, s => .ok (.waits l (.gotByte value position), s)
  | .gotByte value position, s =>
    match awaitResume s with
    | .error h => .error h
    | .ok (.error e, s) => .ok (.throws e, s)
    | .ok (.ok byte, s) =>
      match asyncReadStep value position byte with
      | .invalid => .ok (.throws (.decodeError "invalid varint"), s)
      | .more value position => .ok (.waits l (.gotByte value position), s)
      | .done value => .ok (.returns value, s)

/-! ## `read_impl` -/

/-- The body of `async_read_impl<TS>` over the `async_reader` of `read_impl<TS>`, which is always
ready. -/
def readImplCode (w : ℕ) {σ H : Type} (callback : σ → Except H (Except Failure Byte × σ)) :
    Code σ (ReadPoint w) (BitVec w) Failure Unit Unit H where
  start := fun _ => .loop 0 0
  isVoid := fun _ => false
  nothing := 0
  turn := asyncReadImpl () callback
  ready := fun _ _ => true
  suspend := fun _ s => .ok s

/-- `read_impl<TS>(callback)` behind `task.handle().resume()`: its `assert`, the result, and the end of
the task. -/
def readImplEnd (w : ℕ) {σ H : Type} (callback : σ → Except H (Except Failure Byte × σ))
    (m : Tasks σ (ReadPoint w) (BitVec w) Failure) :
    Except (TaskHalt H) (Except Failure (BitVec w) × Tasks σ (ReadPoint w) (BitVec w) Failure) := do
  let result ← m.awaitResume (readImplCode w callback) 0
  let m ← m.destroy m.free 0
  .ok (result, m)

/-- The callback of `packet_reader::read_varint()`, which is `read_byte()`, over the data, the count and
the bytes that are left; there is no going on behind the last of these. -/
def readByteCallback {σ : Type} :
    σ × ℕ × List Byte → Except Unit (Except Failure Byte × (σ × ℕ × List Byte))
  | (s, n, bs) =>
    match (PacketM.readByte s n).run bs with
    | none => .error ()
    | some ((result, s, n), bs) => .ok (result, (s, n, bs))

/-! ## The coroutines of the connection -/

/-- The data of a connection besides its coroutines. -/
structure Receiver (σ : Type) where
  mBuffer : RingBuffer readCapacity
  offered : Option ℕ
  client : σ
  dispatched : List (BitVec 32 × List Byte)

/-- The coroutines. -/
inductive ReceiverCall where
  | receiverTask
  | asyncReadImpl
  | asyncRecvUntil (n : ℕ)
deriving DecidableEq

/-- Where they are. -/
inductive ReceiverPoint where
  /-- `receiver_task` at the top of its loop. -/
  | receiverTask
  /-- Behind `co_await async_read_varint()`. -/
  | gotLength (packetLength : Except Failure (BitVec 32))
  /-- Behind `co_await async_recv_until(packet_length)`. -/
  | gotPacket (length : ℕ) (result : Except Failure (BitVec 32))
  | asyncReadImpl (point : ReadPoint 32)
  /-- `async_recv_until(n)` at its beginning. -/
  | asyncRecvUntil (n : ℕ)
  /-- At the top of its loop. -/
  | recvLoop (n : ℕ)

/-- What they wait by. -/
inductive ReceiverWait where
  /-- A `tcp_client::reader`. -/
  | byte
  /-- The `awaiter` of `async_recv_until`. -/
  | bytes
deriving DecidableEq

namespace Receiver

variable {σ : Type} (handle : BitVec 32 → PacketM σ Unit)

/-- `reader::await_resume()`. -/
def awaitResume (d : Receiver σ) : Except Halt (Except Failure Byte × Receiver σ) := do
  let (byte, rb) ← orHalt .nothingReadable (popFront d.mBuffer)
  .ok (.ok byte, { d with mBuffer := rb })

/-- The body of the loop of `receiver_task` from the `packet_reader` on. -/
def receivePacket (d : Receiver σ) (length : ℕ) : Except Halt (Except Failure Unit × Receiver σ) := do
  let ((packetId, client, n), rb) ←
    orHalt .nothingReadable ((PacketM.readVarint d.client length).runWith popFront d.mBuffer)
  match packetId with
  | .error e => .ok (.error e, { d with mBuffer := rb, client := client })
  | .ok packetId => do
    let dispatched := d.dispatched ++ [(packetId, rb.contents.take n)]
    let ((result, client, remaining), rb) ←
      orHalt .nothingReadable ((handle packetId client n).runWith popFront rb)
    let d := { d with mBuffer := rb, client := client, dispatched := dispatched }
    match result with
    | .error e => .ok (.error e, d)
    | .ok () =>
      if remaining ≠ 0 then .ok (.error (.decodeError "trailing data in packet"), d)
      else .ok (.ok (), d)

/-- What the coroutine at a point does. -/
def turn : ReceiverPoint → Receiver σ →
    Except Halt (Turn ReceiverPoint (BitVec 32) Failure ReceiverCall ReceiverWait × Receiver σ)
  | .receiverTask, d => .ok (.calls .asyncReadImpl .gotLength, d)
  | .gotLength (.error e), d => .ok (.throws e, d)
  | .gotLength (.ok packetLength), d =>
    if packetLength.toInt ≤ 0 then
      .ok (.throws (.decodeError "invalid packet length (too low)"), d)
    else if packetLength.toInt > 2097151 then
      .ok (.throws (.decodeError "invalid packet length (too high)"), d)
    else .ok (.calls (.asyncRecvUntil packetLength.toNat) (.gotPacket packetLength.toNat), d)
  | .gotPacket _ (.error e), d => .ok (.throws e, d)
  | .gotPacket length (.ok _), d =>
    match d.receivePacket handle length with
    | .error h => .error h
    | .ok (.error e, d) => .ok (.throws e, d)
    | .ok (.ok (), d) => .ok (.calls .asyncReadImpl .gotLength, d)
  | .asyncReadImpl point, d =>
    (asyncReadImpl ReceiverWait.byte awaitResume point d).map fun r => (r.1.map .asyncReadImpl, r.2)
  | .asyncRecvUntil n, d =>
    if n > readCapacity then .error .recvBeyondCapacity
    else if d.mBuffer.readable < n then .ok (.waits .bytes (.recvLoop n), d)
    else .ok (.returns 0, d)
  | .recvLoop n, d =>
    if d.mBuffer.readable < n then .ok (.waits .bytes (.recvLoop n), d) else .ok (.returns 0, d)

/-- The coroutines of a connection that hands its packets to `handle`. -/
def code : Code (Receiver σ) ReceiverPoint (BitVec 32) Failure ReceiverCall ReceiverWait Halt where
  start
    | .receiverTask => .receiverTask
    | .asyncReadImpl => .asyncReadImpl (.loop 0 0)
    | .asyncRecvUntil n => .asyncRecvUntil n
  isVoid
    | .receiverTask | .asyncRecvUntil _ => true
    | .asyncReadImpl => false
  nothing := 0
  turn := turn handle
  ready
    | .byte, d => decide (1 ≤ d.mBuffer.readable)
    | .bytes, _ => false
  suspend _ d := .ok { d with
    offered := some (d.mBuffer.writeFront.count + d.mBuffer.writeBack.count) }

end Receiver

/-- The tasks of a connection. -/
abbrev ReceiverTasks (σ : Type) : Type := Tasks (Receiver σ) ReceiverPoint (BitVec 32) Failure

namespace ReceiverTasks

variable {σ : Type} (handle : BitVec 32 → PacketM σ Unit)

/-- The coroutines have run to where all of them wait, or the first is done. -/
def Settles (m m' : ReceiverTasks σ) : Prop :=
  ∃ n, m.turns (Receiver.code handle) n = .ok m' ∧ m'.control = none

/-- `on_readable()`: what it rethrows. -/
def onReadable (m : ReceiverTasks σ) : Except (TaskHalt Halt) (Option Failure) :=
  match m.frames 0 with
  | none => .error .undefined
  | some f =>
    match f.place with
    | .done => (m.awaitResume (Receiver.code handle) 0).map fun
      | .error e => some e
      | .ok _ => none
    | .suspended _ | .awaiting _ _ | .running => .ok none

/-- A read is under way that can complete with `data`. -/
def Deliverable (m : ReceiverTasks σ) (data : List Byte) : Prop :=
  data ≠ [] ∧ ∃ n, m.data.offered = some n ∧ data.length ≤ n

/-- Runs of the tasks of a connection: after the pieces they are as given, and in the last step
`on_readable()` has rethrown what is given. -/
inductive Run (memory : Fin readCapacity → Byte) (client : σ) :
    List (List Byte) → ReceiverTasks σ → Option Failure → Prop
  | start (m m' : ReceiverTasks σ)
      (h : Tasks.launch (Receiver.code handle) .receiverTask ⟨.init memory, none, client, []⟩ = .ok m)
      (hsettles : Settles handle m m') : Run memory client [] m' none
  | complete (pieces : List (List Byte)) (data : List Byte) (m m₁ m' : ReceiverTasks σ)
      (rb : RingBuffer readCapacity) (r e : Option Failure) (run : Run memory client pieces m r)
      (hdata : m.Deliverable data)
      (hmark : (m.data.mBuffer.fill data).markWrite data.length = some rb)
      (hdeliver : m.deliver (Receiver.code handle)
        (fun d => { d with mBuffer := rb, offered := none }) = some (.ok m₁))
      (hsettles : Settles handle m₁ m') (hreadable : m'.onReadable handle = .ok e) :
      Run memory client (pieces ++ [data]) m' e

end ReceiverTasks

end Mccpp.Model
