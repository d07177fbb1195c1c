import Mccpp.Model.PacketReader
import Mccpp.Model.RingBuffer

/-!
# The receive loop of a connection

`proto/tcp_client.{hh,cc}` and `client::receiver_task` of `proto/client.cc`: a coroutine that
reads a length, waits for that many bytes, and hands the packet to `on_packet_received`. It
suspends at two kinds of points (`Point`), each time after asking for more bytes, and is
resumed by the completion of that read.

The buffer's asserts are the failures of `Except Halt`. A failure inside a packet ends the
coroutine and is kept in it; if that failure is not an exception the process is gone as well,
which is no different from here, since nothing is read any more. `dispatched` is no field of
the program: it records the calls of `on_packet_received`.
-/

set_option autoImplicit false

namespace Mccpp.Model

open Mccpp.Library

/-- The capacity of the `ring_buffer<2097151>` of `tcp_client::buffer`. Irreducible, so that
it is never counted out in unary. -/
@[irreducible] def readCapacity : ℕ := 2097151

theorem readCapacity_eq : readCapacity = 2097151 := by unfold readCapacity; rfl

instance : NeZero readCapacity := ⟨by rw [readCapacity_eq]; decide⟩

/-- What stops the process in `tcp_client` or its buffer. -/
inductive Halt where
  /-- `assert(!m_resume)`. -/
  | resumePending
  /-- `assert(n <= m_read_buffer.capacity())`. -/
  | recvBeyondCapacity
  /-- `assert(writable() >= n)`. -/
  | writeBeyondWritable
  /-- `assert(readable() >= 1)` and `assert(readable() >= n)`. -/
  | nothingReadable
  /-- No such thing in the program: the loop of the model reached its bound. -/
  | diverged
deriving DecidableEq, Repr

/-- Where the receive coroutine is suspended. -/
inductive Point where
  /-- At `co_await read_byte_callback()` of `async_read_impl`, with its two variables. -/
  | readByte (value : BitVec 32) (position : ℕ)
  /-- At `co_await awaiter` of `async_recv_until(n)`. -/
  | recvUntil (n : ℕ)
deriving DecidableEq, Repr

/-- `proto::client` over the state `σ` of the class derived from it. -/
structure Connection (σ : Type) where
  mBuffer : RingBuffer readCapacity
  /-- `m_resume`: the coroutine that waits, by the point it waits at. -/
  mResume : Option Point
  /-- The bytes offered to the `async_read_some` that is under way. -/
  offered : Option ℕ
  client : σ
  /-- The packet ids and bodies handed to `on_packet_received` so far. -/
  dispatched : List (BitVec 32 × List Byte)
  /-- The exception in `m_receive_task` once it is done. -/
  thrown : Option Failure

/-- `buffer::pop_front()`. -/
def popFront {N : ℕ} [NeZero N] (rb : RingBuffer N) :
    Option (Byte × RingBuffer N) := do
  let b ← rb.front
  let rb ← rb.erase 1
  pure (b, rb)

/-- The value of a member function of the buffer, whose `assert` stops the process. -/
def orHalt {α : Type} (halt : Halt) : Option α → Except Halt α
  | none => .error halt
  | some a => .ok a

namespace Connection

variable {σ : Type}

/-- A connection before the coroutine runs; `memory` is what the buffer's storage held. -/
def init (memory : Fin readCapacity → Byte) (client : σ) : Connection σ where
  mBuffer := .init memory
  mResume := none
  offered := none
  client := client
  dispatched := []
  thrown := none

/-- `buffer::resume_on_readable(h)`. -/
def resumeOnReadable (c : Connection σ) (point : Point) : Except Halt (Connection σ) :=
  if c.mResume.isSome then .error .resumePending
  else .ok { c with
    mResume := some point
    offered := some (c.mBuffer.writeFront.count + c.mBuffer.writeBack.count) }

/-- `unhandled_exception()`: the coroutine is done. -/
def finish (c : Connection σ) (e : Failure) : Except Halt (Connection σ) :=
  .ok { c with thrown := some e }

variable (handle : BitVec 32 → PacketM σ Unit)

/-- `on_packet_received(packet_id, reader)` with `n` bytes left in the packet, and what the
loop does behind it; `next` is the next round. -/
def gotPacketId (c : Connection σ) (packetId : BitVec 32) (n : ℕ)
    (next : Connection σ → Except Halt (Connection σ)) : Except Halt (Connection σ) := do
  let dispatched := c.dispatched ++ [(packetId, c.mBuffer.contents.take n)]
  let ((result, client, remaining), rb) ←
    orHalt .nothingReadable ((handle packetId c.client n).runWith popFront c.mBuffer)
  let c := { c with mBuffer := rb, client := client, dispatched := dispatched }
  match result with
  | .error e => c.finish e
  | .ok () =>
    if remaining ≠ 0 then c.finish (.decodeError "trailing data in packet") else next c

/-- The body of the loop of `receiver_task` from the `packet_reader` on, for a packet of
`length` bytes. -/
def receivePacket (c : Connection σ) (length : ℕ)
    (next : Connection σ → Except Halt (Connection σ)) : Except Halt (Connection σ) := do
  let ((packetId, client, n), rb) ←
    orHalt .nothingReadable ((PacketM.readVarint c.client length).runWith popFront c.mBuffer)
  let c := { c with mBuffer := rb, client := client }
  match packetId with
  | .error e => c.finish e
  | .ok packetId => c.gotPacketId handle packetId n next

/-- The loop of `async_recv_until(n)`, and the packet behind it. -/
def recvUntil (c : Connection σ) (n : ℕ) (next : Connection σ → Except Halt (Connection σ)) :
    Except Halt (Connection σ) :=
  if c.mBuffer.readable < n then c.resumeOnReadable (.recvUntil n)
  else c.receivePacket handle n next

/-- `receiver_task` from `async_read_varint()` on. -/
def gotLength (c : Connection σ) (packetLength : BitVec 32)
    (next : Connection σ → Except Halt (Connection σ)) : Except Halt (Connection σ) :=
  if packetLength.toInt ≤ 0 then c.finish (.decodeError "invalid packet length (too low)")
  else if packetLength.toInt > 2097151 then
    c.finish (.decodeError "invalid packet length (too high)")
  else if packetLength.toNat > readCapacity then .error .recvBeyondCapacity
  else c.recvUntil handle packetLength.toNat next

/-- `async_read_impl` behind a byte: goes on with the next byte (`next`), or with the complete
length. -/
def gotStep (c : Connection σ)
    (next : Connection σ → BitVec 32 → ℕ → Except Halt (Connection σ)) :
    VarintStep 32 → Except Halt (Connection σ)
  | .invalid => c.finish (.decodeError "invalid varint")
  | .more value position => next c value position
  | .done packetLength => c.gotLength handle packetLength fun c => next c 0 0

/-- `async_read_impl` from `await_resume()` on. -/
def gotByte (c : Connection σ) (value : BitVec 32) (position : ℕ)
    (next : Connection σ → BitVec 32 → ℕ → Except Halt (Connection σ)) :
    Except Halt (Connection σ) := do
  let (byte, rb) ← orHalt .nothingReadable (popFront c.mBuffer)
  gotStep handle { c with mBuffer := rb } next (asyncReadStep value position byte)

/-- `receiver_task` at `co_await read_byte_callback()`, for at most `fuel` bytes of lengths. -/
def receive : ℕ → Connection σ → BitVec 32 → ℕ → Except Halt (Connection σ)
  | 0, _, _, _ => .error .diverged
  | fuel + 1, c, value, position =>
    if 1 ≤ c.mBuffer.readable then c.gotByte handle value position (receive fuel)
    else c.resumeOnReadable (.readByte value position)

/-- `handle.resume()` on the coroutine suspended at a point. -/
def resume (c : Connection σ) : Point → Except Halt (Connection σ)
  | .readByte value position =>
    c.gotByte handle value position (receive handle (c.mBuffer.readable + 1))
  | .recvUntil n =>
    c.recvUntil handle n fun d => receive handle (c.mBuffer.readable + 1) d 0 0

/-- `on_tcp_connect()`: the coroutine runs to where it first suspends. -/
def start (memory : Fin readCapacity → Byte) (client : σ) : Except Halt (Connection σ) :=
  receive handle 1 (init memory client) 0 0

/-- The completion of a read resumes the coroutine that waits for it, if any. -/
def resumeWaiting (c : Connection σ) : Except Halt (Connection σ) :=
  match c.mResume with
  | none => .ok c
  | some point => resume handle { c with mResume := none } point

/-- The completion of the read under way with `data`, and what `on_readable()` rethrows. -/
def complete (c : Connection σ) (data : List Byte) :
    Except Halt (Connection σ × Option Failure) := do
  let rb ← orHalt .writeBeyondWritable ((c.mBuffer.fill data).markWrite data.length)
  let c ← resumeWaiting handle { c with mBuffer := rb, offered := none }
  .ok (c, c.thrown)

/-- A read is under way that can complete with `data`: at least one byte, and no more than
were offered. -/
def Deliverable (c : Connection σ) (data : List Byte) : Prop :=
  data ≠ [] ∧ ∃ n, c.offered = some n ∧ data.length ≤ n

/-- Runs of a connection: after the pieces the connection is as given, and its last step made
`on_readable()` rethrow what is given. -/
inductive Run (memory : Fin readCapacity → Byte) (client : σ) :
    List (List Byte) → Connection σ → Option Failure → Prop
  | start (c : Connection σ) (h : start handle memory client = .ok c) :
      Run memory client [] c none
  | complete (pieces : List (List Byte)) (data : List Byte) (c d : Connection σ)
      (r e : Option Failure) (run : Run memory client pieces c r) (hdata : c.Deliverable data)
      (h : c.complete handle data = .ok (d, e)) : Run memory client (pieces ++ [data]) d e

end Connection

end Mccpp.Model
