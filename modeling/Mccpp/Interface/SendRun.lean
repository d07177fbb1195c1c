import Mccpp.Interface.SentFrame

/-!
# Runs of writes and flushes

A run is a list of calls; an exception of a flush does not end it, and every flush finds a socket
that behaves in its own way. A call delivers when what the socket has taken is at all times the
beginning of what was passed to `write_bytes`, and all of it behind a flush that returns.
-/

set_option autoImplicit false

namespace Mccpp.Interface

open Mccpp.Model

/-- A call, and how the socket behaves in it. -/
inductive SendCall where
  | writeBytes (bytes : List Byte)
  | writeFlush (socket : Socket)

/-- A socket that takes one byte at least and no more than it is offered, or throws. -/
def Obeys (socket : Socket) : Prop :=
  ∀ taken offered, offered ≠ [] → ∀ n, socket taken offered = some n → 1 ≤ n ∧ n ≤ offered.length

/-- The members, and everything that was passed to `write_bytes`. -/
structure Sender where
  outgoing : Outgoing
  passed : List Byte

namespace Sender

/-- Before the first call. -/
def start : Sender := ⟨⟨[], []⟩, []⟩

/-- One call. -/
def call (s : Sender) : SendCall → Except Failure Unit × Sender
  | .writeBytes bytes => (.ok (), ⟨s.outgoing.writeBytes bytes, s.passed ++ bytes⟩)
  | .writeFlush socket =>
    ((s.outgoing.writeFlush socket).1, ⟨(s.outgoing.writeFlush socket).2, s.passed⟩)

/-- One call after another. -/
def calls (s : Sender) (run : List SendCall) : Sender := run.foldl (fun s c => (s.call c).2) s

end Sender

/-- The bytes taken behind each `write_some` of the loop of `write_flush()`. -/
def flushMoments (socket : Socket) : ℕ → ℕ → Outgoing → List (List Byte)
  | 0, _, _ => []
  | fuel + 1, offset, o =>
    if offset < o.mWriteBuffer.length then
      match socket o.sent (o.mWriteBuffer.drop offset) with
      | none => []
      | some n =>
        let o := { o with sent := o.sent ++ (o.mWriteBuffer.drop offset).take n }
        o.sent :: flushMoments socket fuel (offset + n) o
    else []

/-- The call loses, reorders and repeats nothing. -/
structure Delivers (s : Sender) (c : SendCall) : Prop where
  during : ∀ socket, c = .writeFlush socket →
    ∀ taken ∈ flushMoments socket (s.outgoing.mWriteBuffer.length + 1) 0 s.outgoing,
      taken <+: s.passed
  after : (s.call c).2.outgoing.sent <+: (s.call c).2.passed
  flushed : ∀ socket, c = .writeFlush socket → (s.call c).1 = .ok () →
    (s.call c).2.outgoing.sent = (s.call c).2.passed

/-- The socket has taken no byte that is in the buffer. -/
def Unsent (s : Sender) : Prop :=
  s.outgoing.sent.length + s.outgoing.mWriteBuffer.length = s.passed.length

/-- A flush finds no byte in the buffer that the socket has taken, or the socket takes none. -/
def Resumes (s : Sender) : SendCall → Prop
  | .writeBytes _ => True
  | .writeFlush socket => Unsent s ∨ socket s.outgoing.sent s.outgoing.mWriteBuffer = none

end Mccpp.Interface
