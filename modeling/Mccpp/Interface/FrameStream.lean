import Mccpp.Model.Connection

/-!
# A stream of frames

What the bytes a server sends mean, read in one go: a length, that many bytes, the next
length, and so on up to the first error or to the first frame that is not complete
(`oneShot`). There is no buffer, no waiting and no piece here.
-/

set_option autoImplicit false

namespace Mccpp.Interface

open Mccpp.Library Mccpp.Model

variable {σ : Type}

/-- Handlers that never read past the body: with `n` bytes left they take at most `n`, and
when they return the reader's count is what they left. -/
def StaysInBody (handle : BitVec 32 → PacketM σ Unit) : Prop :=
  ∀ packetId s n, (handle packetId s n).Within (fun r m => ∀ a, r.1 = .ok a → r.2.2 = m) n

/-- What a reader of the stream has shown: the packets it handed on, the state they left
behind, and the error it stopped with. -/
structure Observed (σ : Type) where
  dispatched : List (BitVec 32 × List Byte)
  client : σ
  failure : Option Failure

/-- The same, behind packets handed on before. -/
def Observed.after (o : Observed σ) (dispatched : List (BitVec 32 × List Byte)) : Observed σ :=
  { o with dispatched := dispatched ++ o.dispatched }

/-- Goes on from the state left behind, unless there was an error. -/
def Observed.andThen (o : Observed σ) (next : σ → Observed σ) : Observed σ :=
  match o.failure with
  | some _ => o
  | none => (next o.client).after o.dispatched

/-- The front of a stream. -/
inductive Front where
  /-- More bytes are needed to tell. -/
  | incomplete
  | malformed (e : Failure)
  | frame (body rest : List Byte)
deriving DecidableEq

/-- A frame whose length is known. -/
def bodyOf (length : ℕ) (stream : List Byte) : Front :=
  if stream.length < length then .incomplete
  else .frame (stream.take length) (stream.drop length)

/-- A frame whose length has been read but not checked. -/
def lengthOf (length : BitVec 32) (stream : List Byte) : Front :=
  if length.toInt ≤ 0 then .malformed (.decodeError "invalid packet length (too low)")
  else if length.toInt > 2097151 then
    .malformed (.decodeError "invalid packet length (too high)")
  else bodyOf length.toNat stream

/-- A frame of whose length `position` bits are known. -/
def frontOf (value : BitVec 32) (position : ℕ) : List Byte → Front
  | [] => .incomplete
  | byte :: stream =>
    match asyncReadStep value position byte with
    | .invalid => .malformed (.decodeError "invalid varint")
    | .more value position => frontOf value position stream
    | .done length => lengthOf length stream

/-- A packet behind its id: the rest of the body is handed on, and nothing of it may be left. -/
def handOn (handle : BitVec 32 → PacketM σ Unit) (client : σ) (packetId : BitVec 32) (n : ℕ)
    (rest : List Byte) : Observed σ :=
  match (handle packetId client n).run rest with
  | none => ⟨[(packetId, rest)], client, some .diverged⟩
  | some ((.error e, client, _), _) => ⟨[(packetId, rest)], client, some e⟩
  | some ((.ok (), client, _), left) =>
    ⟨[(packetId, rest)], client,
      if left = [] then none else some (.decodeError "trailing data in packet")⟩

/-- One packet: its id is read, then it is handed on. -/
def dispatch (handle : BitVec 32 → PacketM σ Unit) (client : σ) (body : List Byte) :
    Observed σ :=
  match (PacketM.readVarint client body.length).run body with
  | none => ⟨[], client, some .diverged⟩
  | some ((.error e, client, _), _) => ⟨[], client, some e⟩
  | some ((.ok packetId, client, n), rest) => handOn handle client packetId n rest

/-- The frames from a front on, at most `fuel` of them. -/
def frames (handle : BitVec 32 → PacketM σ Unit) : ℕ → σ → Front → Observed σ
  | _, client, .incomplete => ⟨[], client, none⟩
  | _, client, .malformed e => ⟨[], client, some e⟩
  | 0, client, .frame _ _ => ⟨[], client, some .diverged⟩
  | fuel + 1, client, .frame body rest =>
    (dispatch handle client body).andThen fun client => frames handle fuel client (frontOf 0 0 rest)

/-- **The one-shot parse** of a whole stream. A frame takes a byte at least, so there are no
more of them than bytes. -/
def oneShot (handle : BitVec 32 → PacketM σ Unit) (client : σ) (stream : List Byte) :
    Observed σ :=
  frames handle stream.length client (frontOf 0 0 stream)

end Mccpp.Interface
