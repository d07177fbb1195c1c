import Mccpp.Interface.AllOrNothing
import Mccpp.Interface.SentFrame
import Mccpp.Interface.Session
import Mccpp.Model.ClientConnection

/-!
# Runs of a client

What a client shows of itself at any time of a run, by the bytes that have come from the server so far
(`Conversation`), and what its world is, by the packets that have been handled (`WorldAfter`).
-/

set_option autoImplicit false

namespace Mccpp.Interface

open Mccpp.Library Mccpp.Model

/-- **The conversation so far.** Every complete packet of the stream is one exchange, in order, and
behind them is the beginning of a packet at most; all replies have left, and whoever splits what was
sent by the grammar of the receiver gets the bodies of the packets of the session, and nothing behind
them. -/
structure Conversation (env : Environment) (serverName : List Byte) (serverPort : BitVec 16)
    (stream : List Byte) (c : Client) (exchanges : List Exchange) : Prop where
  exchanged : List.Forall₂ (Exchanged env) (splitStream stream).1 exchanges
  states : ∀ earlier e later, exchanges = earlier ++ e :: later → e.state = stateAfter earlier
  incomplete : frontOf 0 0 (splitStream stream).2 = .incomplete
  sent : c.outgoing = ⟨[], framesOf env
    ((sessionPackets serverName serverPort exchanges).map Prod.snd)⟩
  split : splitStream c.outgoing.sent =
    (((sessionPackets serverName serverPort exchanges).map Prod.snd).map
      (packetBody env.serverboundId), [])
  state : c.mState = stateAfter exchanges

/-! ## The world -/

/-- The body of a packet, and the exchange it is. -/
abbrev Handled : Type := List Byte × Exchange

/-- The packet is one of the column at this position, whose sections are these bytes. -/
def LoadsColumn (packet : Handled) (x y : BitVec 32) (sections : List Byte) : Prop :=
  packet.2.type = .levelChunkWithLight ∧
    ∃ front packetId head data n, packet.1 = front ++ (head ++ data) ∧
      varintFormat.Spells front packetId ∧ chunkHeadFormat.Spells head (x, y, n) ∧
      sections = data.take n

/-- The packet starts the game. -/
def StartsGame (packet : Handled) : Prop := packet.2.type = .login

/-- There is a packet of the column, and the game has not been started since. -/
def LoadedSince (packets : List Handled) (x y : BitVec 32) (sections : List Byte) : Prop :=
  ∃ before packet after, packets = before ++ packet :: after ∧ LoadsColumn packet x y sections ∧
    ∀ later ∈ after, ¬StartsGame later

/-- A packet of the column, since the game was started, has filled its chunk `q`, when the column
shows `count` chunks. -/
def FilledSince (packets : List Handled) (x y : BitVec 32) (count q : ℕ) : Prop :=
  ∃ sections, LoadedSince packets x y sections ∧ Filled (List.range count) sections q

/-- **The world behind these packets.** There is one if the game was started. It has a column for
exactly the positions of the packets since, with the chunks of a world of height `384`; those that a
packet has filled are uniform, and the others are as they were made. -/
structure WorldAfter (packets : List Handled) (c : Client) : Prop where
  started : c.mWorld.isSome ↔ ∃ packet ∈ packets, StartsGame packet
  height : ∀ world, c.mWorld = some world → world.mChunks.mHeightInChunks = 24
  columns : ∀ x y, (c.column x y).isSome ↔ ∃ sections, LoadedSince packets x y sections
  chunks : ∀ x y column, c.column x y = some column → ∀ q,
    (24 ≤ q → column.mChunks[q]? = none) ∧
    (q < 24 → FilledSince packets x y column.count q → column.mChunks[q]? = some uniformChunk) ∧
    (q < 24 → ¬FilledSince packets x y column.count q → column.mChunks[q]? = some Chunk.empty)

end Mccpp.Interface
