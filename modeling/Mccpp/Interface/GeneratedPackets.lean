import Mccpp.Model.PacketTypes

/-!
# Packets from the file

What the types of the packets are to be called, by one rule for the whole of a name, and what the client is to do
with the packets that the file lists: each goes to the handler of its name, and no other id is taken.
-/

set_option autoImplicit false

namespace Mccpp.Interface

open Mccpp.Model Mccpp.Model.PacketTypes

/-! ## Words of a name -/

/-- A word begins at `next`, which stands between `c` and `rest`. -/
def startsWord (c next : Char) (rest : List Char) : Bool :=
  isAsciiUpper next && (isAsciiLower c || isAsciiDigit c || (c != '\n' && rest.head?.any isAsciiLower))

/-- A name with an underscore in front of every word but the first. -/
def separated : List Char → List Char
  | c :: next :: rest =>
    if startsWord c next rest then c :: '_' :: separated (next :: rest) else c :: separated (next :: rest)
  | name => name

/-- A capital letter, and at least one letter or digit behind it, none of them a capital. -/
structure IsWord (word : List Char) : Prop where
  capital : ∃ c rest, word = c :: rest ∧ isAsciiUpper c = true ∧ rest ≠ []
  small : ∀ c ∈ word.tail, (isAsciiLower c || isAsciiDigit c) = true

/-- A word, from its small letters. -/
def capitalized : List Char → List Char
  | c :: rest => c.toUpper :: rest
  | [] => []

/-- A name with capital letters, from one with underscores. -/
def fromSnake (name : List Char) : List Char := (name.splitOn '_').flatMap capitalized

/-! ## Where packets go -/

/-- The packets that the file lists for the client in a state. -/
def ListsPacket (data : List StateItem) (state : ConnectionState) (packet : PacketItem) : Prop :=
  ∃ item ∈ data, item.name.map Char.toUpper = state.upper ∧ packet ∈ item.packets .clientbound

/-- The name of the type of a packet. -/
def typeName (packet : PacketItem) : List Char :=
  camelToSnake (removeFront "Clientbound".toList packet.name)

/-- The id that is received for a packet. -/
def receivedId (packet : PacketItem) : BitVec 32 := BitVec.ofInt 32 packet.id

/-- A packet is for the handler of its name, if there is one, and is dropped otherwise. -/
def HandledAs (state : ConnectionState) (packet : PacketItem) (type : ClientboundType) : Prop :=
  (∃ name : String, (state, name, type) ∈ packetHandlers ∧ typeName packet = name.toList) ∨
    (∀ handler ∈ packetHandlers, handler.1 = state → typeName packet ≠ handler.2.1.toList) ∧
      type = .other state (receivedId packet).toNat

/-- The packets of a state that have an id, with what they are handled as. -/
def Receives (data : List StateItem) (state : ConnectionState) (id : BitVec 32) (type : ClientboundType) : Prop :=
  ∃ packet, ListsPacket data state packet ∧ receivedId packet = id ∧ HandledAs state packet type

/-- A switch that does as the file says. -/
structure FollowsFile (data : List StateItem) (s : Switch) : Prop where
  receives : ∀ state id type, s.clientbound state id = some type ↔ Receives data state id type
  distinct : ∀ state packet other, ListsPacket data state packet → ListsPacket data state other →
    receivedId packet = receivedId other → typeName packet = typeName other
  fits : ∀ state packet, ListsPacket data state packet → -2 ^ 31 ≤ packet.id ∧ packet.id < 2 ^ 31
  reached : ∀ handler ∈ packetHandlers, ∃! id, s.clientbound handler.1 id = some handler.2.2

end Mccpp.Interface
