import Mccpp.Interface.PacketLayout

/-!
# All or nothing

A handler is all or nothing on a packet when a malformed packet, one that makes it throw a
`decode_error` or a `parse_error`, leaves the client as it was. `Refused` says of the bytes alone
that a reader throws on them, and `TornChunk` of a chunk packet and the world before it that the
packet is refused behind its head, when the column is there already and some of it is loaded.
-/

set_option autoImplicit false

namespace Mccpp.Interface

open Mccpp.Library Mccpp.Model

/-- The failures that a malformed packet is answered with. -/
def Malformed (e : Failure) : Prop :=
  (∃ what, e = .decodeError what) ∨ ∃ what, e = .parseError what

/-- Where the handler throws one of them over these bytes, the connection state, the world and the
outgoing byte stream are what they were. -/
def AllOrNothing (env : Environment) (memory : ℕ) (type : ClientboundType) (c : Client)
    (arguments : List Byte) : Prop :=
  ∀ e c' n left,
    (handlePacket env memory type c arguments.length).run arguments = some ((.error e, c', n), left) →
    Malformed e → c'.mState = c.mState ∧ c'.mWorld = c.mWorld ∧ c'.outgoing = c.outgoing

/-- The bytes start with no value of the format and do not break a reader of it. -/
def Refused {α : Type} (F : ByteFormat α) (bs : List Byte) : Prop :=
  (∀ used left a, bs = used ++ left → ¬F.Spells used a) ∧ ∀ k, ¬F.Breaks bs k

/-! ## The chunks that a packet fills -/

/-- A chunk of one block throughout. All blocks of the palette are the same. -/
def uniformChunk : Chunk := ⟨fun _ => blockFromGlobalPalette 0⟩

/-- The bytes start with the blocks of a section of one value, up to this value. -/
def FillsBlocks (bs : List Byte) : Prop :=
  ∃ bits value v left, bs = bits ++ (value ++ left) ∧ (numberFormat 8).Spells bits 0 ∧
    varintFormat.Spells value v

/-- The bytes start with such a section. -/
def FillsChunk (bs : List Byte) : Prop :=
  ∃ blockCount n left, bs = blockCount ++ left ∧ (numberFormat 16).Spells blockCount n ∧
    FillsBlocks left

/-- One after another, sections of these chunks are there in full, up to one that fills its
chunk. -/
inductive Filled : List ℕ → List Byte → ℕ → Prop where
  | here (pointer : ℕ) (pointers : List ℕ) (bs : List Byte) :
      FillsChunk bs → Filled (pointer :: pointers) bs pointer
  | later (pointer : ℕ) (pointers : List ℕ) (used left : List Byte) (chunk chunk' : Chunk) (q : ℕ) :
      (sectionLayout chunk).Spells used ((), chunk') → Filled pointers left q →
      Filled (pointer :: pointers) (used ++ left) q

/-- The packet would change this column: it is not there yet, or the packet fills a chunk of it
that has other blocks. -/
def Touches (column : Option ChunkColumn) (window : List Byte) : Prop :=
  match column with
  | none => True
  | some column => ∃ q chunk, Filled column.pointers window q ∧
      column.mChunks[q]? = some chunk ∧ chunk ≠ uniformChunk

/-- There is a world, the head of the packet is there, what is behind the head is refused, and the
column would be changed. -/
def TornChunk (memory : ℕ) (c : Client) (arguments : List Byte) : Prop :=
  ∃ head data x y n world, arguments = head ++ data ∧ chunkHeadFormat.Spells head (x, y, n) ∧
    c.mWorld = some world ∧ Refused (chunkDataLayout memory x y n c) data ∧
    Touches (world.mChunks.tryGet x y) (data.take n)

end Mccpp.Interface
