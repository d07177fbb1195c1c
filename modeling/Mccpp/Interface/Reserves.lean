import Mccpp.Interface.NbtGrammar
import Mccpp.Interface.Section
import Mccpp.Model.Client
import Mccpp.Model.NbtEvents

/-!
# Reserving for a declared count

The containers of a packet that declare how many elements they have, and how many bytes there are
behind the declaration, without a reader (`Reserved`, `DeclaresPalette`); and what is asked of the
code: that `reserve` is called with no more than the bytes that are left, a larger count being
rejected (`ReservesProperly`, `ReservesPaletteProperly`).
-/

set_option autoImplicit false

namespace Mccpp.Interface

open Mccpp.Library Mccpp.Model Mccpp.Model.PacketM

/-! ## What is declared -/

/-- The payload is a container that declares this many elements, at least one, with this many bytes
behind the declaration. -/
inductive Declares : TagType → List Byte → ℕ × ℕ → Prop
  | list (item : Byte) (length : BitVec 32) (h : 0 < length.toInt) (rest : List Byte) :
      Declares .tagList (item :: lengthBytes length ++ rest) (length.toNat, rest.length)
  | intArray (length : BitVec 32) (h : 0 < length.toInt) (rest : List Byte) :
      Declares .tagIntArray (lengthBytes length ++ rest) (length.toNat, rest.length)
  | longArray (length : BitVec 32) (h : 0 < length.toInt) (rest : List Byte) :
      Declares .tagLongArray (lengthBytes length ++ rest) (length.toNat, rest.length)

/-- A reader of the payload comes to a container that declares this. -/
def Reserved (type : TagType) (bytes : List Byte) (declared : ℕ × ℕ) : Prop :=
  ∃ type' bytes', Comes type bytes type' bytes' ∧ Declares type' bytes' declared

/-- The document has a root, and a reader of the root comes to such a container. -/
def DocumentReserved (bytes : List Byte) (declared : ℕ × ℕ) : Prop :=
  ∃ (type : TagType) (name later : List Byte), type ≠ .tagEnd ∧ name.length < 2 ^ 16 ∧
    bytes = type.toByte :: nameBytes name ++ later ∧ Reserved type later declared

/-- Some container that a reader of the document comes to declares more elements than there are
bytes behind the declaration. -/
def Overdeclares (bytes : List Byte) : Prop :=
  ∃ count left, DocumentReserved bytes (count, left) ∧ left < count

/-- The first `n` bytes start with a palette of this many values, looked up with these bytes behind
its length. -/
def DeclaresPalette (n : ℕ) (bytes : List Byte) (count : ℕ) (rest : List Byte) : Prop :=
  ∃ (bits : BitVec 8) (length : BitVec 32) (spelling : List Byte),
    bytes = bits :: spelling ++ rest ∧ bits ≠ 0 ∧ bits.toNat ≤ 8 ∧
      varintFormat.Spells spelling length ∧ 0 ≤ length.toInt ∧ count = length.toNat ∧
      spelling.length + 1 ≤ n

/-- The section declares a palette of more values than there are bytes behind the declaration. -/
def OverdeclaresPalette (n : ℕ) (bytes : List Byte) : Prop :=
  ∃ count rest, DeclaresPalette n bytes count rest ∧ rest.length < count

/-! ## What is asked -/

/-- Keeps for each call of `reserve` its argument and the bytes that remain. -/
def logging : NbtEvent → PacketM (List (ℕ × ℕ)) Unit
  | .tag | .element => pure ()
  | .reserve count => do
    let left ← remaining
    let log ← get
    set (log ++ [(count, left)])

/-- The result is a `parse_error` or a `decode_error`. -/
def Rejected {α : Type} (result : Except Failure α) : Prop :=
  (∃ what, result = .error (.parseError what)) ∨ ∃ what, result = .error (.decodeError what)

/-- Reading a document over these bytes, with anything behind them, calls `reserve` with no more
than the bytes that are left each time, and rejects larger counts. -/
def ReservesProperly (body following : List Byte) : Prop :=
  ∃ r left, (Nbt.nbtNoting logging [] body.length).run (body ++ following) = some (r, left) ∧
    (∀ count left, (count, left) ∈ r.2.1 → count ≤ left) ∧ (Overdeclares body → Rejected r.1)

/-- Keeps what `reserve` is called with, and stops there. -/
def stopping (count : ℕ) : PacketM (Chunk × Option ℕ) Unit := do
  let (c, _) ← get
  set (c, some count)
  fail .diverged

/-- What is done to the chunk, next to what is kept. -/
def fillNoting (c : Chunk) : PacketM (Chunk × Option ℕ) Unit := do
  let (_, kept) ← get
  set (c, kept)

/-- Loading a section from a nested reader of `n` bytes over a packet that has these bytes left calls
`reserve` with no more than the packet has left then, and rejects a larger count. -/
def ReservesPaletteProperly (c : Chunk) (n : ℕ) (bytes : List Byte) : Prop :=
  ∃ r left, (nested n (loadBlocksNoting fillNoting stopping) (c, none) bytes.length).run bytes =
      some (r, left) ∧
    (∀ count, r.2.1.2 = some count → count ≤ left.length) ∧
    (OverdeclaresPalette n bytes → Rejected r.1)

end Mccpp.Interface
