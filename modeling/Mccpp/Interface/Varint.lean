import Mccpp.Model.PacketWriter

/-!
# Variable length integers and strings

What an encoding in groups of seven bits should do, for the writer and the reader of integers of one
width (`VarintCodec`), and when the writer and the reader of strings agree about a limit
(`LimitsAgree`).
-/

set_option autoImplicit false

namespace Mccpp.Interface

open Mccpp.Library Mccpp.Model

/-! ## Variable length integers -/

/-- The byte announces another. -/
def Continues (b : Byte) : Prop := b &&& continueBit ≠ 0

/-- The sum of the groups of seven bits, the lowest first. -/
def groupSum : List Byte → ℕ
  | [] => 0
  | b :: bs => b.toNat % 128 + 128 * groupSum bs

/-- The number of groups that an integer of `w` bits can take. -/
def groupCount (w : ℕ) : ℕ := (w + 6) / 7

/-- `write` and `read` are an encoding of the integers of `w` bits. -/
structure VarintCodec (w : ℕ) (write : BitVec w → List Byte)
    (read : Pull Byte (Except Failure (BitVec w))) : Prop where
  roundTrip : ∀ v rest, read.run (write v ++ rest) = some (.ok v, rest)
  minimal : ∀ bs rest v, read.run (bs ++ rest) = some (.ok v, rest) →
    (write v).length ≤ bs.length
  bounded : ∀ bs r rest, read.run bs = some (r, rest) →
    ∃ used, bs = used ++ rest ∧ used.length ≤ groupCount w
  rejects : ∀ bs, (∃ what rest, read.run bs = some (.error (.decodeError what), rest)) ↔
    groupCount w ≤ bs.length ∧ ∀ b ∈ bs.take (groupCount w), Continues b
  returns : ∀ bs, (∃ b ∈ bs.take (groupCount w), ¬ Continues b) → ∃ used last rest,
    bs = used ++ last :: rest ∧ (∀ b ∈ used, Continues b) ∧ ¬ Continues last ∧
      read.run bs = some (.ok (BitVec.ofNat w (groupSum (used ++ [last]))), rest)

/-! ## Strings -/

/-- The reader, over these bytes as the body of a packet, returns the string. -/
def ReturnsString (max : ℕ) (bs s : List Byte) : Prop :=
  ∃ rest, ((PacketM.readString max : PacketM Unit (List Byte)) () bs.length).run bs =
    some ((.ok s, (), rest.length), rest)

/-- The writer and the reader agree whether the string is within the limit. -/
def LimitsAgree (max : ℕ) (s : List Byte) : Prop :=
  (∀ bs, WriterM.writeString max s [] = .ok ((), bs) → ReturnsString max bs s) ∧
    ∀ bs, ReturnsString max bs s → ∃ out, WriterM.writeString max s [] = .ok ((), out)

end Mccpp.Interface
