import Mccpp.Library.BigEndian
import Mccpp.Library.Format
import Mccpp.Model.PacketReader

/-!
# Formats of bytes

How the bytes of a packet can bring the process down, and the formats of the values every
packet is made of.
-/

set_option autoImplicit false

namespace Mccpp.Interface

open Mccpp.Library Mccpp.Model

/-- The process ends while a packet is read. -/
inductive Breakdown where
  /-- An assert fails: a field is cut off. -/
  | cutOff
  /-- `abort()` is called. -/
  | aborts
deriving DecidableEq, Repr

/-- How a failure brings the process down; a C++ exception does not. -/
def breakdownOf : Failure → Option Breakdown
  | .assertFailed _ => some .cutOff
  | .abort => some .aborts
  | _ => none

/-- A format of bytes. -/
abbrev ByteFormat (α : Type) : Type := Format Byte Breakdown α

/-- One byte. -/
def byteFormat : ByteFormat Byte := .symbol .cutOff

/-- `k` bytes. -/
def bytesFormat (k : ℕ) : ByteFormat (List Byte) := .symbols .cutOff k

/-- A number of `w` bits in its big-endian bytes. -/
def numberFormat (w : ℕ) : ByteFormat (BitVec w) where
  Spells bs v := bs = bigEndian (w / 8) v.toNat
  Breaks bs e := e = .cutOff ∧ bs.length < w / 8

end Mccpp.Interface
