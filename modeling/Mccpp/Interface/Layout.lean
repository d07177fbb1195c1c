import Mccpp.Interface.ByteFormat

/-!
# Layouts

A packet is a sequence of fields, and what a field means can depend on, and change, the data
that the code which reads it works on. A `Layout σ α` gives for every such data the format of
the bytes from there on, whose values come with the data they leave behind. The fields every
packet is made of have formats of their own: variable length integers, booleans, strings.
-/

set_option autoImplicit false

namespace Mccpp.Interface

open Mccpp.Library Mccpp.Model

/-! ## Fields -/

/-- The bytes that take the loop of a variable length integer from `value` and `position` to
the value `v`. -/
def SpellsVarint {w : ℕ} (value : BitVec w) (position : ℕ) : List Byte → BitVec w → Prop
  | [], _ => False
  | byte :: bytes, v =>
    match asyncReadStep value position byte with
    | .invalid => False
    | .more value position => SpellsVarint value position bytes v
    | .done value => bytes = [] ∧ v = value

/-- The bytes end before the loop does. -/
def CutsVarint {w : ℕ} (value : BitVec w) (position : ℕ) : List Byte → Prop
  | [] => True
  | byte :: bytes =>
    match asyncReadStep value position byte with
    | .invalid => False
    | .more value position => CutsVarint value position bytes
    | .done _ => False

/-- The rest of a variable length integer. -/
def varintFrom {w : ℕ} (value : BitVec w) (position : ℕ) : ByteFormat (BitVec w) where
  Spells := SpellsVarint value position
  Breaks bs e := e = .cutOff ∧ CutsVarint value position bs

/-- A variable length integer of 32 bits. -/
def varintFormat : ByteFormat (BitVec 32) := varintFrom 0 0

/-- A boolean: other bytes than `00` and `01` are refused. -/
def boolFormat : ByteFormat Bool :=
  byteFormat.bind fun b =>
    if b = 0x00 then .pure false else if b = 0x01 then .pure true else .refuse

/-- A string of at most `max` bytes behind its length. -/
def stringFormat (max : ℕ) : ByteFormat (List Byte) :=
  varintFormat.bind fun length =>
    if length.toInt < 0 then .refuse
    else if length.toNat > max then .refuse
    else bytesFormat length.toNat

def uuidFormat : ByteFormat (BitVec 64 × BitVec 64) :=
  (numberFormat 64).bind fun high => (numberFormat 64).map fun low => (high, low)

/-! ## Layouts -/

/-- The format of what follows, by the data worked on. -/
abbrev Layout (σ α : Type) : Type := σ → ByteFormat (α × σ)

namespace Layout

variable {σ α β : Type}

/-- A field that does not touch the data. -/
def lift (F : ByteFormat α) : Layout σ α := fun s => F.map fun a => (a, s)

/-- The data, and no bytes. -/
def get : Layout σ σ := fun s => .pure (s, s)

/-- Other data, and no bytes. -/
def set (s : σ) : Layout σ Unit := fun _ => .pure ((), s)

/-- One layout behind another. -/
def bind (F : Layout σ α) (G : α → Layout σ β) : Layout σ β :=
  fun s => (F s).bind fun r => G r.1 r.2

def pure (a : α) : Layout σ α := fun s => .pure (a, s)

def refuse : Layout σ α := fun _ => .refuse

def breakdown (k : Breakdown) : Layout σ α := fun _ => .breakdown k

/-- `n` values. -/
def times : ℕ → Layout σ α → Layout σ (List α)
  | 0, _ => pure []
  | n + 1, F => F.bind fun a => (times n F).bind fun as => pure (a :: as)

end Layout

end Mccpp.Interface
