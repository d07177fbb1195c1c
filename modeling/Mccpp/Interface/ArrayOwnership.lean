import Mccpp.Library.Ownership
import Mccpp.Model.RuntimeArray

/-!
# Ownership of runtime arrays

Who has the pointer to an array on the heap: an array object, or the caller. An array object has a valid
range when it owns at least as many elements as its size says, and it tells whether it is empty when
`empty()` agrees with its size.
-/

set_option autoImplicit false

namespace Mccpp.Interface

open Mccpp.Library Mccpp.Model

variable {T : Type}

/-- Who can have a pointer. -/
inductive Holder where
  | array (this : ℕ)
  | caller
deriving DecidableEq, Repr

/-- The holder has the pointer to this address. -/
def HasPointer (s : ArrayHeap T) : Holder → ℕ → Prop
  | .array this, address => ∃ o, s.arrays this = some o ∧ o.data = some address
  | .caller, address => address ∈ s.callers

/-- Every pointer is to an array that is allocated, and has one holder. -/
def Owned (s : ArrayHeap T) : Prop :=
  Exclusive (fun address => (s.blocks address).isSome) (HasPointer s)

/-- `data()` points to an array of at least `size()` elements that this object alone owns, and
`begin()..end()` are the first ones of these. -/
def OwnsRange (s : ArrayHeap T) (this : ℕ) (o : RuntimeArrayObject) : Prop :=
  ∃ address block, o.data = some address ∧ s.blocks address = some block ∧ o.size ≤ block.length ∧
    (∀ holder, HasPointer s holder address ↔ holder = .array this) ∧
    s.range o = some (block.take o.size)

/-- Every array object with a size owns that many elements. -/
def RangesValid (s : ArrayHeap T) : Prop :=
  ∀ this o, s.arrays this = some o → 0 < o.size → OwnsRange s this o

/-- `empty()` of every array object is whether its size is `0`. -/
def EmptyTold (s : ArrayHeap T) : Prop :=
  ∀ this o, s.arrays this = some o → (o.empty = true ↔ o.size = 0)

/-- What is asked of the caller: names are given to one object at a time, memory that is handed out is
not in use, an object is not assigned to itself, and a pointer that is given away is the caller's. -/
def Allowed (s : ArrayHeap T) : ArrayAction T → Prop
  | .construct this => s.arrays this = none
  | .constructSized this _ address => s.arrays this = none ∧ s.blocks address = none
  | .moveConstruct this other => s.arrays this = none ∧ (s.arrays other).isSome
  | .moveAssign this other => this ≠ other ∧ (s.arrays this).isSome ∧ (s.arrays other).isSome
  | .release this | .destruct this => (s.arrays this).isSome
  | .reset this ptr size => (s.arrays this).isSome ∧ s.CallerHolds ptr size
  | .allocate address _ => s.blocks address = none
  | .deallocate address => address ∈ s.callers

/-- An array object that is released has the size `0`. -/
def ReleasesEmpty (s : ArrayHeap T) : ArrayAction T → Prop
  | .release this => ∀ o, s.arrays this = some o → o.size = 0
  | _ => True

/-- The action makes nothing but array objects of size `0` with a pointer that is not null. -/
def MakesEmptyBlocks : ArrayAction T → Prop
  | .constructSized _ size _ => size = 0
  | .reset _ ptr size => ptr ≠ none ∧ size = 0
  | .construct _ | .moveConstruct _ _ | .moveAssign _ _ | .release _ => False
  | .destruct _ | .allocate _ _ | .deallocate _ => True

end Mccpp.Interface
