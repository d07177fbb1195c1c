import Mathlib.Data.Finset.Basic
import Mathlib.Logic.Function.Basic

/-!
# Runtime arrays

`utility/runtime_array.hh` over a heap of arrays that are allocated with `new[]`. An array object has a
pointer that it owns and a size beside it. Arrays have numbers in place of names; what the caller has of
its own are the pointers that it has to `delete[]` itself. A step is an operation on one or two arrays,
or an allocation of the caller. It is refused, as `none`, where the caller has no right to it, and where
`delete[]` is called on what is not allocated. Elements are not written, since no operation looks at
them.
-/

set_option autoImplicit false

namespace Mccpp.Model

/-- `runtime_array<T>`, with the address of the first element if `m_data` is not null. -/
structure RuntimeArrayObject where
  mData : Option ℕ
  mSize : ℕ
deriving DecidableEq, Repr

namespace RuntimeArrayObject

/-- `runtime_array()`. -/
def unnamed : RuntimeArrayObject := ⟨none, 0⟩

/-- `runtime_array(size)`, where `make_unique` allocates at this address. -/
def ofSize (address size : ℕ) : RuntimeArrayObject := ⟨some address, size⟩

/-- `runtime_array(std::move(other))`: the new object, and what is left of the other. -/
def moveConstruct (other : RuntimeArrayObject) : RuntimeArrayObject × RuntimeArrayObject :=
  (⟨other.mData, other.mSize⟩, ⟨none, 0⟩)

/-- `data()`. -/
def data (o : RuntimeArrayObject) : Option ℕ := o.mData

/-- `empty()`. A pointer is true unless it is null. -/
def empty (o : RuntimeArrayObject) : Bool := o.data.isSome

/-- `size()`. -/
def size (o : RuntimeArrayObject) : ℕ := o.mSize

/-- `release()`: the pointer, and the object behind the call. -/
def release (o : RuntimeArrayObject) : Option ℕ × RuntimeArrayObject := (o.mData, { o with mData := none })

end RuntimeArrayObject

/-- The arrays on the heap by their addresses, the array objects, and the pointers of the caller. -/
structure ArrayHeap (T : Type) where
  blocks : ℕ → Option (List T)
  arrays : ℕ → Option RuntimeArrayObject
  callers : Finset ℕ

/-- What is done. -/
inductive ArrayAction (T : Type) where
  /-- `runtime_array()`. -/
  | construct (this : ℕ)
  /-- `runtime_array(size)`, which is given memory at this address. -/
  | constructSized (this size address : ℕ)
  /-- `runtime_array(std::move(other))`. -/
  | moveConstruct (this other : ℕ)
  /-- `operator=(std::move(other))`. -/
  | moveAssign (this other : ℕ)
  /-- `release()`. -/
  | release (this : ℕ)
  /-- `reset(ptr, size)`. -/
  | reset (this : ℕ) (ptr : Option ℕ) (size : ℕ)
  /-- `~runtime_array()`. -/
  | destruct (this : ℕ)
  /-- The caller's `new T[n]`, which is given memory at this address. -/
  | allocate (address : ℕ) (elements : List T)
  /-- The caller's `delete[]`. -/
  | deallocate (address : ℕ)

namespace ArrayHeap

variable {T : Type}

/-- Nothing is allocated. -/
def init : ArrayHeap T := ⟨fun _ => none, fun _ => none, ∅⟩

/-- `delete[] ptr`, as a `unique_ptr` does it to what it had. -/
def deleteBlock (blocks : ℕ → Option (List T)) : Option ℕ → Option (ℕ → Option (List T))
  | none => some blocks
  | some address =>
    if (blocks address).isSome then some (Function.update blocks address none) else none

/-- The caller has a pointer to `n` elements. -/
def CallerHolds (s : ArrayHeap T) : Option ℕ → ℕ → Prop
  | none, n => n = 0
  | some address, n => address ∈ s.callers ∧ n ≤ ((s.blocks address).getD []).length

instance (s : ArrayHeap T) : (ptr : Option ℕ) → (n : ℕ) → Decidable (s.CallerHolds ptr n)
  | none, n => inferInstanceAs (Decidable (n = 0))
  | some address, _ => inferInstanceAs (Decidable (address ∈ s.callers ∧ _))

/-- The elements from `begin()` to `end()`, if all of them are there. -/
def range (s : ArrayHeap T) (o : RuntimeArrayObject) : Option (List T) :=
  match o.data with
  | none => if o.size = 0 then some [] else none
  | some address => (s.blocks address).bind fun block =>
      if o.size ≤ block.length then some (block.take o.size) else none

/-- An array object is given this value, or taken away. -/
def setArray (s : ArrayHeap T) (this : ℕ) (o : Option RuntimeArrayObject) : ArrayHeap T :=
  { s with arrays := Function.update s.arrays this o }

/-- One action. -/
def step [Inhabited T] (s : ArrayHeap T) : ArrayAction T → Option (ArrayHeap T)
  | .construct this =>
    if s.arrays this = none then some (s.setArray this (some .unnamed)) else none
  | .constructSized this size address =>
    if s.arrays this = none ∧ s.blocks address = none then
      some { (s.setArray this (some (.ofSize address size))) with
        blocks := Function.update s.blocks address (some (List.replicate size default)) }
    else none
  | .moveConstruct this other =>
    if s.arrays this = none then do
      let o ← s.arrays other
      let (new, left) := o.moveConstruct
      some ((s.setArray other (some left)).setArray this (some new))
    else none
  | .moveAssign this other =>
    if this ≠ other then do
      let o ← s.arrays this
      let o' ← s.arrays other
      -- `m_data` takes the pointer of the other before it deletes its own
      let blocks ← deleteBlock s.blocks o.mData
      some { ((s.setArray other (some ⟨none, 0⟩)).setArray this (some ⟨o'.mData, o'.mSize⟩)) with
        blocks := blocks }
    else none
  | .release this => do
    let o ← s.arrays this
    let (ptr, o) := o.release
    some { (s.setArray this (some o)) with
      callers := ptr.elim s.callers fun address => insert address s.callers }
  | .reset this ptr size => do
    let o ← s.arrays this
    if s.CallerHolds ptr size then do
      let blocks ← deleteBlock s.blocks o.mData
      some { (s.setArray this (some ⟨ptr, size⟩)) with
        blocks := blocks
        callers := ptr.elim s.callers fun address => s.callers.erase address }
    else none
  | .destruct this => do
    let o ← s.arrays this
    let blocks ← deleteBlock s.blocks o.mData
    some { (s.setArray this none) with blocks := blocks }
  | .allocate address elements =>
    if s.blocks address = none then
      some { s with
        blocks := Function.update s.blocks address (some elements)
        callers := insert address s.callers }
    else none
  | .deallocate address =>
    if address ∈ s.callers then do
      let blocks ← deleteBlock s.blocks (some address)
      some { s with blocks := blocks, callers := s.callers.erase address }
    else none

end ArrayHeap

end Mccpp.Model
