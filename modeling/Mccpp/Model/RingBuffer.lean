import Mccpp.Model.Machine

/-!
# The ring buffer

`utility/ring_buffer.hh`: two ever-growing `size_t` counters, reduced modulo the capacity
`N` when an index is formed, over `N` bytes of storage that starts uninitialised. A span
handed out by the class is a `Span` of indices into that storage. A member function whose
`assert` fails returns `none`.
-/

set_option autoImplicit false

namespace Mccpp.Model

/-- `std::span<std::byte>` into the storage: the first index and the number of bytes. -/
structure Span where
  start : ℕ
  count : ℕ
deriving DecidableEq, Repr

/-- Index `i` lies in the span. -/
def Span.Contains (s : Span) (i : ℕ) : Prop := s.start ≤ i ∧ i < s.start + s.count

/-- `ring_buffer<N>`. -/
structure RingBuffer (N : ℕ) where
  mRead : ℕ
  mWritten : ℕ
  mData : Fin N → Byte

namespace RingBuffer

variable {N : ℕ}

/-- A default constructed buffer; `memory` is whatever the storage held before. -/
def init (memory : Fin N → Byte) : RingBuffer N := ⟨0, 0, memory⟩

/-- `capacity()`. -/
def capacity (_ : RingBuffer N) : ℕ := N

/-- `readable()`. -/
def readable (rb : RingBuffer N) : ℕ := sizeSub rb.mWritten rb.mRead

/-- `writable()`. -/
def writable (rb : RingBuffer N) : ℕ := sizeSub N rb.readable

/-- `clamp(v, h)`. -/
def clamp (v h : ℕ) : ℕ := if v > h then h else v

/-- `m_data[i]`, for an index that has already been reduced. -/
def cell [NeZero N] (rb : RingBuffer N) (i : ℕ) : Byte := rb.mData (Fin.ofNat N i)

/-- `front()`, guarded by `assert(readable() >= 1)`. -/
def front [NeZero N] (rb : RingBuffer N) : Option Byte :=
  if 1 ≤ rb.readable then some (rb.cell (rb.mRead % N)) else none

/-- `read_front()`. -/
def readFront (rb : RingBuffer N) : Span :=
  let start := rb.mRead % N
  let total := rb.readable
  let count := clamp total (sizeSub N start)
  ⟨start, count⟩

/-- `read_back()`. -/
def readBack (rb : RingBuffer N) : Span :=
  let start := rb.mRead % N
  let total := rb.readable
  let count := clamp total (sizeSub N start)
  ⟨0, sizeSub total count⟩

/-- `write_front()`. -/
def writeFront (rb : RingBuffer N) : Span :=
  let start := rb.mWritten % N
  let total := rb.writable
  let count := clamp total (sizeSub N start)
  ⟨start, count⟩

/-- `write_back()`. -/
def writeBack (rb : RingBuffer N) : Span :=
  let start := rb.mWritten % N
  let total := rb.writable
  let count := clamp total (sizeSub N start)
  ⟨0, sizeSub total count⟩

/-- `mark_write(n)`, guarded by `assert(writable() >= n)`. -/
def markWrite (rb : RingBuffer N) (n : ℕ) : Option (RingBuffer N) :=
  if n ≤ rb.writable then some { rb with mWritten := sizeAdd rb.mWritten n } else none

/-- `erase(n)`, guarded by `assert(readable() >= n)`. -/
def erase (rb : RingBuffer N) (n : ℕ) : Option (RingBuffer N) :=
  if n ≤ rb.readable then some { rb with mRead := sizeAdd rb.mRead n } else none

/-- The bytes a span shows. -/
def bytes [NeZero N] (rb : RingBuffer N) (s : Span) : List Byte :=
  (List.range s.count).map fun i => rb.cell (s.start + i)

/-- Everything unread: `read_front()` followed by `read_back()`. -/
def contents [NeZero N] (rb : RingBuffer N) : List Byte :=
  rb.bytes rb.readFront ++ rb.bytes rb.readBack

/-- Copies `data` into the storage from index `start` on. -/
def store (rb : RingBuffer N) (start : ℕ) (data : List Byte) : RingBuffer N :=
  { rb with
    mData := fun p =>
      if start ≤ p.val then data[p.val - start]?.getD (rb.mData p) else rb.mData p }

@[simp] theorem mRead_store (rb : RingBuffer N) (start : ℕ) (data : List Byte) :
    (rb.store start data).mRead = rb.mRead := by
  unfold store
  dsimp only

@[simp] theorem mWritten_store (rb : RingBuffer N) (start : ℕ) (data : List Byte) :
    (rb.store start data).mWritten = rb.mWritten := by
  unfold store
  dsimp only

/-- Copies `data` into `write_front()` and what does not fit there into `write_back()`, the
order in which a scatter read fills the two. -/
def fill (rb : RingBuffer N) (data : List Byte) : RingBuffer N :=
  let front := rb.writeFront
  let back := rb.writeBack
  (rb.store front.start (data.take front.count)).store back.start (data.drop front.count)

-- `rfl` would compare the whole storage of the two buffers here, so the update is unfolded
@[simp] theorem mRead_fill (rb : RingBuffer N) (data : List Byte) :
    (rb.fill data).mRead = rb.mRead := by
  unfold fill
  dsimp only
  rw [mRead_store, mRead_store]

@[simp] theorem mWritten_fill (rb : RingBuffer N) (data : List Byte) :
    (rb.fill data).mWritten = rb.mWritten := by
  unfold fill
  dsimp only
  rw [mWritten_store, mWritten_store]

/-- The three things a user of the buffer does. -/
inductive Op where
  /-- Fill the first `data.length` writable bytes, then `mark_write(data.length)`. -/
  | write (data : List Byte)
  /-- Look at `front()`. -/
  | front
  /-- `erase(n)`. -/
  | erase (n : ℕ)
deriving DecidableEq, Repr

/-- The number of bytes an operation writes. -/
def Op.written : Op → ℕ
  | .write data => data.length
  | .front => 0
  | .erase _ => 0

/-- One operation; `none` when an `assert` fails or more than `writable()` bytes are offered. -/
def step [NeZero N] (rb : RingBuffer N) : Op → Option (RingBuffer N)
  | .write data =>
    if data.length ≤ rb.writable then (rb.fill data).markWrite data.length else none
  | .front => rb.front.map fun _ => rb
  | .erase n => rb.erase n

end RingBuffer

end Mccpp.Model
