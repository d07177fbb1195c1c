import Mccpp.Library.NodeMap
import Mccpp.Model.ChunkManager

/-!
# The nodes of the chunk manager

`chunk_manager` of `world/chunk.hh` with what its functions return: `try_get` a pointer to a column and
`get` a reference to one. `m_columns` is a `std::unordered_map`, so a column stays in the node it was
made in; a pointer or a reference is this node. What the columns hold is `contents`.
-/

set_option autoImplicit false

namespace Mccpp.Model

open Mccpp.Library

/-- `chunk_manager`, node by node. -/
structure NodeManager where
  mHeightInChunks : ℕ
  mColumns : NodeMap (BitVec 64) ChunkColumn

namespace NodeManager

/-- `chunk_manager(height_in_chunks)`. -/
def init (heightInChunks : ℕ) : NodeManager := ⟨heightInChunks, .empty⟩

/-- `try_get(x, y)`; `none` is the null pointer. -/
def tryGet (m : NodeManager) (x y : BitVec 32) : Option ℕ :=
  m.mColumns.find (ChunkManager.chunkPosToIdx x y)

/-- `get(x, y)`, a new column being built where `m_count` held `memory`. -/
def get (m : NodeManager) (memory : ℕ) (x y : BitVec 32) : Except Failure (ℕ × NodeManager) :=
  match m.tryGet x y with
  | some column => .ok (column, m)
  | none =>
    let (iter, columns) := m.mColumns.emplace (ChunkManager.chunkPosToIdx x y)
      (.construct memory m.mHeightInChunks)
    if iter.2 then .ok (iter.1, { m with mColumns := columns })
    else .error (.assertFailed "iter.second")

/-- The column that a pointer points to. -/
def deref (m : NodeManager) (column : ℕ) : Option ChunkColumn := m.mColumns.deref column

/-- The columns without their nodes. -/
def contents (m : NodeManager) : ChunkManager where
  mHeightInChunks := m.mHeightInChunks
  mColumns key := (m.mColumns.find key).bind m.mColumns.deref

/-- What is done with a manager: a column is asked for, or changed behind a pointer to it. -/
inductive Action where
  | get (request : ChunkManager.Request)
  | change (column : ℕ) (f : ChunkColumn → ChunkColumn)

/-- One after another, with the references that the calls of `get` returned. -/
def run (m : NodeManager) :
    List Action → Except Failure (List (ChunkManager.Request × ℕ) × NodeManager)
  | [] => .ok ([], m)
  | .get r :: actions => do
    let (column, m) ← m.get r.memory r.x r.y
    let (columns, m) ← run m actions
    .ok ((r, column) :: columns, m)
  | .change column f :: actions => run { m with mColumns := m.mColumns.modify column f } actions

end NodeManager

end Mccpp.Model
