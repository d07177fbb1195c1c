import Mccpp.Model.Chunk

/-!
# Columns of chunks

`chunk_column` and `chunk_manager` of `world/chunk.hh`, and the `world` that owns a manager.
The constructor of a column gives its member `m_count` no value, so it keeps what the memory
it is built in held: that value is an argument of the constructor here, and of everything that
may construct a column.
-/

set_option autoImplicit false

namespace Mccpp.Model

/-- A `chunk` as `std::make_unique<chunk[]>` makes it. -/
def Chunk.empty : Chunk := ⟨fun _ => ⟨true, ⟨0, 0, 0⟩⟩⟩

/-- `chunk_column`. -/
structure ChunkColumn where
  mChunks : List Chunk
  mCount : ℕ

namespace ChunkColumn

/-- `chunk_column(count)`, in memory where `m_count` held `memory`. -/
def construct (memory count : ℕ) : ChunkColumn := ⟨List.replicate count Chunk.empty, memory⟩

/-- `count()`. -/
def count (column : ChunkColumn) : ℕ := column.mCount

/-- The pointers from `begin()` to `end()`, as offsets from the first chunk. -/
def pointers (column : ChunkColumn) : List ℕ := List.range column.mCount

end ChunkColumn

/-- `chunk_manager`. -/
structure ChunkManager where
  mHeightInChunks : ℕ
  mColumns : BitVec 64 → Option ChunkColumn

namespace ChunkManager

/-- `chunk_manager(height_in_chunks)`. -/
def init (heightInChunks : ℕ) : ChunkManager := ⟨heightInChunks, fun _ => none⟩

/-- `chunk_pos_to_idx(x, y)`. -/
def chunkPosToIdx (x y : BitVec 32) : BitVec 64 := x.setWidth 64 <<< 32 ||| y.setWidth 64

/-- `try_get(x, y)`. -/
def tryGet (m : ChunkManager) (x y : BitVec 32) : Option ChunkColumn :=
  m.mColumns (chunkPosToIdx x y)

/-- `m_columns.emplace(key, ...)`, and whether it inserted. -/
def emplace (columns : BitVec 64 → Option ChunkColumn) (key : BitVec 64) (column : ChunkColumn) :
    (BitVec 64 → Option ChunkColumn) × Bool :=
  match columns key with
  | some _ => (columns, false)
  | none => (fun k => if k = key then some column else columns k, true)

/-- `get(x, y)`; `none` is a failed `assert`. -/
def get (m : ChunkManager) (memory : ℕ) (x y : BitVec 32) : Option (ChunkColumn × ChunkManager) :=
  match m.tryGet x y with
  | some column => some (column, m)
  | none =>
    let (columns, inserted) := emplace m.mColumns (chunkPosToIdx x y)
      (.construct memory m.mHeightInChunks)
    if inserted then
      (columns (chunkPosToIdx x y)).map fun column => (column, { m with mColumns := columns })
    else none

/-- A call of `get`: its arguments, and the memory where it would build a column. -/
structure Request where
  x : BitVec 32
  y : BitVec 32
  memory : ℕ
deriving DecidableEq

/-- The columns that a sequence of calls of `get` returns. -/
def getAll (m : ChunkManager) : List Request → Option (List ChunkColumn × ChunkManager)
  | [] => some ([], m)
  | r :: requests => do
    let (column, m) ← m.get r.memory r.x r.y
    let (columns, m) ← getAll m requests
    some (column :: columns, m)

end ChunkManager

/-- `world::world`. -/
structure World where
  mChunks : ChunkManager

/-- `world(world_height)`. -/
def World.init (worldHeight : ℕ) : World := ⟨.init (worldHeight / 16)⟩

end Mccpp.Model
