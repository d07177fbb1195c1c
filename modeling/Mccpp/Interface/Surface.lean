import Mccpp.Library.Boundary
import Mccpp.Model.ChunkMesh

/-!
# The surface a mesh shows

A mesh is drawn as triangles: three indices at a time, each the place of a corner among the
vertices. The surface is closed when every edge of a triangle, directed as the triangle is
wound, is matched by an edge of another triangle in the other direction. A chunk shows the faces between
its solid blocks and air.
-/

set_option autoImplicit false

namespace Mccpp.Interface

open Mccpp.Library Mccpp.Model

/-- The corners of a triangle, in the order of its indices. -/
abbrev Triangle : Type := Vec3 ℚ × Vec3 ℚ × Vec3 ℚ

/-- The corner an index stands for. -/
def cornerAt (vertices : List Vertex) (i : BitVec 32) : Option (Vec3 ℚ) :=
  vertices[i.toNat]?.map Vertex.position

/-- The triangles a list of indices draws; `none` when an index stands for no vertex or the
last triangle is not complete. -/
def triangles (vertices : List Vertex) : List (BitVec 32) → Option (List Triangle)
  | [] => some []
  | [_] => none
  | [_, _] => none
  | i :: j :: k :: indicies => do
    let a ← cornerAt vertices i
    let b ← cornerAt vertices j
    let c ← cornerAt vertices k
    let rest ← triangles vertices indicies
    some ((a, b, c) :: rest)

/-- The directed edges of a triangle. -/
def Triangle.edges (t : Triangle) : List (Vec3 ℚ × Vec3 ℚ) :=
  [(t.1, t.2.1), (t.2.1, t.2.2), (t.2.2, t.1)]

/-- A face: the block it belongs to, and the direction it faces. -/
abbrev Face : Type := Vec3 ℤ × Vec3 ℤ

/-- The places of the blocks of a chunk, in the order they are drawn. -/
def blockPositions : List (Vec3 ℤ) :=
  (List.range 16).flatMap fun (z : ℕ) =>
    (List.range 16).flatMap fun (x : ℕ) => (List.range 16).map fun (y : ℕ) => ⟨x, y, z⟩

/-- The faces of a block that has air in front of them. -/
def shownFacesAt (c : Chunk) (position : Vec3 ℤ) : List Face :=
  if (c.blockAt position.x position.y position.z).isAir then []
  else (faceNormals.filter fun n => c.isAirAtPos (position + n)).map fun n => (position, n)

/-- The faces between a solid block and air, or the outside of the chunk. -/
def shownFaces (c : Chunk) : List Face := blockPositions.flatMap (shownFacesAt c)

/-- The mesh draws triangles that form a closed surface. -/
def ClosedSurface (m : Mesh) : Prop :=
  ∃ ts, triangles m.vertices m.indicies = some ts ∧ Closed (ts.flatMap Triangle.edges)

end Mccpp.Interface
