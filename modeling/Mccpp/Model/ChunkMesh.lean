import Mathlib.Algebra.Order.Ring.Unbundled.Rat
import Mccpp.Model.Chunk

/-!
# The mesh of a chunk

`generate_face` and `chunk::generate_vertices` of `world/chunk.cc`, in exact arithmetic. The
indices are `unsigned`.
-/

set_option autoImplicit false

namespace Mccpp.Model

/-! ## Vectors -/

namespace Vec3

variable {α : Type}

instance [Add α] : Add (Vec3 α) := ⟨fun a b => ⟨a.x + b.x, a.y + b.y, a.z + b.z⟩⟩

instance [Neg α] : Neg (Vec3 α) := ⟨fun a => ⟨-a.x, -a.y, -a.z⟩⟩

/-- `a * factor`. -/
def scale [Mul α] (a : Vec3 α) (factor : α) : Vec3 α := ⟨a.x * factor, a.y * factor, a.z * factor⟩

/-- `a + offset`, in each component. -/
def shift [Add α] (a : Vec3 α) (offset : α) : Vec3 α := ⟨a.x + offset, a.y + offset, a.z + offset⟩

/-- `static_cast<glm::vec3>(a)`. -/
def toVec3 (a : Vec3 ℤ) : Vec3 ℚ := ⟨a.x, a.y, a.z⟩

end Vec3

/-- `glm::vec2`. -/
structure Vec2 where
  x : ℚ
  y : ℚ
deriving DecidableEq

/-- `vertex`. -/
structure Vertex where
  position : Vec3 ℚ
  normal : Vec3 ℚ
  color : Vec3 ℚ
  uv : Vec2
deriving DecidableEq

/-- The two vectors that `generate_face` appends to. -/
structure Mesh where
  vertices : List Vertex
  indicies : List (BitVec 32)
deriving DecidableEq

/-- `ivec3_cross(x, y)`. -/
def ivec3Cross (x y : Vec3 ℤ) : Vec3 ℤ :=
  ⟨x.y * y.z - y.y * x.z, x.z * y.x - y.z * x.x, x.x * y.y - y.x * x.y⟩

/-! ## Faces -/

/-- `p0 = x + y + z` of `generate_face`. -/
def faceP0 (normal : Vec3 ℤ) : Vec3 ℤ :=
  ivec3Cross normal ⟨1, 0, 0⟩ + ivec3Cross normal ⟨0, 1, 0⟩ + ivec3Cross normal ⟨0, 0, 1⟩

/-- `p1` of `generate_face`. -/
def faceP1 (normal : Vec3 ℤ) : Vec3 ℤ := ivec3Cross normal (faceP0 normal)

/-- `uv0` to `uv3` of `generate_face`. -/
def faceUv (normal : Vec3 ℤ) : Vec2 × Vec2 × Vec2 × Vec2 :=
  let uv0 : Vec2 := ⟨0, 1⟩
  let uv1 : Vec2 := ⟨1, 1⟩
  let uv2 : Vec2 := ⟨1, 0⟩
  let uv3 : Vec2 := ⟨0, 0⟩
  if normal.x < 0 ∨ normal.y < 0 ∨ normal.z > 0 then (uv3, uv0, uv1, uv2)
  else if normal.y > 0 then (uv2, uv3, uv0, uv1)
  else (uv0, uv1, uv2, uv3)

/-- A vertex of `generate_face`, at the corner `p` of the face. -/
def faceVertex (position : Vec3 ℚ) (normal p : Vec3 ℤ) (uv : Vec2) : Vertex where
  position := position + normal.toVec3.scale (1 / 2) + p.toVec3.scale (1 / 2)
  normal := normal.toVec3
  color := (normal.toVec3.scale (1 / 2)).shift (1 / 2)
  uv := uv

/-- The condition of the `assert` of `generate_face`. -/
def isAxis (normal : Vec3 ℤ) : Bool :=
  (normal.x == 0).toNat + (normal.y == 0).toNat + (normal.z == 0).toNat == 2

/-- `generate_face(vertices, indicies, block, position, normal)`; `none` is a failed `assert`.
The block is not used. -/
def generateFace (m : Mesh) (position : Vec3 ℚ) (normal : Vec3 ℤ) : Option Mesh :=
  if isAxis normal then
    let p0 := faceP0 normal
    let p1 := faceP1 normal
    let (uv0, uv1, uv2, uv3) := faceUv normal
    let offset := m.vertices.length
    some {
      vertices := m.vertices ++ [
        faceVertex position normal p0 uv0,
        faceVertex position normal p1 uv1,
        faceVertex position normal (-p0) uv2,
        faceVertex position normal (-p1) uv3]
      indicies := m.indicies ++ [
        BitVec.ofNat 32 (offset + 0),
        BitVec.ofNat 32 (offset + 1),
        BitVec.ofNat 32 (offset + 3),
        BitVec.ofNat 32 (offset + 1),
        BitVec.ofNat 32 (offset + 2),
        BitVec.ofNat 32 (offset + 3)] }
  else none

/-! ## Blocks -/

/-- `faces` of `generate_vertices`. -/
def faceNormals : List (Vec3 ℤ) :=
  [⟨1, 0, 0⟩, ⟨-1, 0, 0⟩, ⟨0, 1, 0⟩, ⟨0, -1, 0⟩, ⟨0, 0, 1⟩, ⟨0, 0, -1⟩]

namespace Chunk

/-- `is_air_at(pos)`. -/
def isAirAtPos (c : Chunk) (pos : Vec3 ℤ) : Bool := c.isAirAt pos.x pos.y pos.z

/-- The body of the loop over the faces of a block. -/
def generateBlockFace (c : Chunk) (position : Vec3 ℤ) (m : Mesh) (face : Vec3 ℤ) : Option Mesh :=
  if c.isAirAtPos (position + face) then generateFace m position.toVec3 face else some m

/-- The body of the three loops over the blocks. -/
def generateBlock (c : Chunk) (m : Mesh) (position : Vec3 ℤ) : Option Mesh :=
  if (c.blockAt position.x position.y position.z).isAir then some m
  else faceNormals.foldlM (c.generateBlockFace position) m

/-- `generate_vertices()`. -/
def generateVertices (c : Chunk) : Option Mesh :=
  (List.range 16).foldlM (fun m (z : ℕ) =>
    (List.range 16).foldlM (fun m (x : ℕ) =>
      (List.range 16).foldlM (fun m (y : ℕ) => c.generateBlock m ⟨x, y, z⟩) m) m)
    ⟨[], []⟩

end Chunk

end Mccpp.Model
