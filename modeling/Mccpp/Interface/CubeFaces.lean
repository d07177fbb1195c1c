import Mccpp.Interface.Surface
import Mccpp.Library.Diamond

/-!
# The faces of unit cubes

The block at `b` is the unit cube whose centre is `b`. Its face in a direction `d` is a square, of
which `CubeFace` are the points and `cubeFaceCorners` the corners. A face is exposed when its block
is solid and the next block in its direction is not; `ShowsFace` says that a quad of a mesh is that
face, seen from outside.
-/

set_option autoImplicit false

namespace Mccpp.Interface

open Mccpp.Library Mccpp.Model

/-! ## Vectors -/

instance : Zero (Vec3 ℚ) := ⟨⟨0, 0, 0⟩⟩

instance : Sub (Vec3 ℚ) := ⟨fun a b => ⟨a.x - b.x, a.y - b.y, a.z - b.z⟩⟩

instance : AddCommGroup (Vec3 ℚ) where
  add_assoc a b c := Vec3.ext (add_assoc _ _ _) (add_assoc _ _ _) (add_assoc _ _ _)
  zero_add a := Vec3.ext (zero_add _) (zero_add _) (zero_add _)
  add_zero a := Vec3.ext (add_zero _) (add_zero _) (add_zero _)
  add_comm a b := Vec3.ext (add_comm _ _) (add_comm _ _) (add_comm _ _)
  neg_add_cancel a := Vec3.ext (neg_add_cancel _) (neg_add_cancel _) (neg_add_cancel _)
  sub_eq_add_neg a b := Vec3.ext (sub_eq_add_neg _ _) (sub_eq_add_neg _ _) (sub_eq_add_neg _ _)
  nsmul := nsmulRec
  zsmul := zsmulRec

instance : SMul ℚ (Vec3 ℚ) := ⟨fun r a => a.scale r⟩

instance : Module ℚ (Vec3 ℚ) where
  one_smul a := Vec3.ext (mul_one _) (mul_one _) (mul_one _)
  mul_smul r s a :=
    have hmul (u : ℚ) : u * (r * s) = u * s * r := by ring
    Vec3.ext (hmul _) (hmul _) (hmul _)
  smul_zero r := Vec3.ext (zero_mul _) (zero_mul _) (zero_mul _)
  smul_add r a b := Vec3.ext (add_mul _ _ _) (add_mul _ _ _) (add_mul _ _ _)
  add_smul r s a := Vec3.ext (mul_add _ _ _) (mul_add _ _ _) (mul_add _ _ _)
  zero_smul a := Vec3.ext (mul_zero _) (mul_zero _) (mul_zero _)

/-- The inner product. -/
def dot (a b : Vec3 ℚ) : ℚ := a.x * b.x + a.y * b.y + a.z * b.z

/-- The vector product. -/
def cross (a b : Vec3 ℚ) : Vec3 ℚ :=
  ⟨a.y * b.z - a.z * b.y, a.z * b.x - a.x * b.z, a.x * b.y - a.y * b.x⟩

/-! ## Blocks -/

/-- The places of a chunk. -/
def Inside (p : Vec3 ℤ) : Prop :=
  (0 ≤ p.x ∧ p.x < 16) ∧ (0 ≤ p.y ∧ p.y < 16) ∧ 0 ≤ p.z ∧ p.z < 16

/-- There is a block at the place that is not air. -/
def Solid (c : Chunk) (p : Vec3 ℤ) : Prop := Inside p ∧ (c.blockAt p.x p.y p.z).isAir = false

/-- The unit vectors of the axes, and their opposites. -/
def IsDirection (d : Vec3 ℤ) : Prop := |d.x| + |d.y| + |d.z| = 1

/-- The face belongs to a solid block, and what it faces is air or outside the chunk. -/
def Exposed (c : Chunk) (f : Face) : Prop :=
  Solid c f.1 ∧ IsDirection f.2 ∧ ¬Solid c (f.1 + f.2)

/-! ## Squares -/

/-- The points of the face of the unit cube around `b` in the direction `d`. -/
def cubeFace (b d : Vec3 ℤ) : Set (Vec3 ℚ) :=
  {p | dot (p - b.toVec3) d.toVec3 = 1 / 2 ∧ |(p - b.toVec3).x| ≤ 1 / 2 ∧
    |(p - b.toVec3).y| ≤ 1 / 2 ∧ |(p - b.toVec3).z| ≤ 1 / 2}

/-- The corners of this face, which are corners of the cube. -/
def cubeFaceCorners (b d : Vec3 ℤ) : Set (Vec3 ℚ) :=
  {p | dot (p - b.toVec3) d.toVec3 = 1 / 2 ∧ |(p - b.toVec3).x| = 1 / 2 ∧
    |(p - b.toVec3).y| = 1 / 2 ∧ |(p - b.toVec3).z| = 1 / 2}

/-- Seen from where `d` points to, `a`, `b` and `c` go round counter-clockwise. -/
def CounterClockwise (d : Vec3 ℤ) (a b c : Vec3 ℚ) : Prop :=
  0 < dot (cross (b - a) (c - a)) d.toVec3

/-- The points of a triangle. -/
def Triangle.hull (t : Triangle) : Set (Vec3 ℚ) := triangleHull ℚ t.1 t.2.1 t.2.2

/-- The four vertices of a quad of a mesh. -/
def quadVertices (m : Mesh) (k : ℕ) : List Vertex := (m.vertices.drop (4 * k)).take 4

/-- The six indices of a quad of a mesh. -/
def quadIndicies (m : Mesh) (k : ℕ) : List (BitVec 32) := (m.indicies.drop (6 * k)).take 6

/-- The `k`-th quad of a mesh is this face, with the four vertices and two triangles given. -/
structure ShowsFace (m : Mesh) (k : ℕ) (f : Face) (v₀ v₁ v₂ v₃ : Vertex) (t₁ t₂ : Triangle) :
    Prop where
  vertices : quadVertices m k = [v₀, v₁, v₂, v₃]
  corners : {v₀.position, v₁.position, v₂.position, v₃.position} = cubeFaceCorners f.1 f.2
  normals : ∀ v ∈ quadVertices m k, v.normal = f.2.toVec3
  wound : CounterClockwise f.2 v₀.position v₁.position v₂.position ∧
    CounterClockwise f.2 v₁.position v₂.position v₃.position ∧
    CounterClockwise f.2 v₂.position v₃.position v₀.position ∧
    CounterClockwise f.2 v₃.position v₀.position v₁.position
  own : ∀ i ∈ quadIndicies m k, 4 * k ≤ i.toNat ∧ i.toNat < 4 * k + 4
  triangles : triangles m.vertices (quadIndicies m k) = some [t₁, t₂]
  cover : t₁.hull ∪ t₂.hull = cubeFace f.1 f.2
  front : CounterClockwise f.2 t₁.1 t₁.2.1 t₁.2.2 ∧ CounterClockwise f.2 t₂.1 t₂.2.1 t₂.2.2

/-- A mesh is one quad for each of the faces, in this order, and nothing else. -/
structure MadeOf (m : Mesh) (faces : List Face) : Prop where
  vertices : m.vertices.length = 4 * faces.length
  indicies : m.indicies.length = 6 * faces.length
  quads : ∀ k f, faces[k]? = some f → ∃ v₀ v₁ v₂ v₃ t₁ t₂, ShowsFace m k f v₀ v₁ v₂ v₃ t₁ t₂

end Mccpp.Interface
