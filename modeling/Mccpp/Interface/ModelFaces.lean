import Mccpp.Interface.RotatedBox

/-!
# Faces of the elements of a model

The outward normal of a side is that of the box, rotated with the element. A side is lit when its
vertices have this normal, and it is across the quad. It is drawn when two triangles of its own four
vertices face the way it points.
-/

set_option autoImplicit false

namespace Mccpp.Interface

open Mccpp.Model

variable {K A : Type} [Field K]

attribute [local instance] eight_atLeastTwo

/-- `v · w`. -/
def scalarProduct (v w : Vec3 K) : K := v.x * w.x + v.y * w.y + v.z * w.z

/-- `v × w`. -/
def vectorProduct (v w : Vec3 K) : Vec3 K :=
  ⟨v.y * w.z - v.z * w.y, v.z * w.x - v.x * w.z, v.x * w.y - v.y * w.x⟩

/-- Where a side of a box points to. -/
def outward : Side → Vec3 K
  | .down => ⟨0, -1, 0⟩
  | .up => ⟨0, 1, 0⟩
  | .north => ⟨0, 0, -1⟩
  | .south => ⟨0, 0, 1⟩
  | .east => ⟨1, 0, 0⟩
  | .west => ⟨-1, 0, 0⟩

/-- Where a side of an element points to. -/
def outwardNormal (cos sin : A → K) (f : ModelElement K A × Side) : Vec3 K :=
  axisRotation (cos f.1.rotationAngle) (sin f.1.rotationAngle) f.1.rotationAxis (outward f.2)

/-- The axis is a unit vector. -/
def UnitAxis (e : ModelElement K A) : Prop := scalarProduct e.rotationAxis e.rotationAxis = 1

/-! ## Normals -/

/-- The vertices of a side have its outward normal, of length one and across the quad. -/
structure LitSide (cos sin : A → K) (f : ModelElement K A × Side) (quad : List (ModelVertex K)) :
    Prop where
  four : quad.length = 4
  rotated : ∀ v ∈ quad, v.normal = outwardNormal cos sin f
  unit : ∀ v ∈ quad, scalarProduct v.normal v.normal = 1
  across : ∀ v ∈ quad, ∀ p ∈ quad, ∀ q ∈ quad,
    scalarProduct v.normal (p.position + -q.position) = 0

/-- The vertices are those of the sides of the elements that are drawn, side by side, and lit. -/
def LitModel (cos sin : A → K) (model : List (ModelElement K A)) (vertices : List (ModelVertex K)) :
    Prop :=
  ∃ quads, List.Forall₂ (LitSide cos sin)
    (model.flatMap fun e => (drawnSides e).map fun side => (e, side)) quads ∧
    vertices = quads.flatten

/-- The rotation origin, from the centre of the block. -/
def fromCentre (e : ModelElement K A) : Vec3 K := e.rotationOrigin + -⟨8, 8, 8⟩

/-- The rotation is by no angle, or its origin is on the axis through the centre of the block. -/
def OriginOnAxis (cos : A → K) (e : ModelElement K A) : Prop :=
  cos e.rotationAngle = 1 ∨
    fromCentre e = e.rotationAxis.scale (scalarProduct e.rotationAxis (fromCentre e))

/-! ## Triangles -/

section Triangles

variable [LinearOrder K]

/-- What two edges of a triangle span, towards where it is seen from counter-clockwise. -/
def winding (p q r : ModelVertex K) : Vec3 K :=
  vectorProduct (q.position + -p.position) (r.position + -p.position)

/-- The three vertices make a triangle that is seen from where the side points to. -/
structure FrontFacing (cos sin : A → K) (f : ModelElement K A × Side) (p q r : ModelVertex K) : Prop
    where
  proper : winding p q r ≠ ⟨0, 0, 0⟩
  facing : ∃ area, 0 < area ∧ winding p q r = (outwardNormal cos sin f).scale area

/-- Indices of three vertices that make such a triangle. -/
def FrontTriangle (cos sin : A → K) (f : ModelElement K A × Side) (vertices : List (ModelVertex K))
    (triangle : List (BitVec 32)) : Prop :=
  ∃ i j k p q r, triangle = [i, j, k] ∧ vertices[i.toNat]? = some p ∧
    vertices[j.toNat]? = some q ∧ vertices[k.toNat]? = some r ∧ FrontFacing cos sin f p q r

/-- The indices are those of the four vertices from `start` on, and make two triangles of a side. -/
structure DrawnSide (cos sin : A → K) (f : ModelElement K A × Side)
    (vertices : List (ModelVertex K)) (start : ℕ) (indices : List (BitVec 32)) : Prop where
  six : indices.length = 6
  own : ∀ i, i ∈ indices.map BitVec.toNat ↔ start ≤ i ∧ i < start + 4
  first : FrontTriangle cos sin f vertices (indices.take 3)
  second : FrontTriangle cos sin f vertices (indices.drop 3)

/-- What was there is kept, and every side that is drawn has four vertices and six indices of its own
behind it. -/
structure DrawnModel (cos sin : A → K) (model : List (ModelElement K A)) (before after : ModelMesh K) :
    Prop where
  vertices : before.vertices <+: after.vertices
  indicies : before.indicies <+: after.indicies
  four : after.vertices.length = before.vertices.length +
    4 * (model.flatMap fun e => (drawnSides e).map fun side => (e, side)).length
  six : after.indicies.length = before.indicies.length +
    6 * (model.flatMap fun e => (drawnSides e).map fun side => (e, side)).length
  side : ∀ (i : ℕ) f, (model.flatMap fun e => (drawnSides e).map fun side => (e, side))[i]? =
    some f → DrawnSide cos sin f after.vertices (before.vertices.length + 4 * i)
      ((after.indicies.drop (before.indicies.length + 6 * i)).take 6)

/-- The corner `from` is below the corner `to`. -/
structure ProperBox (e : ModelElement K A) : Prop where
  x : e.boxFrom.x < e.boxTo.x
  y : e.boxFrom.y < e.boxTo.y
  z : e.boxFrom.z < e.boxTo.z

/-- A rescaled element is rotated by less than a quarter turn. -/
def RescaledWithin (cos : A → K) (e : ModelElement K A) : Prop :=
  e.rotationRescale = true → 0 < cos e.rotationAngle

end Triangles

end Mccpp.Interface
