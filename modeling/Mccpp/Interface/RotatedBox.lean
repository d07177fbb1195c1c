import Mathlib.Data.List.Perm.Basic
import Mccpp.Model.ModelMesh

/-!
# Rotated boxes

An element of a model is a box, in sixteenths of a block, that is rotated about an axis through its
rotation origin. `blockSpace` takes all these coordinates to the block around `0`. A quad shows a
side of an element when its four vertices are the four corners of that side of the box, rotated.
-/

set_option autoImplicit false

namespace Mccpp.Interface

open Mccpp.Model

variable {K A : Type} [Field K]

/-! The numerals of block space are those of any field. -/

theorem two_atLeastTwo : Nat.AtLeastTwo 2 := ⟨Nat.le_refl 2⟩

theorem eight_atLeastTwo : Nat.AtLeastTwo 8 := ⟨by decide⟩

theorem sixteen_atLeastTwo : Nat.AtLeastTwo 16 := ⟨by decide⟩

attribute [local instance] two_atLeastTwo eight_atLeastTwo sixteen_atLeastTwo

/-- From sixteenths of a block to the unit cube around `0`. -/
def blockSpace (v : Vec3 K) : Vec3 K := v.map fun t => t / 16 - 1 / 2

/-- The rotation about the axis through `0` in the direction of the unit vector `n`, by the angle
with cosine `c` and sine `s`, counter-clockwise when seen from where `n` points to. -/
def axisRotation (c s : K) (n v : Vec3 K) : Vec3 K :=
  v.scale c + Vec3.scale ⟨n.y * v.z - n.z * v.y, n.z * v.x - n.x * v.z, n.x * v.y - n.y * v.x⟩ s +
    n.scale ((1 - c) * (n.x * v.x + n.y * v.y + n.z * v.z))

/-- This rotation about the axis through `o`. -/
def rotationAbout (c s : K) (n o p : Vec3 K) : Vec3 K := o + axisRotation c s n (p + -o)

/-- The points with these coordinates. -/
def points (xs ys zs : List K) : List (Vec3 K) :=
  xs.flatMap fun x => ys.flatMap fun y => zs.map fun z => ⟨x, y, z⟩

/-- The four corners of a side of a box. -/
def sideCorners (lo hi : Vec3 K) : Side → List (Vec3 K)
  | .down => points [lo.x, hi.x] [lo.y] [lo.z, hi.z]
  | .up => points [lo.x, hi.x] [hi.y] [lo.z, hi.z]
  | .north => points [lo.x, hi.x] [lo.y, hi.y] [lo.z]
  | .south => points [lo.x, hi.x] [lo.y, hi.y] [hi.z]
  | .east => points [hi.x] [lo.y, hi.y] [lo.z, hi.z]
  | .west => points [lo.x] [lo.y, hi.y] [lo.z, hi.z]

/-- The unit vectors along the axes. -/
def AxisAligned (n : Vec3 K) : Prop :=
  n ∈ ([⟨1, 0, 0⟩, ⟨-1, 0, 0⟩, ⟨0, 1, 0⟩, ⟨0, -1, 0⟩, ⟨0, 0, 1⟩, ⟨0, 0, -1⟩] : List (Vec3 K))

/-- What `glm` says of its matrices: each is multiplied from the right by a translation, or by a
rotation about a unit vector. -/
structure GlmLaws (glm : Glm K A) (cos sin : A → K) : Prop where
  mat4 : ∀ v, glm.transform glm.mat4 v = v
  translate : ∀ m t v, glm.transform (glm.translate m t) v = glm.transform m (v + t)
  rotate : ∀ m a n v, n.x * n.x + n.y * n.y + n.z * n.z = 1 →
    glm.transform (glm.rotate m a n) v = glm.transform m (axisRotation (cos a) (sin a) n v)

/-- An element that is rotated about an axis, without being rescaled. -/
structure Rotated (e : ModelElement K A) : Prop where
  axis : AxisAligned e.rotationAxis
  rescale : e.rotationRescale = false

/-- The sides of an element that are drawn. -/
def drawnSides (e : ModelElement K A) : List Side :=
  [Side.down, .up, .north, .south, .east, .west].filter fun side => shouldDrawFace (e.face side)

/-- The box of an element rotated about its own origin. -/
def rotatedPoint (cos sin : A → K) (e : ModelElement K A) (p : Vec3 K) : Vec3 K :=
  rotationAbout (cos e.rotationAngle) (sin e.rotationAngle) e.rotationAxis
    (blockSpace e.rotationOrigin) p

/-- The four vertices are the corners of this side of the element, rotated. -/
def ShowsSide (cos sin : A → K) (f : ModelElement K A × Side) (quad : List (ModelVertex K)) :
    Prop :=
  (quad.map ModelVertex.position).Perm
    ((sideCorners (blockSpace f.1.boxFrom) (blockSpace f.1.boxTo) f.2).map
      (rotatedPoint cos sin f.1))

/-- The vertices are the corners of the sides of the elements that are drawn, side by side. -/
def ShowsModel (cos sin : A → K) (model : List (ModelElement K A))
    (vertices : List (ModelVertex K)) : Prop :=
  ∃ quads, List.Forall₂ (ShowsSide cos sin)
    (model.flatMap fun e => (drawnSides e).map fun side => (e, side)) quads ∧
    vertices = quads.flatten

/-- The rotation is by no angle, or its axis runs through the centre of the block. -/
def Centred (cos : A → K) (e : ModelElement K A) : Prop :=
  cos e.rotationAngle = 1 ∨
    (e.rotationAxis.x = 0 → e.rotationOrigin.x = 8) ∧
    (e.rotationAxis.y = 0 → e.rotationOrigin.y = 8) ∧
    (e.rotationAxis.z = 0 → e.rotationOrigin.z = 8)

end Mccpp.Interface
