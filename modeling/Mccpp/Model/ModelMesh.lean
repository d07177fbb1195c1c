import Mathlib.Algebra.Field.Basic
import Mathlib.Algebra.Order.Field.Basic
import Mccpp.Model.ChunkMesh

/-!
# The mesh of a block model

The elements of `resource/model.{hh,cc}` and `generate_model_mesh` of `renderer/renderer.cc`, in
exact arithmetic over a field. Angles are a type of their own, as their cosine and sine need not be
rational.

`glm` is not part of the repository. Vectors are added and scaled as in `world/chunk.cc`; what
`generate_model_mesh` uses of its matrices and angles is a parameter, `Glm`. Textures and texture
coordinates of faces are not drawn, and are left out.
-/

set_option autoImplicit false

namespace Mccpp.Model

/-! ## Elements -/

/-- `model_cullface`. -/
inductive ModelCullface where
  | always
  | never
  | down
  | up
  | north
  | south
  | west
  | east
deriving DecidableEq, Repr

/-- `model_face`. -/
structure ModelFace where
  cullface : ModelCullface
deriving DecidableEq, Repr

namespace ModelFace

/-- `model_face {}`. -/
def init : ModelFace := ⟨.never⟩

end ModelFace

/-- The six faces, in the order they are drawn in. -/
inductive Side where
  | down
  | up
  | north
  | south
  | east
  | west
deriving DecidableEq, Repr

/-- `model_element`, with coordinates in `K` and angles in `A`; `boxFrom` and `boxTo` are `from` and
`to`. -/
structure ModelElement (K A : Type) where
  boxFrom : Vec3 K
  boxTo : Vec3 K
  rotationOrigin : Vec3 K
  rotationAxis : Vec3 K
  rotationAngle : A
  rotationRescale : Bool
  down : ModelFace
  up : ModelFace
  north : ModelFace
  south : ModelFace
  west : ModelFace
  east : ModelFace

namespace ModelElement

variable {K A : Type}

/-- The face of an element on a side. -/
def face (elem : ModelElement K A) : Side → ModelFace
  | .down => elem.down
  | .up => elem.up
  | .north => elem.north
  | .south => elem.south
  | .east => elem.east
  | .west => elem.west

end ModelElement

/-- What is used of `glm`. A matrix is seen through `transform`, which is `m * glm::vec4(v, 1.f)`
without its last component. -/
structure Glm (K A : Type) where
  Mat4 : Type
  /-- `glm::mat4(1.0f)`. -/
  mat4 : Mat4
  translate : Mat4 → Vec3 K → Mat4
  rotate : Mat4 → A → Vec3 K → Mat4
  transform : Mat4 → Vec3 K → Vec3 K
  sec : A → K
  /-- The angle that is `0`. -/
  zeroAngle : A
  /-- `degrees / 180.f * glm::pi<float>()`. -/
  radians : K → A

/-! ## Loading an element -/

/-- `rotation` of an element, in its file. -/
structure RotationFile (K : Type) where
  origin : Vec3 K
  axis : List Char
  angle : K
  rescale : Option Bool

/-- An element, in its file; its faces are taken as decoded. -/
structure ElementFile (K : Type) where
  boxFrom : Vec3 K
  boxTo : Vec3 K
  rotation : Option (RotationFile K)
  faces : Option (Side → Option ModelFace)

section Loading

variable {K A : Type} [Field K] (glm : Glm K A)

/-- The part of `load_data` about the rotation of an element; `none` is a failed `assert`. -/
def loadRotation (elem : ModelElement K A) (rotation : RotationFile K) :
    Option (ModelElement K A) := do
  let axis : Vec3 K ←
    if rotation.axis = ['x'] then some ⟨1, 0, 0⟩
    else if rotation.axis = ['y'] then some ⟨0, 1, 0⟩
    else if rotation.axis = ['z'] then some ⟨0, 0, 1⟩
    else none
  some { elem with
    rotationOrigin := rotation.origin
    rotationAxis := axis
    rotationAngle := glm.radians rotation.angle
    rotationRescale := rotation.rescale.getD elem.rotationRescale }

/-- The `assert` about `elem.from`; it stands twice, also where `elem.to` is meant. -/
def inRange [LinearOrder K] (v : Vec3 K) : Bool :=
  (-16 ≤ v.x && v.x < 32) && (-16 ≤ v.y && v.y < 32) && (-16 ≤ v.z && v.z < 32)

/-- `elem`, as it is appended to the elements, with `from` and `to`. -/
def initialElement (boxFrom boxTo : Vec3 K) : ModelElement K A where
  boxFrom := boxFrom
  boxTo := boxTo
  rotationOrigin := ⟨0, 0, 0⟩
  rotationAxis := ⟨1, 0, 0⟩
  rotationAngle := glm.zeroAngle
  rotationRescale := false
  down := .init
  up := .init
  north := .init
  south := .init
  west := .init
  east := .init

/-- The part of `load_data` about the faces of an element. -/
def loadFaces (elem : ModelElement K A) (faces : Side → Option ModelFace) : ModelElement K A :=
  let face (side : Side) : ModelFace := (faces side).getD ⟨.always⟩
  { elem with
    down := face .down
    up := face .up
    north := face .north
    south := face .south
    west := face .west
    east := face .east }

/-- The body of the loop of `load_data` over the elements. -/
def loadElement [LinearOrder K] (file : ElementFile K) : Option (ModelElement K A) := do
  let elem := initialElement glm file.boxFrom file.boxTo
  guard (inRange elem.boxFrom)
  guard (inRange elem.boxFrom)
  let elem ← file.rotation.elim (some elem) (loadRotation glm elem)
  some (file.faces.elim elem (loadFaces elem))

end Loading

/-! ## Drawing -/

/-- `vertex`, over any field. -/
structure ModelVertex (K : Type) where
  position : Vec3 K
  normal : Vec3 K
  color : Vec3 K
  uv : Vec2
deriving DecidableEq

/-- The two vectors that `generate_model_mesh` appends to. -/
structure ModelMesh (K : Type) where
  vertices : List (ModelVertex K)
  indicies : List (BitVec 32)

/-- `should_draw_face(face)`. -/
def shouldDrawFace (face : ModelFace) : Bool := face.cullface ≠ .always

/-- A function of each component. -/
def Vec3.map {α β : Type} (f : α → β) (v : Vec3 α) : Vec3 β := ⟨f v.x, f v.y, f v.z⟩

section Drawing

variable {K A : Type} [Field K] (glm : Glm K A)

/-- `scale` of an element that is rescaled. -/
def rescaleBy (elem : ModelElement K A) : Vec3 K :=
  let scaleAxes := -elem.rotationAxis + ⟨1, 1, 1⟩
  let scaleBy := glm.sec elem.rotationAngle
  scaleAxes.scale scaleBy + elem.rotationAxis

/-- `from` and `to` of `generate_model_mesh`. -/
def elementBox (elem : ModelElement K A) : Vec3 K × Vec3 K :=
  let boxFrom := elem.boxFrom.map fun v => v / 16 - 1 / 2
  let boxTo := elem.boxTo.map fun v => v / 16 - 1 / 2
  if elem.rotationRescale then
    let scale := rescaleBy glm elem
    (⟨boxFrom.x * scale.x, boxFrom.y * scale.y, boxFrom.z * scale.z⟩,
      ⟨boxTo.x * scale.x, boxTo.y * scale.y, boxTo.z * scale.z⟩)
  else (boxFrom, boxTo)

/-- `rot_origin` of `generate_model_mesh`. -/
def rotOrigin (elem : ModelElement K A) : Vec3 K := elem.rotationOrigin.map fun v => v / 8 - 1

/-- `transform` of `generate_model_mesh`. -/
def elementTransform (elem : ModelElement K A) : Vec3 K → Vec3 K :=
  let rot := glm.mat4
  let rot := glm.translate rot (rotOrigin elem)
  let rot := glm.rotate rot elem.rotationAngle elem.rotationAxis
  let rot := glm.translate rot (-rotOrigin elem)
  glm.transform rot

/-- The normal of a side, before it is transformed. -/
def sideNormal : Side → Vec3 K
  | .down => ⟨0, -1, 0⟩
  | .up => ⟨0, 1, 0⟩
  | .north => ⟨0, 0, -1⟩
  | .south => ⟨0, 0, 1⟩
  | .east => ⟨1, 0, 0⟩
  | .west => ⟨-1, 0, 0⟩

/-- The corners of a side, before they are transformed, with the texture coordinates. -/
def sideQuad (lo hi : Vec3 K) : Side → List (Vec3 K × Vec2)
  | .down => [(⟨lo.x, lo.y, lo.z⟩, ⟨0, 0⟩), (⟨hi.x, lo.y, lo.z⟩, ⟨1, 0⟩),
      (⟨lo.x, lo.y, hi.z⟩, ⟨0, 1⟩), (⟨hi.x, lo.y, hi.z⟩, ⟨1, 1⟩)]
  | .up => [(⟨lo.x, hi.y, lo.z⟩, ⟨0, 0⟩), (⟨lo.x, hi.y, hi.z⟩, ⟨0, 1⟩),
      (⟨hi.x, hi.y, lo.z⟩, ⟨1, 0⟩), (⟨hi.x, hi.y, hi.z⟩, ⟨1, 1⟩)]
  | .north => [(⟨lo.x, lo.y, lo.z⟩, ⟨0, 0⟩), (⟨lo.x, hi.y, lo.z⟩, ⟨1, 0⟩),
      (⟨hi.x, lo.y, lo.z⟩, ⟨0, 1⟩), (⟨hi.x, hi.y, lo.z⟩, ⟨1, 1⟩)]
  | .south => [(⟨lo.x, lo.y, hi.z⟩, ⟨0, 0⟩), (⟨hi.x, lo.y, hi.z⟩, ⟨0, 1⟩),
      (⟨lo.x, hi.y, hi.z⟩, ⟨1, 0⟩), (⟨hi.x, hi.y, hi.z⟩, ⟨1, 1⟩)]
  | .east => [(⟨hi.x, lo.y, lo.z⟩, ⟨0, 0⟩), (⟨hi.x, hi.y, lo.z⟩, ⟨1, 0⟩),
      (⟨hi.x, lo.y, hi.z⟩, ⟨0, 1⟩), (⟨hi.x, hi.y, hi.z⟩, ⟨1, 1⟩)]
  | .west => [(⟨lo.x, lo.y, lo.z⟩, ⟨0, 0⟩), (⟨lo.x, lo.y, hi.z⟩, ⟨0, 1⟩),
      (⟨lo.x, hi.y, lo.z⟩, ⟨1, 0⟩), (⟨lo.x, hi.y, hi.z⟩, ⟨1, 1⟩)]

/-- The vertices of a side. -/
def sideVertices (elem : ModelElement K A) (side : Side) : List (ModelVertex K) :=
  let transform := elementTransform glm elem
  let (lo, hi) := elementBox glm elem
  let normal := transform (sideNormal side)
  let color := (normal.scale (1 / 2)).shift (1 / 2)
  (sideQuad lo hi side).map fun (corner, uv) => ⟨transform corner, normal, color, uv⟩

/-- One of the six blocks of `generate_model_mesh`, with `index_start`. -/
def drawSide (elem : ModelElement K A) (m : ModelMesh K × ℕ) (side : Side) : ModelMesh K × ℕ :=
  let (mesh, indexStart) := m
  if shouldDrawFace (elem.face side) then
    ({ vertices := mesh.vertices ++ sideVertices glm elem side
       indicies := mesh.indicies ++ [
        BitVec.ofNat 32 (indexStart + 0),
        BitVec.ofNat 32 (indexStart + 1),
        BitVec.ofNat 32 (indexStart + 2),
        BitVec.ofNat 32 (indexStart + 3),
        BitVec.ofNat 32 (indexStart + 2),
        BitVec.ofNat 32 (indexStart + 1)] }, indexStart + 4)
  else m

/-- The body of the loop of `generate_model_mesh`. -/
def drawElement (m : ModelMesh K × ℕ) (elem : ModelElement K A) : ModelMesh K × ℕ :=
  [Side.down, .up, .north, .south, .east, .west].foldl (drawSide glm elem) m

/-- `generate_model_mesh(model, vertices, indicies)`, by the elements of the model. -/
def generateModelMesh (model : List (ModelElement K A)) (mesh : ModelMesh K) : ModelMesh K :=
  (model.foldl (drawElement glm) (mesh, mesh.vertices.length)).1

end Drawing

end Mccpp.Model
