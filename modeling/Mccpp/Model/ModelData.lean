import Mathlib.Algebra.Order.Floor.Ring
import Mccpp.Model.ModelMesh

/-!
# Elements of model files

The elements that `load_data` of `resource/model.cc` reads, with what is read but not drawn. How a text
is parsed is up to `nlohmann::json`, which is not part of the repository; its values are `Json`, with
exact numbers in `K`. `none` is a failed `assert`, or an exception of the library where a value is not
of the type that is asked for.
-/

set_option autoImplicit false

namespace Mccpp.Model

/-! ## `nlohmann::json` -/

/-- `nlohmann::json`. The members of an object have different names, in any order. -/
inductive Json (K : Type) where
  | null
  | boolean (value : Bool)
  | number (value : K)
  | string (value : List Char)
  | array (items : List (Json K))
  | object (members : List (List Char × Json K))

namespace Json

variable {K : Type}

/-- `is_object()`. -/
def isObject : Json K → Bool
  | object _ => true
  | _ => false

/-- `find(name)`, which finds nothing in what is not an object. -/
def find (name : String) : Json K → Option (Json K)
  | object members => members.lookup name.toList
  | _ => none

/-- `json[name]` of an object, where a missing member is made, and is null. -/
def member (name : String) (json : Json K) : Json K := (json.find name).getD .null

/-- `is_boolean()` and `get<bool>()`. -/
def getBool : Json K → Option Bool
  | boolean value => some value
  | _ => none

/-- `get<std::string>()`. -/
def getString : Json K → Option (List Char)
  | string value => some value
  | _ => none

/-- `is_object()`, asserted. -/
def assertObject (json : Json K) : Option Unit := if json.isObject then some () else none

variable [Field K]

/-- `get<float>()`, where a boolean counts as a number. -/
def getFloat : Json K → Option K
  | number value => some value
  | boolean value => some (if value then 1 else 0)
  | _ => none

/-- `get<int>()`: a number is cut towards zero. One that an `int` does not have is wrapped around,
as integers are; where it has a fraction, too, C++ does not say what becomes of it. -/
def getInt [LinearOrder K] [FloorRing K] : Json K → Option ℤ
  | number value => some (Int.bmod (if 0 ≤ value then ⌊value⌋ else ⌈value⌉) (2 ^ 32))
  | boolean value => some (if value then 1 else 0)
  | _ => none

end Json

/-! ## Faces -/

/-- `model_face`. -/
structure FaceData (K : Type) where
  uv : Option (K × K × K × K)
  texture : List Char
  cullface : ModelCullface
  rotation : ℤ
  tintindex : ℤ
deriving DecidableEq

namespace FaceData

variable {K : Type}

/-- `model_face {}`. -/
def init : FaceData K := ⟨none, [], .never, 0, -1⟩

/-- What is drawn of a face. -/
def drawn (face : FaceData K) : ModelFace := ⟨face.cullface⟩

end FaceData

section Loading

variable {K A : Type}

/-- `decode_vec3(vec, json)`. -/
def decodeVec3 : Json K → Option (Vec3 K)
  | .array [.number x, .number y, .number z] => some ⟨x, y, z⟩
  | _ => none

/-- The part of `decode_face` about `uv`. -/
def decodeUv : Json K → Option (Option (K × K × K × K))
  | .null => some none
  | .array [.number a, .number b, .number c, .number d] => some (some (a, b, c, d))
  | _ => none

/-- What `decode_face` takes the text of a `cullface` for; it warns about a text it does not know. -/
def cullfaceOf (value : List Char) : ModelCullface :=
  if value = "down".toList then .down
  else if value = "up".toList then .up
  else if value = "north".toList then .north
  else if value = "south".toList then .south
  else if value = "west".toList then .west
  else if value = "east".toList then .east
  else .never

/-- The part of `decode_face` about `cullface`. -/
def decodeCullface : Json K → Option ModelCullface
  | .null => some .never
  | json => json.getString.map cullfaceOf

section

variable [Field K] [LinearOrder K] [FloorRing K]

/-- The parts of `decode_face` about `rotation` and `tintindex`. -/
def decodeInt (default : ℤ) : Json K → Option ℤ
  | .null => some default
  | json => json.getInt

/-- `decode_face(json)`. -/
def decodeFace (json : Json K) : Option (FaceData K) := do
  json.assertObject
  let uv ← decodeUv (json.member "uv")
  let texture ← (json.member "texture").getString
  let cullface ← decodeCullface (json.member "cullface")
  let rotation ← decodeInt 0 (json.member "rotation")
  let tintindex ← decodeInt (-1) (json.member "tintindex")
  some ⟨uv, texture, cullface, rotation, tintindex⟩

end

/-! ## Elements -/

/-- `model_element`; `boxFrom` and `boxTo` are `from` and `to`. -/
structure ElementData (K A : Type) where
  boxFrom : Vec3 K
  boxTo : Vec3 K
  rotationOrigin : Vec3 K
  rotationAxis : Vec3 K
  rotationAngle : A
  rotationRescale : Bool
  shade : Bool
  face : Side → FaceData K

namespace ElementData

/-- What is drawn of an element. -/
def drawn (elem : ElementData K A) : ModelElement K A where
  boxFrom := elem.boxFrom
  boxTo := elem.boxTo
  rotationOrigin := elem.rotationOrigin
  rotationAxis := elem.rotationAxis
  rotationAngle := elem.rotationAngle
  rotationRescale := elem.rotationRescale
  down := (elem.face .down).drawn
  up := (elem.face .up).drawn
  north := (elem.face .north).drawn
  south := (elem.face .south).drawn
  west := (elem.face .west).drawn
  east := (elem.face .east).drawn

end ElementData

variable [Field K] (glm : Glm K A)

/-- `model_element {}`, with `from` and `to`. -/
def initialElementData (boxFrom boxTo : Vec3 K) : ElementData K A where
  boxFrom := boxFrom
  boxTo := boxTo
  rotationOrigin := ⟨0, 0, 0⟩
  rotationAxis := ⟨1, 0, 0⟩
  rotationAngle := glm.zeroAngle
  rotationRescale := false
  shade := true
  face := fun _ => .init

/-- What `load_data` makes of the `axis` of a rotation. -/
def axisOf (axis : List Char) : Option (Vec3 K) :=
  if axis = ['x'] then some ⟨1, 0, 0⟩
  else if axis = ['y'] then some ⟨0, 1, 0⟩
  else if axis = ['z'] then some ⟨0, 0, 1⟩
  else none

/-- The part of `load_data` about the rotation of an element. -/
def loadRotationData (elem : ElementData K A) (rotation : Json K) : Option (ElementData K A) := do
  rotation.assertObject
  let origin ← decodeVec3 (rotation.member "origin")
  let axis ← (rotation.member "axis").getString
  let axis ← axisOf axis
  let angle ← (rotation.member "angle").getFloat
  let rescale ← ((rotation.find "rescale").map Json.getBool).getD (some elem.rotationRescale)
  some { elem with
    rotationOrigin := origin
    rotationAxis := axis
    rotationAngle := glm.radians angle
    rotationRescale := rescale }

/-- The name of a side, in a file. -/
def Side.text : Side → String
  | .down => "down"
  | .up => "up"
  | .north => "north"
  | .south => "south"
  | .west => "west"
  | .east => "east"

variable [LinearOrder K] [FloorRing K]

/-- The part of `load_data` about one side: a face that is not there is `ALWAYS` culled. -/
def loadSide (elem : ElementData K A) (faces : Json K) (side : Side) : Option (ElementData K A) := do
  let face ← ((faces.find side.text).map decodeFace).getD
    (some { elem.face side with cullface := .always })
  some { elem with face := fun other => if other = side then face else elem.face other }

/-- The part of `load_data` about the faces of an element. -/
def loadFacesData (elem : ElementData K A) (faces : Json K) : Option (ElementData K A) := do
  faces.assertObject
  [Side.down, .up, .north, .south, .west, .east].foldlM (fun elem side => loadSide elem faces side) elem

/-- The body of the loop of `load_data` over the elements. -/
def loadElementData (json : Json K) : Option (ElementData K A) := do
  json.assertObject
  let boxFrom ← decodeVec3 (json.member "from")
  guard (inRange boxFrom)
  let boxTo ← decodeVec3 (json.member "to")
  guard (inRange boxFrom)
  let elem := initialElementData glm boxFrom boxTo
  let elem ← ((json.find "rotation").map (loadRotationData glm elem)).getD (some elem)
  let shade ← ((json.find "shade").map Json.getBool).getD (some elem.shade)
  let elem := { elem with shade := shade }
  ((json.find "faces").map (loadFacesData elem)).getD (some elem)

/-- The elements of an array. -/
def loadElements : Json K → Option (List (ElementData K A))
  | .array items => items.mapM (loadElementData glm)
  | _ => none

end Loading

end Mccpp.Model
