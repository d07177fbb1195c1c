import Mccpp.Interface.ModelElement
import Mccpp.Model.Resource

/-!
# Documents of models

A document for each of the models that a file can give: `modelDocument` writes a model down, and the others write
its parts.
-/

set_option autoImplicit false

namespace Mccpp.Interface

open Mccpp.Model

variable {K A : Type}

/-- An object with those of these members that there are. -/
def record (members : List (String × Option (Json K))) : Json K :=
  .object (members.filterMap fun m => m.2.map fun value => (m.1.toList, value))

def vectorDocument (v : Vec3 K) : Json K := .array [.number v.x, .number v.y, .number v.z]

/-- The text of a `cullface`. -/
def cullfaceText : ModelCullface → Option String
  | .always | .never => none
  | .down => some "down"
  | .up => some "up"
  | .north => some "north"
  | .south => some "south"
  | .west => some "west"
  | .east => some "east"

/-- A face of an element; numbers are integers in `K`. -/
def faceDocument [IntCast K] (face : FaceData K) : Json K :=
  record [
    ("uv", face.uv.map fun uv =>
      .array [.number uv.1, .number uv.2.1, .number uv.2.2.1, .number uv.2.2.2]),
    ("texture", some (.string face.texture)),
    ("cullface", (cullfaceText face.cullface).map fun text => .string text.toList),
    ("rotation", some (.number face.rotation)),
    ("tintindex", some (.number face.tintindex))]

/-- The faces of an element, less those that are missing. -/
def facesDocument [IntCast K] [DecidableEq K] (face : Side → FaceData K) : Json K :=
  record ([Side.down, .up, .north, .south, .west, .east].map fun side =>
    (side.text, if face side = missingFace then none else some (faceDocument (face side))))

/-- A rotation, by its axis and its angle. -/
def rotationDocument (elem : ElementData K A) (axis : List Char) (degrees : K) : Json K :=
  record [
    ("origin", some (vectorDocument elem.rotationOrigin)),
    ("axis", some (.string axis)),
    ("angle", some (.number degrees)),
    ("rescale", some (.boolean elem.rotationRescale))]

/-- An element, with the document of its rotation, if there is one. -/
def elementDocument [IntCast K] [DecidableEq K] (elem : ElementData K A) (rotation : Option (Json K)) :
    Json K :=
  record [
    ("from", some (vectorDocument elem.boxFrom)),
    ("to", some (vectorDocument elem.boxTo)),
    ("rotation", rotation),
    ("shade", some (.boolean elem.shade)),
    ("faces", some (facesDocument elem.face))]

/-- A model, with the documents of its elements. -/
def modelDocument (file : ModelFile (ElementData K A)) (elements : List (Json K)) : Json K :=
  record [
    ("parent", file.parent.map .string),
    ("elements", file.elements.map fun _ => .array elements),
    ("ambientocclusion", file.ambientocclusion.map .boolean)]

end Mccpp.Interface
