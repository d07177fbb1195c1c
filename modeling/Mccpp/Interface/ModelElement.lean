import Mccpp.Model.ModelData

/-!
# Well-formed elements

What holds of the elements of models that the renderer gets, whatever the files say: `WellFormedElement`.
-/

set_option autoImplicit false

namespace Mccpp.Interface

open Mccpp.Model

variable {K A : Type}

/-- The values of an `int`. -/
def IsInt (n : ℤ) : Prop := -2 ^ 31 ≤ n ∧ n < 2 ^ 31

/-- A face that a file gives. -/
structure GivenFace (face : FaceData K) : Prop where
  cullface : face.cullface ≠ .always
  rotation : IsInt face.rotation
  tintindex : IsInt face.tintindex

/-- A face that a file leaves out, where it gives others. -/
def missingFace : FaceData K := { FaceData.init with cullface := .always }

variable [Field K]

/-- Where a file says nothing of a rotation. -/
structure NotTurned (glm : Glm K A) (elem : ElementData K A) : Prop where
  origin : elem.rotationOrigin = ⟨0, 0, 0⟩
  axis : elem.rotationAxis = ⟨1, 0, 0⟩
  angle : elem.rotationAngle = glm.zeroAngle
  rescale : elem.rotationRescale = false

/-- Around one of the axes, by an angle in degrees. -/
structure TurnedAbout (glm : Glm K A) (elem : ElementData K A) : Prop where
  axis : ∃ text, axisOf text = some elem.rotationAxis
  angle : ∃ degrees, elem.rotationAngle = glm.radians degrees

/-- An element that a file can give. Nothing is known of where it ends. -/
structure WellFormedElement [LinearOrder K] (glm : Glm K A) (elem : ElementData K A) : Prop where
  start : inRange elem.boxFrom = true
  rotation : NotTurned glm elem ∨ TurnedAbout glm elem
  faces : ∀ side, elem.face side = missingFace ∨ GivenFace (elem.face side)

end Mccpp.Interface
