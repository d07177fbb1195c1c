import Mccpp.Model.ModelData
import Mccpp.Model.Resource

/-!
# What is drawn at the start

What the constructor of `renderer_impl` puts into `m_vertices` and `m_indicies`: the meshes of two models, the
first one block further down.
-/

set_option autoImplicit false

namespace Mccpp.Model

variable {K A : Type} [Field K]

/-- `vert.position.y -= 1`. -/
def ModelVertex.lowered (vert : ModelVertex K) : ModelVertex K :=
  { vert with position := { vert.position with y := vert.position.y - 1 } }

/-- What there is from `begin()` to `end()` of `m_resource_manager.models()[text]`, as far as it is drawn. -/
def ResourceManager.drawnElements (m : ResourceManager (ElementData K A)) (text : String) :
    List (ModelElement K A) :=
  (m.deref (m.models (.ofText text.toList))).mElements.map ElementData.drawn

/-- The part of `renderer_impl::renderer_impl(app)` about `m_vertices` and `m_indicies`. -/
def startMesh (glm : Glm K A) (m : ResourceManager (ElementData K A)) : ModelMesh K :=
  let mesh := generateModelMesh glm (m.drawnElements "block/cobblestone") ⟨[], []⟩
  let mesh := { mesh with vertices := mesh.vertices.map ModelVertex.lowered }
  generateModelMesh glm (m.drawnElements "block/fern") mesh

end Mccpp.Model
