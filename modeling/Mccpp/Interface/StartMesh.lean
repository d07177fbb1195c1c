import Mccpp.Interface.Assets
import Mccpp.Interface.RotatedBox
import Mccpp.Model.StartMesh

/-!
# Triangles from files

What two buffers draw is the list of the vertices that the indices fetch, three for each triangle. On the other
side is what the files say about a model: the elements of the first of its line of parents that has any.
-/

set_option autoImplicit false

namespace Mccpp.Interface

open Mccpp.Library Mccpp.Model

/-- The elements that the files give a model, which are none where it has no file. -/
def GivesElements {ε : Type} (content : StorageContent) (decode : List Byte → Option (ModelFile ε)) (tree : Listing)
    (nameSpace basename : List Char) (elements : List ε) : Prop :=
  ∃ m line, HoldsModels content decode tree m ∧ Line (parentOf m) (blockId nameSpace basename) line ∧
    elements = firstElements (line.map (elementsOf m))

/-- What `glDrawElements(GL_TRIANGLES, ...)` fetches, where an index may have no vertex. -/
def fetched {K : Type} (mesh : ModelMesh K) : List (Option (ModelVertex K)) :=
  mesh.indicies.map fun index => mesh.vertices[index.toNat]?

/-- Two triangles that share the side between the second and the third of four corners. -/
def quadTriangles {V : Type} (quad : List V) : List V := quad.take 3 ++ quad.reverse.take 3

end Mccpp.Interface
