import Mccpp.Library.Forest
import Mccpp.Model.Resource

/-!
# Inheritance of models

What a model is after loading. The parents that are written in the files make lines of
identifiers, from a model upwards to a model without a parent, or to an identifier that no model
has. A finalized model has the elements of the first model of its line that has any, and the
ambient occlusion of the last one.
-/

set_option autoImplicit false

namespace Mccpp.Interface

open Mccpp.Library Mccpp.Model

variable {ε : Type}

/-- The parent that the file of a model names. -/
def parentOf (m : ResourceManager ε) (id : Identifier) : Option Identifier :=
  (m.mResources id).bind fun o => o.mLoadData.bind fun data =>
    if data.parent.empty then none else some data.parent

/-- The elements in the file of a model; a missing model has none. -/
def elementsOf (m : ResourceManager ε) (id : Identifier) : List ε :=
  ((m.mResources id).bind fun o => o.mLoadData).elim [] fun data => data.elements

/-- The ambient occlusion in the file of a model, which is on for a missing one. -/
def occlusionOf (m : ResourceManager ε) (id : Identifier) : Bool :=
  (m.mResources id).elim true fun o => o.mAmbientOcclusion

/-- The first of the lists that is not empty. -/
def firstElements : List (List ε) → List ε
  | [] => []
  | elements :: rest => if elements.isEmpty then firstElements rest else elements

/-- The model that a line makes. -/
def inherited (m : ResourceManager ε) (line : List Identifier) : ModelObject ε where
  mLoadData := none
  mAmbientOcclusion := line.getLast?.elim true (occlusionOf m)
  mElements := firstElements (line.map (elementsOf m))

/-- An order in which the models of the manager can be iterated. -/
def Enumerates (keys : List Identifier) (m : ResourceManager ε) : Prop :=
  keys.Nodup ∧ ∀ id, id ∈ keys ↔ (m.mResources id).isSome

/-- There are models under the same identifiers, and the sentinel is the same. -/
structure SameEntries (m m' : ResourceManager ε) : Prop where
  sentinel : m'.notFoundSentinel = m.notFoundSentinel
  keys : ∀ id, (m'.mResources id).isSome = (m.mResources id).isSome

theorem SameEntries.refl (m : ResourceManager ε) : SameEntries m m := ⟨rfl, fun _ => rfl⟩

theorem SameEntries.trans {m m' m'' : ResourceManager ε} (h : SameEntries m m')
    (h' : SameEntries m' m'') : SameEntries m m'' :=
  ⟨h'.sentinel.trans h.sentinel, fun id => (h'.keys id).trans (h.keys id)⟩

end Mccpp.Interface
