import Mathlib.Data.Set.Finite.Basic
import Mccpp.Interface.FilePaths
import Mccpp.Interface.HostTree
import Mccpp.Interface.Inheritance
import Mccpp.Model.Assets

/-!
# Assets

Where the models of a directory tree are, and what the manager is to hold once they are loaded: for every file
`models/block/` with the ending `.json`, in whatever namespace, the model that it gives, and nothing else. No
order comes in, neither that of the directories nor that of the manager.
-/

set_option autoImplicit false

namespace Mccpp.Interface

open Mccpp.Library Mccpp.Model

namespace Listing

/-- There is a directory at this path, given by its names. -/
def HasDirectory : Listing → List (List Char) → Prop
  | done, _ => False
  | self rest, path | parent rest, path => rest.HasDirectory path
  | file _ rest, path => rest.HasDirectory path
  | directory name content rest, path =>
    path = [name] ∨ (∃ inside, path = name :: inside ∧ content.HasDirectory inside) ∨
      rest.HasDirectory path

end Listing

/-- The trees have files and directories at the same paths. -/
structure SamePaths (tree tree' : Listing) : Prop where
  files : ∀ path, tree.HasFile path ↔ tree'.HasFile path
  directories : ∀ path, tree.HasDirectory path ↔ tree'.HasDirectory path

/-- The path of a model of a namespace. -/
def blockPath (nameSpace basename : List Char) : List (List Char) :=
  [nameSpace, "models".toList, "block".toList, basename ++ ".json".toList]

/-- The identifier of this model. -/
def blockId (nameSpace basename : List Char) : Identifier :=
  ⟨nameSpace ++ ':' :: ("block/".toList ++ basename)⟩

section

variable {ε : Type} (content : StorageContent) (decode : List Byte → Option (ModelFile ε)) (tree : Listing)

/-- The tree has this model, and its file gives this. -/
def HasModel (nameSpace basename : List Char) (file : ModelFile ε) : Prop :=
  tree.HasFile (blockPath nameSpace basename) ∧
    decode (content 0 ('/' :: joined (blockPath nameSpace basename))) = some file

/-- What is named as a model is a model file. -/
structure Loadable : Prop where
  files : ∀ nameSpace basename, tree.HasFile (blockPath nameSpace basename) →
    ∃ file, HasModel content decode tree nameSpace basename file
  directories : ∀ nameSpace basename, ¬tree.HasDirectory (blockPath nameSpace basename)

/-- The manager holds what the models of the tree give, before they are finalized. -/
structure HoldsModels (m : ResourceManager ε) : Prop where
  sentinel : m.notFoundSentinel = .unloaded
  models : ∀ id o, m.mResources id = some o ↔ ∃ nameSpace basename file,
    HasModel content decode tree nameSpace basename file ∧ id = blockId nameSpace basename ∧
      o = .construct file

/-- How the program starts, where its assets are those of the tree: not at all, if something is named as a
model and is not a model file, or if a model is above itself; otherwise every model is finalized, with what its
line of parents makes of it. -/
inductive StartsAs : Except LoadFailure (ResourceManager ε) → Prop where
  | malformed (hnot : ¬Loadable content decode tree) : StartsAs (.error .malformed)
  | tooDeep {m : ResourceManager ε} (hloadable : Loadable content decode tree)
      (hholds : HoldsModels content decode tree m) (hcycle : ¬Acyclic (parentOf m)) :
      StartsAs (.error .tooDeep)
  | finalized {m after : ResourceManager ε} (hloadable : Loadable content decode tree)
      (hholds : HoldsModels content decode tree m) (hacyclic : Acyclic (parentOf m))
      (hentries : SameEntries m after)
      (hmodels : ∀ id, (m.mResources id).isSome →
        ∃ line, Line (parentOf m) id line ∧ after.mResources id = some (inherited m line)) :
      StartsAs (.ok after)

end

/-- An order in which the models of any manager can come in. -/
def IsOrder {ε : Type} (order : ResourceManager ε → List Identifier) : Prop :=
  ∀ m, {id | m.mResources id ≠ none}.Finite → Enumerates (order m) m

end Mccpp.Interface
