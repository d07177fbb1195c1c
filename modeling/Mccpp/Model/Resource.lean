import Mathlib.Data.List.Basic

/-!
# Block models

`identifier.hh`, and `manager::load` and `model_object` of `resource/`. A model is decoded from its
file and stored under its identifier; then every model is finalized, which takes what it lacks from
its parent. The elements of a model are only moved and copied here, and their type is left open; a
moved-from vector is empty. The text of a file is taken as decoded.

Pointers to models are keys of `m_resources`, or the sentinel that stands for a missing model. The
C++ recursion of `finalize` has no bound of its own: `none` is a recursion that is deeper than
`fuel` calls.
-/

set_option autoImplicit false

namespace Mccpp.Model

/-- `identifier`, by `m_data`, which also determines where its separator is. -/
structure Identifier where
  mData : List Char
deriving DecidableEq, Repr

namespace Identifier

/-- `identifier()`. -/
def unnamed : Identifier := ⟨[]⟩

/-- `identifier(text, default_name_space)`. -/
def construct (text defaultNameSpace : List Char) : Identifier :=
  if ':' ∈ text then ⟨text⟩ else ⟨defaultNameSpace ++ ':' :: text⟩

/-- `identifier(text)`. -/
def ofText (text : List Char) : Identifier := construct text "minecraft".toList

/-- `empty()`. -/
def empty (id : Identifier) : Bool := id.mData.isEmpty

end Identifier

/-- `model_load_data`. -/
structure ModelLoadData (ε : Type) where
  parent : Identifier
  elements : List ε
deriving DecidableEq

/-- `model_object`. -/
structure ModelObject (ε : Type) where
  mLoadData : Option (ModelLoadData ε)
  mAmbientOcclusion : Bool
  mElements : List ε
deriving DecidableEq

/-- What a model file holds, of what is loaded. -/
structure ModelFile (ε : Type) where
  parent : Option (List Char)
  elements : Option (List ε)
  ambientocclusion : Option Bool

namespace ModelObject

variable {ε : Type}

/-- `model_object()`. -/
def unloaded : ModelObject ε := ⟨none, true, []⟩

/-- `model_object(fs, file)`. -/
def construct (file : ModelFile ε) : ModelObject ε where
  mLoadData := some {
    parent := (file.parent.map Identifier.ofText).getD .unnamed
    elements := file.elements.getD [] }
  mAmbientOcclusion := file.ambientocclusion.getD true
  mElements := []

/-- `finalized()`. -/
def finalized (o : ModelObject ε) : Bool := o.mLoadData.isNone

/-- `m_elements = std::move(m_load_data->elements)`. -/
def takeElements (data : ModelLoadData ε) (o : ModelObject ε) : ModelObject ε :=
  { o with mElements := data.elements, mLoadData := some { data with elements := [] } }

/-- The elements of the parent if there are none, and the ambient occlusion of the parent. -/
def inherit (parent o : ModelObject ε) : ModelObject ε :=
  { o with
    mElements := if o.mElements.isEmpty then parent.mElements else o.mElements
    mAmbientOcclusion := parent.mAmbientOcclusion }

/-- `m_load_data.reset()`. -/
def resetLoadData (o : ModelObject ε) : ModelObject ε := { o with mLoadData := none }

end ModelObject

/-- `model`, that is `model_object *`. -/
inductive ModelHandle where
  | resource (id : Identifier)
  | notFoundSentinel
deriving DecidableEq

/-- `manager`, and the `not_found_sentinel` of its models. -/
structure ResourceManager (ε : Type) where
  mResources : Identifier → Option (ModelObject ε)
  notFoundSentinel : ModelObject ε

namespace ResourceManager

variable {ε : Type}

def init : ResourceManager ε := ⟨fun _ => none, .unloaded⟩

/-- The model behind a handle; no handle dangles. -/
def deref (m : ResourceManager ε) : ModelHandle → ModelObject ε
  | .resource id => (m.mResources id).getD .unloaded
  | .notFoundSentinel => m.notFoundSentinel

/-- A write to the model behind a handle. -/
def modify (m : ResourceManager ε) (f : ModelObject ε → ModelObject ε) :
    ModelHandle → ResourceManager ε
  | .resource id =>
    { m with mResources := fun key => if key = id then (m.mResources key).map f else m.mResources key }
  | .notFoundSentinel => { m with notFoundSentinel := f m.notFoundSentinel }

/-- `m_resources[id] = std::move(model)`. -/
def store (m : ResourceManager ε) (id : Identifier) (model : ModelObject ε) : ResourceManager ε :=
  { m with mResources := fun key => if key = id then some model else m.mResources key }

/-- `get_internal(type, id, flags, nullptr)`. -/
def getInternal (m : ResourceManager ε) (id : Identifier) : Option ModelHandle :=
  (m.mResources id).map fun _ => .resource id

/-- `models()[id]`. -/
def models (m : ResourceManager ε) (id : Identifier) : ModelHandle :=
  if id.empty then .notFoundSentinel else (m.getInternal id).getD .notFoundSentinel

/-- `this->finalize(mgr)`. -/
def finalize : ℕ → ModelHandle → ResourceManager ε → Option (ResourceManager ε)
  | 0, _, _ => none
  | fuel + 1, this, m =>
    match (m.deref this).mLoadData with
    | none => some m
    | some data => do
      let m := m.modify (.takeElements data) this
      let m ←
        if data.parent.empty then some m
        else do
          let parent := m.models data.parent
          let m ← if (m.deref parent).finalized then some m else finalize fuel parent m
          some (m.modify (.inherit (m.deref parent)) this)
      some (m.modify .resetLoadData this)

/-! ## Loading -/

/-- A file of `models/block` in the assets of a namespace. -/
structure BlockFile (ε : Type) where
  nameSpace : List Char
  name : List Char
  content : ModelFile ε

/-- The model of a file is stored, if the file is named as one. -/
def loadFile (m : ResourceManager ε) (file : BlockFile ε) : ResourceManager ε :=
  if ".json".toList.isSuffixOf file.name then
    let basename := file.name.take (file.name.length - 5)
    let id := Identifier.ofText (file.nameSpace ++ ':' :: ("block/".toList ++ basename))
    m.store id (.construct file.content)
  else m

/-- The first loop of `load()`. -/
def loadFiles (files : List (BlockFile ε)) : ResourceManager ε := files.foldl loadFile init

/-- The second loop of `load()`, over the keys of `m_resources` in the order they come in. -/
def finalizeAll (fuel : ℕ) (keys : List Identifier) (m : ResourceManager ε) :
    Option (ResourceManager ε) :=
  keys.foldlM (fun m id => finalize fuel (.resource id) m) m

end ResourceManager

end Mccpp.Model
