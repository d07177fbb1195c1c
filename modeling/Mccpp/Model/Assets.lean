import Mccpp.Model.ModelData
import Mccpp.Model.Resource
import Mccpp.Model.Vfs

/-!
# Loading the assets

What the constructor of `model_object` makes of a document, `manager::load` of `resource/resource.cc` over the
nodes of the virtual file system, and what the start of the program does with it. What is made of the text of a model file is the parameter `decode`, where `none` is an
exception or a failed `assert`; with a parser it is `decodeText`. The warning about a file that is not named as
a model is left out.
-/

set_option autoImplicit false

namespace Mccpp.Model

/-- How loading can stop early. -/
inductive LoadFailure where
  | vfs (failure : VfsFailure)
  /-- A model file is not as it has to be. -/
  | malformed
  /-- The recursion of `finalize` is deeper than its bound. -/
  | tooDeep
deriving DecidableEq, Repr

/-- A failure of the file system. -/
def LoadFailure.ofVfs {α : Type} : Except VfsFailure α → Except LoadFailure α
  | .ok a => .ok a
  | .error e => .error (.vfs e)

/-! ## Model files -/

section

variable {K A : Type} [Field K] [LinearOrder K] [FloorRing K]

/-- `load_data(json)`, and `model_object(fs, file)` behind the parser. -/
def loadData (glm : Glm K A) (json : Json K) : Option (ModelFile (ElementData K A)) := do
  json.assertObject
  let parent ← ((json.find "parent").map fun value => value.getString.map some).getD (some none)
  ((json.find "display").map Json.assertObject).getD (some ())
  let elements ← ((json.find "elements").map fun value => (loadElements glm value).map some).getD (some none)
  let ambientocclusion ←
    ((json.find "ambientocclusion").map fun value => value.getBool.map some).getD (some none)
  some ⟨parent, elements, ambientocclusion⟩

/-- What a parser and `load_data` make of a text. -/
def decodeText (parse : List Byte → Option (Json K)) (glm : Glm K A) (text : List Byte) :
    Option (ModelFile (ElementData K A)) :=
  (parse text).bind (loadData glm)

end

/-! ## `load` -/

namespace TreeNodes

/-- `begin()` to `end()` of the node `this`. -/
def entries (nodes : TreeNodes) (this : ℕ) : List ℕ := (nodes[this]?.map TreeNode.mEntries).getD []

end TreeNodes

namespace ResourceManager

variable {ε : Type} (content : StorageContent) (decode : List Byte → Option (ModelFile ε))

/-- The part of `model_object(fs, file)` up to what is stored. -/
def decodeNode (nodes : TreeNodes) (node : ℕ) : Except LoadFailure (ModelFile ε) := do
  let data ← LoadFailure.ofVfs (nodes.readFileNode content node)
  match decode data with
  | none => .error .malformed
  | some file => .ok file

/-- The body of the inner loop of `load()`, in the namespace `nameSpace`. -/
def loadNode (nodes : TreeNodes) (nameSpace : List Char) (m : ResourceManager ε) (node : ℕ) :
    Except LoadFailure (ResourceManager ε) :=
  if ".json".toList.isSuffixOf (nodes.name node) then do
    let file ← decodeNode content decode nodes node
    pure (m.loadFile ⟨nameSpace, nodes.name node, file⟩)
  else .ok m

/-- The body of the outer loop of `load()`. -/
def loadNamespace (nodes : TreeNodes) (m : ResourceManager ε) (namespaceNode : ℕ) :
    Except LoadFailure (ResourceManager ε) :=
  match nodes.find namespaceNode "models".toList with
  | none => .ok m
  | some modelsNode =>
    match nodes.find modelsNode "block".toList with
    | none => .ok m
    | some blockNode =>
      (nodes.entries blockNode).foldlM (loadNode content decode nodes (nodes.name namespaceNode)) m

/-- The first loop of `load()`, on a new manager. -/
def loadNodes (nodes : TreeNodes) : Except LoadFailure (ResourceManager ε) :=
  (nodes.entries 0).foldlM (loadNamespace content decode nodes) init

/-- `load()`, where `order` is the order in which the models of a manager come in. -/
def load (nodes : TreeNodes) (order : ResourceManager ε → List Identifier) (fuel : ℕ) :
    Except LoadFailure (ResourceManager ε) := do
  let m ← loadNodes content decode nodes
  match finalizeAll fuel (order m) m with
  | none => .error .tooDeep
  | some m => .ok m

/-- The part of `main` about the assets: the tree of the storage `root` is built, and models are loaded. -/
def startUp (host : Host) (root : List Char) (order : ResourceManager ε → List Identifier) (fuel : ℕ) :
    Except LoadFailure (ResourceManager ε) := do
  let nodes ← LoadFailure.ofVfs (buildTree host fuel [.create root])
  load content decode nodes order fuel

end ResourceManager

end Mccpp.Model
