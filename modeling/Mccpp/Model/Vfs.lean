import Mathlib.Data.List.Infix
import Mccpp.Model.Machine

/-!
# The virtual file system

`vfs/vfs.{hh,cc}` and `vfs/host.{hh,cc}`. The nodes are kept in a list, in the order in which they
were allocated: a pointer to a node is its index, and `m_root` is the node `0`. A pointer to a
storage is its index in `m_storages`. What `opendir` finds is a parameter: for a path, the entries
that `readdir` will return, or nothing where it fails. A `readdir` of an open directory does not
fail.
-/

set_option autoImplicit false

namespace Mccpp.Model

/-- How code of the file system can stop early. -/
inductive VfsFailure where
  /-- `std::system_error`, with the path. -/
  | systemError (path : List Char)
  /-- `std::out_of_range`. -/
  | outOfRange
  /-- An `assert` on this condition failed. -/
  | assertFailed (condition : String)
  /-- A null pointer is dereferenced. -/
  | nullPointer
  /-- No such thing in the program: a loop of the model reached its bound. -/
  | diverged
deriving DecidableEq, Repr

/-! ## `tree_node` -/

/-- `tree_node`. -/
structure TreeNode where
  mParent : Option ℕ
  mName : List Char
  mStorage : Option ℕ
  mEntries : List ℕ
deriving DecidableEq, Repr

/-- All nodes of a tree. -/
abbrev TreeNodes : Type := List TreeNode

namespace TreeNodes

/-- `tree_node(nullptr)`, alone. -/
def root : TreeNodes := [⟨none, [], none, []⟩]

/-- `emplace_back(name)` on the node `this`. -/
def emplaceBack (nodes : TreeNodes) (this : ℕ) (name : List Char) : TreeNodes × ℕ :=
  let newEntry := nodes.length
  (nodes.modify this (fun n => { n with mEntries := n.mEntries ++ [newEntry] }) ++
    [⟨some this, name, none, []⟩], newEntry)

/-- `storage(s)` on the node `this`. -/
def storage (nodes : TreeNodes) (this s : ℕ) : TreeNodes :=
  nodes.modify this fun n => { n with mStorage := some s }

/-- `parent()` of the node `this`. -/
def parent (nodes : TreeNodes) (this : ℕ) : Option ℕ := nodes[this]?.bind TreeNode.mParent

/-- `find(name)` on the node `this`. -/
def find (nodes : TreeNodes) (this : ℕ) (name : List Char) : Option ℕ :=
  nodes[this]?.bind fun n =>
    n.mEntries.find? fun entry => nodes[entry]?.any fun e => e.mName = name

end TreeNodes

/-! ## `host_storage_iterator` -/

/-- `dirent::d_type`. -/
inductive DType where
  /-- `DT_DIR`. -/
  | directory
  | other
deriving DecidableEq, Repr

/-- `dirent`. -/
structure Dirent where
  dName : List Char
  dType : DType
deriving DecidableEq, Repr

/-- `DIR`: the path that was opened and what `readdir` has not yet returned. -/
structure Dir where
  path : List Char
  rest : List Dirent
deriving DecidableEq, Repr

/-- What `opendir` finds under a path. -/
abbrev Host : Type := List Char → Option (List Dirent)

/-- `opendir_or_throw(path)`. -/
def opendirOrThrow (host : Host) (path : List Char) : Except VfsFailure Dir :=
  match host path with
  | none => .error (.systemError path)
  | some entries => .ok ⟨path, entries⟩

/-- `readdir_helper(dir)`, and what it leaves. -/
def readdirHelper : List Dirent → Option (Dirent × List Dirent)
  | [] => none
  | ent :: rest => if ent.dName = ['.'] ∨ ent.dName = ['.', '.'] then readdirHelper rest
    else some (ent, rest)

/-- `path.erase(path.rfind('/'))`. -/
def eraseFromLastSlash (path : List Char) : Except VfsFailure (List Char) :=
  if '/' ∈ path then .ok (path.reverse.dropWhile (· ≠ '/')).tail.reverse else .error .outOfRange

/-- `host_storage_iterator`. `back()` of `m_iterators` is its head here. -/
structure HostStorageIterator where
  mPath : List Char
  mIterators : List Dir
  mDirent : Option Dirent
deriving DecidableEq, Repr

namespace HostStorageIterator

/-- `create(root)`. -/
def create (host : Host) (root : List Char) : Except VfsFailure HostStorageIterator := do
  let dir ← opendirOrThrow host root
  pure ⟨root, [dir], none⟩

/-- `is_directory()`. -/
def isDirectory (it : HostStorageIterator) : Except VfsFailure Bool :=
  match it.mDirent with
  | none => .error .nullPointer
  | some ent => .ok (ent.dType = .directory)

/-- `name()`. -/
def name (it : HostStorageIterator) : Except VfsFailure (List Char) :=
  match it.mDirent with
  | none => .error .nullPointer
  | some ent => .ok ent.dName

/-- `next()`. -/
def next (host : Host) (it : HostStorageIterator) : Except VfsFailure (Bool × HostStorageIterator) :=
  match it.mIterators with
  | [] => .error (.assertFailed "m_iterators.size() > 0")
  | back :: below =>
    match readdirHelper back.rest with
    | none =>
      if below = [] then .ok (false, ⟨it.mPath, below, none⟩)
      else do
        let path ← eraseFromLastSlash it.mPath
        pure (false, ⟨path, below, none⟩)
    | some (ent, rest) =>
      let iterators := { back with rest := rest } :: below
      if ent.dType = .directory then do
        let path := it.mPath ++ '/' :: ent.dName
        let dir ← opendirOrThrow host path
        pure (true, ⟨path, dir :: iterators, some ent⟩)
      else .ok (true, ⟨it.mPath, iterators, some ent⟩)

end HostStorageIterator

/-! ## `vfs` -/

/-- `host_storage`. -/
structure HostStorage where
  mRoot : List Char

/-- `host_storage(root)`. -/
def HostStorage.create (root : List Char) : HostStorage := ⟨root ++ ['/']⟩

/-- The variables of the loop over one storage in `build_tree`. -/
structure Building where
  nodes : TreeNodes
  current : Option ℕ
  iter : HostStorageIterator
deriving DecidableEq, Repr

/-- One turn of that loop, over the storage `s`, where `current` is not null. -/
def buildStep (host : Host) (s : ℕ) (nodes : TreeNodes) (current : ℕ) (iter : HostStorageIterator) :
    Except VfsFailure Building := do
  let (more, iter) ← iter.next host
  if more then
    let name ← iter.name
    let (nodes, newEntry) := nodes.emplaceBack current name
    let directory ← iter.isDirectory
    if directory then pure ⟨nodes, some newEntry, iter⟩
    else pure ⟨nodes.storage newEntry s, some current, iter⟩
  else pure ⟨nodes, nodes.parent current, iter⟩

/-- That loop, for at most `fuel` turns. -/
def buildLoop (host : Host) (s : ℕ) : ℕ → Building → Except VfsFailure TreeNodes
  | 0, _ => .error .diverged
  | fuel + 1, b =>
    match b.current with
    | none => .ok b.nodes
    | some current => do
      let next ← buildStep host s b.nodes current b.iter
      buildLoop host s fuel next

/-- The storages from number `s` on, each for at most `fuel` turns. -/
def buildStorages (host : Host) (fuel : ℕ) : ℕ → List HostStorage → TreeNodes →
    Except VfsFailure TreeNodes
  | _, [], nodes => .ok nodes
  | s, storage :: storages, nodes => do
    let iter ← HostStorageIterator.create host storage.mRoot
    let nodes ← buildLoop host s fuel ⟨nodes, some 0, iter⟩
    buildStorages host fuel (s + 1) storages nodes

/-- `build_tree()`. -/
def buildTree (host : Host) (fuel : ℕ) (mStorages : List HostStorage) :
    Except VfsFailure TreeNodes :=
  buildStorages host fuel 0 mStorages TreeNodes.root

/-! ## `find_file` -/

/-- `split_string_iterator`. -/
structure SplitStringIterator where
  part : List Char
  remaining : List Char
deriving DecidableEq, Repr

namespace SplitStringIterator

/-- `++it`. -/
def advance (it : SplitStringIterator) : SplitStringIterator :=
  if '/' ∈ it.remaining then
    ⟨it.remaining.takeWhile (· ≠ '/'), (it.remaining.dropWhile (· ≠ '/')).tail⟩
  else ⟨it.remaining, []⟩

/-- `it == nullptr`. -/
def atEnd (it : SplitStringIterator) : Bool := it.part.isEmpty && it.remaining.isEmpty

/-- `split_string_iterator(str)`. -/
def create (str : List Char) : SplitStringIterator := advance ⟨[], str⟩

end SplitStringIterator

namespace TreeNodes

/-- The loop of `find_file` from the node `node` on, for at most `fuel` parts. -/
def findParts (nodes : TreeNodes) : ℕ → ℕ → SplitStringIterator → Except VfsFailure (Option ℕ)
  | 0, _, _ => .error .diverged
  | fuel + 1, node, it =>
    if it.atEnd then .ok (some node)
    else
      match nodes.find node it.part with
      | none => .ok none
      | some node => findParts nodes fuel node it.advance

/-- `find_file(path)`. There are no more parts than characters and one. -/
def findFile (nodes : TreeNodes) (path : List Char) : Except VfsFailure (Option ℕ) :=
  nodes.findParts (path.length + 2) 0 (.create path)

/-! ## `generate_path` -/

/-- `name()` of the node `this`. -/
def name (nodes : TreeNodes) (this : ℕ) : List Char := (nodes[this]?.map TreeNode.mName).getD []

/-- `storage()` of the node `this`. -/
def storageOf (nodes : TreeNodes) (this : ℕ) : Option ℕ := nodes[this]?.bind TreeNode.mStorage

/-- The loop of `generate_path` from the ancestor `parent` on, for at most `fuel` of them. -/
def generatePathLoop (nodes : TreeNodes) : ℕ → Option ℕ → List Char → Except VfsFailure (List Char)
  | 0, _, _ => .error .diverged
  | _ + 1, none, path => .ok path
  | fuel + 1, some parent, path =>
    nodes.generatePathLoop fuel (nodes.parent parent) (nodes.name parent ++ '/' :: path)

/-- `generate_path()` of the node `this`, which has no more ancestors than there are nodes. -/
def generatePath (nodes : TreeNodes) (this : ℕ) : Except VfsFailure (List Char) :=
  nodes.generatePathLoop (nodes.length + 1) (nodes.parent this) (nodes.name this)

/-- `find_tree_node_root(node)`, with the same bound. -/
def findTreeNodeRoot (nodes : TreeNodes) : ℕ → ℕ → Except VfsFailure ℕ
  | 0, _ => .error .diverged
  | fuel + 1, node =>
    match nodes.parent node with
    | none => .ok node
    | some parent => nodes.findTreeNodeRoot fuel parent

end TreeNodes

/-! ## `read_file` -/

/-- What `read_file(path)` of each storage returns. -/
abbrev StorageContent : Type := ℕ → List Char → List Byte

namespace TreeNodes

/-- `read_file(path)`. -/
def readFile (nodes : TreeNodes) (content : StorageContent) (path : List Char) :
    Except VfsFailure (List Byte) := do
  match ← nodes.findFile path with
  | none => .error .nullPointer
  | some node =>
    match nodes.storageOf node with
    | none => .ok []
    | some s => .ok (content s path)

/-- `read_file(node)`. -/
def readFileNode (nodes : TreeNodes) (content : StorageContent) (node : ℕ) :
    Except VfsFailure (List Byte) := do
  let root ← nodes.findTreeNodeRoot (nodes.length + 1) node
  if root = 0 then do
    let path ← nodes.generatePath node
    match nodes.storageOf node with
    | none => .ok []
    | some s => .ok (content s path)
  else .error (.assertFailed "&m_root == &find_tree_node_root(node)")

end TreeNodes

end Mccpp.Model
