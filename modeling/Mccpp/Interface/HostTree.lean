import Mccpp.Model.Vfs

/-!
# Directory trees

A directory of the host is a `Listing`: what `readdir` returns, entry after entry, with the
content of every directory in its place. Every finite directory tree is one, in whatever order its
directories are read. `Mirrored` says that nodes of the virtual file system are a copy of such a
tree, and `InStep` what holds whenever `build_tree` turns to the next entry.
-/

set_option autoImplicit false

namespace Mccpp.Interface

open Mccpp.Model

/-- A directory of the host, as `readdir` returns it. -/
inductive Listing where
  | done
  /-- The entry `.`. -/
  | self (rest : Listing)
  /-- The entry `..`. -/
  | parent (rest : Listing)
  | file (name : List Char) (rest : Listing)
  | directory (name : List Char) (content rest : Listing)
deriving DecidableEq, Repr

namespace Listing

/-- What `readdir` returns. -/
def dirents : Listing → List Dirent
  | done => []
  | self rest => ⟨['.'], .directory⟩ :: rest.dirents
  | parent rest => ⟨['.', '.'], .directory⟩ :: rest.dirents
  | file name rest => ⟨name, .other⟩ :: rest.dirents
  | directory name _ rest => ⟨name, .directory⟩ :: rest.dirents

/-- A name that a file or a directory can have. -/
def ProperName (name : List Char) : Prop :=
  '/' ∉ name ∧ name ≠ ['.'] ∧ name ≠ ['.', '.']

instance (name : List Char) : Decidable (ProperName name) :=
  inferInstanceAs (Decidable ('/' ∉ name ∧ name ≠ ['.'] ∧ name ≠ ['.', '.']))

/-- All names of the tree are proper. -/
def Proper : Listing → Prop
  | done => True
  | self rest | parent rest => rest.Proper
  | file name rest => ProperName name ∧ rest.Proper
  | directory name content rest => ProperName name ∧ content.Proper ∧ rest.Proper

/-- The names in the directory itself. -/
def names : Listing → List (List Char)
  | done => []
  | self rest | parent rest => rest.names
  | file name rest => name :: rest.names
  | directory name _ rest => name :: rest.names

/-- In no directory is a name empty or there twice. -/
def Distinct : Listing → Prop
  | done => True
  | self rest | parent rest => rest.Distinct
  | file name rest => name ≠ [] ∧ name ∉ rest.names ∧ rest.Distinct
  | directory name content rest =>
    name ≠ [] ∧ name ∉ rest.names ∧ content.Distinct ∧ rest.Distinct

/-- There is a file at this path, given by its names. -/
def HasFile : Listing → List (List Char) → Prop
  | done, _ => False
  | self rest, path | parent rest, path => rest.HasFile path
  | file name rest, path => path = [name] ∨ rest.HasFile path
  | directory name content rest, path =>
    (∃ inside, path = name :: inside ∧ content.HasFile inside) ∨ rest.HasFile path

/-- The host opens the directories below `path` as the tree says. -/
def ServedBelow (host : Host) (path : List Char) : Listing → Prop
  | done => True
  | self rest | parent rest => ServedBelow host path rest
  | file _ rest => ServedBelow host path rest
  | directory name content rest =>
    host (path ++ '/' :: name) = some content.dirents ∧
      ServedBelow host (path ++ '/' :: name) content ∧ ServedBelow host path rest

/-- The host has this tree under `path`. -/
def Served (host : Host) (path : List Char) (tree : Listing) : Prop :=
  host path = some tree.dirents ∧ ServedBelow host path tree

end Listing

/-- The entries `entries` of the node `parent` are a copy of the listing, made for the storage
`s`: one node for each file and for each directory, in order, with the same name. Files point to
the storage, directories do not, and have copies of their content as entries. The last list names
all nodes of the copy. -/
inductive Mirrors (nodes : TreeNodes) (s : ℕ) : ℕ → Listing → List ℕ → List ℕ → Prop where
  | done (parent : ℕ) : Mirrors nodes s parent .done [] []
  | self {parent : ℕ} {rest : Listing} {entries all : List ℕ}
      (hrest : Mirrors nodes s parent rest entries all) :
      Mirrors nodes s parent (.self rest) entries all
  | parent {parent : ℕ} {rest : Listing} {entries all : List ℕ}
      (hrest : Mirrors nodes s parent rest entries all) :
      Mirrors nodes s parent (.parent rest) entries all
  | file {parent node : ℕ} {name : List Char} {rest : Listing} {entries all : List ℕ}
      (hnode : nodes[node]? = some ⟨some parent, name, some s, []⟩)
      (hrest : Mirrors nodes s parent rest entries all) :
      Mirrors nodes s parent (.file name rest) (node :: entries) (node :: all)
  | directory {parent node : ℕ} {name : List Char} {content rest : Listing}
      {inside entries below all : List ℕ}
      (hnode : nodes[node]? = some ⟨some parent, name, none, inside⟩)
      (hcontent : Mirrors nodes s node content inside below)
      (hrest : Mirrors nodes s parent rest entries all) :
      Mirrors nodes s parent (.directory name content rest) (node :: entries)
        (node :: (below ++ all))

/-- **The nodes are a tree isomorphic to the listing**: the root has its copy as entries, and
every other node is a node of the copy, exactly once. -/
def Isomorphic (nodes : TreeNodes) (s : ℕ) (tree : Listing) : Prop :=
  ∃ entries, nodes[0]? = some ⟨none, [], none, entries⟩ ∧
    Mirrors nodes s 0 tree entries (List.range' 1 (nodes.length - 1))

/-! ## Several storages -/

/-- A storage of the host that holds a tree. -/
structure Mounted where
  root : List Char
  tree : Listing

/-- Every storage is on the host, and its tree is one that a host can have. -/
def AllServed (host : Host) (mounts : List Mounted) : Prop :=
  ∀ m ∈ mounts, m.tree.Served host (HostStorage.create m.root).mRoot ∧ m.tree.Proper ∧
    m.tree.Distinct

/-- `find_file(path)` returns a node whose storage contains a file at this path. -/
def Visible (nodes : TreeNodes) (mounts : List Mounted) (path : List (List Char)) : Prop :=
  ∃ node n s m, nodes.findFile (['/'].intercalate path) = .ok (some node) ∧
    nodes[node]? = some n ∧ n.mStorage = some s ∧ mounts[s]? = some m ∧ m.tree.HasFile path

/-! ## Where the loop stands -/

/-- The names on the way from a node up to the root. -/
inductive Trail (nodes : TreeNodes) : ℕ → List (List Char) → Prop where
  | root : Trail nodes 0 []
  | child {node parent : ℕ} {n : TreeNode} {trail : List (List Char)}
      (hnode : nodes[node]? = some n) (hparent : n.mParent = some parent)
      (hup : Trail nodes parent trail) : Trail nodes node (n.mName :: trail)

/-- The path of the directory at the end of such a way. -/
def dirPath (root : List Char) : List (List Char) → List Char
  | [] => root
  | name :: trail => dirPath root trail ++ '/' :: name

/-- **The builder and the iterator are in step.** Where the loop is not over, the open directories
are those from `current` up to the root: one more than the depth of `current`, so there is one to
read, and `m_path` is the path of the one on top. Where it is over, none is open. -/
inductive InStep (root : List Char) (b : Building) : Prop where
  | within {current : ℕ} {trail : List (List Char)} {back : Dir} {below : List Dir}
      (hcurrent : b.current = some current) (htrail : Trail b.nodes current trail)
      (hopen : b.iter.mIterators = back :: below)
      (hdepth : b.iter.mIterators.length = trail.length + 1)
      (hpaths : b.iter.mIterators.map Dir.path = trail.tails.map (dirPath root))
      (hpath : b.iter.mPath = back.path)
  | over (hcurrent : b.current = none) (hopen : b.iter.mIterators = [])

/-- One turn of the loop of `build_tree`. -/
def Turn (host : Host) (s : ℕ) (b next : Building) : Prop :=
  ∃ current, b.current = some current ∧ buildStep host s b.nodes current b.iter = .ok next

end Mccpp.Interface
