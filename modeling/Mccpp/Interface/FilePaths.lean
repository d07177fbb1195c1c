import Mccpp.Model.Vfs

/-!
# Paths of files

A tree of the virtual file system has names without slashes, none of them empty and no two siblings
with the same one. A path is a list of names, of which each leads from a node to one of its entries
(`LeadsTo`), and a text with slashes between its components. A node is named back by its path when the
path that it generates is the one it is found by.
-/

set_option autoImplicit false

namespace Mccpp.Interface

open Mccpp.Model

/-- A name that is a component of a path by itself. -/
def ComponentName (name : List Char) : Prop := name ≠ [] ∧ '/' ∉ name

/-- The trees that are made with `emplace_back`. -/
inductive FileTree : TreeNodes → Prop where
  | root : FileTree TreeNodes.root
  | entry {nodes : TreeNodes} {this : ℕ} {name : List Char} (htree : FileTree nodes)
      (hthis : this < nodes.length) (hname : ComponentName name)
      (hnew : nodes.find this name = none) : FileTree (nodes.emplaceBack this name).1
  | storage {nodes : TreeNodes} (this s : ℕ) (htree : FileTree nodes) :
      FileTree (nodes.storage this s)

/-! ## Finding a node -/

/-- The names lead from the first node to the second. -/
inductive LeadsTo (nodes : TreeNodes) : ℕ → List (List Char) → ℕ → Prop where
  | here (node : ℕ) : LeadsTo nodes node [] node
  | down {node next last : ℕ} {name : List Char} {names : List (List Char)}
      (hfind : nodes.find node name = some next) (hrest : LeadsTo nodes next names last) :
      LeadsTo nodes node (name :: names) last

/-- `find_file(path)` follows the names from the root. -/
structure FollowsNames (nodes : TreeNodes) (path : List Char) (names : List (List Char)) : Prop where
  found : ∀ node, nodes.findFile path = .ok (some node) ↔ LeadsTo nodes 0 names node
  missing : nodes.findFile path = .ok none ↔ ∃ before name after node,
    names = before ++ name :: after ∧ LeadsTo nodes 0 before node ∧ nodes.find node name = none

/-- The text of a path. -/
def joined (names : List (List Char)) : List Char := ['/'].intercalate names

/-- The text names the node, and the node the text. -/
structure NamedBack (nodes : TreeNodes) (node : ℕ) (path : List Char) : Prop where
  found : nodes.findFile path = .ok (some node)
  generated : nodes.generatePath node = .ok path

/-! ## Reading a file -/

/-- The components without an empty one at the end, and without two. -/
def dropEmptyEnd : List (List Char) → List (List Char)
  | [] | [[]] | [[], []] => []
  | name :: names => name :: dropEmptyEnd names

/-- The components of any text. -/
def components (path : List Char) : List (List Char) := dropEmptyEnd (path.splitOn '/')

/-- `read_file(path)` returns what the storage has for a file, and nothing for a directory or where
there is no node. -/
structure ReadsFile (nodes : TreeNodes) (content : StorageContent) (path : List Char) : Prop where
  noNull : nodes.readFile content path ≠ .error .nullPointer
  file : ∀ node s, nodes.findFile path = .ok (some node) → nodes.storageOf node = some s →
    nodes.readFile content path = .ok (content s path)
  directory : ∀ node, nodes.findFile path = .ok (some node) → nodes.storageOf node = none →
    nodes.readFile content path = .ok []
  missing : nodes.findFile path = .ok none → nodes.readFile content path = .ok []

end Mccpp.Interface
