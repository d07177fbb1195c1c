import Mccpp.Analysis.NodePaths
import Mccpp.Model.Assets

/-!
# The trees that are built

What `build_tree` makes of a directory tree is a tree that is made with `emplace_back` from names that are
components of paths, no two siblings having the same one (`fileTree_extended`). So what is known of such trees,
is known of the nodes of every storage: each is where its names lead, and its path is made of them. Its entries
are copies of what is in the directory, one after another (`copies_of_mirrors`).
-/

set_option autoImplicit false

namespace Mccpp.Analysis

open Mccpp.Library Mccpp.Model Mccpp.Interface

variable {nodes : TreeNodes} {s : ℕ}

/-! ## File trees -/

theorem find_of_length_le {this : ℕ} (hthis : nodes.length ≤ this) (name : List Char) :
    nodes.find this name = none := by
  unfold TreeNodes.find
  rw [List.getElem?_eq_none hthis]
  rfl

/-- INTERNAL: what a directory has as entries, is nodes. -/
def EntriesThere (nodes : TreeNodes) : Prop :=
  ∀ (i : ℕ) n, nodes[i]? = some n → ∀ e ∈ n.mEntries, ∃ child, nodes[e]? = some child

theorem Rooted.entriesThere (hrooted : Rooted nodes) : EntriesThere nodes := by
  intro i n hn e he
  obtain ⟨child, hchild, _⟩ := hrooted.entry i n hn e he
  exact ⟨child, hchild⟩

/-- INTERNAL: a new entry is found by its own name only. -/
theorem find_emplaceBack (hthere : EntriesThere nodes) {this : ℕ} (hthis : this < nodes.length)
    (name other : List Char) :
    (nodes.emplaceBack this name).1.find this other =
      (nodes.find this other).or (if name = other then some nodes.length else none) := by
  have hn : nodes[this]? = some nodes[this] := List.getElem?_eq_getElem hthis
  have hn' : (nodes.emplaceBack this name).1[this]? = some (withEntries [nodes.length] nodes[this]) := by
    rw [emplaceBack_eq]
    simp [List.getElem?_append, hthis]
  have hlast : (nodes.emplaceBack this name).1[nodes.length]? = some ⟨some this, name, none, []⟩ := by
    simp [emplaceBack_eq]
  rw [find_of_kept (kept_emplaceBack nodes this name) hn hn' [nodes.length] rfl (hthere this _ hn)]
  congr 1
  rw [List.find?_singleton, named_of_getElem hlast]
  by_cases hname : name = other
  · simp [hname]
  · simp [hname]

theorem find_storage (hthere : EntriesThere nodes) (this i : ℕ) (name : List Char) :
    (nodes.storage this s).find i name = nodes.find i name := by
  rcases Nat.lt_or_ge i nodes.length with hi | hi
  · have hn : nodes[i]? = some nodes[i] := List.getElem?_eq_getElem hi
    have hn' : ∃ n', (nodes.storage this s)[i]? = some n' ∧ n'.mEntries = nodes[i].mEntries := by
      unfold TreeNodes.storage
      rw [List.getElem?_modify, hn]
      refine ⟨_, rfl, ?_⟩
      split <;> rfl
    obtain ⟨n', hn', hentries⟩ := hn'
    have hfind := find_of_kept (kept_storage (s := s) nodes this) hn hn' [] (by rw [hentries, List.append_nil])
      (hthere i _ hn) name
    rwa [List.find?_nil, Option.or_none] at hfind
  · rw [find_of_length_le hi, find_of_length_le (by simpa [TreeNodes.storage] using hi)]

/-- INTERNAL: what is added to a directory is not found in another one. -/
theorem find_extended_other (hthere : EntriesThere nodes) {current i : ℕ} (hi : i < nodes.length)
    (hother : i ≠ current) (listing : Listing) (name : List Char) :
    (extended s nodes current listing).find i name = nodes.find i name := by
  have hn : nodes[i]? = some nodes[i] := List.getElem?_eq_getElem hi
  have hn' : (extended s nodes current listing)[i]? = some nodes[i] := by
    simp [extended, List.getElem?_append, hi, hother.symm]
  have hfind := find_of_kept (kept_extended (s := s) nodes current listing) hn hn' [] (by rw [List.append_nil])
    (hthere i _ hn) name
  rwa [List.find?_nil, Option.or_none] at hfind

/-- INTERNAL: **a directory is added to a file tree**, by induction on what is left of it, where none of its
names is there yet.
SOURCE: vfs/vfs.cc:18-38 -/
theorem fileTree_extended {listing : Listing} (hproper : listing.Proper) (hdistinct : listing.Distinct)
    {current : ℕ} (htree : FileTree nodes) (hlt : current < nodes.length)
    (hnew : ∀ name ∈ listing.names, nodes.find current name = none) :
    FileTree (extended s nodes current listing) := by
  induction listing generalizing nodes current with
  | done => rwa [extended_done]
  | self rest ih | parent rest ih => exact ih hproper hdistinct htree hlt hnew
  | file name rest ih =>
    obtain ⟨hfirst, hnew⟩ := List.forall_mem_cons.mp hnew
    have hentry := htree.entry hlt ⟨hdistinct.1, hproper.1.1⟩ hfirst
    rw [← extended_file hlt]
    refine ih hproper.2 hdistinct.2.2 (.storage nodes.length s hentry) ?_ fun other hother => ?_
    · simp only [TreeNodes.storage, emplaceBack_eq, List.length_modify, List.length_append]
      omega
    · rw [find_storage (FileTree.rooted hentry).entriesThere, find_emplaceBack (FileTree.rooted htree).entriesThere hlt,
        hnew other hother, if_neg (ne_of_mem_of_not_mem hother hdistinct.2.1).symm, Option.or_none]
  | directory name content rest ihcontent ihrest =>
    obtain ⟨hfirst, hnew⟩ := List.forall_mem_cons.mp hnew
    have hentry := htree.entry hlt ⟨hdistinct.1, hproper.1.1⟩ hfirst
    have hlength : (nodes.emplaceBack current name).1.length = nodes.length + 1 := by
      simp [emplaceBack_eq]
    have hlast : (nodes.emplaceBack current name).1[nodes.length]? = some ⟨some current, name, none, []⟩ := by
      simp [emplaceBack_eq]
    rw [← extended_directory hlt]
    have hinside : FileTree (extended s (nodes.emplaceBack current name).1 nodes.length content) := by
      refine ihcontent hproper.2.1 hdistinct.2.2.1 hentry (by omega) fun other _ => ?_
      rw [find_of_getElem? hlast]
      rfl
    refine ihrest hproper.2.2 hdistinct.2.2.2 hinside ?_ fun other hother => ?_
    · have hle := (kept_extended (s := s) (nodes.emplaceBack current name).1 nodes.length content).length_le
      omega
    · have hhere : current < (nodes.emplaceBack current name).1.length := by omega
      rw [find_extended_other (FileTree.rooted hentry).entriesThere hhere (by omega),
        find_emplaceBack (FileTree.rooted htree).entriesThere hlt, hnew other hother,
        if_neg (ne_of_mem_of_not_mem hother hdistinct.2.1).symm, Option.or_none]

/-- INTERNAL: **what `build_tree` makes of a storage** is a file tree.
SOURCE: vfs/vfs.cc:18-38 -/
theorem fileTree_built {tree : Listing} (hproper : tree.Proper) (hdistinct : tree.Distinct) :
    FileTree (extended s TreeNodes.root 0 tree) := by
  refine fileTree_extended hproper hdistinct .root Nat.zero_lt_one fun name _ => ?_
  rfl

/-! ## Copies -/

/-- What is in a directory: the names of its files, and its directories with theirs. -/
def entriesOf : Listing → List (List Char × Option Listing)
  | .done => []
  | .self rest | .parent rest => entriesOf rest
  | .file name rest => (name, none) :: entriesOf rest
  | .directory name content rest => (name, some content) :: entriesOf rest

/-- What is in an entry. -/
def entriesBelow (kind : Option Listing) : List (List Char × Option Listing) := kind.elim [] entriesOf

/-- What a node points to and has as entries, by what it is a copy of. -/
def CopyOfKind (nodes : TreeNodes) (s node : ℕ) (n : TreeNode) : Option Listing → Prop
  | none => n.mStorage = some s ∧ n.mEntries = []
  | some content => n.mStorage = none ∧ ∃ below, Mirrors nodes s node content n.mEntries below

/-- The node is the copy of this entry, in the directory of which `parent` is the copy. -/
def CopyOf (nodes : TreeNodes) (s parent node : ℕ) (entry : List Char × Option Listing) : Prop :=
  ∃ n, nodes[node]? = some n ∧ n.mParent = some parent ∧ n.mName = entry.1 ∧
    CopyOfKind nodes s node n entry.2

/-- INTERNAL: the entries of a copy, one after another. -/
theorem copies_of_mirrors {parent : ℕ} {listing : Listing} {entries all : List ℕ}
    (hmirrors : Mirrors nodes s parent listing entries all) :
    List.Forall₂ (CopyOf nodes s parent) entries (entriesOf listing) := by
  induction hmirrors with
  | done parent => exact .nil
  | self _ ih | parent _ ih => exact ih
  | file hnode _ ih => exact .cons ⟨_, hnode, rfl, rfl, rfl, rfl⟩ ih
  | directory hnode hcontent _ _ ih => exact .cons ⟨_, hnode, rfl, rfl, rfl, _, hcontent⟩ ih

theorem CopyOf.entries {parent node : ℕ} {entry : List Char × Option Listing}
    (h : CopyOf nodes s parent node entry) :
    List.Forall₂ (CopyOf nodes s node) (nodes.entries node) (entriesBelow entry.2) := by
  obtain ⟨n, hn, -, -, hkind⟩ := h
  have hentries : nodes.entries node = n.mEntries := by
    unfold TreeNodes.entries
    rw [hn]
    rfl
  rw [hentries]
  obtain ⟨name, kind⟩ := entry
  cases kind with
  | none =>
    rw [hkind.2]
    exact .nil
  | some content =>
    obtain ⟨-, below, hmirrors⟩ := hkind
    exact copies_of_mirrors hmirrors

/-- INTERNAL: a copy is found by its name where the entry is. -/
theorem find_copies {parent : ℕ} {entries : List ℕ} {listed : List (List Char × Option Listing)}
    (h : List.Forall₂ (CopyOf nodes s parent) entries listed) (name : List Char) :
    (listed.lookup name = none ∧ entries.find? (named nodes name) = none) ∨
    ∃ kind node, listed.lookup name = some kind ∧ entries.find? (named nodes name) = some node ∧
      CopyOf nodes s parent node (name, kind) := by
  induction h with
  | nil => exact Or.inl ⟨rfl, rfl⟩
  | @cons node entry entries listed hcopy _ ih =>
    have hcopy' := hcopy
    obtain ⟨n, hn, -, hname, -⟩ := hcopy'
    obtain ⟨other, kind⟩ := entry
    by_cases hother : name = other
    · subst hother
      refine Or.inr ⟨kind, node, ?_, ?_, hcopy⟩
      · rw [List.lookup_cons, beq_self_eq_true]
      · rw [List.find?_cons, named_of_getElem hn, decide_eq_true hname]
    · rw [List.lookup_cons, beq_false_of_ne hother, List.find?_cons, named_of_getElem hn,
        decide_eq_false (by rw [hname]; exact Ne.symm hother)]
      exact ih

theorem CopyOf.find {parent node : ℕ} {entry : List Char × Option Listing}
    (h : CopyOf nodes s parent node entry) (name : List Char) :
    ((entriesBelow entry.2).lookup name = none ∧ nodes.find node name = none) ∨
    ∃ kind next, (entriesBelow entry.2).lookup name = some kind ∧ nodes.find node name = some next ∧
      CopyOf nodes s node next (name, kind) := by
  have hentries := h.entries
  obtain ⟨n, hn, -⟩ := h
  have hsame : nodes.entries node = n.mEntries := by
    unfold TreeNodes.entries
    rw [hn]
    rfl
  rw [hsame] at hentries
  rw [find_of_getElem? hn]
  exact find_copies hentries name

end Mccpp.Analysis
