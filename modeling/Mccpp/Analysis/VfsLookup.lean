import Mccpp.Analysis.FilePaths
import Mccpp.Analysis.VfsBuild

/-!
# Looking up a file

`build_tree` hangs the copies of all storages under one root, one behind the other, and `find`
takes the first entry of a name. So the first storage that has an entry of the name with which a
path begins decides what `find_file` returns for it: a file of another storage is found if and
only if that one has a file there, too.
-/

set_option autoImplicit false

namespace Mccpp.Analysis

open Mccpp.Library Mccpp.Model Mccpp.Interface

variable {host : Host} {s : ℕ} {nodes : TreeNodes}

/-! ## Inside the copy of one storage -/

/-- The test of `find`. -/
def named (nodes : TreeNodes) (name : List Char) (entry : ℕ) : Bool :=
  nodes[entry]?.any fun e => e.mName = name

theorem named_of_getElem {node : ℕ} {n : TreeNode} (hnode : nodes[node]? = some n)
    (name : List Char) : named nodes name node = decide (n.mName = name) := by
  unfold named
  rw [hnode]
  rfl

theorem find_of_getElem? {node : ℕ} {n : TreeNode} (hnode : nodes[node]? = some n)
    (name : List Char) : nodes.find node name = n.mEntries.find? (named nodes name) := by
  unfold TreeNodes.find
  rw [hnode]
  rfl

theorem descend_cons {node : ℕ} {n : TreeNode} (hnode : nodes[node]? = some n) (name : List Char)
    (path : List (List Char)) :
    descend nodes node (name :: path) =
      (n.mEntries.find? (named nodes name)).bind fun next => descend nodes next path := by
  unfold descend
  rw [List.foldlM_cons, find_of_getElem? hnode]
  rfl

theorem not_hasFile_nil (listing : Listing) : ¬listing.HasFile [] := by
  induction listing with
  | done => exact fun h => h
  | self rest ih | parent rest ih => exact ih
  | file name rest ih =>
    rintro (heq | hrest)
    · cases heq
    · exact ih hrest
  | directory name content rest _ ih =>
    rintro (⟨_, heq, _⟩ | hrest)
    · cases heq
    · exact ih hrest

/-- INTERNAL: a file lies below an entry of the directory. -/
theorem mem_names_of_hasFile {listing : Listing} {name : List Char} {path : List (List Char)}
    (hfile : listing.HasFile (name :: path)) : name ∈ listing.names := by
  induction listing with
  | done => exact hfile.elim
  | self rest ih | parent rest ih => exact ih hfile
  | file other rest ih =>
    rcases hfile with heq | hrest
    · cases heq
      exact List.mem_cons_self
    · exact List.mem_cons_of_mem _ (ih hrest)
  | directory other content rest _ ih =>
    rcases hfile with ⟨_, heq, _⟩ | hrest
    · cases heq
      exact List.mem_cons_self
    · exact List.mem_cons_of_mem _ (ih hrest)

/-- What there is under a name among the entries of a copy. -/
inductive Found (nodes : TreeNodes) (s parent : ℕ) (listing : Listing) (entries : List ℕ)
    (name : List Char) : Prop where
  | nothing (hfind : entries.find? (named nodes name) = none) (hname : name ∉ listing.names)
  | file {node : ℕ} (hname : name ∈ listing.names)
      (hfind : entries.find? (named nodes name) = some node)
      (hnode : nodes[node]? = some ⟨some parent, name, some s, []⟩)
      (hfiles : ∀ path, listing.HasFile (name :: path) ↔ path = [])
  | directory {node : ℕ} {content : Listing} {inside below : List ℕ}
      (hname : name ∈ listing.names) (hfind : entries.find? (named nodes name) = some node)
      (hnode : nodes[node]? = some ⟨some parent, name, none, inside⟩)
      (hcontent : Mirrors nodes s node content inside below) (hdistinct : content.Distinct)
      (hfiles : ∀ path, listing.HasFile (name :: path) ↔ content.HasFile path)

/-- Another entry in front makes no difference. -/
theorem Found.behind {parent node : ℕ} {n : TreeNode} {listing longer : Listing}
    {entries : List ℕ} {name : List Char} (hfound : Found nodes s parent listing entries name)
    (hnode : nodes[node]? = some n) (hother : n.mName ≠ name)
    (hnames : name ∈ longer.names ↔ name ∈ listing.names)
    (hfiles : ∀ path, longer.HasFile (name :: path) ↔ listing.HasFile (name :: path)) :
    Found nodes s parent longer (node :: entries) name := by
  have hskip : (node :: entries).find? (named nodes name) = entries.find? (named nodes name) := by
    have hnot : named nodes name node = false := by
      rw [named_of_getElem hnode, decide_eq_false hother]
    rw [List.find?_cons, hnot]
  cases hfound with
  | nothing hfind hname => exact .nothing (hskip.trans hfind) fun h => hname (hnames.mp h)
  | file hname hfind hnode hfile =>
    exact .file (hnames.mpr hname) (hskip.trans hfind) hnode fun path =>
      (hfiles path).trans (hfile path)
  | directory hname hfind hnode hcontent hdistinct hfile =>
    exact .directory (hnames.mpr hname) (hskip.trans hfind) hnode hcontent hdistinct fun path =>
      (hfiles path).trans (hfile path)

/-- INTERNAL: **one name**, looked up among the entries of a copy. -/
theorem found_of_mirrors {parent : ℕ} {listing : Listing} {entries all : List ℕ}
    (hmirrors : Mirrors nodes s parent listing entries all) (hdistinct : listing.Distinct)
    (name : List Char) : Found nodes s parent listing entries name := by
  induction hmirrors with
  | done parent => exact .nothing rfl List.not_mem_nil
  | self _ ih | parent _ ih =>
    cases ih hdistinct with
    | nothing hfind hname => exact .nothing hfind hname
    | file hname hfind hnode hfiles => exact .file hname hfind hnode hfiles
    | directory hname hfind hnode hcontent hd hfiles =>
      exact .directory hname hfind hnode hcontent hd hfiles
  | @file parent node other rest entries all hnode hrest ih =>
    obtain ⟨_, hfresh, hdistinct⟩ := hdistinct
    by_cases hname : other = name
    · subst hname
      have hhere : (node :: entries).find? (named nodes other) = some node := by
        rw [List.find?_cons, named_of_getElem hnode, decide_eq_true rfl]
      refine .file List.mem_cons_self hhere hnode fun path => ⟨?_, ?_⟩
      · rintro (heq | hlater)
        · cases heq
          rfl
        · exact absurd (mem_names_of_hasFile hlater) hfresh
      · rintro rfl
        exact Or.inl rfl
    · refine (ih hdistinct).behind hnode hname ?_ fun path => ⟨?_, Or.inr⟩
      · exact ⟨fun hmem => (List.mem_cons.mp hmem).resolve_left fun heq => hname heq.symm,
          List.mem_cons_of_mem _⟩
      · rintro (heq | hlater)
        · cases heq
          exact absurd rfl hname
        · exact hlater
  | @directory parent node other content rest inside entries below all hnode hcontent hrest _ ih =>
    obtain ⟨_, hfresh, hinside, hdistinct⟩ := hdistinct
    by_cases hname : other = name
    · subst hname
      have hhere : (node :: entries).find? (named nodes other) = some node := by
        rw [List.find?_cons, named_of_getElem hnode, decide_eq_true rfl]
      refine .directory List.mem_cons_self hhere hnode hcontent hinside fun path => ⟨?_, ?_⟩
      · rintro (⟨_, heq, hfile⟩ | hlater)
        · cases heq
          exact hfile
        · exact absurd (mem_names_of_hasFile hlater) hfresh
      · exact fun hfile => Or.inl ⟨path, rfl, hfile⟩
    · refine (ih hdistinct).behind hnode hname ?_ fun path => ⟨?_, Or.inr⟩
      · exact ⟨fun hmem => (List.mem_cons.mp hmem).resolve_left fun heq => hname heq.symm,
          List.mem_cons_of_mem _⟩
      · rintro (⟨_, heq, _⟩ | hlater)
        · cases heq
          exact absurd rfl hname
        · exact hlater

/-- What `storage()` of a node found points to. -/
def HoldsFile (nodes : TreeNodes) (found : Option ℕ) (s : ℕ) : Prop :=
  ∃ node n, found = some node ∧ nodes[node]? = some n ∧ n.mStorage = some s

theorem holdsFile_some {node : ℕ} {n : TreeNode} (hnode : nodes[node]? = some n) (k : ℕ) :
    HoldsFile nodes (some node) k ↔ n.mStorage = some k := by
  constructor
  · rintro ⟨_, _, heq, hnode', hstorage⟩
    cases heq
    rw [hnode, Option.some.injEq] at hnode'
    exact hnode' ▸ hstorage
  · exact fun hstorage => ⟨node, n, rfl, hnode, hstorage⟩

theorem not_holdsFile_none (k : ℕ) : ¬HoldsFile nodes none k := by
  rintro ⟨_, _, heq, _⟩
  cases heq

/-- INTERNAL: **a path in the copy of one storage** leads to a node with a storage exactly when the
storage has a file there, and the storage is this one. The induction is on the path. -/
theorem holdsFile_iff {parent : ℕ} {listing : Listing} {entries all : List ℕ}
    (hmirrors : Mirrors nodes s parent listing entries all) (hdistinct : listing.Distinct)
    (path : List (List Char)) (name : List Char) (k : ℕ) :
    HoldsFile nodes
        ((entries.find? (named nodes name)).bind fun next => descend nodes next path) k ↔
      k = s ∧ listing.HasFile (name :: path) := by
  induction path generalizing parent listing entries all name with
  | nil =>
    cases found_of_mirrors hmirrors hdistinct name with
    | nothing hfind hname =>
      rw [hfind]
      exact ⟨fun h => absurd h (not_holdsFile_none k), fun h =>
        absurd (mem_names_of_hasFile h.2) hname⟩
    | file _ hfind hnode hfiles =>
      rw [hfind, hfiles]
      exact (holdsFile_some hnode k).trans ⟨fun h => ⟨(Option.some.inj h).symm, rfl⟩, fun h =>
        congrArg some h.1.symm⟩
    | directory _ hfind hnode hcontent _ hfiles =>
      rw [hfind, hfiles]
      exact (holdsFile_some hnode k).trans ⟨fun h => (nomatch h), fun h =>
        absurd h.2 (not_hasFile_nil _)⟩
  | cons next path ih =>
    cases found_of_mirrors hmirrors hdistinct name with
    | nothing hfind hname =>
      rw [hfind]
      exact ⟨fun h => absurd h (not_holdsFile_none k), fun h =>
        absurd (mem_names_of_hasFile h.2) hname⟩
    | file _ hfind hnode hfiles =>
      rw [hfind, hfiles, Option.bind_some, descend_cons hnode]
      exact ⟨fun h => absurd h (not_holdsFile_none k), fun h => (nomatch h.2)⟩
    | directory _ hfind hnode hcontent hinside hfiles =>
      rw [hfind, hfiles, Option.bind_some, descend_cons hnode]
      exact ih hcontent hinside next

/-! ## All storages -/

/-- The entries are the copies of these storages, the first having the number `s`, one behind the
other. -/
inductive MirrorsAll (nodes : TreeNodes) : ℕ → List Mounted → List ℕ → Prop where
  | nil (s : ℕ) : MirrorsAll nodes s [] []
  | cons {s : ℕ} {m : Mounted} {mounts : List Mounted} {entries more all : List ℕ}
      (hfirst : Mirrors nodes s 0 m.tree entries all) (hmore : MirrorsAll nodes (s + 1) mounts more) :
      MirrorsAll nodes s (m :: mounts) (entries ++ more)

/-- INTERNAL: a copy is not touched by what happens to other nodes. -/
theorem Mirrors.kept {nodes' : TreeNodes} {parent : ℕ} {listing : Listing} {entries all : List ℕ}
    (hmirrors : Mirrors nodes s parent listing entries all)
    (hsame : ∀ node ∈ all, nodes'[node]? = nodes[node]?) :
    Mirrors nodes' s parent listing entries all := by
  induction hmirrors with
  | done parent => exact .done parent
  | self _ ih => exact .self (ih hsame)
  | parent _ ih => exact .parent (ih hsame)
  | file hnode _ ih =>
    exact .file ((hsame _ List.mem_cons_self).trans hnode)
      (ih fun node hnode => hsame node (List.mem_cons_of_mem _ hnode))
  | directory hnode _ _ ihcontent ihrest =>
    refine .directory ((hsame _ List.mem_cons_self).trans hnode) (ihcontent fun node hnode => ?_)
      (ihrest fun node hnode => ?_)
    · exact hsame node (List.mem_cons_of_mem _ (List.mem_append_left _ hnode))
    · exact hsame node (List.mem_cons_of_mem _ (List.mem_append_right _ hnode))

/-- INTERNAL: **one storage after another**. The loop over the storages ends, keeps every node but
the root as it was, and puts the copies of the storages behind the entries of the root.
SOURCE: vfs/vfs.cc:18-38 -/
theorem buildStorages_mirrors (mounts : List Mounted) (s : ℕ) (nodes : TreeNodes)
    (entries : List ℕ) (hserved : AllServed host mounts)
    (hroot : nodes[0]? = some ⟨none, [], none, entries⟩) :
    ∃ nodes' more,
      (∃ turns, ∀ fuel ≥ turns,
        buildStorages host fuel s (mounts.map fun m => .create m.root) nodes = .ok nodes') ∧
      nodes'[0]? = some ⟨none, [], none, entries ++ more⟩ ∧
      (∀ node, 0 < node → node < nodes.length → nodes'[node]? = nodes[node]?) ∧
      MirrorsAll nodes' s mounts more := by
  induction mounts generalizing s nodes entries with
  | nil =>
    exact ⟨nodes, [], ⟨0, fun _ _ => rfl⟩, by rw [List.append_nil, hroot], fun _ _ _ => rfl, .nil s⟩
  | cons m mounts ih =>
    obtain ⟨htree, hproper, _⟩ := hserved m List.mem_cons_self
    have hlt : 0 < nodes.length := (List.getElem?_eq_some_iff.mp hroot).1
    have hparent : nodes.parent 0 = none := by
      unfold TreeNodes.parent
      rw [hroot]
      rfl
    obtain ⟨hcreate, hwalk⟩ := walk_storage (s := s) htree hproper nodes hlt hparent
    obtain ⟨turns₁, hturns₁⟩ := buildLoop_of_walk hwalk rfl
    have hnext : (extended s nodes 0 m.tree)[0]? =
        some ⟨none, [], none, entries ++ (grown s m.tree 0 nodes.length).1⟩ := by
      have hvalue := (List.getElem?_eq_some_iff.mp hroot).2
      simp [extended, List.getElem?_append, hlt, hvalue, withEntries]
    have hlength : (extended s nodes 0 m.tree).length =
        nodes.length + (grown s m.tree 0 nodes.length).2.length := by
      simp [extended]
    obtain ⟨nodes', more, ⟨turns₂, hturns₂⟩, hroot', hkept, hmore⟩ := ih (s + 1)
      (extended s nodes 0 m.tree) _ (fun q hq => hserved q (List.mem_cons_of_mem _ hq)) hnext
    refine ⟨nodes', (grown s m.tree 0 nodes.length).1 ++ more, ⟨max turns₁ turns₂, ?_⟩, ?_, ?_, ?_⟩
    · intro fuel hfuel
      have hfirst := hturns₁ fuel (le_trans (le_max_left _ _) hfuel)
      have hrest := hturns₂ fuel (le_trans (le_max_right _ _) hfuel)
      unfold buildStorages
      rw [List.map_cons]
      dsimp only
      rw [hcreate]
      calc _ = (buildLoop host s fuel ⟨nodes, some 0, _⟩ >>= fun nodes =>
              buildStorages host fuel (s + 1) (mounts.map fun m => .create m.root) nodes) := rfl
        _ = _ := by rw [hfirst]; exact hrest
    · rw [hroot', List.append_assoc]
    · intro node hpos hnode
      rw [hkept node hpos (by omega)]
      have hne : (0 : ℕ) ≠ node := by omega
      simp [extended, List.getElem?_append, hnode, hne]
    · have hmirrors := mirrors_grown (s := s) m.tree
        (nodes.modify 0 (withEntries (grown s m.tree 0 nodes.length).1)) [] 0
      rw [List.length_modify, List.append_nil] at hmirrors
      refine .cons (Mirrors.kept hmirrors fun node hnode => ?_) hmore
      rw [List.mem_range'_1] at hnode
      rw [hkept node (by omega) (by omega)]
      rfl

/-- INTERNAL: **the first storage decides**. Among the entries of the root, the first of a name is
the entry of the first storage that has one. -/
theorem find_first {mounts : List Mounted} {entries : List ℕ}
    (hmirrors : MirrorsAll nodes s mounts entries)
    (hdistinct : ∀ m ∈ mounts, m.tree.Distinct) {name : List Char} {first : Mounted}
    (hfirst : mounts.find? (fun m => name ∈ m.tree.names) = some first) :
    ∃ k own all, mounts[k]? = some first ∧ Mirrors nodes (s + k) 0 first.tree own all ∧
      entries.find? (named nodes name) = own.find? (named nodes name) := by
  induction hmirrors with
  | nil s => cases hfirst
  | @cons s m mounts entries more all hown hmore ih =>
    by_cases hhere : name ∈ m.tree.names
    · rw [List.find?_cons_of_pos (by simpa using hhere), Option.some.injEq] at hfirst
      subst hfirst
      refine ⟨0, entries, all, rfl, hown, ?_⟩
      have hfound := found_of_mirrors hown (hdistinct _ List.mem_cons_self) name
      rw [List.find?_append]
      cases hfound with
      | nothing _ hname => exact absurd hhere hname
      | file _ hfind _ _ =>
        rw [hfind]
        rfl
      | directory _ hfind _ _ _ _ =>
        rw [hfind]
        rfl
    · rw [List.find?_cons_of_neg (by simpa using hhere)] at hfirst
      obtain ⟨k, own, all', hk, hmirrors, hfind⟩ := ih
        (fun q hq => hdistinct q (List.mem_cons_of_mem _ hq)) hfirst
      refine ⟨k + 1, own, all', hk, ?_, ?_⟩
      · rwa [Nat.add_right_comm, Nat.add_assoc] at hmirrors
      · have hnone : entries.find? (named nodes name) = none := by
          cases found_of_mirrors hown (hdistinct _ List.mem_cons_self) name with
          | nothing hfind _ => exact hfind
          | file hname _ _ _ => exact absurd hname hhere
          | directory hname _ _ _ _ _ => exact absurd hname hhere
        rw [List.find?_append, hnone, Option.none_or]
        exact hfind

theorem names_of_hasFile {listing : Listing} (hproper : listing.Proper)
    (hdistinct : listing.Distinct) {path : List (List Char)} (hfile : listing.HasFile path) :
    ∀ part ∈ path, part ≠ [] ∧ '/' ∉ part := by
  induction listing generalizing path with
  | done => exact hfile.elim
  | self rest ih | parent rest ih => exact ih hproper hdistinct hfile
  | file name rest ih =>
    rcases hfile with heq | hrest
    · subst heq
      intro part hpart
      rw [List.mem_singleton] at hpart
      exact hpart ▸ ⟨hdistinct.1, hproper.1.1⟩
    · exact ih hproper.2 hdistinct.2.2 hrest
  | directory name content rest ihcontent ihrest =>
    rcases hfile with ⟨inside, heq, hinside⟩ | hrest
    · subst heq
      intro part hpart
      rcases List.mem_cons.mp hpart with heq | hmem
      · exact heq ▸ ⟨hdistinct.1, hproper.1.1⟩
      · exact ihcontent hproper.2.1 hdistinct.2.2.1 hinside part hmem
    · exact ihrest hproper.2.2 hdistinct.2.2.2 hrest

/-- INTERNAL: **one file** of one storage is visible exactly when the first storage that has an
entry of the name with which its path begins has a file there.
SOURCE: vfs/vfs.hh:49-55, vfs/vfs.cc:88-99 -/
theorem visible_iff {mounts : List Mounted} (hserved : AllServed host mounts) {entries : List ℕ}
    (hroot : nodes[0]? = some ⟨none, [], none, entries⟩)
    (hmirrors : MirrorsAll nodes 0 mounts entries) {m : Mounted} (hm : m ∈ mounts)
    {name : List Char} {path : List (List Char)} (hfile : m.tree.HasFile (name :: path)) :
    Visible nodes mounts (name :: path) ↔
      ∀ first, mounts.find? (fun q => name ∈ q.tree.names) = some first →
        first.tree.HasFile (name :: path) := by
  have hdistinct : ∀ q ∈ mounts, q.tree.Distinct := fun q hq => (hserved q hq).2.2
  have hnames := names_of_hasFile (hserved m hm).2.1 (hdistinct m hm) hfile
  have htext := findFile_eq nodes (joined (name :: path))
  rw [components_joined hnames, joined, descend_cons hroot] at htext
  cases hfirst : mounts.find? (fun q => name ∈ q.tree.names) with
  | none =>
    have hnone := List.find?_eq_none.mp hfirst m hm
    exact absurd (mem_names_of_hasFile hfile) (by simpa using hnone)
  | some first =>
    obtain ⟨k, own, all, hk, hown, hfind⟩ := find_first hmirrors hdistinct hfirst
    have hmem : first ∈ mounts := List.mem_of_find?_eq_some hfirst
    have hholds := holdsFile_iff hown (hdistinct first hmem) path name
    rw [hfind] at htext
    rw [Nat.zero_add] at hholds
    constructor
    · rintro ⟨node, n, j, q, hresult, hnode, hstorage, _, _⟩ other heq
      cases heq
      rw [htext, Except.ok.injEq] at hresult
      exact ((hholds j).mp ⟨node, n, hresult, hnode, hstorage⟩).2
    · intro hall
      obtain ⟨node, n, hresult, hnode, hstorage⟩ := (hholds k).mpr ⟨rfl, hall first rfl⟩
      exact ⟨node, n, k, first, htext.trans (congrArg _ hresult), hnode, hstorage, hk,
        hall first rfl⟩

/-- SOURCE: vfs/vfs.cc:18-38, vfs/vfs.hh:49-55 — **which files can be found**. After `build_tree`
over any storages every file of every storage is visible if and only if, for each of them, the
first storage that has an entry of the name with which its path begins has a file at this path. -/
theorem all_visible_iff (host : Host) (mounts : List Mounted) (hserved : AllServed host mounts) :
    ∃ nodes, (∃ turns, ∀ fuel ≥ turns,
        buildTree host fuel (mounts.map fun m => .create m.root) = .ok nodes) ∧
      ((∀ m ∈ mounts, ∀ path, m.tree.HasFile path → Visible nodes mounts path) ↔
        ∀ m ∈ mounts, ∀ name path, m.tree.HasFile (name :: path) →
          ∀ first, mounts.find? (fun q => name ∈ q.tree.names) = some first →
            first.tree.HasFile (name :: path)) := by
  obtain ⟨nodes, entries, hbuilt, hroot, _, hmirrors⟩ := buildStorages_mirrors mounts 0
    TreeNodes.root [] hserved rfl
  refine ⟨nodes, hbuilt, ?_, ?_⟩
  · intro hvisible m hm name path hfile
    exact (visible_iff hserved hroot hmirrors hm hfile).mp (hvisible m hm _ hfile)
  · intro hfirst m hm path hfile
    cases path with
    | nil => exact absurd hfile (not_hasFile_nil _)
    | cons name path =>
      exact (visible_iff hserved hroot hmirrors hm hfile).mpr (hfirst m hm name path hfile)

/-- A host with two storages: a directory `d` with a file `a`, and one with a file `b`. -/
def twoStorages : Host := fun path =>
  if path = ['x', '/'] ∨ path = ['y', '/'] then some [⟨['d'], .directory⟩]
  else if path = ['x', '/', '/', 'd'] then some [⟨['a'], .other⟩]
  else if path = ['y', '/', '/', 'd'] then some [⟨['b'], .other⟩]
  else none

/-- These storages. -/
def twoMounts : List Mounted :=
  [⟨['x'], .directory ['d'] (.file ['a'] .done) .done⟩,
    ⟨['y'], .directory ['d'] (.file ['b'] .done) .done⟩]

theorem twoMounts_served : AllServed twoStorages twoMounts := by
  intro m hm
  rcases List.mem_pair.mp hm with rfl | rfl
  · exact ⟨⟨by decide, by decide, trivial, trivial⟩, ⟨by decide, ⟨by decide, trivial⟩, trivial⟩,
      ⟨by decide, by decide, ⟨by decide, by decide, trivial⟩, trivial⟩⟩
  · exact ⟨⟨by decide, by decide, trivial, trivial⟩, ⟨by decide, ⟨by decide, trivial⟩, trivial⟩,
      ⟨by decide, by decide, ⟨by decide, by decide, trivial⟩, trivial⟩⟩

theorem all_visible_iff_two :
    ∃ nodes, (∃ turns, ∀ fuel ≥ turns,
        buildTree twoStorages fuel (twoMounts.map fun m => .create m.root) = .ok nodes) ∧
      ((∀ m ∈ twoMounts, ∀ path, m.tree.HasFile path → Visible nodes twoMounts path) ↔
        ∀ m ∈ twoMounts, ∀ name path, m.tree.HasFile (name :: path) →
          ∀ first, twoMounts.find? (fun q => name ∈ q.tree.names) = some first →
            first.tree.HasFile (name :: path)) :=
  all_visible_iff twoStorages twoMounts twoMounts_served

/-- SOURCE: vfs/vfs.cc:18-38 — both storages have a directory `d`: the file in the second one is
not found. -/
theorem directories_hide_each_other :
    AllServed twoStorages twoMounts ∧
    ∃ nodes, (∀ fuel ≥ 5, buildTree twoStorages fuel (twoMounts.map fun m => .create m.root) =
        .ok nodes) ∧
      ∃ m ∈ twoMounts, m.tree.HasFile [['d'], ['b']] ∧
        nodes.findFile ['d', '/', 'b'] = .ok none ∧ ¬Visible nodes twoMounts [['d'], ['b']] := by
  refine ⟨twoMounts_served, [⟨none, [], none, [1, 3]⟩, ⟨some 0, ['d'], none, [2]⟩,
    ⟨some 1, ['a'], some 0, []⟩, ⟨some 0, ['d'], none, [4]⟩, ⟨some 3, ['b'], some 1, []⟩], ?_,
    ⟨['y'], .directory ['d'] (.file ['b'] .done) .done⟩, by simp [twoMounts], ?_, ?_, ?_⟩
  · intro fuel hfuel
    obtain ⟨n, rfl⟩ := Nat.exists_eq_add_of_le' hfuel
    rfl
  · exact Or.inl ⟨[['b']], rfl, Or.inl rfl⟩
  · decide
  · rintro ⟨node, _, _, _, hfound, _⟩
    cases hfound

end Mccpp.Analysis
