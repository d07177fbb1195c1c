import Mccpp.Library.Walk
import Mccpp.Interface.HostTree

/-!
# Building the tree

`build_tree` and the iterator over a host directory are two machines that only exchange a boolean.
The central fact is about one directory (`walk_listing`): from the turn in which it is on top of
the open directories, the loop goes on, in step all the time, to the turn in which it has been
closed and `current` is the parent again, and the tree has grown by a copy of it.
-/

set_option autoImplicit false

namespace Mccpp.Analysis

open Mccpp.Library Mccpp.Model Mccpp.Interface

variable {host : Host} {s : ℕ}

/-! ## One call of `next` -/

/-- INTERNAL: **leaving a directory** takes its name off the path.
SOURCE: vfs/host.cc:72 -/
theorem eraseFromLastSlash_child (path : List Char) {name : List Char} (hname : '/' ∉ name) :
    eraseFromLastSlash (path ++ '/' :: name) = .ok path := by
  have hmem : '/' ∈ path ++ '/' :: name := by simp
  have hrun : ∀ c ∈ name.reverse, (decide (c ≠ '/')) = true := by
    intro c hc
    have hne : c ≠ '/' := fun heq => hname (heq ▸ List.mem_reverse.mp hc)
    exact decide_eq_true hne
  have hreverse : (path ++ '/' :: name).reverse = name.reverse ++ ('/' :: path.reverse) := by simp
  unfold eraseFromLastSlash
  rw [if_pos hmem, hreverse, List.dropWhile_append_of_pos hrun]
  simp

/-- The names that are skipped are not proper. -/
theorem readdirHelper_proper (ent : Dirent) (hname : Listing.ProperName ent.dName)
    (rest : List Dirent) : readdirHelper (ent :: rest) = some (ent, rest) := by
  obtain ⟨_, hdot, hdots⟩ := hname
  unfold readdirHelper
  rw [if_neg (by simp [hdot, hdots])]

/-- INTERNAL: at the end of a directory that has one above it.
SOURCE: vfs/host.cc:67-75 -/
theorem next_done_inner (path opened above name : List Char) (hname : '/' ∉ name)
    (hpath : path = above ++ '/' :: name) (back : Dir) (below : List Dir) (ent : Option Dirent) :
    HostStorageIterator.next host ⟨path, ⟨opened, []⟩ :: back :: below, ent⟩ =
      .ok (false, ⟨above, back :: below, none⟩) := by
  subst hpath
  simp [HostStorageIterator.next, readdirHelper, eraseFromLastSlash_child above hname]

theorem next_done_outer (path opened : List Char) (ent : Option Dirent) :
    HostStorageIterator.next host ⟨path, [⟨opened, []⟩], ent⟩ = .ok (false, ⟨path, [], none⟩) := by
  simp [HostStorageIterator.next, readdirHelper]

theorem next_file (path opened : List Char) {name : List Char} (hname : Listing.ProperName name)
    (rest : List Dirent) (below : List Dir) (ent : Option Dirent) :
    HostStorageIterator.next host ⟨path, ⟨opened, ⟨name, .other⟩ :: rest⟩ :: below, ent⟩ =
      .ok (true, ⟨path, ⟨opened, rest⟩ :: below, some ⟨name, .other⟩⟩) := by
  unfold HostStorageIterator.next
  simp [readdirHelper_proper ⟨name, .other⟩ hname]

theorem next_directory (path opened : List Char) {name : List Char}
    (hname : Listing.ProperName name) {entries : List Dirent}
    (hopens : host (path ++ '/' :: name) = some entries) (rest : List Dirent) (below : List Dir)
    (ent : Option Dirent) :
    HostStorageIterator.next host ⟨path, ⟨opened, ⟨name, .directory⟩ :: rest⟩ :: below, ent⟩ =
      .ok (true, ⟨path ++ '/' :: name,
        ⟨path ++ '/' :: name, entries⟩ :: ⟨opened, rest⟩ :: below, some ⟨name, .directory⟩⟩) := by
  unfold HostStorageIterator.next
  simp [readdirHelper_proper ⟨name, .directory⟩ hname, opendirOrThrow, hopens]

/-- INTERNAL: the entries `.` and `..` make no difference to a turn.
SOURCE: vfs/host.cc:25-32 -/
theorem next_dots {ent : Dirent} (hdots : ent.dName = ['.'] ∨ ent.dName = ['.', '.'])
    (path opened : List Char) (rest : List Dirent) (below : List Dir) (last : Option Dirent) :
    HostStorageIterator.next host ⟨path, ⟨opened, ent :: rest⟩ :: below, last⟩ =
      HostStorageIterator.next host ⟨path, ⟨opened, rest⟩ :: below, last⟩ := by
  have hskip : readdirHelper (ent :: rest) = readdirHelper rest := by
    conv_lhs => unfold readdirHelper
    rw [if_pos hdots]
  unfold HostStorageIterator.next
  simp only [hskip]

/-! ## What a directory adds to the nodes -/

/-- The entries and the nodes that a listing adds, for the node `parent` and the storage `s`, when
the next node allocated has the number `base`. -/
def grown (s : ℕ) : Listing → ℕ → ℕ → List ℕ × TreeNodes
  | .done, _, _ => ([], [])
  | .self rest, parent, base | .parent rest, parent, base => grown s rest parent base
  | .file name rest, parent, base =>
    let after := grown s rest parent (base + 1)
    (base :: after.1, ⟨some parent, name, some s, []⟩ :: after.2)
  | .directory name content rest, parent, base =>
    let inside := grown s content base (base + 1)
    let after := grown s rest parent (base + 1 + inside.2.length)
    (base :: after.1, ⟨some parent, name, none, inside.1⟩ :: (inside.2 ++ after.2))

/-- A node with more entries. -/
def withEntries (entries : List ℕ) (n : TreeNode) : TreeNode :=
  { n with mEntries := n.mEntries ++ entries }

/-- The nodes when a listing has been added to the node `current`. -/
def extended (s : ℕ) (nodes : TreeNodes) (current : ℕ) (listing : Listing) : TreeNodes :=
  nodes.modify current (withEntries (grown s listing current nodes.length).1) ++
    (grown s listing current nodes.length).2

theorem modify_append_of_lt {α : Type} {i : ℕ} {front : List α} (hlt : i < front.length)
    (f : α → α) (back : List α) : (front ++ back).modify i f = front.modify i f ++ back := by
  apply List.ext_getElem?
  intro j
  by_cases hj : j < front.length
  · simp [List.getElem?_modify, List.getElem_modify, List.getElem?_append, hj]
  · have hne : i ≠ j := by omega
    simp [List.getElem?_append, hj, hne]

theorem modify_append_length {α : Type} (front : List α) (f : α → α) (a : α) (back : List α) :
    (front ++ a :: back).modify front.length f = front ++ f a :: back := by
  apply List.ext_getElem?
  intro j
  rcases Nat.lt_trichotomy j front.length with hj | hj | hj
  · have hne : front.length ≠ j := by omega
    simp [List.getElem?_append, hj, hne]
  · subst hj
    simp
  · have hne : front.length ≠ j := by omega
    have hnot : ¬j < front.length := by omega
    obtain ⟨k, hk⟩ := Nat.exists_eq_add_of_lt hj
    subst hk
    have hsucc : front.length + k + 1 - front.length = k + 1 := by omega
    simp [List.getElem?_append, hne, hnot, hsucc]

theorem modify_withEntries (nodes : TreeNodes) (i : ℕ) (first more : List ℕ) :
    (nodes.modify i (withEntries first)).modify i (withEntries more) =
      nodes.modify i (withEntries (first ++ more)) := by
  rw [List.modify_modify_eq]
  congr 1
  funext n
  simp [withEntries]

theorem emplaceBack_eq (nodes : TreeNodes) (this : ℕ) (name : List Char) :
    nodes.emplaceBack this name =
      (nodes.modify this (withEntries [nodes.length]) ++ [⟨some this, name, none, []⟩],
        nodes.length) := rfl

theorem extended_done (nodes : TreeNodes) (current : ℕ) :
    extended s nodes current .done = nodes := by
  have hid : withEntries [] = id := by
    funext n
    simp [withEntries]
  simp [extended, grown, hid, List.modify_id]

/-- INTERNAL: a file is one node, then come the entries behind it.
SOURCE: vfs/vfs.cc:29-34 -/
theorem extended_file {nodes : TreeNodes} {current : ℕ} (hlt : current < nodes.length)
    (name : List Char) (rest : Listing) :
    extended s (TreeNodes.storage (nodes.emplaceBack current name).1 nodes.length s) current rest =
      extended s nodes current (.file name rest) := by
  have hnew : TreeNodes.storage (nodes.emplaceBack current name).1 nodes.length s =
      nodes.modify current (withEntries [nodes.length]) ++ [⟨some current, name, some s, []⟩] := by
    have hset := modify_append_length (nodes.modify current (withEntries [nodes.length]))
      (fun n => { n with mStorage := some s }) ⟨some current, name, none, []⟩ []
    rw [List.length_modify] at hset
    rw [emplaceBack_eq]
    exact hset
  rw [hnew]
  unfold extended
  rw [modify_append_of_lt (by simpa using hlt), modify_withEntries]
  simp [grown]

/-- INTERNAL: a directory is one node, with its content below it, then come the entries behind it.
SOURCE: vfs/vfs.cc:29-31 -/
theorem extended_directory {nodes : TreeNodes} {current : ℕ} (hlt : current < nodes.length)
    (name : List Char) (content rest : Listing) :
    extended s (extended s (nodes.emplaceBack current name).1 nodes.length content) current rest =
      extended s nodes current (.directory name content rest) := by
  have hinside : extended s (nodes.emplaceBack current name).1 nodes.length content =
      nodes.modify current (withEntries [nodes.length]) ++
        (⟨some current, name, none, (grown s content nodes.length (nodes.length + 1)).1⟩ ::
          (grown s content nodes.length (nodes.length + 1)).2) := by
    have hset := modify_append_length (nodes.modify current (withEntries [nodes.length]))
      (withEntries (grown s content nodes.length (nodes.length + 1)).1)
      ⟨some current, name, none, []⟩ []
    rw [List.length_modify] at hset
    have hlength : (nodes.modify current (withEntries [nodes.length]) ++
        [(⟨some current, name, none, []⟩ : TreeNode)]).length = nodes.length + 1 := by simp
    rw [emplaceBack_eq]
    unfold extended
    rw [hlength, hset]
    simp [withEntries]
  rw [hinside]
  unfold extended
  rw [modify_append_of_lt (by simpa using hlt), modify_withEntries]
  simp [grown, Nat.add_assoc, Nat.add_comm 1]

/-- INTERNAL: **what a listing adds is a copy of it**, wherever it stands among the nodes. -/
theorem mirrors_grown (listing : Listing) (front back : TreeNodes) (parent : ℕ) :
    Mirrors (front ++ (grown s listing parent front.length).2 ++ back) s parent listing
      (grown s listing parent front.length).1
      (List.range' front.length (grown s listing parent front.length).2.length) := by
  induction listing generalizing front back parent with
  | done => exact .done parent
  | self rest ih => exact .self (ih front back parent)
  | parent rest ih => exact .parent (ih front back parent)
  | file name rest ih =>
    have hrest := ih (front ++ [⟨some parent, name, some s, []⟩]) back parent
    rw [List.length_append, List.length_singleton] at hrest
    unfold grown
    refine .file ?_ ?_
    · simp
    · simpa using hrest
  | directory name content rest ihcontent ihrest =>
    have hcontent := ihcontent (front ++ [⟨some parent, name, none,
      (grown s content front.length (front.length + 1)).1⟩])
      ((grown s rest parent (front.length + 1 +
        (grown s content front.length (front.length + 1)).2.length)).2 ++ back) front.length
    have hrest := ihrest (front ++ ⟨some parent, name, none,
      (grown s content front.length (front.length + 1)).1⟩ ::
        (grown s content front.length (front.length + 1)).2) back parent
    have hlength : (front ++ (⟨some parent, name, none,
        (grown s content front.length (front.length + 1)).1⟩ : TreeNode) ::
          (grown s content front.length (front.length + 1)).2).length =
        front.length + 1 + (grown s content front.length (front.length + 1)).2.length := by
      rw [List.length_append, List.length_cons]
      omega
    rw [hlength] at hrest
    rw [List.length_append, List.length_singleton] at hcontent
    unfold grown
    dsimp only
    rw [List.length_cons, List.range'_succ, List.length_append, ← List.range'_append_1]
    have hnode : (front ++ (⟨some parent, name, none,
        (grown s content front.length (front.length + 1)).1⟩ : TreeNode) ::
          ((grown s content front.length (front.length + 1)).2 ++
            (grown s rest parent (front.length + 1 +
              (grown s content front.length (front.length + 1)).2.length)).2) ++
                back)[front.length]? = some ⟨some parent, name, none,
        (grown s content front.length (front.length + 1)).1⟩ := by simp
    exact .directory hnode (by simpa using hcontent) (by simpa using hrest)

/-! ## Nodes that stay -/

/-- Every node of the first list is in the second, with the same parent and the same name. -/
def Kept (nodes nodes' : TreeNodes) : Prop :=
  ∀ (i : ℕ) (n : TreeNode), nodes[i]? = some n →
    ∃ n' : TreeNode, nodes'[i]? = some n' ∧ n'.mParent = n.mParent ∧ n'.mName = n.mName

theorem Kept.trail {nodes nodes' : TreeNodes} (hkept : Kept nodes nodes') {node : ℕ}
    {trail : List (List Char)} (htrail : Trail nodes node trail) : Trail nodes' node trail := by
  induction htrail with
  | root => exact .root
  | child hnode hparent _ ih =>
    obtain ⟨n', hnode', hparent', hname'⟩ := hkept _ _ hnode
    rw [← hname']
    exact .child hnode' (hparent'.trans hparent) ih

theorem Kept.parent {nodes nodes' : TreeNodes} (hkept : Kept nodes nodes') {node : ℕ}
    (hlt : node < nodes.length) : nodes'.parent node = nodes.parent node := by
  obtain ⟨n', hnode', hparent', _⟩ := hkept node _ (List.getElem?_eq_getElem hlt)
  unfold TreeNodes.parent
  rw [hnode', List.getElem?_eq_getElem hlt]
  exact hparent'

theorem kept_modify_append (nodes : TreeNodes) (current : ℕ) (entries : List ℕ)
    (back : TreeNodes) : Kept nodes (nodes.modify current (withEntries entries) ++ back) := by
  intro i n hn
  have hlt : i < nodes.length := (List.getElem?_eq_some_iff.mp hn).1
  by_cases hcurrent : current = i
  · refine ⟨withEntries entries n, ?_, rfl, rfl⟩
    simp [List.getElem?_append, hlt, hcurrent, (List.getElem?_eq_some_iff.mp hn).2]
  · refine ⟨n, ?_, rfl, rfl⟩
    simp [List.getElem?_append, hlt, hcurrent, (List.getElem?_eq_some_iff.mp hn).2]

/-- The node that `emplace_back` makes. -/
theorem kept_emplaceBack (nodes : TreeNodes) (current : ℕ) (name : List Char) :
    Kept nodes (nodes.emplaceBack current name).1 := by
  rw [emplaceBack_eq]
  exact kept_modify_append nodes current _ _

theorem kept_extended (nodes : TreeNodes) (current : ℕ) (listing : Listing) :
    Kept nodes (extended s nodes current listing) :=
  kept_modify_append nodes current _ _

theorem kept_storage (nodes : TreeNodes) (node : ℕ) : Kept nodes (nodes.storage node s) := by
  intro i n hn
  have hlt : i < nodes.length := (List.getElem?_eq_some_iff.mp hn).1
  by_cases hnode : node = i
  · refine ⟨{ n with mStorage := some s }, ?_, rfl, rfl⟩
    simp [TreeNodes.storage, hnode, hn]
  · refine ⟨n, ?_, rfl, rfl⟩
    simp [TreeNodes.storage, List.getElem?_modify_ne _ _ hnode, hn]

theorem Kept.refl (nodes : TreeNodes) : Kept nodes nodes := fun _ n hn => ⟨n, hn, rfl, rfl⟩

theorem Kept.trans {first second third : TreeNodes} (h₁ : Kept first second)
    (h₂ : Kept second third) : Kept first third := by
  intro i n hn
  obtain ⟨n', hn', hparent', hname'⟩ := h₁ i n hn
  obtain ⟨n'', hn'', hparent'', hname''⟩ := h₂ i n' hn'
  exact ⟨n'', hn'', hparent''.trans hparent', hname''.trans hname'⟩

theorem Kept.length_le {nodes nodes' : TreeNodes} (hkept : Kept nodes nodes') :
    nodes.length ≤ nodes'.length := by
  by_contra hlt
  rw [Nat.not_le] at hlt
  obtain ⟨n', hn', _⟩ := hkept nodes'.length _ (List.getElem?_eq_getElem hlt)
  exact absurd (List.getElem?_eq_some_iff.mp hn').1 (Nat.lt_irrefl _)

/-! ## The loop over one directory -/

/-- The loop when a directory is on top of the open ones and this much of it is left to read. -/
def reading (root : List Char) (nodes : TreeNodes) (current : ℕ) (trail : List (List Char))
    (left : List Dirent) (below : List Dir) (ent : Option Dirent) : Building :=
  ⟨nodes, some current, ⟨dirPath root trail, ⟨dirPath root trail, left⟩ :: below, ent⟩⟩

/-- The loop when that directory has been closed. -/
def closed (root : List Char) (nodes : TreeNodes) (current : ℕ) (trail : List (List Char))
    (below : List Dir) : Building :=
  ⟨nodes, nodes.parent current, ⟨dirPath root trail.tail, below, none⟩⟩

theorem inStep_reading {root : List Char} {nodes : TreeNodes} {current : ℕ}
    {trail : List (List Char)} {below : List Dir} (htrail : Trail nodes current trail)
    (hbelow : below.map Dir.path = trail.tails.tail.map (dirPath root)) (left : List Dirent)
    (ent : Option Dirent) : InStep root (reading root nodes current trail left below ent) := by
  have htails : trail.tails = trail :: trail.tails.tail := by cases trail <;> simp
  have hpaths : (reading root nodes current trail left below ent).iter.mIterators.map Dir.path =
      trail.tails.map (dirPath root) := by
    rw [htails, List.map_cons, ← hbelow]
    rfl
  refine .within (by rfl) htrail (by rfl) ?_ hpaths (by rfl)
  have hlength := congrArg List.length hpaths
  simpa using hlength

/-- INTERNAL: behind a directory that has been added, the directory around it is read on.
SOURCE: vfs/vfs.cc:23-27 -/
theorem closed_extended {root : List Char} {nodes : TreeNodes} {node current : ℕ}
    (hlt : node < nodes.length) (hparent : nodes.parent node = some current) (content : Listing)
    (name : List Char) (trail : List (List Char)) (left : List Dirent) (below : List Dir) :
    closed root (extended s nodes node content) node (name :: trail)
        (⟨dirPath root trail, left⟩ :: below) =
      reading root (extended s nodes node content) current trail left below none := by
  unfold closed reading
  rw [(kept_extended nodes node content).parent hlt, hparent]
  rfl

section Turns

variable {root : List Char} {nodes : TreeNodes} {current : ℕ} {trail : List (List Char)}
  {below : List Dir} {ent : Option Dirent}

/-- INTERNAL: **the end of a directory** leads back to the parent.
SOURCE: vfs/vfs.cc:23-27, vfs/host.cc:67-75 -/
theorem turn_done (hnames : ∀ name ∈ trail, '/' ∉ name)
    (hbelow : below.map Dir.path = trail.tails.tail.map (dirPath root)) :
    Turn host s (reading root nodes current trail [] below ent)
      (closed root nodes current trail below) := by
  refine ⟨current, rfl, ?_⟩
  have hnext : HostStorageIterator.next host
      (reading root nodes current trail [] below ent).iter =
        .ok (false, ⟨dirPath root trail.tail, below, none⟩) := by
    cases trail with
    | nil =>
      have hnil : below = [] := by simpa using hbelow
      subst hnil
      exact next_done_outer _ _ _
    | cons name trail =>
      cases below with
      | nil =>
        have hlength := congrArg List.length hbelow
        simp at hlength
      | cons back below =>
        exact next_done_inner _ _ _ name (hnames name List.mem_cons_self) rfl back below ent
  unfold buildStep
  rw [hnext]
  rfl

/-- INTERNAL: **a file** becomes a node with the storage, and the directory is read on.
SOURCE: vfs/vfs.cc:28-35 -/
theorem turn_file {name : List Char} (hname : Listing.ProperName name) (left : List Dirent) :
    Turn host s (reading root nodes current trail (⟨name, .other⟩ :: left) below ent)
      (reading root (TreeNodes.storage (nodes.emplaceBack current name).1 nodes.length s) current
        trail left below (some ⟨name, .other⟩)) := by
  refine ⟨current, rfl, ?_⟩
  have hnext := @next_file host (dirPath root trail) (dirPath root trail) name hname left below ent
  unfold buildStep reading
  dsimp only
  rw [hnext]
  rfl

/-- INTERNAL: **a directory** becomes a node, and is read next.
SOURCE: vfs/vfs.cc:28-31, vfs/host.cc:77-81 -/
theorem turn_directory {name : List Char} (hname : Listing.ProperName name)
    {entries : List Dirent} (hopens : host (dirPath root (name :: trail)) = some entries)
    (left : List Dirent) :
    Turn host s (reading root nodes current trail (⟨name, .directory⟩ :: left) below ent)
      (reading root (nodes.emplaceBack current name).1 nodes.length (name :: trail) entries
        (⟨dirPath root trail, left⟩ :: below) (some ⟨name, .directory⟩)) := by
  refine ⟨current, rfl, ?_⟩
  have hnext := next_directory (dirPath root trail) (dirPath root trail) hname hopens left below ent
  unfold buildStep reading
  dsimp only
  rw [hnext]
  rfl

/-- INTERNAL: the entries `.` and `..` are passed over.
SOURCE: vfs/host.cc:25-32 -/
theorem turn_dots {dots : Dirent} (hdots : dots.dName = ['.'] ∨ dots.dName = ['.', '.'])
    {left : List Dirent} {next : Building}
    (hturn : Turn host s (reading root nodes current trail left below ent) next) :
    Turn host s (reading root nodes current trail (dots :: left) below ent) next := by
  obtain ⟨cur, hcurrent, hstep⟩ := hturn
  refine ⟨cur, hcurrent, ?_⟩
  have hnext := @next_dots host dots hdots (dirPath root trail) (dirPath root trail) left below ent
  unfold buildStep reading at hstep ⊢
  dsimp only at hstep ⊢
  rw [hnext]
  exact hstep

end Turns

/-- INTERNAL: **the loop over one directory**, by induction on what is left of it. From the turn in
which it is on top of the open directories there is a walk, always in step, to the state in which
it is closed and its copy has been added.
SOURCE: vfs/vfs.cc:18-38, vfs/host.cc:63-85 -/
theorem walk_listing {root : List Char} (listing : Listing) (nodes : TreeNodes) (current : ℕ)
    (trail : List (List Char)) (below : List Dir) (ent : Option Dirent)
    (hproper : listing.Proper) (hserved : listing.ServedBelow host (dirPath root trail))
    (hlt : current < nodes.length) (htrail : Trail nodes current trail)
    (hnames : ∀ name ∈ trail, '/' ∉ name)
    (hbelow : below.map Dir.path = trail.tails.tail.map (dirPath root)) :
    ∃ next, Turn host s (reading root nodes current trail listing.dirents below ent) next ∧
      Walk (Turn host s) (InStep root) next
        (closed root (extended s nodes current listing) current trail below) := by
  induction listing generalizing nodes current trail below ent with
  | done =>
    refine ⟨_, turn_done hnames hbelow, ?_⟩
    rw [extended_done]
    exact .stay _
  | self rest ih =>
    obtain ⟨next, hturn, hwalk⟩ := ih nodes current trail below ent hproper hserved hlt htrail
      hnames hbelow
    exact ⟨next, turn_dots (Or.inl rfl) hturn, hwalk⟩
  | parent rest ih =>
    obtain ⟨next, hturn, hwalk⟩ := ih nodes current trail below ent hproper hserved hlt htrail
      hnames hbelow
    exact ⟨next, turn_dots (Or.inr rfl) hturn, hwalk⟩
  | file name rest ih =>
    obtain ⟨hname, hproper⟩ := hproper
    have hkept := (kept_emplaceBack nodes current name).trans (kept_storage (s := s) _ nodes.length)
    have hgrown : current < (TreeNodes.storage (nodes.emplaceBack current name).1
        nodes.length s).length := by
      simp [emplaceBack_eq, TreeNodes.storage]
      omega
    obtain ⟨next, hturn, hwalk⟩ := ih _ current trail below (some ⟨name, .other⟩) hproper hserved
      hgrown (hkept.trail htrail) hnames hbelow
    refine ⟨_, turn_file hname rest.dirents, ?_⟩
    rw [← extended_file hlt]
    exact .move (inStep_reading (hkept.trail htrail) hbelow _ _) hturn hwalk
  | directory name content rest ihcontent ihrest =>
    obtain ⟨hname, hcontent, hrest⟩ := hproper
    obtain ⟨hopens, hbelowContent, hbelowRest⟩ := hserved
    have hnode : (nodes.emplaceBack current name).1[nodes.length]? =
        some ⟨some current, name, none, []⟩ := by
      simp [emplaceBack_eq]
    have hkept := kept_emplaceBack nodes current name
    have htrail' : Trail (nodes.emplaceBack current name).1 nodes.length (name :: trail) :=
      .child hnode rfl (hkept.trail htrail)
    have hlength : (nodes.emplaceBack current name).1.length = nodes.length + 1 := by
      simp [emplaceBack_eq]
    have hnames' : ∀ other ∈ name :: trail, '/' ∉ other := by
      intro other hother
      rcases List.mem_cons.mp hother with heq | hmem
      · exact heq ▸ hname.1
      · exact hnames other hmem
    have hbelow' : ((⟨dirPath root trail, rest.dirents⟩ : Dir) :: below).map Dir.path =
        (name :: trail).tails.tail.map (dirPath root) := by
      have htails : trail.tails = trail :: trail.tails.tail := by cases trail <;> simp
      rw [List.tails_cons, List.tail_cons, htails, List.map_cons, List.map_cons, hbelow]
    -- down into the directory and back
    obtain ⟨inside, hturnInside, hwalkInside⟩ := ihcontent _ nodes.length (name :: trail)
      (⟨dirPath root trail, rest.dirents⟩ :: below) (some ⟨name, .directory⟩) hcontent hbelowContent
      (by omega) htrail' hnames' hbelow'
    have hparent : TreeNodes.parent (nodes.emplaceBack current name).1 nodes.length =
        some current := by
      unfold TreeNodes.parent
      rw [hnode]
      rfl
    rw [closed_extended (by omega) hparent] at hwalkInside
    -- on with the entries behind it
    have hkept' := hkept.trans (kept_extended (s := s) _ nodes.length content)
    have hlt' := Nat.lt_of_lt_of_le hlt hkept'.length_le
    obtain ⟨next, hturn, hwalk⟩ := ihrest _ current trail below none hrest hbelowRest hlt'
      (hkept'.trail htrail) hnames hbelow
    refine ⟨_, turn_directory hname hopens rest.dirents, ?_⟩
    rw [← extended_directory hlt]
    have hwhole := hwalkInside.trans
      (.move (inStep_reading (hkept'.trail htrail) hbelow _ _) hturn hwalk)
    exact .move (inStep_reading htrail' hbelow' _ _) hturnInside hwhole

/-! ## The whole loop -/

theorem turn_unique (a b c : Building) (hb : Turn host s a b) (hc : Turn host s a c) : b = c := by
  obtain ⟨current, hcurrent, hstep⟩ := hb
  obtain ⟨current', hcurrent', hstep'⟩ := hc
  rw [hcurrent, Option.some.injEq] at hcurrent'
  subst hcurrent'
  rw [hstep, Except.ok.injEq] at hstep'
  exact hstep'

/-- INTERNAL: a walk is a run of the loop, for every bound that is large enough. -/
theorem buildLoop_of_walk {P : Building → Prop} {b last : Building}
    (hwalk : Walk (Turn host s) P b last) (hover : last.current = none) :
    ∃ turns, ∀ fuel ≥ turns, buildLoop host s fuel b = .ok last.nodes := by
  induction hwalk with
  | stay b =>
    refine ⟨1, fun fuel hfuel => ?_⟩
    obtain ⟨n, rfl⟩ := Nat.exists_eq_add_of_le' hfuel
    unfold buildLoop
    rw [hover]
  | move _ hturn _ ih =>
    obtain ⟨turns, hturns⟩ := ih hover
    obtain ⟨current, hcurrent, hstep⟩ := hturn
    refine ⟨turns + 1, fun fuel hfuel => ?_⟩
    obtain ⟨n, rfl⟩ := Nat.exists_eq_add_of_le' hfuel
    have hrest := hturns (n + turns) (by omega)
    rw [← Nat.add_assoc]
    unfold buildLoop
    rw [hcurrent]
    dsimp only
    rw [hstep]
    exact hrest

/-- INTERNAL: **one storage**, from any nodes whose first is the root: the loop is a walk that
ends where the storage's tree has been added to the root.
SOURCE: vfs/vfs.cc:18-38 -/
theorem walk_storage {root : List Char} {tree : Listing} (hserved : tree.Served host root)
    (hproper : tree.Proper) (nodes : TreeNodes) (hlt : 0 < nodes.length)
    (hroot : nodes.parent 0 = none) :
    HostStorageIterator.create host root = .ok ⟨root, [⟨root, tree.dirents⟩], none⟩ ∧
      Walk (Turn host s) (InStep root) ⟨nodes, some 0, ⟨root, [⟨root, tree.dirents⟩], none⟩⟩
        ⟨extended s nodes 0 tree, none, ⟨root, [], none⟩⟩ := by
  obtain ⟨hopens, hbelow⟩ := hserved
  constructor
  · unfold HostStorageIterator.create opendirOrThrow
    rw [hopens]
    rfl
  · obtain ⟨next, hturn, hwalk⟩ := @walk_listing host s root tree nodes 0 [] [] none
      hproper hbelow hlt .root (by simp) (by simp)
    have hend : closed root (extended s nodes 0 tree) 0 [] [] =
        ⟨extended s nodes 0 tree, none, ⟨root, [], none⟩⟩ := by
      have hparent : TreeNodes.parent (extended s nodes 0 tree) 0 = none := by
        rw [(kept_extended nodes 0 tree).parent hlt, hroot]
      unfold closed
      rw [hparent]
      rfl
    rw [hend] at hwalk
    exact .move (inStep_reading .root (by simp) _ _) hturn hwalk

/-- SOURCE: vfs/vfs.cc:18-38, vfs/host.cc:31-93 — **`build_tree` copies a directory tree**. Over
one storage, whatever the tree and the order in which its directories are read, the loop ends and
leaves nodes that are a tree isomorphic to it. In every state that the loop comes through, the
builder and the iterator are in step: while `current` is not null there is a directory to read. -/
theorem build_tree_isomorphic (host : Host) (root : List Char) (tree : Listing)
    (hserved : tree.Served host (HostStorage.create root).mRoot) (hproper : tree.Proper) :
    ∃ (nodes : TreeNodes) (iter : HostStorageIterator),
      (∃ turns, ∀ fuel ≥ turns, buildTree host fuel [.create root] = .ok nodes) ∧
      Isomorphic nodes 0 tree ∧
      HostStorageIterator.create host (HostStorage.create root).mRoot = .ok iter ∧
      ∀ b, Relation.ReflTransGen (Turn host 0) ⟨TreeNodes.root, some 0, iter⟩ b →
        InStep (HostStorage.create root).mRoot b := by
  obtain ⟨hcreate, hwalk⟩ := walk_storage (s := 0) hserved hproper TreeNodes.root
    Nat.zero_lt_one rfl
  refine ⟨extended 0 TreeNodes.root 0 tree, _, ?_, ?_, hcreate, ?_⟩
  · obtain ⟨turns, hturns⟩ := buildLoop_of_walk hwalk rfl
    refine ⟨turns, fun fuel hfuel => ?_⟩
    unfold buildTree buildStorages
    rw [hcreate]
    exact congrArg (· >>= buildStorages host fuel 1 []) (hturns fuel hfuel)
  · refine ⟨(grown 0 tree 0 1).1, rfl, ?_⟩
    have hmirrors := mirrors_grown (s := 0) tree
      [⟨none, [], none, (grown 0 tree 0 1).1⟩] [] 0
    rw [List.append_nil, List.length_singleton] at hmirrors
    have hnodes : extended 0 TreeNodes.root 0 tree =
        [⟨none, [], none, (grown 0 tree 0 1).1⟩] ++ (grown 0 tree 0 1).2 := rfl
    rw [hnodes, List.length_append, List.length_singleton, Nat.add_sub_cancel_left]
    exact hmirrors
  · intro b hreached
    have hlast : ∀ u, ¬Turn host 0
        ⟨extended 0 TreeNodes.root 0 tree, none, ⟨(HostStorage.create root).mRoot, [], none⟩⟩ u := by
      rintro u ⟨current, hcurrent, _⟩
      cases hcurrent
    rcases hwalk.all_reached turn_unique hlast hreached with hin | heq
    · exact hin
    · subst heq
      exact .over rfl rfl

/-- A host with a directory that holds a directory `a`, with a file `b` in it, and a file `c`. -/
def smallHost : Host := fun path =>
  if path = ['/'] then some [⟨['a'], .directory⟩, ⟨['.'], .directory⟩, ⟨['c'], .other⟩]
  else if path = ['/', '/', 'a'] then some [⟨['b'], .other⟩]
  else none

theorem build_tree_isomorphic_small :
    ∃ (nodes : TreeNodes) (iter : HostStorageIterator),
      (∃ turns, ∀ fuel ≥ turns, buildTree smallHost fuel [.create []] = .ok nodes) ∧
      Isomorphic nodes 0 (.directory ['a'] (.file ['b'] .done) (.self (.file ['c'] .done))) ∧
      HostStorageIterator.create smallHost (HostStorage.create []).mRoot = .ok iter ∧
      ∀ b, Relation.ReflTransGen (Turn smallHost 0) ⟨TreeNodes.root, some 0, iter⟩ b →
        InStep (HostStorage.create []).mRoot b :=
  build_tree_isomorphic smallHost [] (.directory ['a'] (.file ['b'] .done)
    (.self (.file ['c'] .done))) ⟨by decide, by decide, trivial, trivial⟩
    ⟨by decide, ⟨by decide, trivial⟩, ⟨by decide, trivial⟩⟩

end Mccpp.Analysis
