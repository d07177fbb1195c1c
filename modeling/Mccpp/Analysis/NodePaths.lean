import Mathlib.Data.List.Find
import Mccpp.Analysis.VfsLookup

/-!
# The paths of nodes

`generate_path` puts a slash in front of the first name as well (`Rooted.generatePath`), and no entry
of the root has the empty name that is a component then: no node but the root is found by the path it
generates.
-/

set_option autoImplicit false

namespace Mccpp.Analysis

open Mccpp.Model Mccpp.Interface

variable {nodes : TreeNodes}

/-! ## Trees -/

/-- What the trees that are made with `emplace_back` have in common. -/
structure Rooted (nodes : TreeNodes) : Prop where
  root : ∃ n, nodes[0]? = some n ∧ n.mParent = none ∧ n.mName = []
  entry : ∀ (i : ℕ) n, nodes[i]? = some n → ∀ e ∈ n.mEntries, ∃ child, nodes[e]? = some child ∧
    child.mParent = some i ∧ ComponentName child.mName
  listed : ∀ (i : ℕ) n, nodes[i]? = some n → 0 < i → ∃ parent < i, n.mParent = some parent ∧
    nodes.find parent n.mName = some i

/-- INTERNAL: what `find` finds among entries that are there. -/
theorem find_of_kept {nodes' : TreeNodes} (hkept : Kept nodes nodes') {i : ℕ} {n n' : TreeNode}
    (hn : nodes[i]? = some n) (hn' : nodes'[i]? = some n') (more : List ℕ)
    (hentries : n'.mEntries = n.mEntries ++ more)
    (hvalid : ∀ e ∈ n.mEntries, ∃ child, nodes[e]? = some child) (name : List Char) :
    nodes'.find i name = (nodes.find i name).or (more.find? (named nodes' name)) := by
  have hsame : n.mEntries.find? (named nodes' name) = n.mEntries.find? (named nodes name) := by
    apply List.find?_congr
    intro e he
    obtain ⟨child, hchild⟩ := hvalid e he
    obtain ⟨child', hchild', -, hname⟩ := hkept e child hchild
    rw [named_of_getElem hchild, named_of_getElem hchild', hname]
  rw [find_of_getElem? hn', find_of_getElem? hn, hentries, List.find?_append, hsame]

/-- INTERNAL: the nodes behind `emplace_back`. -/
theorem getElem?_emplaceBack {this : ℕ} {name : List Char} {i : ℕ} {n' : TreeNode}
    (hn' : (nodes.emplaceBack this name).1[i]? = some n') :
    (∃ n, nodes[i]? = some n ∧ n' = if i = this then withEntries [nodes.length] n else n) ∨
      i = nodes.length ∧ n' = ⟨some this, name, none, []⟩ := by
  rw [emplaceBack_eq] at hn'
  rcases Nat.lt_trichotomy i nodes.length with hlt | rfl | hgt
  · rw [List.getElem?_append_left (by simpa using hlt), List.getElem?_modify, Option.map_eq_map,
      Option.map_eq_some_iff] at hn'
    obtain ⟨n, hn, rfl⟩ := hn'
    refine Or.inl ⟨n, hn, ?_⟩
    by_cases hi : this = i
    · simp [hi]
    · simp [hi, Ne.symm hi]
  · right
    simpa using hn'.symm
  · rw [List.getElem?_eq_none (by simpa using Nat.succ_le_of_lt hgt)] at hn'
    cases hn'

/-- INTERNAL: **`emplace_back` leaves the tree one**, when the name is new.
SOURCE: vfs/vfs.hh:57-59 -/
theorem Rooted.emplaceBack (hrooted : Rooted nodes) {this : ℕ} {name : List Char}
    (hthis : this < nodes.length) (hname : ComponentName name)
    (hnew : nodes.find this name = none) : Rooted (nodes.emplaceBack this name).1 := by
  have hkept := kept_emplaceBack nodes this name
  have hlast : (nodes.emplaceBack this name).1[nodes.length]? =
      some ⟨some this, name, none, []⟩ := by
    simp [emplaceBack_eq]
  have hvalid : ∀ (i : ℕ) n, nodes[i]? = some n → ∀ e ∈ n.mEntries, ∃ child,
      nodes[e]? = some child := by
    intro i n hn e he
    obtain ⟨child, hchild, -⟩ := hrooted.entry i n hn e he
    exact ⟨child, hchild⟩
  have hold : ∀ (i : ℕ) n, nodes[i]? = some n → (nodes.emplaceBack this name).1[i]? =
      some (if i = this then withEntries [nodes.length] n else n) := by
    intro i n hn
    obtain ⟨n', hn', -⟩ := hkept i n hn
    rcases getElem?_emplaceBack hn' with ⟨other, hother, rfl⟩ | ⟨rfl, -⟩
    · rw [hn] at hother
      rw [hn', Option.some.inj hother]
    · rw [List.getElem?_eq_none (le_refl _)] at hn
      cases hn
  have hfind : ∀ (i : ℕ) other e, nodes.find i other = some e →
      (nodes.emplaceBack this name).1.find i other = some e := by
    intro i other e he
    obtain ⟨n, hn, -⟩ := Option.bind_eq_some_iff.mp he
    have h := find_of_kept hkept hn (hold i n hn) (if i = this then [nodes.length] else [])
      (by split <;> simp [withEntries]) (hvalid i n hn) other
    rw [h, he, Option.some_or]
  constructor
  · obtain ⟨n, hn, hparent, hempty⟩ := hrooted.root
    obtain ⟨n', hn', hparent', hempty'⟩ := hkept 0 n hn
    exact ⟨n', hn', hparent'.trans hparent, hempty'.trans hempty⟩
  · intro i n' hn' e he
    have hchild : (∃ n, nodes[i]? = some n ∧ e ∈ n.mEntries) ∨ i = this ∧ e = nodes.length := by
      rcases getElem?_emplaceBack hn' with ⟨n, hn, rfl⟩ | ⟨-, rfl⟩
      · split at he
        · rcases List.mem_append.mp he with he | he
          · exact Or.inl ⟨n, hn, he⟩
          · exact Or.inr ⟨by assumption, List.mem_singleton.mp he⟩
        · exact Or.inl ⟨n, hn, he⟩
      · cases he
    rcases hchild with ⟨n, hn, he⟩ | ⟨rfl, rfl⟩
    · obtain ⟨child, hchild, hparent, hchildName⟩ := hrooted.entry i n hn e he
      obtain ⟨child', hchild', hparent', hname'⟩ := hkept e child hchild
      exact ⟨child', hchild', hparent'.trans hparent, hname' ▸ hchildName⟩
    · exact ⟨_, hlast, rfl, hname⟩
  · intro i n' hn' hi
    rcases getElem?_emplaceBack hn' with ⟨n, hn, rfl⟩ | ⟨rfl, rfl⟩
    · obtain ⟨parent, hlt, hparent, hlisted⟩ := hrooted.listed i n hn hi
      refine ⟨parent, hlt, ?_, ?_⟩
      · split <;> exact hparent
      · apply hfind
        split <;> exact hlisted
    · refine ⟨this, hthis, rfl, ?_⟩
      obtain ⟨n, hn⟩ : ∃ n, nodes[this]? = some n := ⟨_, List.getElem?_eq_getElem hthis⟩
      have h := find_of_kept hkept hn (hold this n hn) [nodes.length]
        (by simp [withEntries]) (hvalid this n hn) name
      rw [h, hnew, Option.none_or]
      simp [named_of_getElem hlast]

/-- INTERNAL: so does a storage that is given to a node.
SOURCE: vfs/vfs.hh:43 -/
theorem Rooted.storage (hrooted : Rooted nodes) (this s : ℕ) : Rooted (nodes.storage this s) := by
  have hkept := kept_storage (s := s) nodes this
  have hback : ∀ (i : ℕ) n', (nodes.storage this s)[i]? = some n' → ∃ n, nodes[i]? = some n ∧
      n'.mParent = n.mParent ∧ n'.mName = n.mName ∧ n'.mEntries = n.mEntries := by
    intro i n' hn'
    unfold TreeNodes.storage at hn'
    rw [List.getElem?_modify, Option.map_eq_map, Option.map_eq_some_iff] at hn'
    obtain ⟨n, hn, rfl⟩ := hn'
    refine ⟨n, hn, ?_⟩
    split <;> simp
  have hfind : ∀ (i : ℕ) other, (nodes.storage this s).find i other = nodes.find i other := by
    intro i other
    cases hn : nodes[i]? with
    | none =>
      have hn' : (nodes.storage this s)[i]? = none := by
        simpa [TreeNodes.storage] using hn
      unfold TreeNodes.find
      rw [hn, hn']
      rfl
    | some n =>
      obtain ⟨n', hn', -⟩ := hkept i n hn
      obtain ⟨m, hm, -, -, hentries⟩ := hback i n' hn'
      rw [hn] at hm
      obtain rfl := Option.some.inj hm
      have h := find_of_kept hkept hn hn' [] (by simpa using hentries)
        (fun e he => ?_) other
      · rw [h, List.find?_nil, Option.or_none]
      · obtain ⟨child, hchild, -⟩ := hrooted.entry i n hn e he
        exact ⟨child, hchild⟩
  constructor
  · obtain ⟨n, hn, hparent, hempty⟩ := hrooted.root
    obtain ⟨n', hn', hparent', hempty'⟩ := hkept 0 n hn
    exact ⟨n', hn', hparent'.trans hparent, hempty'.trans hempty⟩
  · intro i n' hn' e he
    obtain ⟨n, hn, -, -, hentries⟩ := hback i n' hn'
    obtain ⟨child, hchild, hparent, hname⟩ := hrooted.entry i n hn e (hentries ▸ he)
    obtain ⟨child', hchild', hparent', hname'⟩ := hkept e child hchild
    exact ⟨child', hchild', hparent'.trans hparent, hname' ▸ hname⟩
  · intro i n' hn' hi
    obtain ⟨n, hn, hparent', hname', -⟩ := hback i n' hn'
    obtain ⟨parent, hlt, hparent, hlisted⟩ := hrooted.listed i n hn hi
    exact ⟨parent, hlt, hparent'.trans hparent, by rw [hfind, hname', hlisted]⟩

theorem FileTree.rooted (htree : FileTree nodes) : Rooted nodes := by
  induction htree with
  | root =>
    constructor
    · exact ⟨_, rfl, rfl, rfl⟩
    · intro i n hn e he
      cases i with
      | zero =>
        cases hn
        cases he
      | succ i => cases hn
    · intro i n hn hi
      cases i with
      | zero => exact absurd hi (Nat.lt_irrefl 0)
      | succ i => cases hn
  | entry _ hthis hname hnew ih => exact ih.emplaceBack hthis hname hnew
  | storage this s _ ih => exact ih.storage this s

theorem leadsTo_append {first middle last : ℕ} {names more : List (List Char)}
    (h : LeadsTo nodes first names middle) (hmore : LeadsTo nodes middle more last) :
    LeadsTo nodes first (names ++ more) last := by
  induction h with
  | here _ => exact hmore
  | down hfind _ ih => exact .down hfind (ih hmore)

/-! ## The way to a node -/

theorem parent_of_getElem? {node : ℕ} {n : TreeNode} (hn : nodes[node]? = some n) :
    nodes.parent node = n.mParent := by
  rw [TreeNodes.parent, hn, Option.bind_some]

theorem name_of_getElem? {node : ℕ} {n : TreeNode} (hn : nodes[node]? = some n) :
    nodes.name node = n.mName := by
  rw [TreeNodes.name, hn, Option.map_some, Option.getD_some]

section Rooted

variable (hrooted : Rooted nodes)
include hrooted

theorem Rooted.parent_root : nodes.parent 0 = none := by
  obtain ⟨n, hn, hparent, -⟩ := hrooted.root
  rw [parent_of_getElem? hn, hparent]

theorem Rooted.name_root : nodes.name 0 = [] := by
  obtain ⟨n, hn, -, hname⟩ := hrooted.root
  rw [name_of_getElem? hn, hname]

/-- INTERNAL: what `find` finds is a child of that name, which is not empty. -/
theorem Rooted.find {i e : ℕ} {name : List Char} (hfind : nodes.find i name = some e) :
    ∃ child, nodes[e]? = some child ∧ child.mParent = some i ∧ child.mName = name ∧
      ComponentName name := by
  obtain ⟨n, hn, hentry⟩ := Option.bind_eq_some_iff.mp hfind
  obtain ⟨child, hchild, hparent, hname⟩ :=
    hrooted.entry i n hn e (List.mem_of_find?_eq_some hentry)
  have hsame : child.mName = name := by
    have h := List.find?_some hentry
    simpa [hchild] using h
  exact ⟨child, hchild, hparent, hsame, hsame ▸ hname⟩

theorem Rooted.find_empty (i : ℕ) : nodes.find i [] = none := by
  rw [Option.eq_none_iff_forall_ne_some]
  intro e hfind
  obtain ⟨_, _, _, _, hname⟩ := hrooted.find hfind
  exact hname.1 rfl

theorem Rooted.lt_of_trail {node : ℕ} {trail : List (List Char)} (htrail : Trail nodes node trail) :
    node < nodes.length := by
  cases htrail with
  | root =>
    obtain ⟨n, hn, -⟩ := hrooted.root
    exact (List.getElem?_eq_some_iff.mp hn).1
  | child hnode _ _ => exact (List.getElem?_eq_some_iff.mp hnode).1

/-- INTERNAL: **every node is where its names lead**, by induction on its number.
SOURCE: vfs/vfs.cc:9-16, vfs/vfs.hh:49-59 -/
theorem Rooted.exists_trail (i : ℕ) (hi : i < nodes.length) :
    ∃ trail, Trail nodes i trail ∧ trail.length ≤ i ∧ LeadsTo nodes 0 trail.reverse i := by
  by_cases hzero : i = 0
  · subst hzero
    exact ⟨[], .root, le_refl _, .here 0⟩
  · obtain ⟨n, hn⟩ : ∃ n, nodes[i]? = some n := ⟨_, List.getElem?_eq_getElem hi⟩
    obtain ⟨parent, hlt, hparent, hlisted⟩ := hrooted.listed i n hn (Nat.pos_of_ne_zero hzero)
    obtain ⟨trail, htrail, hlength, hleads⟩ := Rooted.exists_trail parent (by omega)
    refine ⟨n.mName :: trail, .child hn hparent htrail, ?_, ?_⟩
    · rw [List.length_cons]
      omega
    · rw [List.reverse_cons]
      exact leadsTo_append hleads (.down hlisted (.here i))

/-- INTERNAL: names that lead to a node are those on the way back. -/
theorem Rooted.trail_of_leadsTo {first last : ℕ} {names trail : List (List Char)}
    (htrail : Trail nodes first trail) (hleads : LeadsTo nodes first names last) :
    Trail nodes last (names.reverse ++ trail) := by
  induction hleads generalizing trail with
  | here _ => exact htrail
  | down hfind _ ih =>
    obtain ⟨child, hchild, hparent, rfl, -⟩ := hrooted.find hfind
    have h := ih (.child hchild hparent htrail)
    rwa [List.reverse_cons, List.append_assoc, List.singleton_append]

/-- INTERNAL: the loop puts the way from the root in front.
SOURCE: vfs/vfs.cc:11-14 -/
theorem Rooted.generatePathLoop {fuel node : ℕ} {trail : List (List Char)}
    (htrail : Trail nodes node trail) (hfuel : trail.length + 2 ≤ fuel) (path : List Char) :
    nodes.generatePathLoop fuel (some node) path = .ok (dirPath [] trail ++ '/' :: path) := by
  induction htrail generalizing fuel path with
  | root =>
    obtain ⟨fuel, rfl⟩ := Nat.exists_eq_add_of_le' hfuel
    simp [TreeNodes.generatePathLoop, hrooted.parent_root, hrooted.name_root, dirPath]
  | @child node parent n trail hnode hparent _ ih =>
    obtain ⟨fuel, rfl⟩ := Nat.exists_eq_add_of_le' hfuel
    have hup := @ih (fuel + trail.length + 2) (by omega) (n.mName ++ '/' :: path)
    rw [List.length_cons, ← Nat.add_assoc, ← Nat.add_assoc, Nat.add_right_comm]
    unfold TreeNodes.generatePathLoop
    rw [parent_of_getElem? hnode, hparent, name_of_getElem? hnode]
    refine hup.trans ?_
    simp [dirPath]

/-- INTERNAL: **the path that a node generates**.
SOURCE: vfs/vfs.cc:9-16 -/
theorem Rooted.generatePath {node : ℕ} {trail : List (List Char)} (htrail : Trail nodes node trail)
    (hlength : trail.length ≤ nodes.length) :
    nodes.generatePath node = .ok (dirPath [] trail) := by
  unfold TreeNodes.generatePath
  cases htrail with
  | root => simp [TreeNodes.generatePathLoop, hrooted.parent_root, hrooted.name_root, dirPath]
  | @child _ parent n trail hnode hparent hup =>
    rw [List.length_cons] at hlength
    rw [parent_of_getElem? hnode, hparent, name_of_getElem? hnode,
      hrooted.generatePathLoop hup (by omega)]
    rfl

/-- INTERNAL: every node is below the root.
SOURCE: vfs/vfs.cc:112-117 -/
theorem Rooted.findTreeNodeRoot {fuel node : ℕ} {trail : List (List Char)}
    (htrail : Trail nodes node trail) (hfuel : trail.length < fuel) :
    nodes.findTreeNodeRoot fuel node = .ok 0 := by
  induction htrail generalizing fuel with
  | root =>
    obtain ⟨fuel, rfl⟩ := Nat.exists_eq_add_of_le' hfuel
    simp [TreeNodes.findTreeNodeRoot, hrooted.parent_root]
  | @child node parent n trail hnode hparent _ ih =>
    obtain ⟨fuel, rfl⟩ := Nat.exists_eq_add_of_lt (Nat.lt_of_le_of_lt (Nat.zero_le _) hfuel)
    unfold TreeNodes.findTreeNodeRoot
    rw [parent_of_getElem? hnode, hparent]
    apply ih
    rw [List.length_cons] at hfuel
    omega

end Rooted

/-! ## Paths -/

theorem dirPath_eq_flatten (trail : List (List Char)) :
    dirPath [] trail = (trail.reverse.map ('/' :: ·)).flatten := by
  induction trail with
  | nil => rfl
  | cons name trail ih => simp [dirPath, ih]

theorem slash_joined_eq_flatten (name : List Char) (names : List (List Char)) :
    '/' :: joined (name :: names) = ((name :: names).map ('/' :: ·)).flatten := by
  induction names generalizing name with
  | nil => simp [joined]
  | cons next names ih =>
    have hjoined : joined (name :: next :: names) = name ++ '/' :: joined (next :: names) := by
      simp [joined, List.intercalate_cons_cons]
    rw [hjoined, ih]
    simp

/-- INTERNAL: **a path with a slash in front is not found**.
SOURCE: vfs/vfs.cc:88-97 -/
theorem Rooted.findFile_slash (hrooted : Rooted nodes) {names : List (List Char)}
    (hne : names ≠ []) (hnames : ∀ name ∈ names, ComponentName name) :
    nodes.findFile ('/' :: joined names) = .ok none := by
  have hsplit : ('/' :: joined names).splitOn '/' = [] :: names := by
    have h : ([] ++ '/' :: joined names).splitOn '/' = [] :: (joined names).splitOn '/' :=
      List.splitOn_append_cons_self_of_not_mem (by simp) (joined names)
    rw [List.nil_append] at h
    rw [h, joined, List.splitOn_intercalate '/' (fun part hpart => (hnames part hpart).2) hne]
  have hcomponents : components ('/' :: joined names) = [] :: dropEmptyEnd names := by
    rw [components, hsplit]
    apply dropEmptyEnd_cons hne
    rintro ⟨-, rfl⟩
    exact (hnames [] (by simp)).1 rfl
  rw [findFile_eq, hcomponents, descend, List.foldlM_cons, hrooted.find_empty]
  rfl

/-- The text that a node below the root generates, or the root itself. -/
def slashed (names : List (List Char)) : List Char :=
  if names = [] then [] else '/' :: joined names

/-- INTERNAL: the names of a node and the text it generates. -/
theorem Rooted.generatePath_of_leadsTo (hrooted : Rooted nodes) {names : List (List Char)}
    {node : ℕ} (hleads : LeadsTo nodes 0 names node) (hlength : names.length ≤ nodes.length) :
    nodes.generatePath node = .ok (slashed names) := by
  have htrail := hrooted.trail_of_leadsTo .root hleads
  rw [List.append_nil] at htrail
  rw [hrooted.generatePath htrail (by simpa using hlength), dirPath_eq_flatten, List.reverse_reverse]
  cases names with
  | nil => rfl
  | cons name names => rw [slashed, if_neg (by simp), slash_joined_eq_flatten]

/-- INTERNAL: names that lead to a node are few enough, as they are the only ones. -/
theorem trail_unique {node : ℕ} {trail trail' : List (List Char)} (h : Trail nodes node trail)
    (hroot : nodes.parent 0 = none) (h' : Trail nodes node trail') : trail = trail' := by
  induction h generalizing trail' with
  | root =>
    cases h' with
    | root => rfl
    | child hnode hparent _ => simp [parent_of_getElem? hnode, hparent] at hroot
  | child hnode hparent _ ih =>
    cases h' with
    | root => simp [parent_of_getElem? hnode, hparent] at hroot
    | child hnode' hparent' hup =>
      rw [hnode, Option.some.injEq] at hnode'
      subst hnode'
      rw [hparent, Option.some.injEq] at hparent'
      subst hparent'
      rw [ih hup]

theorem Rooted.length_le (hrooted : Rooted nodes) {names : List (List Char)} {node : ℕ}
    (hleads : LeadsTo nodes 0 names node) :
    node < nodes.length ∧ names.length ≤ node ∧ (names = [] ↔ node = 0) := by
  have htrail := hrooted.trail_of_leadsTo .root hleads
  rw [List.append_nil] at htrail
  have hlt := hrooted.lt_of_trail htrail
  obtain ⟨trail, htrail', hle, -⟩ := hrooted.exists_trail node hlt
  have hsame := trail_unique htrail hrooted.parent_root htrail'
  refine ⟨hlt, ?_, ?_, ?_⟩
  · rw [← hsame, List.length_reverse] at hle
    exact hle
  · rintro rfl
    cases hleads
    rfl
  · rintro rfl
    rw [← hsame, List.length_reverse] at hle
    exact List.length_eq_zero_iff.mp (Nat.le_zero.mp hle)

theorem componentNames_of_leadsTo (hrooted : Rooted nodes) {first last : ℕ}
    {names : List (List Char)} (hleads : LeadsTo nodes first names last) :
    ∀ name ∈ names, ComponentName name := by
  induction hleads with
  | here _ => simp
  | down hfind _ ih =>
    obtain ⟨_, _, _, _, hname⟩ := hrooted.find hfind
    intro name hmem
    rcases List.mem_cons.mp hmem with rfl | hmem
    · exact hname
    · exact ih name hmem

/-- SOURCE: vfs/vfs.cc:9-16,88-131 — **no node below the root is named back**. In every tree of
proper names, `find_file` does not return a node for the path it generates, unless it is the root;
and the path that a node generates, which is what `read_file(node)` hands to the storage, is not
the path of names by which it is found, unless this is empty: there is one slash more in front. -/
theorem named_back_iff (htree : FileTree nodes) :
    (∀ node < nodes.length, (∃ path, NamedBack nodes node path) ↔ node = 0) ∧
    ∀ names, (∀ name ∈ names, ComponentName name) → ∀ node,
      nodes.findFile (joined names) = .ok (some node) →
        nodes.generatePath node = .ok (slashed names) ∧
        (NamedBack nodes node (joined names) ↔ names = []) ∧
        ∀ content s, nodes.storageOf node = some s →
          nodes.readFile content (joined names) = .ok (content s (joined names)) ∧
          nodes.readFileNode content node = .ok (content s (slashed names)) := by
  have hrooted := FileTree.rooted htree
  have hroot : nodes.findFile [] = .ok (some 0) := rfl
  constructor
  · intro node hlt
    obtain ⟨trail, htrail, hlength, hleads⟩ := hrooted.exists_trail node hlt
    obtain ⟨-, hle, hzero⟩ := hrooted.length_le hleads
    have hgenerated := hrooted.generatePath_of_leadsTo hleads (by omega)
    constructor
    · rintro ⟨path, hfound, hpath⟩
      by_contra hne
      have hnames : trail.reverse ≠ [] := fun h => hne (hzero.mp h)
      rw [hgenerated, Except.ok.injEq, slashed, if_neg hnames] at hpath
      rw [← hpath, hrooted.findFile_slash hnames (componentNames_of_leadsTo hrooted hleads)] at hfound
      cases hfound
    · intro h
      subst h
      refine ⟨[], hroot, ?_⟩
      rw [hgenerated, hzero.mpr rfl]
      rfl
  · intro names hnames node hfound
    have hleads : LeadsTo nodes 0 names node := by
      have h := (@followsNames nodes (joined names)).found node
      rw [components_joined hnames] at h
      exact h.mp hfound
    obtain ⟨hlt, hle, hzero⟩ := hrooted.length_le hleads
    have hgenerated := hrooted.generatePath_of_leadsTo hleads (by omega)
    refine ⟨hgenerated, ?_, ?_⟩
    · constructor
      · rintro ⟨-, hpath⟩
        by_contra hne
        rw [hgenerated, Except.ok.injEq, slashed, if_neg hne] at hpath
        have hlength := congrArg List.length hpath
        simp at hlength
      · rintro rfl
        exact ⟨hfound, hgenerated⟩
    · intro content s hstorage
      have htrail := hrooted.trail_of_leadsTo .root hleads
      have hup : nodes.findTreeNodeRoot (nodes.length + 1) node = .ok 0 :=
        hrooted.findTreeNodeRoot htrail (by simp; omega)
      constructor
      · rw [readFile_of_found hfound, hstorage, Option.elim_some]
      · unfold TreeNodes.readFileNode
        rw [hup, hgenerated]
        simp [bind, Except.bind, hstorage]

/-- A root with one entry `a`. -/
def oneEntry : TreeNodes := (TreeNodes.root.emplaceBack 0 ['a']).1

theorem fileTree_oneEntry : FileTree oneEntry :=
  .entry .root (by simp [TreeNodes.root]) (by simp [ComponentName]) (by rfl)

theorem named_back_iff_oneEntry :
    oneEntry.generatePath 1 = .ok ['/', 'a'] ∧ ¬NamedBack oneEntry 1 ['a'] := by
  have hnames : ∀ name ∈ [['a']], ComponentName name := by simp [ComponentName]
  have hfound : oneEntry.findFile (joined [['a']]) = .ok (some 1) := by rfl
  have hnode := (named_back_iff fileTree_oneEntry).2 [['a']] hnames 1 hfound
  exact ⟨hnode.1, hnode.2.1.not.mpr (by simp)⟩

/-- SOURCE: vfs/vfs.cc:9-16 — the path `a` of a node below the root: the node generates `/a`, by
which it is not found. -/
theorem entry_not_named_back : FileTree oneEntry ∧
    oneEntry.findFile (joined [['a']]) = .ok (some 1) ∧
    oneEntry.generatePath 1 = .ok ['/', 'a'] ∧
    oneEntry.findFile ['/', 'a'] = .ok none := by
  refine ⟨fileTree_oneEntry, ?_, ?_, ?_⟩ <;> rfl

end Mccpp.Analysis
