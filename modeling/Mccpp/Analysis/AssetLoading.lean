import Mathlib.Data.Rat.Floor
import Mccpp.Analysis.BuiltTrees
import Mccpp.Analysis.Finalize
import Mccpp.Analysis.RotatedBox
import Mccpp.Interface.Assets
import Mccpp.Library.Fallible

/-!
# What is loaded of a directory tree

`load` goes through the nodes that `build_tree` has made: namespace after namespace it finds the directory of
block models, and reads what is named as one. The nodes are copies of a directory tree, so what is loaded is
what the tree has at certain paths; the order of its directories only decides which failure comes first.
-/

set_option autoImplicit false

namespace Mccpp.Analysis

open Mccpp.Library Mccpp.Model Mccpp.Interface

variable {ε : Type} (content : StorageContent) (decode : List Byte → Option (ModelFile ε))

/-! ## What a tree has -/

/-- The directory, if the entry is one, has each name once, and its directories have. -/
def DistinctBelow (kind : Option Listing) : Prop := ∀ listing, kind = some listing → listing.Distinct

/-- All names in the directory are proper. -/
def ProperBelow (kind : Option Listing) : Prop := ∀ listing, kind = some listing → listing.Proper

theorem map_fst_entriesOf (listing : Listing) : (entriesOf listing).map Prod.fst = listing.names := by
  induction listing with
  | done => rfl
  | self rest ih | parent rest ih => exact ih
  | file name rest ih => exact congrArg (name :: ·) ih
  | directory name content rest _ ih => exact congrArg (name :: ·) ih

theorem nodup_names {listing : Listing} (hdistinct : listing.Distinct) : listing.names.Nodup := by
  induction listing with
  | done => exact List.nodup_nil
  | self rest ih | parent rest ih => exact ih hdistinct
  | file name rest ih => exact List.nodup_cons.mpr ⟨hdistinct.2.1, ih hdistinct.2.2⟩
  | directory name content rest _ ih => exact List.nodup_cons.mpr ⟨hdistinct.2.1, ih hdistinct.2.2.2⟩

theorem nodup_entriesBelow {kind : Option Listing} (hdistinct : DistinctBelow kind) :
    ((entriesBelow kind).map Prod.fst).Nodup := by
  cases kind with
  | none => exact List.nodup_nil
  | some listing =>
    have hnames : ((entriesBelow (some listing)).map Prod.fst) = listing.names := map_fst_entriesOf listing
    rw [hnames]
    exact nodup_names (hdistinct listing rfl)

/-- INTERNAL: what holds of a directory, holds of those in it. -/
theorem distinct_entry {listing : Listing} (hdistinct : listing.Distinct) {name : List Char}
    {next : Option Listing} (hentry : (name, next) ∈ entriesOf listing) : DistinctBelow next := by
  induction listing with
  | done => cases hentry
  | self rest ih | parent rest ih => exact ih hdistinct hentry
  | file other rest ih =>
    rcases List.mem_cons.mp hentry with heq | hentry
    · cases heq
      exact nofun
    · exact ih hdistinct.2.2 hentry
  | directory other content rest _ ih =>
    rcases List.mem_cons.mp hentry with heq | hentry
    · cases heq
      rintro _ ⟨⟩
      exact hdistinct.2.2.1
    · exact ih hdistinct.2.2.2 hentry

theorem proper_entry {listing : Listing} (hproper : listing.Proper) {name : List Char}
    {next : Option Listing} (hentry : (name, next) ∈ entriesOf listing) : '/' ∉ name ∧ ProperBelow next := by
  induction listing with
  | done => cases hentry
  | self rest ih | parent rest ih => exact ih hproper hentry
  | file other rest ih =>
    rcases List.mem_cons.mp hentry with heq | hentry
    · cases heq
      exact ⟨hproper.1.1, nofun⟩
    · exact ih hproper.2 hentry
  | directory other content rest _ ih =>
    rcases List.mem_cons.mp hentry with heq | hentry
    · cases heq
      refine ⟨hproper.1.1, ?_⟩
      rintro _ ⟨⟩
      exact hproper.2.1
    · exact ih hproper.2.2 hentry

theorem DistinctBelow.entry {kind next : Option Listing} {name : List Char} (hdistinct : DistinctBelow kind)
    (hentry : (name, next) ∈ entriesBelow kind) : DistinctBelow next := by
  cases kind with
  | none => cases hentry
  | some listing => exact distinct_entry (hdistinct listing rfl) hentry

theorem ProperBelow.entry {kind next : Option Listing} {name : List Char} (hproper : ProperBelow kind)
    (hentry : (name, next) ∈ entriesBelow kind) : '/' ∉ name ∧ ProperBelow next := by
  cases kind with
  | none => cases hentry
  | some listing => exact proper_entry (hproper listing rfl) hentry

/-- What there is at a path. -/
def EntryAt : Option Listing → List (List Char) → Option Listing → Prop
  | kind, [], found => kind = found
  | kind, name :: path, found => ∃ next, (name, next) ∈ entriesBelow kind ∧ EntryAt next path found

/-- INTERNAL: a file of the tree, from the entry on with which its path begins. -/
theorem hasFile_iff (listing : Listing) (name : List Char) (path : List (List Char)) :
    listing.HasFile (name :: path) ↔ EntryAt (some listing) (name :: path) none := by
  induction listing generalizing name path with
  | done => exact ⟨False.elim, fun ⟨_, h, _⟩ => nomatch h⟩
  | self rest ih | parent rest ih => exact ih name path
  | file other rest ih =>
    simp only [Listing.HasFile, ih, EntryAt, entriesBelow, Option.elim_some, entriesOf, List.mem_cons,
      Prod.mk.injEq]
    constructor
    · rintro (heq | ⟨next, hentry, hbelow⟩)
      · obtain ⟨rfl, rfl⟩ := List.cons.inj heq
        exact ⟨none, Or.inl ⟨rfl, rfl⟩, rfl⟩
      · exact ⟨next, Or.inr hentry, hbelow⟩
    · rintro ⟨next, ⟨rfl, rfl⟩ | hentry, hbelow⟩
      · cases path with
        | nil => exact Or.inl rfl
        | cons _ _ =>
          obtain ⟨_, hnone, _⟩ := hbelow
          cases hnone
      · exact Or.inr ⟨next, hentry, hbelow⟩
  | directory other content rest ihcontent ih =>
    simp only [Listing.HasFile, ih, EntryAt, entriesBelow, Option.elim_some, entriesOf, List.mem_cons,
      Prod.mk.injEq]
    constructor
    · rintro (⟨inside, heq, hinside⟩ | ⟨next, hentry, hbelow⟩)
      · obtain ⟨rfl, rfl⟩ := List.cons.inj heq
        refine ⟨some content, Or.inl ⟨rfl, rfl⟩, ?_⟩
        cases path with
        | nil => exact absurd hinside (not_hasFile_nil content)
        | cons next path => exact (ihcontent next path).mp hinside
      · exact ⟨next, Or.inr hentry, hbelow⟩
    · rintro ⟨next, ⟨rfl, rfl⟩ | hentry, hbelow⟩
      · cases path with
        | nil => cases hbelow
        | cons next path => exact Or.inl ⟨_, rfl, (ihcontent next path).mpr hbelow⟩
      · exact Or.inr ⟨next, hentry, hbelow⟩

theorem not_hasDirectory_nil (listing : Listing) : ¬listing.HasDirectory [] := by
  induction listing with
  | done => exact fun h => h
  | self rest ih | parent rest ih | file name rest ih => exact ih
  | directory name content rest _ ih =>
    rintro (heq | ⟨_, heq, _⟩ | hrest)
    · cases heq
    · cases heq
    · exact ih hrest

/-- INTERNAL: a directory of the tree. -/
theorem hasDirectory_iff (listing : Listing) (name : List Char) (path : List (List Char)) :
    listing.HasDirectory (name :: path) ↔ ∃ found, EntryAt (some listing) (name :: path) (some found) := by
  induction listing generalizing name path with
  | done => exact ⟨False.elim, fun ⟨_, _, h, _⟩ => nomatch h⟩
  | self rest ih | parent rest ih => exact ih name path
  | file other rest ih =>
    simp only [Listing.HasDirectory, ih, EntryAt, entriesBelow, Option.elim_some, entriesOf, List.mem_cons,
      Prod.mk.injEq]
    constructor
    · rintro ⟨found, next, hentry, hbelow⟩
      exact ⟨found, next, Or.inr hentry, hbelow⟩
    · rintro ⟨found, next, ⟨rfl, rfl⟩ | hentry, hbelow⟩
      · cases path with
        | nil => cases hbelow
        | cons _ _ =>
          obtain ⟨_, hnone, _⟩ := hbelow
          cases hnone
      · exact ⟨found, next, hentry, hbelow⟩
  | directory other content rest ihcontent ih =>
    simp only [Listing.HasDirectory, ih, EntryAt, entriesBelow, Option.elim_some, entriesOf, List.mem_cons,
      Prod.mk.injEq]
    constructor
    · rintro (heq | ⟨inside, heq, hinside⟩ | ⟨found, next, hentry, hbelow⟩)
      · obtain ⟨rfl, rfl⟩ := List.cons.inj heq
        exact ⟨content, some content, Or.inl ⟨rfl, rfl⟩, rfl⟩
      · obtain ⟨rfl, rfl⟩ := List.cons.inj heq
        cases path with
        | nil => exact absurd hinside (not_hasDirectory_nil content)
        | cons next path =>
          obtain ⟨found, hbelow⟩ := (ihcontent next path).mp hinside
          exact ⟨found, some content, Or.inl ⟨rfl, rfl⟩, hbelow⟩
      · exact ⟨found, next, Or.inr hentry, hbelow⟩
    · rintro ⟨found, next, ⟨rfl, rfl⟩ | hentry, hbelow⟩
      · cases path with
        | nil => exact Or.inl rfl
        | cons next path => exact Or.inr (Or.inl ⟨_, rfl, (ihcontent next path).mpr ⟨found, hbelow⟩⟩)
      · exact Or.inr (Or.inr ⟨found, next, hentry, hbelow⟩)

/-! ## What the nodes have -/

section Nodes

variable {nodes : TreeNodes} {s : ℕ} (hrooted : Rooted nodes)
include hrooted

/-- INTERNAL: a copy is found from its parent. -/
theorem CopyOf.found {parent node : ℕ} {entry : List Char × Option Listing}
    (h : CopyOf nodes s parent node entry) : nodes.find parent entry.1 = some node := by
  obtain ⟨n, hn, hparent, hname, -⟩ := h
  have hpos : 0 < node := by
    apply Nat.pos_of_ne_zero
    rintro rfl
    obtain ⟨root, hroot, hnone, -⟩ := hrooted.root
    rw [hn] at hroot
    obtain rfl := Option.some.inj hroot
    rw [hparent] at hnone
    cases hnone
  obtain ⟨above, -, habove, hfound⟩ := hrooted.listed node n hn hpos
  rw [hparent] at habove
  obtain rfl := Option.some.inj habove
  rwa [hname] at hfound

theorem CopyOf.leadsTo {parent node : ℕ} {entry : List Char × Option Listing}
    (h : CopyOf nodes s parent node entry) {names : List (List Char)} (hleads : LeadsTo nodes 0 names parent) :
    LeadsTo nodes 0 (names ++ [entry.1]) node :=
  leadsTo_append hleads (.down (CopyOf.found hrooted h) (.here node))

/-- INTERNAL: **what is read at a node**, by what it is a copy of.
SOURCE: vfs/vfs.cc:112-131 -/
theorem CopyOf.readFileNode {parent node : ℕ} {name : List Char} {kind : Option Listing}
    (h : CopyOf nodes s parent node (name, kind)) {names : List (List Char)}
    (hleads : LeadsTo nodes 0 names parent) :
    nodes.readFileNode content node =
      .ok (kind.elim (content s ('/' :: joined (names ++ [name]))) fun _ => []) := by
  have hway := CopyOf.leadsTo hrooted h hleads
  obtain ⟨hlt, hle, -⟩ := hrooted.length_le hway
  have hgenerated := hrooted.generatePath_of_leadsTo hway (by omega)
  rw [slashed, if_neg (by simp)] at hgenerated
  have hup : nodes.findTreeNodeRoot (nodes.length + 1) node = .ok 0 := by
    refine hrooted.findTreeNodeRoot (hrooted.trail_of_leadsTo .root hway) ?_
    rw [List.append_nil, List.length_reverse]
    omega
  obtain ⟨n, hn, -, -, hkind⟩ := h
  have hstorage : nodes.storageOf node = n.mStorage := by
    rw [TreeNodes.storageOf, hn, Option.bind_some]
  unfold TreeNodes.readFileNode
  rw [hup, hgenerated]
  cases kind with
  | none => simp [bind, Except.bind, hstorage, hkind.1]
  | some listing => simp [bind, Except.bind, hstorage, hkind.1]

/-! ## What is loaded -/

omit hrooted in
/-- INTERNAL: the entries of the directory of block models, in the directory of a namespace. -/
def blockEntries (kind : Option Listing) : List (List Char × Option Listing) :=
  match (entriesBelow kind).lookup "models".toList with
  | none => []
  | some models =>
    match (entriesBelow models).lookup "block".toList with
    | none => []
    | some block => entriesBelow block

end Nodes

/-- The file of a model, by what there is under its name. -/
def blockFile (s : ℕ) (nameSpace : List Char) (entry : List Char × Option Listing) :
    Option (ResourceManager.BlockFile ε) :=
  (decode (entry.2.elim
    (content s ('/' :: joined [nameSpace, "models".toList, "block".toList, entry.1])) fun _ => [])).map
    fun file => ⟨nameSpace, entry.1, file⟩

/-- What `load` does with one entry. -/
def loadEntry (s : ℕ) (nameSpace : List Char) (m : ResourceManager ε) (entry : List Char × Option Listing) :
    Except LoadFailure (ResourceManager ε) :=
  if ".json".toList.isSuffixOf entry.1 then
    match blockFile content decode s nameSpace entry with
    | none => .error .malformed
    | some file => .ok (m.loadFile file)
  else .ok m

section Nodes

variable {nodes : TreeNodes} {s : ℕ} (hrooted : Rooted nodes)
include hrooted

/-- INTERNAL: **one entry**.
SOURCE: resource/resource.cc:20-30 -/
theorem loadNode_copy {nameSpace : List Char} {block node : ℕ} {entry : List Char × Option Listing}
    (hleads : LeadsTo nodes 0 [nameSpace, "models".toList, "block".toList] block)
    (h : CopyOf nodes s block node entry) (m : ResourceManager ε) :
    ResourceManager.loadNode content decode nodes nameSpace m node =
      loadEntry content decode s nameSpace m entry := by
  obtain ⟨name, kind⟩ := entry
  have hread := CopyOf.readFileNode content hrooted h hleads
  have hname : nodes.name node = name := by
    obtain ⟨n, hn, -, hname, -⟩ := h
    rw [name_of_getElem? hn, hname]
  unfold ResourceManager.loadNode loadEntry blockFile ResourceManager.decodeNode
  rw [hname, hread]
  split_ifs
  · simp only [LoadFailure.ofVfs, bind, Except.bind, List.cons_append, List.nil_append]
    cases decode (kind.elim _ _) <;> rfl
  · rfl

/-- INTERNAL: **one namespace**.
SOURCE: resource/resource.cc:15-34 -/
theorem loadNamespace_copy {node : ℕ} {nameSpace : List Char} {kind : Option Listing}
    (h : CopyOf nodes s 0 node (nameSpace, kind)) (m : ResourceManager ε) :
    ResourceManager.loadNamespace content decode nodes m node =
      (blockEntries kind).foldlM (loadEntry content decode s nameSpace) m := by
  have hname : nodes.name node = nameSpace := by
    obtain ⟨n, hn, -, hname, -⟩ := h
    rw [name_of_getElem? hn, hname]
  have hhere := CopyOf.leadsTo hrooted h (.here 0)
  unfold ResourceManager.loadNamespace blockEntries
  rw [hname]
  rcases h.find "models".toList with ⟨hlookup, hfind⟩ | ⟨models, modelsNode, hlookup, hfind, hmodels⟩
  · rw [hlookup, hfind]
    rfl
  · rw [hlookup, hfind]
    dsimp only
    have hway := CopyOf.leadsTo hrooted hmodels hhere
    rcases hmodels.find "block".toList with ⟨hlookup, hfind⟩ | ⟨block, blockNode, hlookup, hfind, hblock⟩
    · rw [hlookup, hfind]
      rfl
    · rw [hlookup, hfind]
      dsimp only
      have hleads := CopyOf.leadsTo hrooted hblock hway
      have hstep : ∀ node entry m, CopyOf nodes s blockNode node entry →
          ResourceManager.loadNode content decode nodes nameSpace m node =
            loadEntry content decode s nameSpace m entry :=
        fun _ _ m hcopy => loadNode_copy content decode hrooted hleads hcopy m
      exact foldlM_eq_of_forall₂ hstep hblock.entries m

end Nodes

/-- INTERNAL: what there is under the names of models, by namespace. -/
def assetsIn (tree : Listing) : List (List Char × List Char × Option Listing) :=
  (entriesOf tree).flatMap fun entry => (blockEntries entry.2).map fun found => (entry.1, found)

/-- INTERNAL: **the first loop**, over what is in the tree.
SOURCE: resource/resource.cc:14-34 -/
theorem loadNodes_built {tree : Listing} (hproper : tree.Proper) (hdistinct : tree.Distinct) :
    ResourceManager.loadNodes content decode (extended 0 TreeNodes.root 0 tree) =
      (assetsIn tree).foldlM (fun m asset => loadEntry content decode 0 asset.1 m asset.2) .init := by
  have hrooted : Rooted (extended 0 TreeNodes.root 0 tree) := FileTree.rooted (fileTree_built hproper hdistinct)
  have hmirrors := mirrors_grown (s := 0) tree [⟨none, [], none, (grown 0 tree 0 1).1⟩] [] 0
  rw [List.append_nil] at hmirrors
  have hcopies : List.Forall₂ (CopyOf (extended 0 TreeNodes.root 0 tree) 0 0)
      ((extended 0 TreeNodes.root 0 tree).entries 0) (entriesOf tree) := copies_of_mirrors hmirrors
  have hstep : ∀ node entry m, CopyOf (extended 0 TreeNodes.root 0 tree) 0 0 node entry →
      ResourceManager.loadNamespace content decode (extended 0 TreeNodes.root 0 tree) m node =
        (blockEntries entry.2).foldlM (loadEntry content decode 0 entry.1) m :=
    fun _ _ m hcopy => loadNamespace_copy content decode hrooted hcopy m
  unfold ResourceManager.loadNodes assetsIn
  rw [foldlM_folds, foldlM_eq_of_forall₂ hstep hcopies]
  congr 1
  funext m entry
  rw [List.foldlM_map]

/-! ## Where models are -/

theorem mem_blockEntries {kind : Option Listing} (hdistinct : DistinctBelow kind)
    (entry : List Char × Option Listing) :
    entry ∈ blockEntries kind ↔ ∃ models, ("models".toList, models) ∈ entriesBelow kind ∧
      ∃ block, ("block".toList, block) ∈ entriesBelow models ∧ entry ∈ entriesBelow block := by
  have hmodels : ∀ models, (entriesBelow kind).lookup "models".toList = some models ↔
      ("models".toList, models) ∈ entriesBelow kind :=
    fun _ => lookup_eq_some_iff_mem (nodup_entriesBelow hdistinct)
  unfold blockEntries
  simp only [← hmodels]
  cases hlookup : (entriesBelow kind).lookup "models".toList with
  | none => simp
  | some models =>
    have hdistinct' := hdistinct.entry ((hmodels models).mp hlookup)
    have hblock : ∀ block, (entriesBelow models).lookup "block".toList = some block ↔
        ("block".toList, block) ∈ entriesBelow models :=
      fun _ => lookup_eq_some_iff_mem (nodup_entriesBelow hdistinct')
    simp only [Option.some.injEq, exists_eq_left', ← hblock]
    cases (entriesBelow models).lookup "block".toList <;> simp

theorem nodup_blockEntries {kind : Option Listing} (hdistinct : DistinctBelow kind) :
    ((blockEntries kind).map Prod.fst).Nodup := by
  unfold blockEntries
  cases hmodels : (entriesBelow kind).lookup "models".toList with
  | none => exact List.nodup_nil
  | some models =>
    have hdistinct' :=
      hdistinct.entry ((lookup_eq_some_iff_mem (nodup_entriesBelow hdistinct)).mp hmodels)
    dsimp only
    cases hblock : (entriesBelow models).lookup "block".toList with
    | none => exact List.nodup_nil
    | some block =>
      exact nodup_entriesBelow
        (hdistinct'.entry ((lookup_eq_some_iff_mem (nodup_entriesBelow hdistinct')).mp hblock))

variable {tree : Listing}

theorem distinctBelow_some (hdistinct : tree.Distinct) : DistinctBelow (some tree) := by
  rintro _ ⟨⟩
  exact hdistinct

/-- INTERNAL: **what is loaded is at these paths**. -/
theorem mem_assetsIn (hdistinct : tree.Distinct) (nameSpace name : List Char) (kind : Option Listing) :
    (nameSpace, name, kind) ∈ assetsIn tree ↔
      EntryAt (some tree) [nameSpace, "models".toList, "block".toList, name] kind := by
  have hwhole := distinctBelow_some hdistinct
  unfold assetsIn
  rw [List.mem_flatMap]
  simp only [EntryAt, List.mem_map, Prod.mk.injEq]
  constructor
  · rintro ⟨⟨_, content⟩, hentry, _, hblock, rfl, rfl⟩
    obtain ⟨models, hmodels, block, hinside, hname⟩ := (mem_blockEntries (hwhole.entry hentry) _).mp hblock
    exact ⟨content, hentry, models, hmodels, block, hinside, kind, hname, rfl⟩
  · rintro ⟨content, hentry, models, hmodels, block, hinside, _, hname, rfl⟩
    refine ⟨(nameSpace, content), hentry, (name, _), ?_, rfl, rfl⟩
    exact (mem_blockEntries (hwhole.entry hentry) _).mpr ⟨models, hmodels, block, hinside, hname⟩

/-- INTERNAL: no two are at the same path. -/
theorem pairwise_assetsIn (hdistinct : tree.Distinct) :
    (assetsIn tree).Pairwise fun a b => ¬(a.1 = b.1 ∧ a.2.1 = b.2.1) := by
  have hwhole := distinctBelow_some hdistinct
  have hspaces : (entriesOf tree).Pairwise fun a b => a.1 ≠ b.1 :=
    List.pairwise_map.mp (nodup_entriesBelow hwhole)
  unfold assetsIn
  rw [List.pairwise_flatMap]
  constructor
  · intro entry hentry
    rw [List.pairwise_map]
    obtain ⟨nameSpace, kind⟩ := entry
    have hnames := List.pairwise_map.mp (nodup_blockEntries (hwhole.entry hentry))
    exact hnames.imp fun hne h => hne h.2
  · refine hspaces.imp fun hne a ha b hb h => ?_
    obtain ⟨_, _, rfl⟩ := List.mem_map.mp ha
    obtain ⟨_, _, rfl⟩ := List.mem_map.mp hb
    exact hne h.1

theorem slash_notMem_assetsIn (hproper : tree.Proper) (hdistinct : tree.Distinct) {nameSpace name : List Char}
    {kind : Option Listing} (h : (nameSpace, name, kind) ∈ assetsIn tree) : '/' ∉ nameSpace ∧ '/' ∉ name := by
  obtain ⟨content, hentry, models, hmodels, block, hblock, found, hname, -⟩ :=
    (mem_assetsIn hdistinct nameSpace name kind).mp h
  have hwhole : ProperBelow (some tree) := by
    rintro _ ⟨⟩
    exact hproper
  obtain ⟨hspace, hcontent⟩ := hwhole.entry hentry
  exact ⟨hspace, (((hcontent.entry hmodels).2.entry hblock).2.entry hname).1⟩

/-! ## What the manager has -/

/-- INTERNAL: the file of a model is stored under its identifier. -/
theorem loadFile_json (m : ResourceManager ε) (nameSpace basename : List Char) (file : ModelFile ε) :
    m.loadFile ⟨nameSpace, basename ++ ".json".toList, file⟩ =
      m.store (blockId nameSpace basename) (.construct file) := by
  have hsuffix : ".json".toList.isSuffixOf (basename ++ ".json".toList) = true :=
    List.isSuffixOf_iff_suffix.mpr (List.suffix_append _ _)
  have hbasename : (basename ++ ".json".toList).take ((basename ++ ".json".toList).length - 5) = basename := by
    have hlength : (".json".toList : List Char).length = 5 := rfl
    rw [List.length_append, hlength, Nat.add_sub_cancel, List.take_left]
  have hid : Identifier.ofText (nameSpace ++ ':' :: ("block/".toList ++ basename)) =
      blockId nameSpace basename := by
    unfold Identifier.ofText Identifier.construct blockId
    rw [if_pos (by simp)]
  unfold ResourceManager.loadFile
  simp only [hsuffix, if_true, hbasename, hid]

/-- INTERNAL: an identifier is that of one model. -/
theorem blockId_inj {nameSpace nameSpace' basename basename' : List Char} (hspace : '/' ∉ nameSpace)
    (hbasename : '/' ∉ basename) (h : blockId nameSpace basename = blockId nameSpace' basename') :
    nameSpace = nameSpace' ∧ basename = basename' := by
  have htext : ∀ nameSpace basename : List Char, (blockId nameSpace basename).mData =
      (nameSpace ++ ":block".toList) ++ '/' :: basename := by
    intro nameSpace basename
    simp [blockId]
  have hsame := congrArg Identifier.mData h
  rw [htext, htext, List.append_cons_inj_of_notMem (by simpa using hspace) hbasename] at hsame
  exact ⟨List.append_cancel_right hsame.1, hsame.2.2⟩

/-- INTERNAL: **what is stored**, where the files are those of models at different paths. -/
theorem mResources_loadFiles {files : List (ResourceManager.BlockFile ε)}
    (hnames : ∀ file ∈ files, '/' ∉ file.nameSpace ∧ '/' ∉ file.name ∧ ∃ basename,
      file.name = basename ++ ".json".toList)
    (hapart : files.Pairwise fun f g => ¬(f.nameSpace = g.nameSpace ∧ f.name = g.name))
    (m : ResourceManager ε) (id : Identifier) (o : ModelObject ε) :
    (files.foldl ResourceManager.loadFile m).mResources id = some o ↔
      (∃ nameSpace basename file, ⟨nameSpace, basename ++ ".json".toList, file⟩ ∈ files ∧
        id = blockId nameSpace basename ∧ o = .construct file) ∨
      (∀ nameSpace basename file, ⟨nameSpace, basename ++ ".json".toList, file⟩ ∈ files →
        id ≠ blockId nameSpace basename) ∧ m.mResources id = some o := by
  induction files generalizing m with
  | nil => simp
  | cons first files ih =>
    obtain ⟨⟨hspace, hslash, base, hbase⟩, hrest⟩ := List.forall_mem_cons.mp hnames
    obtain ⟨hfirst, hlater⟩ := List.pairwise_cons.mp hapart
    obtain ⟨space, name, content⟩ := first
    obtain rfl : name = base ++ ".json".toList := hbase
    have hslash : '/' ∉ base := fun h => hslash (List.mem_append_left _ h)
    have hother : ∀ nameSpace basename file, ⟨nameSpace, basename ++ ".json".toList, file⟩ ∈ files →
        blockId space base ≠ blockId nameSpace basename := by
      intro nameSpace basename file hfile heq
      obtain ⟨rfl, rfl⟩ := blockId_inj hspace hslash heq
      exact hfirst _ hfile ⟨rfl, rfl⟩
    rw [List.foldl_cons, loadFile_json, ih hrest hlater]
    simp only [ResourceManager.store]
    constructor
    · rintro (⟨nameSpace, basename, file, hfile, hid, ho⟩ | ⟨hnone, hstored⟩)
      · exact Or.inl ⟨nameSpace, basename, file, List.mem_cons_of_mem _ hfile, hid, ho⟩
      · by_cases hid : id = blockId space base
        · rw [if_pos hid, Option.some.injEq] at hstored
          exact Or.inl ⟨space, base, content, List.mem_cons_self, hid, hstored.symm⟩
        · rw [if_neg hid] at hstored
          refine Or.inr ⟨fun nameSpace basename file hfile => ?_, hstored⟩
          rcases List.mem_cons.mp hfile with heq | hfile
          · injection heq with hspace hname _
            rwa [hspace, List.append_cancel_right hname]
          · exact hnone nameSpace basename file hfile
    · rintro (⟨nameSpace, basename, file, hfile, hid, ho⟩ | ⟨hnone, hstored⟩)
      · rcases List.mem_cons.mp hfile with heq | hfile
        · injection heq with hspace hname hcontent
          rw [hspace, List.append_cancel_right hname] at hid
          refine Or.inr ⟨fun nameSpace basename file hfile => ?_, ?_⟩
          · rw [hid]
            exact hother nameSpace basename file hfile
          · rw [if_pos hid, ho, hcontent]
        · exact Or.inl ⟨nameSpace, basename, file, hfile, hid, ho⟩
      · refine Or.inr ⟨fun nameSpace basename file hfile => ?_, ?_⟩
        · exact hnone nameSpace basename file (List.mem_cons_of_mem _ hfile)
        · rw [if_neg (hnone space base content List.mem_cons_self)]
          exact hstored

/-- INTERNAL: the file of an asset, if it is named as a model. -/
def modelOf (asset : List Char × List Char × Option Listing) : Option (ResourceManager.BlockFile ε) :=
  if ".json".toList.isSuffixOf asset.2.1 then blockFile content decode 0 asset.1 asset.2 else none

/-- INTERNAL: an asset that is named as a model and gives none. -/
def GivesNone (asset : List Char × List Char × Option Listing) : Prop :=
  ".json".toList.isSuffixOf asset.2.1 = true ∧ blockFile content decode 0 asset.1 asset.2 = none

instance : DecidablePred (GivesNone content decode) := fun _ => inferInstanceAs (Decidable (_ ∧ _))

theorem loadEntry_eq (m : ResourceManager ε) (asset : List Char × List Char × Option Listing) :
    loadEntry content decode 0 asset.1 m asset.2 =
      if GivesNone content decode asset then .error .malformed
      else .ok ((modelOf content decode asset).elim m m.loadFile) := by
  unfold loadEntry modelOf
  by_cases hsuffix : ".json".toList.isSuffixOf asset.2.1 = true
  · rw [if_pos hsuffix, if_pos hsuffix]
    cases hfile : blockFile content decode 0 asset.1 asset.2 with
    | none => rw [if_pos ⟨hsuffix, hfile⟩]
    | some file =>
      have hgood : ¬GivesNone content decode asset := fun h => by cases hfile.symm.trans h.2
      rw [if_neg hgood]
      rfl
  · rw [if_neg hsuffix, if_neg hsuffix, if_neg fun h => hsuffix h.1]
    rfl

theorem foldl_modelOf (assets : List (List Char × List Char × Option Listing)) (m : ResourceManager ε) :
    assets.foldl (fun m asset => (modelOf content decode asset).elim m m.loadFile) m =
      (assets.filterMap (modelOf content decode)).foldl ResourceManager.loadFile m := by
  induction assets generalizing m with
  | nil => rfl
  | cons asset assets ih =>
    rw [List.foldl_cons, ih, List.filterMap_cons]
    cases modelOf content decode asset <;> rfl

/-- INTERNAL: **the first loop**, as a whole. -/
theorem loadNodes_eq (hproper : tree.Proper) (hdistinct : tree.Distinct) :
    ResourceManager.loadNodes content decode (extended 0 TreeNodes.root 0 tree) =
      if ∃ asset ∈ assetsIn tree, GivesNone content decode asset then .error .malformed
      else .ok (ResourceManager.loadFiles ((assetsIn tree).filterMap (modelOf content decode))) := by
  rw [loadNodes_built content decode hproper hdistinct]
  simp only [loadEntry_eq]
  rw [foldlM_check]
  split_ifs
  · rfl
  · exact congrArg Except.ok (foldl_modelOf content decode _ _)

/-! ## Assets of a tree -/

theorem hasFile_blockPath (hdistinct : tree.Distinct) (nameSpace basename : List Char) :
    tree.HasFile (blockPath nameSpace basename) ↔
      (nameSpace, basename ++ ".json".toList, none) ∈ assetsIn tree := by
  rw [mem_assetsIn hdistinct]
  exact hasFile_iff tree _ _

theorem hasDirectory_blockPath (hdistinct : tree.Distinct) (nameSpace basename : List Char) :
    tree.HasDirectory (blockPath nameSpace basename) ↔
      ∃ found, (nameSpace, basename ++ ".json".toList, some found) ∈ assetsIn tree := by
  simp only [mem_assetsIn hdistinct]
  exact hasDirectory_iff tree _ _

theorem isSuffixOf_json (basename : List Char) : ".json".toList.isSuffixOf (basename ++ ".json".toList) = true :=
  List.isSuffixOf_iff_suffix.mpr (List.suffix_append _ _)

theorem exists_basename {name : List Char} (h : ".json".toList.isSuffixOf name = true) :
    ∃ basename, name = basename ++ ".json".toList := by
  obtain ⟨basename, heq⟩ := List.isSuffixOf_iff_suffix.mp h
  exact ⟨basename, heq.symm⟩

/-- INTERNAL: nothing is refused where all that is named as a model is a model file. -/
theorem loadable_iff (hdistinct : tree.Distinct) (hempty : decode [] = none) :
    Loadable content decode tree ↔ ¬∃ asset ∈ assetsIn tree, GivesNone content decode asset := by
  constructor
  · rintro hloadable ⟨⟨nameSpace, name, kind⟩, hasset, hsuffix, hfile⟩
    obtain ⟨basename, rfl⟩ := exists_basename hsuffix
    cases kind with
    | none =>
      obtain ⟨file, -, hdecoded⟩ :=
        hloadable.files nameSpace basename ((hasFile_blockPath hdistinct nameSpace basename).mpr hasset)
      rw [blockFile, Option.map_eq_none_iff] at hfile
      exact nomatch hfile.symm.trans hdecoded
    | some found =>
      exact hloadable.directories nameSpace basename
        ((hasDirectory_blockPath hdistinct nameSpace basename).mpr ⟨found, hasset⟩)
  · intro hgood
    constructor
    · intro nameSpace basename hhas
      have hasset := (hasFile_blockPath hdistinct nameSpace basename).mp hhas
      by_contra hnone
      refine hgood ⟨_, hasset, isSuffixOf_json basename, ?_⟩
      rw [blockFile, Option.map_eq_none_iff, Option.eq_none_iff_forall_ne_some]
      exact fun file hdecoded => hnone ⟨file, hhas, hdecoded⟩
    · intro nameSpace basename hhas
      obtain ⟨found, hasset⟩ := (hasDirectory_blockPath hdistinct nameSpace basename).mp hhas
      refine hgood ⟨_, hasset, isSuffixOf_json basename, ?_⟩
      rw [blockFile, Option.map_eq_none_iff]
      exact hempty

theorem mem_modelOf (hdistinct : tree.Distinct) (hempty : decode [] = none) (nameSpace basename : List Char)
    (file : ModelFile ε) :
    ⟨nameSpace, basename ++ ".json".toList, file⟩ ∈ (assetsIn tree).filterMap (modelOf content decode) ↔
      HasModel content decode tree nameSpace basename file := by
  rw [List.mem_filterMap, HasModel, hasFile_blockPath hdistinct]
  constructor
  · rintro ⟨⟨space, name, kind⟩, hasset, hmodel⟩
    unfold modelOf at hmodel
    split_ifs at hmodel
    obtain ⟨found, hdecoded, heq⟩ := Option.map_eq_some_iff.mp hmodel
    injection heq with hspace hname hfile
    subst hspace hname hfile
    cases kind with
    | none => exact ⟨hasset, hdecoded⟩
    | some listing => exact nomatch hempty.symm.trans hdecoded
  · rintro ⟨hasset, hdecoded⟩
    refine ⟨_, hasset, ?_⟩
    unfold modelOf
    rw [if_pos (isSuffixOf_json basename), blockFile, Option.map_eq_some_iff]
    exact ⟨file, hdecoded, rfl⟩

/-- INTERNAL: **what is stored is what the tree has**. -/
theorem holdsModels_loadFiles (hproper : tree.Proper) (hdistinct : tree.Distinct) (hempty : decode [] = none) :
    HoldsModels content decode tree
      (ResourceManager.loadFiles ((assetsIn tree).filterMap (modelOf content decode))) := by
  refine ⟨(fresh_loadFiles _).sentinel, fun id o => ?_⟩
  have hparts : ∀ asset file, modelOf content decode asset = some file →
      asset.1 = file.nameSpace ∧ asset.2.1 = file.name ∧ ∃ basename, file.name = basename ++ ".json".toList := by
    intro asset file hmodel
    unfold modelOf at hmodel
    split_ifs at hmodel with hsuffix
    obtain ⟨_, _, rfl⟩ := Option.map_eq_some_iff.mp hmodel
    exact ⟨rfl, rfl, exists_basename hsuffix⟩
  have hnames : ∀ file ∈ (assetsIn tree).filterMap (modelOf content decode),
      '/' ∉ file.nameSpace ∧ '/' ∉ file.name ∧ ∃ basename, file.name = basename ++ ".json".toList := by
    intro file hfile
    obtain ⟨asset, hasset, hmodel⟩ := List.mem_filterMap.mp hfile
    obtain ⟨hspace, hname, hbasename⟩ := hparts asset file hmodel
    obtain ⟨hslash, hslash'⟩ := slash_notMem_assetsIn hproper hdistinct hasset
    exact ⟨hspace ▸ hslash, hname ▸ hslash', hbasename⟩
  have hapart : ((assetsIn tree).filterMap (modelOf content decode)).Pairwise
      fun f g => ¬(f.nameSpace = g.nameSpace ∧ f.name = g.name) := by
    rw [List.pairwise_filterMap]
    refine (pairwise_assetsIn hdistinct).imp fun {a b} hne f hf g hg h => hne ?_
    obtain ⟨hspace, hname, -⟩ := hparts a f hf
    obtain ⟨hspace', hname', -⟩ := hparts b g hg
    exact ⟨hspace.trans (h.1.trans hspace'.symm), hname.trans (h.2.trans hname'.symm)⟩
  unfold ResourceManager.loadFiles
  rw [mResources_loadFiles hnames hapart]
  simp only [mem_modelOf content decode hdistinct hempty]
  constructor
  · rintro (hstored | ⟨-, hstored⟩)
    · exact hstored
    · cases hstored
  · exact Or.inl

theorem holdsModels_unique {m m' : ResourceManager ε} (h : HoldsModels content decode tree m)
    (h' : HoldsModels content decode tree m') : m = m' := by
  have hresources : m.mResources = m'.mResources := by
    funext id
    apply Option.ext
    intro o
    rw [h.models, h'.models]
  have hsentinel := h.sentinel.trans h'.sentinel.symm
  cases m
  cases m'
  congr

/-- INTERNAL: **the first loop**, by what the tree has.
SOURCE: resource/resource.cc:14-34 -/
theorem loadNodes_eq_ok_iff (hproper : tree.Proper) (hdistinct : tree.Distinct) (hempty : decode [] = none)
    (m : ResourceManager ε) :
    ResourceManager.loadNodes content decode (extended 0 TreeNodes.root 0 tree) = .ok m ↔
      Loadable content decode tree ∧ HoldsModels content decode tree m := by
  rw [loadNodes_eq content decode hproper hdistinct, loadable_iff content decode hdistinct hempty]
  have hholds := holdsModels_loadFiles content decode hproper hdistinct hempty
  split_ifs with hrefused
  · constructor
    · intro h
      cases h
    · exact fun h => absurd hrefused h.1
  · rw [Except.ok.injEq]
    constructor
    · rintro rfl
      exact ⟨hrefused, hholds⟩
    · exact fun h => holdsModels_unique content decode hholds h.2

theorem loadNodes_eq_malformed (hproper : tree.Proper) (hdistinct : tree.Distinct) (hempty : decode [] = none)
    (hnot : ¬Loadable content decode tree) :
    ResourceManager.loadNodes content decode (extended 0 TreeNodes.root 0 tree) = .error .malformed := by
  rw [loadable_iff content decode hdistinct hempty, not_not] at hnot
  rw [loadNodes_eq content decode hproper hdistinct, if_pos hnot]

/-- INTERNAL: **`build_tree`**, for one storage. -/
theorem buildTree_storage {host : Host} {root : List Char}
    (hserved : tree.Served host (HostStorage.create root).mRoot) (hproper : tree.Proper) :
    ∃ turns, ∀ fuel ≥ turns, buildTree host fuel [.create root] = .ok (extended 0 TreeNodes.root 0 tree) := by
  obtain ⟨hcreate, hwalk⟩ := walk_storage (s := 0) hserved hproper TreeNodes.root Nat.zero_lt_one rfl
  obtain ⟨turns, hturns⟩ := buildLoop_of_walk hwalk rfl
  refine ⟨turns, fun fuel hfuel => ?_⟩
  unfold buildTree buildStorages
  rw [hcreate]
  exact congrArg (· >>= buildStorages host fuel 1 []) (hturns fuel hfuel)

/-- A directory with the model `a` of the namespace `m`. -/
def oneModel : Listing :=
  .directory ['m'] (.directory "models".toList (.directory "block".toList (.file "a.json".toList .done) .done)
    .done) .done

/-- A host that has it, under the name `x`. -/
def oneModelHost : Host := fun path =>
  if path = "x/".toList then some [⟨['m'], .directory⟩]
  else if path = "x//m".toList then some [⟨"models".toList, .directory⟩]
  else if path = "x//m/models".toList then some [⟨"block".toList, .directory⟩]
  else if path = "x//m/models/block".toList then some [⟨"a.json".toList, .other⟩]
  else none

/-- A parser that takes every text for an object without members, but for the empty one. -/
def plainParse (text : List Byte) : Option (Json ℚ) := if text = [] then none else some (.object [])

/-- What is made of a text that is parsed so. -/
def plainDecode : List Byte → Option (ModelFile (ElementData ℚ (Fin 4))) := decodeText plainParse quarterGlm

theorem oneModel_served : oneModel.Served oneModelHost (HostStorage.create ['x']).mRoot :=
  ⟨by decide, by decide, ⟨by decide, ⟨by decide, trivial, trivial⟩, trivial⟩, trivial⟩

theorem oneModel_proper : oneModel.Proper :=
  ⟨by decide, ⟨by decide, ⟨by decide, ⟨by decide, trivial⟩, trivial⟩, trivial⟩, trivial⟩

theorem oneModel_distinct : oneModel.Distinct :=
  ⟨by decide, by decide, ⟨by decide, by decide, ⟨by decide, by decide, ⟨by decide, by decide, trivial⟩,
    trivial⟩, trivial⟩, trivial⟩

end Mccpp.Analysis
