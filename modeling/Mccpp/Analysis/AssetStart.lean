import Mccpp.Analysis.AssetLoading

/-!
# A start does not depend on an order

What is loaded is the same for all trees with the same paths, and finalizing comes to the same end in every order of
the models, or in every order to none.
-/

set_option autoImplicit false

namespace Mccpp.Analysis

open Mccpp.Library Mccpp.Model Mccpp.Interface

variable {ε : Type} (content : StorageContent) (decode : List Byte → Option (ModelFile ε)) {tree : Listing}

theorem finite_keys_loadFiles (files : List (ResourceManager.BlockFile ε)) :
    {id | (ResourceManager.loadFiles files).mResources id ≠ none}.Finite := by
  apply loadFiles_induction (P := fun m : ResourceManager ε => {id | m.mResources id ≠ none}.Finite)
  · simp [ResourceManager.init]
  · intro m id file hm
    apply (hm.insert id).subset
    intro key hkey
    by_cases heq : key = id
    · simp [heq]
    · simpa [ResourceManager.store, heq] using hkey

/-- INTERNAL: **the second loop** ends as the assets say, in every order.
SOURCE: resource/resource.cc:35-38, resource/model.cc:167-188 -/
theorem exists_finalized {files : List (ResourceManager.BlockFile ε)}
    (hacyclic : Acyclic (parentOf (ResourceManager.loadFiles files))) :
    ∃ after, SameEntries (ResourceManager.loadFiles files) after ∧
      (∀ id, ((ResourceManager.loadFiles files).mResources id).isSome →
        ∃ line, Line (parentOf (ResourceManager.loadFiles files)) id line ∧
          after.mResources id = some (inherited (ResourceManager.loadFiles files) line)) ∧
      ∀ keys, Enumerates keys (ResourceManager.loadFiles files) → ∃ bound, ∀ fuel, bound ≤ fuel →
        ResourceManager.finalizeAll fuel keys (ResourceManager.loadFiles files) = some after := by
  have hfresh := fresh_loadFiles files
  choose line hline using exists_line hacyclic (finite_loadFiles files)
  refine ⟨⟨fun id => ((ResourceManager.loadFiles files).mResources id).map fun _ =>
    inherited (ResourceManager.loadFiles files) (line id), .unloaded⟩, ⟨hfresh.sentinel.symm, fun id => ?_⟩,
    fun id hid => ?_, fun keys hkeys => ?_⟩
  · rw [Option.isSome_map]
  · obtain ⟨o, ho⟩ := Option.isSome_iff_exists.mp hid
    exact ⟨line id, hline id, by dsimp only; rw [ho, Option.map_some]⟩
  · obtain ⟨bound, hbound⟩ :=
      finalizeAll_of_acyclic hfresh hacyclic (fun id => ⟨line id, hline id⟩) hkeys
    refine ⟨bound, fun fuel hfuel => ?_⟩
    obtain ⟨⟨resources, sentinel⟩, hrun, hsentinel, hsettled, hdone⟩ := hbound fuel hfuel
    rw [hrun, Option.some.injEq, ResourceManager.mk.injEq]
    refine ⟨funext fun id => ?_, hsentinel⟩
    cases hid : (ResourceManager.loadFiles files).mResources id with
    | none =>
      rcases hsettled id with hsame | ⟨hsome, _⟩
      · exact hsame.trans hid
      · rw [hid] at hsome
        cases hsome
    | some o =>
      obtain ⟨_, l, hl, hfound⟩ := hdone id (by rw [hid]; rfl)
      rw [hl.unique (hline id)] at hfound
      exact hfound

section SamePaths

variable {tree' : Listing} (hsame : SamePaths tree tree')
include hsame

/-- INTERNAL: the assets of trees with the same paths. -/
theorem hasModel_iff_of_samePaths (nameSpace basename : List Char) (file : ModelFile ε) :
    HasModel content decode tree nameSpace basename file ↔
      HasModel content decode tree' nameSpace basename file :=
  and_congr_left' (hsame.files _)

theorem loadable_iff_of_samePaths : Loadable content decode tree ↔ Loadable content decode tree' := by
  constructor
  · intro h
    refine ⟨fun nameSpace basename hfile => ?_, fun nameSpace basename hdirectory => ?_⟩
    · obtain ⟨file, hhas⟩ := h.files nameSpace basename ((hsame.files _).mpr hfile)
      exact ⟨file, (hasModel_iff_of_samePaths content decode hsame _ _ _).mp hhas⟩
    · exact h.directories nameSpace basename ((hsame.directories _).mpr hdirectory)
  · intro h
    refine ⟨fun nameSpace basename hfile => ?_, fun nameSpace basename hdirectory => ?_⟩
    · obtain ⟨file, hhas⟩ := h.files nameSpace basename ((hsame.files _).mp hfile)
      exact ⟨file, (hasModel_iff_of_samePaths content decode hsame _ _ _).mpr hhas⟩
    · exact h.directories nameSpace basename ((hsame.directories _).mp hdirectory)

theorem holdsModels_of_samePaths {m : ResourceManager ε} (h : HoldsModels content decode tree m) :
    HoldsModels content decode tree' m := by
  refine ⟨h.sentinel, fun id o => (h.models id o).trans ?_⟩
  simp only [hasModel_iff_of_samePaths content decode hsame]

end SamePaths

/-- INTERNAL: a start on a host, in terms of its two loops. -/
theorem startUp_eq {host : Host} {root : List Char} {fuel : ℕ} {nodes : TreeNodes}
    (hbuilt : buildTree host fuel [.create root] = .ok nodes) (order : ResourceManager ε → List Identifier) :
    ResourceManager.startUp content decode host root order fuel =
      ResourceManager.load content decode nodes order fuel := by
  unfold ResourceManager.startUp
  rw [hbuilt]
  rfl

/-- INTERNAL: a start behind the first loop, over the tree or one with the same paths. -/
theorem startUp_eq_elim {m : ResourceManager ε} (hempty : decode [] = none)
    (hloadable : Loadable content decode tree) (hholds : HoldsModels content decode tree m) {host : Host}
    {root : List Char} {tree' : Listing} {order : ResourceManager ε → List Identifier} {fuel : ℕ}
    (hsame : SamePaths tree tree') (hproper : tree'.Proper) (hdistinct : tree'.Distinct)
    (hbuilt : buildTree host fuel [.create root] = .ok (extended 0 TreeNodes.root 0 tree')) :
    ResourceManager.startUp content decode host root order fuel =
      (ResourceManager.finalizeAll fuel (order m) m).elim (.error .tooDeep) .ok := by
  have hloaded := (loadNodes_eq_ok_iff content decode hproper hdistinct hempty m).mpr
    ⟨(loadable_iff_of_samePaths content decode hsame).mp hloadable,
      holdsModels_of_samePaths content decode hsame hholds⟩
  rw [startUp_eq content decode hbuilt, ResourceManager.load, hloaded]
  cases hfinal : ResourceManager.finalizeAll fuel (order m) m with
  | none => simp only [bind, Except.bind, hfinal, Option.elim_none]
  | some after => simp only [bind, Except.bind, hfinal, Option.elim_some]

/-- INTERNAL: what is finalized is determined by what was loaded. -/
theorem finalized_unique {m after after' : ResourceManager ε} (hentries : SameEntries m after)
    (hentries' : SameEntries m after')
    (hmodels : ∀ id, (m.mResources id).isSome →
      ∃ line, Line (parentOf m) id line ∧ after.mResources id = some (inherited m line))
    (hmodels' : ∀ id, (m.mResources id).isSome →
      ∃ line, Line (parentOf m) id line ∧ after'.mResources id = some (inherited m line)) : after = after' := by
  have hresources : after.mResources = after'.mResources := by
    funext id
    cases hid : m.mResources id with
    | none =>
      have hnone := hentries.keys id
      have hnone' := hentries'.keys id
      rw [hid, Option.isSome_none, Option.isSome_eq_false_iff, Option.isNone_iff_eq_none] at hnone hnone'
      rw [hnone, hnone']
    | some o =>
      have hsome : (m.mResources id).isSome := by
        rw [hid]
        rfl
      obtain ⟨line, hline, hfound⟩ := hmodels id hsome
      obtain ⟨line', hline', hfound'⟩ := hmodels' id hsome
      rw [hfound, hfound', hline.unique hline']
  have hsentinel := hentries.sentinel.trans hentries'.sentinel.symm
  cases after
  cases after'
  congr

/-- INTERNAL: there is a way in which the program is to start. -/
theorem exists_startsAs (hproper : tree.Proper) (hdistinct : tree.Distinct) (hempty : decode [] = none) :
    ∃ outcome, StartsAs content decode tree outcome := by
  by_cases hloadable : Loadable content decode tree
  · have hholds := holdsModels_loadFiles content decode hproper hdistinct hempty
    generalize (assetsIn tree).filterMap (modelOf content decode) = files at hholds
    by_cases hacyclic : Acyclic (parentOf (ResourceManager.loadFiles files))
    · obtain ⟨after, hentries, hmodels, _⟩ := exists_finalized hacyclic
      exact ⟨.ok after, .finalized hloadable hholds hacyclic hentries hmodels⟩
    · exact ⟨.error .tooDeep, .tooDeep hloadable hholds hacyclic⟩
  · exact ⟨.error .malformed, .malformed hloadable⟩

/-- INTERNAL: every start ends in this way. -/
theorem startUp_of_startsAs (hproper : tree.Proper) (hdistinct : tree.Distinct) (hempty : decode [] = none)
    {outcome : Except LoadFailure (ResourceManager ε)} (h : StartsAs content decode tree outcome) {host : Host}
    {root : List Char} {tree' : Listing} {order : ResourceManager ε → List Identifier}
    (hsame : SamePaths tree tree') (hserved : tree'.Served host (HostStorage.create root).mRoot)
    (hproper' : tree'.Proper) (hdistinct' : tree'.Distinct) (horder : IsOrder order) :
    ∃ bound, ∀ fuel ≥ bound, ResourceManager.startUp content decode host root order fuel = outcome := by
  have hstored := holdsModels_loadFiles content decode hproper hdistinct hempty
  have hfinite := finite_keys_loadFiles ((assetsIn tree).filterMap (modelOf content decode))
  have hfresh := fresh_loadFiles ((assetsIn tree).filterMap (modelOf content decode))
  generalize (assetsIn tree).filterMap (modelOf content decode) = files at hstored hfinite hfresh
  obtain ⟨turns, hturns⟩ := buildTree_storage hserved hproper'
  cases h with
  | malformed hnot =>
    refine ⟨turns, fun fuel hfuel => ?_⟩
    have hnot' : ¬Loadable content decode tree' := fun h =>
      hnot ((loadable_iff_of_samePaths content decode hsame).mpr h)
    rw [startUp_eq content decode (hturns fuel hfuel), ResourceManager.load,
      loadNodes_eq_malformed content decode hproper' hdistinct' hempty hnot']
    rfl
  | tooDeep hloadable hholds hcycle =>
    obtain rfl := holdsModels_unique content decode hstored hholds
    refine ⟨turns, fun fuel hfuel => ?_⟩
    have hfinal : (ResourceManager.loadFiles files).notFoundSentinel.finalized = true := by
      rw [hfresh.sentinel]
      rfl
    obtain ⟨i, hcycle⟩ : ∃ i, Relation.TransGen (ParentOf (parentOf (ResourceManager.loadFiles files))) i i := by
      by_contra hnone
      exact hcycle fun i hi => hnone ⟨i, hi⟩
    rw [startUp_eq_elim content decode hempty hloadable hholds hsame hproper' hdistinct' (hturns fuel hfuel),
      not_finalized_of_cycle (horder _ hfinite) hfinal hcycle, Option.elim_none]
  | finalized hloadable hholds hacyclic hentries hmodels =>
    obtain rfl := holdsModels_unique content decode hstored hholds
    obtain ⟨after', hentries', hmodels', hends⟩ := exists_finalized hacyclic
    obtain rfl := finalized_unique hentries hentries' hmodels hmodels'
    obtain ⟨bound, hbound⟩ := hends _ (horder _ hfinite)
    refine ⟨max turns bound, fun fuel hfuel => ?_⟩
    have hbuilt := hturns fuel (le_trans (le_max_left _ _) hfuel)
    rw [startUp_eq_elim content decode hempty hloadable hholds hsame hproper' hdistinct' hbuilt,
      hbound fuel (le_trans (le_max_right _ _) hfuel), Option.elim_some]

/-- SOURCE: application.cc:168-176, resource/resource.cc:13-39, resource/model.cc:167-188, vfs/vfs.cc:18-38 —
**the start depends on the files only**. For the files and directories of a tree there is one way in which the
program starts, the one that they call for, wherever on whatever host they are, in whatever order each of the
directories is read, and in whatever order the manager has its models. -/
theorem start_depends_on_files (hproper : tree.Proper) (hdistinct : tree.Distinct) (hempty : decode [] = none) :
    ∃ outcome, StartsAs content decode tree outcome ∧
      ∀ host root tree' order, SamePaths tree tree' → tree'.Served host (HostStorage.create root).mRoot →
        tree'.Proper → tree'.Distinct → IsOrder order →
        ∃ bound, ∀ fuel ≥ bound, ResourceManager.startUp content decode host root order fuel = outcome := by
  obtain ⟨outcome, hstarts⟩ := exists_startsAs content decode hproper hdistinct hempty
  refine ⟨outcome, hstarts, ?_⟩
  intro host root tree' order hsame hserved hproper' hdistinct' horder
  exact startUp_of_startsAs content decode hproper hdistinct hempty hstarts hsame hserved hproper' hdistinct'
    horder

/-- An order of the models of every manager that has finitely many. -/
noncomputable def someOrder (m : ResourceManager ε) : List Identifier :=
  open Classical in
  if h : {id | m.mResources id ≠ none}.Finite then h.toFinset.toList else []

theorem isOrder_someOrder : IsOrder (someOrder : ResourceManager ε → List Identifier) := by
  intro m hfinite
  unfold someOrder
  rw [dif_pos hfinite]
  refine ⟨Finset.nodup_toList _, fun id => ?_⟩
  rw [Finset.mem_toList, Set.Finite.mem_toFinset, ← Option.ne_none_iff_isSome]
  rfl

theorem start_depends_on_files_one_model :
    ∃ outcome, StartsAs (fun _ _ => [0]) plainDecode oneModel outcome ∧
      ∃ bound, ∀ fuel ≥ bound,
        ResourceManager.startUp (fun _ _ => [0]) plainDecode oneModelHost ['x'] someOrder fuel = outcome := by
  obtain ⟨outcome, hstarts, hall⟩ :=
    start_depends_on_files (fun _ _ => [0]) plainDecode oneModel_proper oneModel_distinct rfl
  exact ⟨outcome, hstarts, hall oneModelHost ['x'] oneModel someOrder ⟨fun _ => Iff.rfl, fun _ => Iff.rfl⟩
    oneModel_served oneModel_proper oneModel_distinct isOrder_someOrder⟩

end Mccpp.Analysis
