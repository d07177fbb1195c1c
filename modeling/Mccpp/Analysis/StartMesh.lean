import Mccpp.Analysis.AssetStart
import Mccpp.Analysis.ModelWinding
import Mccpp.Interface.StartMesh

/-!
# What is drawn at the start comes from the files

Vertices behind those that there are do not change what the indices fetch, and the indices of a side fetch its own
vertices, so that a mesh draws one model behind the other. Which elements the models have is what the start leaves.
-/

set_option autoImplicit false

namespace Mccpp.Analysis

open Mccpp.Library Mccpp.Model Mccpp.Interface

/-! ## Fetching vertices -/

section

variable {K A : Type} [Field K]

/-- The triangles of the sides of a model that are drawn. -/
def modelTriangles (glm : Glm K A) (model : List (ModelElement K A)) : List (ModelVertex K) :=
  (modelSides model).flatMap fun f => quadTriangles (sideVertices glm f.1 f.2)

omit [Field K] in
theorem fetched_map {mesh : ModelMesh K} {triangles : List (ModelVertex K)} (f : ModelVertex K → ModelVertex K)
    (h : fetched mesh = triangles.map some) :
    fetched { mesh with vertices := mesh.vertices.map f } = (triangles.map f).map some := by
  have hlookup : ∀ index : BitVec 32,
      (mesh.vertices.map f)[index.toNat]? = (mesh.vertices[index.toNat]?).map f := fun index => List.getElem?_map
  calc fetched { mesh with vertices := mesh.vertices.map f }
      = (fetched mesh).map (Option.map f) := by
        unfold fetched
        rw [List.map_map]
        exact List.map_congr_left fun index _ => hlookup index
    _ = (triangles.map f).map some := by
        rw [h, List.map_map, List.map_map]
        rfl

omit [Field K] in
/-- INTERNAL: **a quad behind a mesh**, as long as 32 bits hold its indices. -/
theorem fetched_append {mesh : ModelMesh K} {triangles quad : List (ModelVertex K)}
    (h : fetched mesh = triangles.map some) (hquad : quad.length = 4) (hfits : mesh.vertices.length + 4 ≤ 2 ^ 32) :
    fetched ⟨mesh.vertices ++ quad, mesh.indicies ++ sideIndices mesh.vertices.length⟩ =
      (triangles ++ quadTriangles quad).map some := by
  have hbefore : mesh.indicies.map (fun index => (mesh.vertices ++ quad)[index.toNat]?) = triangles.map some := by
    rw [← h]
    apply List.map_congr_left
    intro index hindex
    have hmem : mesh.vertices[index.toNat]? ∈ triangles.map some := by
      rw [← h]
      exact List.mem_map.mpr ⟨index, hindex, rfl⟩
    obtain ⟨vertex, _, hvertex⟩ := List.mem_map.mp hmem
    exact List.getElem?_append_left (List.getElem?_eq_some_iff.mp hvertex.symm).1
  have hbehind : (sideIndices mesh.vertices.length).map (fun index => (mesh.vertices ++ quad)[index.toNat]?) =
      (quadTriangles quad).map some := by
    obtain ⟨p, q, r, s, rfl⟩ := List.length_eq_four.mp hquad
    have hindex : ∀ j < 4, (mesh.vertices ++ [p, q, r, s])[
        (BitVec.ofNat 32 (mesh.vertices.length + j)).toNat]? = [p, q, r, s][j]? := by
      intro j hj
      rw [toNat_sideIndex hfits hj, List.getElem?_append_right (Nat.le_add_right _ _), Nat.add_sub_cancel_left]
    simp only [sideIndices, List.map_cons, List.map_nil, hindex 0 (by decide), hindex 1 (by decide),
      hindex 2 (by decide), hindex 3 (by decide)]
    rfl
  rw [fetched, List.map_append, hbefore, hbehind, List.map_append]

/-- INTERNAL: **sides one after another**. -/
theorem fetched_foldl_appendSide (glm : Glm K A) {sides : List (ModelElement K A × Side)} {mesh : ModelMesh K}
    {triangles : List (ModelVertex K)} (h : fetched mesh = triangles.map some)
    (hfits : mesh.vertices.length + 4 * sides.length ≤ 2 ^ 32) :
    fetched (sides.foldl (appendSide glm) (mesh, mesh.vertices.length)).1 =
      (triangles ++ sides.flatMap fun f => quadTriangles (sideVertices glm f.1 f.2)).map some := by
  induction sides generalizing mesh triangles with
  | nil => rw [List.foldl_nil, List.flatMap_nil, List.append_nil, h]
  | cons f sides ih =>
    rw [List.length_cons] at hfits
    have hquad := length_sideVertices glm f.1 f.2
    have hnext := fetched_append h hquad (by omega)
    have hlength : (mesh.vertices ++ sideVertices glm f.1 f.2).length = mesh.vertices.length + 4 := by
      rw [List.length_append, hquad]
    have hrest := ih hnext (by rw [hlength]; omega)
    rw [hlength] at hrest
    rw [List.foldl_cons, List.flatMap_cons, ← List.append_assoc]
    exact hrest

/-- INTERNAL: **a model behind a mesh**.
SOURCE: renderer/renderer.cc:104-221 -/
theorem fetched_generateModelMesh (glm : Glm K A) {model : List (ModelElement K A)} {mesh : ModelMesh K}
    {triangles : List (ModelVertex K)} (h : fetched mesh = triangles.map some)
    (hfits : (generateModelMesh glm model mesh).vertices.length ≤ 2 ^ 32) :
    fetched (generateModelMesh glm model mesh) = (triangles ++ modelTriangles glm model).map some := by
  rw [length_vertices] at hfits
  have hsides := fetched_foldl_appendSide glm h hfits
  rw [foldl_appendSide] at hsides
  rw [generateModelMesh_eq]
  exact hsides

theorem fetched_startMesh (glm : Glm K A) (m : ResourceManager (ElementData K A))
    (hfits : (startMesh glm m).vertices.length ≤ 2 ^ 32) :
    fetched (startMesh glm m) =
      ((modelTriangles glm (m.drawnElements "block/cobblestone")).map ModelVertex.lowered ++
        modelTriangles glm (m.drawnElements "block/fern")).map some := by
  have hfirst : (generateModelMesh glm (m.drawnElements "block/cobblestone") ⟨[], []⟩).vertices.length ≤
      2 ^ 32 := by
    rw [startMesh, length_vertices, List.length_map] at hfits
    omega
  have hnone : fetched (⟨[], []⟩ : ModelMesh K) = ([] : List (ModelVertex K)).map some := rfl
  have hcobblestone := fetched_generateModelMesh glm hnone hfirst
  exact fetched_generateModelMesh glm (fetched_map ModelVertex.lowered hcobblestone) hfits

end

/-! ## The elements -/

variable {ε : Type} {content : StorageContent} {decode : List Byte → Option (ModelFile ε)} {tree : Listing}

/-- INTERNAL: a model has the elements that the files give, and none if it is not there.
SOURCE: resource/resource.hh:99-107, resource/model.cc:172-188 -/
theorem givesElements_models {m after : ResourceManager ε} (hholds : HoldsModels content decode tree m)
    (hentries : SameEntries m after)
    (hmodels : ∀ id, (m.mResources id).isSome →
      ∃ line, Line (parentOf m) id line ∧ after.mResources id = some (inherited m line))
    (nameSpace basename : List Char) :
    GivesElements content decode tree nameSpace basename
      (after.deref (after.models (blockId nameSpace basename))).mElements := by
  have hempty : (blockId nameSpace basename).empty = false := by
    simp [blockId, Identifier.empty]
  cases hid : m.mResources (blockId nameSpace basename) with
  | none =>
    have hafter : after.mResources (blockId nameSpace basename) = none := by
      have hkeys := hentries.keys (blockId nameSpace basename)
      rwa [hid, Option.isSome_none, Option.isSome_eq_false_iff, Option.isNone_iff_eq_none] at hkeys
    have hmodel : after.deref (after.models (blockId nameSpace basename)) = .unloaded := by
      rw [ResourceManager.models, hempty, ResourceManager.getInternal, hafter]
      exact hentries.sentinel.trans hholds.sentinel
    have htop : parentOf m (blockId nameSpace basename) = none := by
      rw [parentOf, hid, Option.bind_none]
    refine ⟨m, [blockId nameSpace basename], hholds, .top _ htop, ?_⟩
    rw [hmodel, List.map_singleton, elementsOf, hid]
    rfl
  | some o =>
    obtain ⟨line, hline, hafter⟩ := hmodels (blockId nameSpace basename) (by rw [hid]; rfl)
    have hmodel : after.deref (after.models (blockId nameSpace basename)) = inherited m line := by
      simp only [ResourceManager.models, hempty, ResourceManager.getInternal, hafter, Bool.false_eq_true, if_false,
        Option.map_some, Option.getD_some, ResourceManager.deref]
    refine ⟨m, line, hholds, hline, ?_⟩
    rw [hmodel]
    rfl

/-- SOURCE: renderer/renderer.cc:345-352, renderer/renderer.cc:104-221, resource/resource.hh:99-107,
resource/model.cc:167-189 — **what is drawn at the start comes from the files**. Where the files of a tree let the
program start, every start has the manager they call for, and the buffers of the renderer draw the sides of the
model `cobblestone`, one block further down, and then those of `fern`, both with the elements that the files give
them and with triangles of their own vertices, as long as the indices of all vertices are held by 32 bits. -/
theorem start_draws_files {K A : Type} [Field K] (glm : Glm K A) {content : StorageContent}
    {decode : List Byte → Option (ModelFile (ElementData K A))} {tree : Listing} (hproper : tree.Proper)
    (hdistinct : tree.Distinct) (hempty : decode [] = none) {m : ResourceManager (ElementData K A)}
    (hstarts : StartsAs content decode tree (.ok m)) (hfits : (startMesh glm m).vertices.length ≤ 2 ^ 32) :
    (∀ host root tree' order, SamePaths tree tree' → tree'.Served host (HostStorage.create root).mRoot →
        tree'.Proper → tree'.Distinct → IsOrder order →
        ∃ bound, ∀ fuel ≥ bound, ResourceManager.startUp content decode host root order fuel = .ok m) ∧
      ∃ cobblestone fern, GivesElements content decode tree "minecraft".toList "cobblestone".toList cobblestone ∧
        GivesElements content decode tree "minecraft".toList "fern".toList fern ∧
        fetched (startMesh glm m) =
          ((modelTriangles glm (cobblestone.map ElementData.drawn)).map ModelVertex.lowered ++
            modelTriangles glm (fern.map ElementData.drawn)).map some := by
  constructor
  · intro host root tree' order hsame hserved hproper' hdistinct' horder
    exact startUp_of_startsAs content decode hproper hdistinct hempty hstarts hsame hserved hproper' hdistinct'
      horder
  · cases hstarts with
    | finalized _ hholds _ hentries hmodels =>
      have hgives := givesElements_models hholds hentries hmodels "minecraft".toList
      exact ⟨_, _, hgives "cobblestone".toList, hgives "fern".toList, fetched_startMesh glm m hfits⟩

/-! ## Two models -/

/-- A directory with the two models. -/
def twoModels : Listing :=
  .directory "minecraft".toList (.directory "models".toList (.directory "block".toList
    (.file "cobblestone.json".toList (.file "fern.json".toList .done)) .done) .done) .done

/-- Files whose texts are as long as their paths. -/
def pathContent : StorageContent := fun _ path => List.replicate path.length 0

/-- A text is taken for a plate as high as it is long. -/
def plateDecode (text : List Byte) : Option (ModelFile (ElementData ℚ (Fin 4))) :=
  if text = [] then none
  else some ⟨none, some [initialElementData quarterGlm ⟨0, 0, 0⟩ ⟨16, text.length, 16⟩], none⟩

theorem twoModels_proper : twoModels.Proper :=
  ⟨by decide, ⟨by decide, ⟨by decide, ⟨by decide, by decide, trivial⟩, trivial⟩, trivial⟩, trivial⟩

theorem twoModels_distinct : twoModels.Distinct :=
  ⟨by decide, by decide, ⟨by decide, by decide, ⟨by decide, by decide, ⟨by decide, by decide, by decide, by decide,
    trivial⟩, trivial⟩, trivial⟩, trivial⟩

theorem twoModels_loadable : Loadable pathContent plateDecode twoModels where
  files _ _ h := ⟨_, h, if_neg (by simp [pathContent])⟩
  directories nameSpace basename h := by
    simp [twoModels, Listing.HasDirectory, blockPath] at h

theorem plates_of_holdsModels {m : ResourceManager (ElementData ℚ (Fin 4))}
    (h : HoldsModels pathContent plateDecode twoModels m) (id : Identifier) :
    parentOf m id = none ∧ (elementsOf m id).length ≤ 1 := by
  cases hid : m.mResources id with
  | none => simp [parentOf, elementsOf, hid]
  | some o =>
    obtain ⟨_, _, file, ⟨_, hfile⟩, _, rfl⟩ := (h.models id o).mp hid
    rw [plateDecode] at hfile
    split_ifs at hfile
    obtain rfl := Option.some.inj hfile
    simp [parentOf, elementsOf, hid, ModelObject.construct, Identifier.unnamed, Identifier.empty]

theorem length_firstElements_le {ε : Type} {lists : List (List ε)} {n : ℕ} (h : ∀ l ∈ lists, l.length ≤ n) :
    (firstElements lists).length ≤ n := by
  induction lists with
  | nil => exact Nat.zero_le n
  | cons l lists ih =>
    rw [firstElements]
    split_ifs
    · exact ih fun l hl => h l (List.mem_cons_of_mem _ hl)
    · exact h l List.mem_cons_self

theorem length_modelSides_le {K A : Type} (model : List (ModelElement K A)) :
    (modelSides model).length ≤ 6 * model.length := by
  induction model with
  | nil => exact Nat.zero_le _
  | cons e model ih =>
    have hsides : (drawnSides e).length ≤ 6 := List.length_filter_le _ _
    rw [modelSides] at ih ⊢
    rw [List.flatMap_cons, List.length_append, List.length_map, List.length_cons]
    omega

theorem length_le_of_givesElements {nameSpace basename : List Char} {elements : List (ElementData ℚ (Fin 4))}
    (h : GivesElements pathContent plateDecode twoModels nameSpace basename elements) : elements.length ≤ 1 := by
  obtain ⟨m, line, hholds, _, rfl⟩ := h
  apply length_firstElements_le
  intro l hl
  obtain ⟨id, _, rfl⟩ := List.mem_map.mp hl
  exact (plates_of_holdsModels hholds id).2

theorem two_models_start : ∃ m, StartsAs pathContent plateDecode twoModels (.ok m) ∧
    (startMesh quarterGlm m).vertices.length ≤ 2 ^ 32 := by
  obtain ⟨outcome, hstarts⟩ :=
    exists_startsAs pathContent plateDecode twoModels_proper twoModels_distinct rfl
  cases hstarts with
  | malformed hnot => exact absurd twoModels_loadable hnot
  | tooDeep _ hholds hcycle =>
    refine absurd ?_ hcycle
    intro i hi
    obtain ⟨j, hparent, _⟩ := Relation.TransGen.head'_iff.mp hi
    rw [ParentOf, (plates_of_holdsModels hholds i).1] at hparent
    cases hparent
  | @finalized m after hloadable hholds hacyclic hentries hmodels =>
    refine ⟨after, .finalized hloadable hholds hacyclic hentries hmodels, ?_⟩
    have hgives := givesElements_models hholds hentries hmodels "minecraft".toList
    have hcobblestone := length_modelSides_le (after.drawnElements "block/cobblestone")
    have hfern := length_modelSides_le (after.drawnElements "block/fern")
    have hone : (after.drawnElements "block/cobblestone").length ≤ 1 := by
      rw [ResourceManager.drawnElements, List.length_map]
      exact length_le_of_givesElements (hgives "cobblestone".toList)
    have hone' : (after.drawnElements "block/fern").length ≤ 1 := by
      rw [ResourceManager.drawnElements, List.length_map]
      exact length_le_of_givesElements (hgives "fern".toList)
    rw [startMesh, length_vertices, List.length_map, length_vertices, List.length_nil]
    omega

theorem start_draws_files_two_models :
    ∃ m cobblestone fern,
      GivesElements pathContent plateDecode twoModels "minecraft".toList "cobblestone".toList cobblestone ∧
        GivesElements pathContent plateDecode twoModels "minecraft".toList "fern".toList fern ∧
        fetched (startMesh quarterGlm m) =
          ((modelTriangles quarterGlm (cobblestone.map ElementData.drawn)).map ModelVertex.lowered ++
            modelTriangles quarterGlm (fern.map ElementData.drawn)).map some := by
  obtain ⟨m, hstarts, hfits⟩ := two_models_start
  exact ⟨m, (start_draws_files quarterGlm twoModels_proper twoModels_distinct rfl hstarts hfits).2⟩

end Mccpp.Analysis
