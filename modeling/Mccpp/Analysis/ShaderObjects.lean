import Mccpp.Interface.ShaderObjects

/-!
# Shader objects come and go with a load

A stage that compiles is attached and marked at once, so it goes when it is detached, and a stage that does
not compile goes at once. So a load that returns leaves no shader object behind, and one that throws leaves
those it has attached (`loadStages_spec`). The program of a shader is never deleted: what `unload()` deletes
is a shader object, and GL refuses its name.
-/

set_option autoImplicit false

namespace Mccpp.Analysis

open Mccpp.Model Mccpp.Interface

variable {programs : List ℕ} {attached : List (ℕ × ℕ)} {errors : ℕ}

/-! ## Stages -/

/-- INTERNAL: a name that is taken by no object. -/
theorem isFresh_iff {name : ℕ} : (contextOf programs attached errors).isFresh name = true ↔
    name ≠ 0 ∧ name ∉ programs ∧ name ∉ attached.map Prod.snd := by
  rw [Gl.isFresh, Bool.and_eq_true, Bool.and_eq_true, decide_eq_true_iff, decide_eq_true_iff,
    decide_eq_true_iff, and_assoc]
  rfl

theorem erase_append_singleton {l : List ℕ} {a : ℕ} (h : a ∉ l) : (l ++ [a]).erase a = l := by
  rw [List.erase_append_right _ h, List.erase_cons_head, List.append_nil]

/-- INTERNAL: **a stage** is attached, or leaves nothing behind.
SOURCE: renderer/shader.cc:43-76 -/
theorem compileAndAttachShader_spec (hnames : NamesApart programs attached) {program : ℕ}
    (hprogram : program ∈ programs) (a : StageAnswers) :
    compileAndAttachShader (contextOf programs attached errors) program a =
        (0, contextOf programs attached errors) ∨
      a.compiles = true ∧ a.shader ≠ 0 ∧ NamesApart programs (attached ++ [(program, a.shader)]) ∧
        compileAndAttachShader (contextOf programs attached errors) program a =
          (a.shader, contextOf programs (attached ++ [(program, a.shader)]) errors) := by
  by_cases hfresh : (contextOf programs attached errors).isFresh a.shader = true
  · obtain ⟨hzero, hnoProgram, hnoShader⟩ := isFresh_iff.mp hfresh
    have hcreate : (contextOf programs attached errors).createShader a.shader =
        (a.shader, { contextOf programs attached errors with shaders := attached.map Prod.snd ++ [a.shader] }) := by
      rw [Gl.createShader, if_pos hfresh]
      rfl
    cases hcompiles : a.compiles with
    | true =>
      right
      refine ⟨rfl, hzero, ⟨hnames.noProgram, ?_, ?_, ?_, ?_⟩, ?_⟩
      · simp only [List.map_append, List.map_cons, List.map_nil, List.mem_append, List.mem_singleton, not_or]
        exact ⟨hnames.noShader, Ne.symm hzero⟩
      · simp only [List.map_append, List.map_cons, List.map_nil]
        exact List.nodup_append'.mpr ⟨hnames.nodup, List.nodup_singleton _, by simpa using hnoShader⟩
      · intro name hname
        simp only [List.map_append, List.map_cons, List.map_nil, List.mem_append, List.mem_singleton, not_or]
        exact ⟨hnames.disjoint name hname, fun h => hnoProgram (h ▸ hname)⟩
      · intro p hp
        rcases List.mem_append.mp hp with hp | hp
        · exact hnames.there p hp
        · rw [List.mem_singleton.mp hp]
          exact hprogram
      · have hapart : (program, a.shader) ∉ attached := fun h => hnoShader (List.mem_map_of_mem h)
        simp only [List.mem_map, Prod.exists, exists_eq_right, not_exists] at hnoShader
        rw [compileAndAttachShader, hcreate]
        simp [hzero, hcompiles, Gl.attachShader, contextOf, hprogram, hapart, Gl.deleteShader, Gl.sweep,
          hnoShader]
    | false =>
      left
      have hflagged := erase_append_singleton hnoShader
      simp only [List.mem_map, Prod.exists, exists_eq_right, not_exists] at hnoShader
      rw [compileAndAttachShader, hcreate]
      simp [hzero, hcompiles, contextOf, Gl.deleteShader, Gl.sweep, hnoShader, hflagged]
  · left
    simp [compileAndAttachShader, Gl.createShader, hfresh]

/-! ## Loading -/

/-- INTERNAL: what is detached first goes first.
SOURCE: renderer/shader.cc:116-119 -/
theorem detachShader_contextOf {program shader : ℕ} {rest : List (ℕ × ℕ)}
    (hnames : NamesApart programs (attached ++ (program, shader) :: rest)) :
    (contextOf programs (attached ++ (program, shader) :: rest) errors).detachShader program shader =
      contextOf programs (attached ++ rest) errors := by
  have hnodup := hnames.nodup
  rw [List.map_append, List.map_cons] at hnodup
  have hother : shader ∉ attached.map Prod.snd ++ rest.map Prod.snd :=
    (List.nodup_cons.mp (List.nodup_middle.mp hnodup)).1
  have hbefore : shader ∉ attached.map Prod.snd := fun h => hother (List.mem_append_left _ h)
  have hpair : (program, shader) ∉ attached := fun h => hbefore (List.mem_map_of_mem h)
  have herase : (attached ++ (program, shader) :: rest).erase (program, shader) = attached ++ rest := by
    rw [List.erase_append_right _ hpair, List.erase_cons_head]
  have heraseName : (attached.map Prod.snd ++ shader :: rest.map Prod.snd).erase shader =
      attached.map Prod.snd ++ rest.map Prod.snd := by
    rw [List.erase_append_right _ hbefore, List.erase_cons_head]
  rw [Gl.detachShader, if_pos (by simp [contextOf])]
  simp only [contextOf, herase, Gl.sweep, List.map_append, List.map_cons, heraseName]
  rw [if_pos ⟨List.mem_append_right _ List.mem_cons_self, hother⟩]

theorem namesApart_of_sublist (hnames : NamesApart programs attached) {fewer : List (ℕ × ℕ)}
    (h : fewer.Sublist attached) : NamesApart programs fewer where
  noProgram := hnames.noProgram
  noShader hzero := hnames.noShader ((h.map Prod.snd).subset hzero)
  nodup := hnames.nodup.sublist (h.map Prod.snd)
  disjoint name hname hmem := hnames.disjoint name hname ((h.map Prod.snd).subset hmem)
  there p hp := hnames.there p (h.subset hp)

/-- INTERNAL: **what a load has attached is detached**, by induction on it. -/
theorem detachObjects_contextOf {program : ℕ} {objects : List ℕ}
    (hnames : NamesApart programs (attached ++ objects.map fun shader => (program, shader))) :
    detachObjects program objects
        (contextOf programs (attached ++ objects.map fun shader => (program, shader)) errors) =
      contextOf programs attached errors := by
  induction objects with
  | nil =>
    rw [List.map_nil, List.append_nil]
    rfl
  | cons shader objects ih =>
    have hsublist : (attached ++ objects.map fun shader => (program, shader)).Sublist
        (attached ++ (shader :: objects).map fun shader => (program, shader)) :=
      List.Sublist.append (List.Sublist.refl _) (List.sublist_cons_self _ _)
    rw [detachObjects, List.foldl_cons, List.map_cons, detachShader_contextOf hnames]
    exact ih (namesApart_of_sublist hnames hsublist)

/-- INTERNAL: **the loop of a load**, by induction on the stages: where it returns, the context is as it was
before the load, and where it throws, a stage had no resource.
SOURCE: renderer/shader.cc:110-134 -/
theorem loadStages_spec (errors : ℕ) (attached : List (ℕ × ℕ)) {program : ℕ} (hprogram : program ∈ programs) (links : Bool)
    (stages : List StageAnswers) (objects : List ℕ)
    (hnames : NamesApart programs (attached ++ objects.map fun shader => (program, shader))) :
    (∃ success, loadStages program links stages objects
        (contextOf programs (attached ++ objects.map fun shader => (program, shader)) errors) =
          (.returned success, contextOf programs attached errors) ∧
        (success = true → links = true ∧ ∀ a ∈ stages, a.resource = true ∧ a.compiles = true)) ∨
      (∃ a ∈ stages, a.resource = false) ∧ ∃ more : List ℕ,
        NamesApart programs (attached ++ more.map fun shader => (program, shader)) ∧
        loadStages program links stages objects
          (contextOf programs (attached ++ objects.map fun shader => (program, shader)) errors) =
            (.threw, contextOf programs (attached ++ more.map fun shader => (program, shader)) errors) := by
  induction stages generalizing objects with
  | nil =>
    left
    refine ⟨links, ?_, fun h => ⟨h, by simp⟩⟩
    rw [loadStages, detachObjects_contextOf hnames]
  | cons a stages ih =>
    rw [loadStages]
    cases hresource : a.resource with
    | false => exact Or.inr ⟨⟨a, List.mem_cons_self, hresource⟩, objects, hnames, rfl⟩
    | true =>
      rw [if_pos rfl]
      rcases compileAndAttachShader_spec hnames hprogram a with hnone | ⟨hcompiles, hzero, hnames', hsome⟩
      · left
        refine ⟨false, ?_, by simp⟩
        rw [hnone]
        simp only [if_true]
        rw [detachObjects_contextOf hnames]
      · have hmore : attached ++ (objects.map fun shader => (program, shader)) ++ [(program, a.shader)] =
            attached ++ (objects ++ [a.shader]).map fun shader => (program, shader) := by
          rw [List.map_append, List.append_assoc]
          rfl
        rw [hmore] at hnames' hsome
        rw [hsome]
        simp only [hzero, if_false]
        rcases ih (objects ++ [a.shader]) hnames' with ⟨success, hloaded, hall⟩ | ⟨⟨b, hb, hmissing⟩, hthrew⟩
        · refine Or.inl ⟨success, hloaded, fun h => ⟨(hall h).1, ?_⟩⟩
          exact List.forall_mem_cons.mpr ⟨⟨hresource, hcompiles⟩, (hall h).2⟩
        · exact Or.inr ⟨⟨b, List.mem_cons_of_mem a hb, hmissing⟩, hthrew⟩

/-- What a load does to the program of its shader and to the context: a program is kept, or a new one made,
and shader objects stay attached only where `get` of a resource throws. -/
structure LoadKeeps (mId : ℕ) (programs : List ℕ) (attached : List (ℕ × ℕ)) (a : LoadAnswers) (loaded : Loaded)
    (mId' : ℕ) (programs' : List ℕ) (attached' : List (ℕ × ℕ)) : Prop where
  names : NamesApart programs' attached'
  program : mId' = mId ∧ programs' = programs ∨
    mId = 0 ∧ mId' ∉ programs ∧ programs' = programs ++ [mId']
  held : mId' ≠ 0 → mId' ∈ programs'
  clean : (∀ stage ∈ a.stages, stage.resource = true) → attached' = attached
  success : loaded = .returned true →
    mId' ≠ 0 ∧ a.links = true ∧ ∀ stage ∈ a.stages, stage.resource = true ∧ stage.compiles = true

/-- INTERNAL: a load with a program. -/
theorem loadStages_keeps (hnames : NamesApart programs attached) {program : ℕ}
    (hprogram : program ∈ programs) (a : LoadAnswers) :
    ∃ loaded attached', loadStages program a.links a.stages [] (contextOf programs attached errors) =
        (loaded, contextOf programs attached' errors) ∧
      NamesApart programs attached' ∧
      ((∀ stage ∈ a.stages, stage.resource = true) → attached' = attached) ∧
      (loaded = .returned true →
        a.links = true ∧ ∀ stage ∈ a.stages, stage.resource = true ∧ stage.compiles = true) := by
  have hnone : attached ++ ([] : List ℕ).map (fun shader => (program, shader)) = attached := List.append_nil _
  have hspec := loadStages_spec errors attached hprogram a.links a.stages [] (by rw [hnone]; exact hnames)
  rw [hnone] at hspec
  rcases hspec with ⟨success, hloaded, hall⟩ | ⟨⟨stage, hstage, hmissing⟩, more, hmore, hthrew⟩
  · exact ⟨_, _, hloaded, hnames, fun _ => rfl, fun h => hall (Loaded.returned.inj h)⟩
  · refine ⟨_, _, hthrew, hmore, fun hthere => ?_, fun h => ?_⟩
    · rw [hthere stage hstage] at hmissing
      cases hmissing
    · cases h

/-- INTERNAL: **a load**.
SOURCE: renderer/shader.cc:97-124 -/
theorem loadShader_keeps (errors : ℕ) (hnames : NamesApart programs attached) {mId : ℕ} (hheld : mId ≠ 0 → mId ∈ programs)
    (a : LoadAnswers) :
    ∃ loaded mId' programs' attached',
      loadShader mId a (contextOf programs attached errors) =
        (loaded, mId', contextOf programs' attached' errors) ∧
      LoadKeeps mId programs attached a loaded mId' programs' attached' := by
  by_cases hzero : mId = 0
  · by_cases hfresh : (contextOf programs attached errors).isFresh a.program = true
    · obtain ⟨hprogram, hnoProgram, hnoShader⟩ := isFresh_iff.mp hfresh
      have hcreate : (contextOf programs attached errors).createProgram a.program =
          (a.program, contextOf (programs ++ [a.program]) attached errors) := by
        rw [Gl.createProgram, if_pos hfresh]
        rfl
      have hnames' : NamesApart (programs ++ [a.program]) attached := by
        refine ⟨?_, hnames.noShader, hnames.nodup, ?_, fun p hp => List.mem_append_left _ (hnames.there p hp)⟩
        · rw [List.mem_append, List.mem_singleton, not_or]
          exact ⟨hnames.noProgram, Ne.symm hprogram⟩
        · intro name hname
          rcases List.mem_append.mp hname with hname | hname
          · exact hnames.disjoint name hname
          · rw [List.mem_singleton.mp hname]
            exact hnoShader
      have hmem : a.program ∈ programs ++ [a.program] := List.mem_append_right _ List.mem_cons_self
      obtain ⟨loaded, attached', hloaded, hkept, hclean, hsuccess⟩ := loadStages_keeps hnames' hmem a
      refine ⟨loaded, a.program, programs ++ [a.program], attached', ?_, hkept, Or.inr ⟨hzero, hnoProgram, rfl⟩,
        fun _ => hmem, hclean, fun h => ⟨hprogram, hsuccess h⟩⟩
      rw [loadShader, if_pos hzero, hcreate]
      simp only [hprogram, if_false]
      rw [hloaded]
    · refine ⟨.returned false, mId, programs, attached, ?_, hnames, Or.inl ⟨rfl, rfl⟩, hheld, fun _ => rfl,
        fun h => by cases h⟩
      have hnone : (contextOf programs attached errors).createProgram a.program =
          (0, contextOf programs attached errors) := by
        rw [Gl.createProgram, if_neg hfresh]
      rw [loadShader, if_pos hzero, hnone]
      simp only [if_true, hzero]
  · obtain ⟨loaded, attached', hloaded, hkept, hclean, hsuccess⟩ := loadStages_keeps hnames (hheld hzero) a
    refine ⟨loaded, mId, programs, attached', ?_, hkept, Or.inl ⟨rfl, rfl⟩, hheld, hclean,
      fun h => ⟨hzero, hsuccess h⟩⟩
    rw [loadShader, if_neg hzero]
    simp only [hzero, if_false]
    rw [hloaded]

/-- INTERNAL: GL refuses to delete a program as a shader object.
SOURCE: renderer/shader.cc:126-131 -/
theorem unloadShader_contextOf (hnames : NamesApart programs attached) {mId : ℕ}
    (hheld : mId ≠ 0 → mId ∈ programs) :
    unloadShader mId (contextOf programs attached errors) =
      (0, contextOf programs attached (errors + if mId = 0 then 0 else 1)) := by
  by_cases hzero : mId = 0
  · simp [unloadShader, hzero]
  · have hnot : mId ∉ (contextOf programs attached errors).shaders := hnames.disjoint mId (hheld hzero)
    rw [unloadShader, if_neg hzero, Gl.deleteShader, if_neg hzero, if_neg hnot, if_neg hzero]
    rfl

/-! ## Runs -/

section

variable {I : Type} [DecidableEq I]

/-- INTERNAL: an action changes the program of its shader alone. -/
theorem mId_of_eq {s : Shaders I} {mIds : I → ℕ} {i : I} {mId : ℕ} {gl : Gl}
    (h : s = ⟨Function.update mIds i mId, gl⟩) : s.mId i = mId ∧ ∀ j ≠ i, s.mId j = mIds j := by
  subst h
  exact ⟨Function.update_self i mId mIds, fun j hj => Function.update_of_ne hj mId mIds⟩

/-- INTERNAL: **one action** keeps the shaders, and every program that there is; it leaves no shader object
where its resources are there, and GL refuses nothing but the program that is unloaded. -/
theorem shadersKept_act {s : Shaders I} (h : ShadersKept s) (action : ShaderAction I) :
    ShadersKept (s.act action) ∧ (∀ p ∈ s.gl.programs, p ∈ (s.act action).gl.programs) ∧
      (ResourcesThere [action] → s.gl.attached = [] → (s.act action).gl.attached = []) ∧
      (s.act action).gl.errors = s.gl.errors + unloadings s [action] := by
  obtain ⟨programs, attached, errors, hnames, hgl⟩ := h.context
  have hheld : ∀ i, s.mId i ≠ 0 → s.mId i ∈ programs := by
    intro i hi
    have hmem := h.held i hi
    rw [hgl] at hmem
    exact hmem
  cases action with
  | load i a =>
    obtain ⟨loaded, mId, programs', attached', hload, hkeeps⟩ :=
      loadShader_keeps errors hnames (hheld i) a
    have hact : s.act (.load i a) = ⟨Function.update s.mId i mId, contextOf programs' attached' errors⟩ := by
      rw [Shaders.act, hgl, hload]
    have hgrow : ∀ p ∈ programs, p ∈ programs' := by
      rcases hkeeps.program with ⟨-, hsame⟩ | ⟨-, -, hmore⟩
      · rw [hsame]
        exact fun p hp => hp
      · rw [hmore]
        exact fun p hp => List.mem_append_left _ hp
    -- a program of the shader is its old one, or has a name that no shader holds
    have hapart : ∀ j, j ≠ i → mId ≠ 0 → s.mId j ≠ mId := by
      intro j hj hzero heq
      rcases hkeeps.program with ⟨hsame, -⟩ | ⟨-, hnew, -⟩
      · rw [hsame] at heq hzero
        exact hj (h.alone i j hzero heq.symm).symm
      · exact hnew (heq ▸ hheld j (heq ▸ hzero))
    obtain ⟨hself, hother⟩ := mId_of_eq hact
    have hgl' := congrArg Shaders.gl hact
    refine ⟨⟨⟨programs', attached', errors, hkeeps.names, hgl'⟩, ?_, ?_⟩, ?_, ?_, ?_⟩
    · intro j hj
      rw [hgl']
      by_cases hji : j = i
      · rw [hji, hself] at hj ⊢
        exact hkeeps.held hj
      · rw [hother j hji] at hj ⊢
        exact hgrow _ (hheld j hj)
    · intro j k hj hjk
      by_cases hji : j = i <;> by_cases hki : k = i
      · rw [hji, hki]
      · rw [hji, hself] at hj hjk
        rw [hother k hki] at hjk
        exact absurd hjk.symm (hapart k hki hj)
      · rw [hki, hself, hother j hji] at hjk
        rw [hother j hji] at hj
        exact absurd hjk (hapart j hji (hjk ▸ hj))
      · rw [hother j hji] at hj hjk
        rw [hother k hki] at hjk
        exact h.alone j k hj hjk
    · rw [hgl, hgl']
      exact hgrow
    · intro hthere hnone
      rw [hgl] at hnone
      rw [hgl']
      exact (hkeeps.clean (hthere i a List.mem_cons_self)).trans hnone
    · rw [hgl, hgl']
      rfl
  | unload i =>
    have hact : s.act (.unload i) = ⟨Function.update s.mId i 0,
        contextOf programs attached (errors + if s.mId i = 0 then 0 else 1)⟩ := by
      rw [Shaders.act, hgl, unloadShader_contextOf hnames (hheld i)]
    obtain ⟨hself, hother⟩ := mId_of_eq hact
    have hgl' := congrArg Shaders.gl hact
    refine ⟨⟨⟨programs, attached, _, hnames, hgl'⟩, ?_, ?_⟩, ?_, ?_, ?_⟩
    · intro j hj
      rw [hgl']
      by_cases hji : j = i
      · rw [hji, hself] at hj
        exact absurd rfl hj
      · rw [hother j hji] at hj ⊢
        exact hheld j hj
    · intro j k hj hjk
      by_cases hji : j = i
      · rw [hji, hself] at hj
        exact absurd rfl hj
      · rw [hother j hji] at hj hjk
        by_cases hki : k = i
        · rw [hki, hself] at hjk
          exact absurd hjk hj
        · rw [hother k hki] at hjk
          exact h.alone j k hj hjk
    · rw [hgl, hgl']
      exact fun p hp => hp
    · intro _ hnone
      rw [hgl] at hnone
      rw [hgl']
      exact hnone
    · rw [hgl, hgl']
      simp [unloadings, contextOf]

theorem unloadings_cons (s : Shaders I) (action : ShaderAction I) (actions : List (ShaderAction I)) :
    unloadings s (action :: actions) = unloadings s [action] + unloadings (s.act action) actions := by
  cases action <;> simp [unloadings]

/-- INTERNAL: **a run**, by induction on its actions. -/
theorem shadersKept_acts {s : Shaders I} (h : ShadersKept s) (actions : List (ShaderAction I)) :
    ShadersKept (s.acts actions) ∧ (∀ p ∈ s.gl.programs, p ∈ (s.acts actions).gl.programs) ∧
      (ResourcesThere actions → s.gl.attached = [] → (s.acts actions).gl.attached = []) ∧
      (s.acts actions).gl.errors = s.gl.errors + unloadings s actions := by
  induction actions generalizing s with
  | nil => exact ⟨h, fun p hp => hp, fun _ hnone => hnone, rfl⟩
  | cons action actions ih =>
    obtain ⟨hkept, hgrow, hclean, herrors⟩ := shadersKept_act h action
    obtain ⟨hkept', hgrow', hclean', herrors'⟩ := ih hkept
    have hacts : s.acts (action :: actions) = (s.act action).acts actions := rfl
    rw [hacts]
    refine ⟨hkept', fun p hp => hgrow' p (hgrow p hp), fun hthere hnone => ?_, ?_⟩
    · refine hclean' (fun i a hmem => hthere i a (List.mem_cons_of_mem action hmem)) (hclean ?_ hnone)
      intro i a hmem
      rw [List.mem_singleton] at hmem
      exact hthere i a (hmem ▸ List.mem_cons_self)
    · rw [herrors', herrors, unloadings_cons s action actions, Nat.add_assoc]

omit [DecidableEq I] in
theorem shadersKept_init : ShadersKept (Shaders.init : Shaders I) where
  context := ⟨[], [], 0, ⟨by simp, by simp, by simp, by simp, by simp⟩, rfl⟩
  held _ h := absurd rfl h
  alone _ _ h := absurd rfl h

end

end Mccpp.Analysis
