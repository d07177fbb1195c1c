import Mccpp.Interface.Inheritance

/-!
# Finalizing the models

`finalize` calls itself on the parent before its own mark is cleared. It comes to an end exactly
when no model is above itself, whatever the order of the loop over all models. Then every model
becomes what its line makes of it: in every state in between, a model is as it was loaded or
finished (`Settled`), except those whose call is running.
-/

set_option autoImplicit false

namespace Mccpp.Analysis

open Mccpp.Library Mccpp.Model Mccpp.Interface

variable {ε : Type}

/-! ## Writes -/

section Writes

variable (m : ResourceManager ε) (f : ModelObject ε → ModelObject ε) (id key : Identifier)

@[simp] theorem deref_resource :
    m.deref (.resource id) = (m.mResources id).getD .unloaded := rfl

@[simp] theorem deref_sentinel : m.deref .notFoundSentinel = m.notFoundSentinel := rfl

@[simp] theorem modify_sentinel :
    (m.modify f (.resource id)).notFoundSentinel = m.notFoundSentinel := rfl

@[simp] theorem modify_mResources : (m.modify f (.resource id)).mResources key =
    if key = id then (m.mResources key).map f else m.mResources key := rfl

end Writes

/-- A model that has not been finalized since it was loaded. -/
structure Unfinished (m : ResourceManager ε) (id : Identifier) (o : ModelObject ε)
    (data : ModelLoadData ε) : Prop where
  found : m.mResources id = some o
  loadData : o.mLoadData = some data

theorem Unfinished.deref {m : ResourceManager ε} {id : Identifier} {o : ModelObject ε}
    {data : ModelLoadData ε} (h : Unfinished m id o data) : m.deref (.resource id) = o := by
  simp [h.found]

theorem Unfinished.parentOf {m : ResourceManager ε} {id : Identifier} {o : ModelObject ε}
    {data : ModelLoadData ε} (h : Unfinished m id o data) :
    Interface.parentOf m id = if data.parent.empty then none else some data.parent := by
  simp [Interface.parentOf, h.found, h.loadData]

theorem waiting_of_parentOf {m : ResourceManager ε} {id p : Identifier}
    (h : Interface.parentOf m id = some p) :
    ∃ o data, Unfinished m id o data ∧ data.parent = p ∧ p.empty = false := by
  unfold Interface.parentOf at h
  obtain ⟨o, hfound, h⟩ := Option.bind_eq_some_iff.mp h
  obtain ⟨data, hdata, h⟩ := Option.bind_eq_some_iff.mp h
  split at h
  · cases h
  · rename_i hempty
    cases h
    exact ⟨o, data, ⟨hfound, hdata⟩, rfl, by simpa using hempty⟩

/-! ## One call -/

theorem models_of_some {m : ResourceManager ε} {id : Identifier} (hname : id.empty = false)
    (h : (m.mResources id).isSome) : m.models id = .resource id := by
  obtain ⟨o, ho⟩ := Option.isSome_iff_exists.mp h
  simp [ResourceManager.models, ResourceManager.getInternal, hname, ho]

theorem models_of_none {m : ResourceManager ε} {id : Identifier} (h : m.mResources id = none) :
    m.models id = .notFoundSentinel := by
  simp [ResourceManager.models, ResourceManager.getInternal, h]

/-- INTERNAL: a model that is finalized stays as it is.
SOURCE: resource/model.cc:168-169 -/
theorem finalize_finalized {m : ResourceManager ε} {this : ModelHandle} (fuel : ℕ)
    (h : (m.deref this).finalized = true) :
    ResourceManager.finalize (fuel + 1) this m = some m := by
  have hnone : (m.deref this).mLoadData = none := by
    simpa [ModelObject.finalized] using h
  simp [ResourceManager.finalize, hnone]

theorem finalize_sentinel {m : ResourceManager ε} (fuel : ℕ)
    (h : m.notFoundSentinel.finalized = true) :
    ResourceManager.finalize (fuel + 1) .notFoundSentinel m = some m := by
  apply finalize_finalized
  simpa using h

/-- INTERNAL: a model without a parent.
SOURCE: resource/model.cc:171, 187 -/
theorem finalize_top {m : ResourceManager ε} {id : Identifier} {o : ModelObject ε}
    {data : ModelLoadData ε} (h : Unfinished m id o data) (htop : data.parent.empty = true) (fuel : ℕ) :
    ResourceManager.finalize (fuel + 1) (.resource id) m =
      some ((m.modify (.takeElements data) (.resource id)).modify .resetLoadData (.resource id)) := by
  unfold ResourceManager.finalize
  rw [h.deref, h.loadData]
  simp [htop]

/-- INTERNAL: a model with a parent. The test before the recursive call makes no difference.
SOURCE: resource/model.cc:171-187 -/
theorem finalize_child {m : ResourceManager ε} {id : Identifier} {o : ModelObject ε}
    {data : ModelLoadData ε} (h : Unfinished m id o data) (hparent : data.parent.empty = false)
    (fuel : ℕ) :
    ResourceManager.finalize (fuel + 2) (.resource id) m =
      (ResourceManager.finalize (fuel + 1)
        ((m.modify (.takeElements data) (.resource id)).models data.parent)
        (m.modify (.takeElements data) (.resource id))).map fun m₂ =>
          (m₂.modify (.inherit (m₂.deref
            ((m.modify (.takeElements data) (.resource id)).models data.parent)))
              (.resource id)).modify .resetLoadData (.resource id) := by
  rw [ResourceManager.finalize, h.deref, h.loadData]
  simp only [hparent, Bool.false_eq_true, if_false]
  by_cases hfinal : (((m.modify (.takeElements data) (.resource id)).deref
      ((m.modify (.takeElements data) (.resource id)).models data.parent)).finalized = true)
  · rw [finalize_finalized fuel hfinal]
    simp [hfinal]
  · simp only [hfinal]
    cases ResourceManager.finalize (fuel + 1)
        ((m.modify (.takeElements data) (.resource id)).models data.parent)
        (m.modify (.takeElements data) (.resource id)) with
    | none => simp
    | some m₂ => simp

/-- What a call that returns can have done. -/
inductive Finalized (fuel : ℕ) (this : ModelHandle) (m : ResourceManager ε) :
    ResourceManager ε → Prop where
  | already : (m.deref this).finalized = true → Finalized fuel this m m
  | top (data : ModelLoadData ε) :
      (m.deref this).mLoadData = some data → data.parent.empty = true →
      Finalized fuel this m ((m.modify (.takeElements data) this).modify .resetLoadData this)
  | child (data : ModelLoadData ε) (m₂ : ResourceManager ε) :
      (m.deref this).mLoadData = some data → data.parent.empty = false →
      (((m.modify (.takeElements data) this).deref
          ((m.modify (.takeElements data) this).models data.parent)).finalized = true ∧
        m₂ = m.modify (.takeElements data) this ∨
        ResourceManager.finalize fuel ((m.modify (.takeElements data) this).models data.parent)
          (m.modify (.takeElements data) this) = some m₂) →
      Finalized fuel this m ((m₂.modify (.inherit (m₂.deref
        ((m.modify (.takeElements data) this).models data.parent))) this).modify
          .resetLoadData this)

/-- INTERNAL: **a call that returns**.
SOURCE: resource/model.cc:167-188 -/
theorem finalize_cases {fuel : ℕ} {this : ModelHandle} {m m' : ResourceManager ε}
    (h : ResourceManager.finalize (fuel + 1) this m = some m') : Finalized fuel this m m' := by
  unfold ResourceManager.finalize at h
  cases hdata : (m.deref this).mLoadData with
  | none =>
    rw [hdata] at h
    cases h
    exact .already (by simp [ModelObject.finalized, hdata])
  | some data =>
    rw [hdata] at h
    cases hparent : data.parent.empty with
    | true =>
      simp only [hparent, if_true, Option.bind_eq_bind, Option.bind_some, Option.some.injEq] at h
      subst h
      exact .top data hdata hparent
    | false =>
      simp only [hparent, Bool.false_eq_true, if_false, Option.bind_eq_bind] at h
      split at h
      · rename_i hfinal
        simp only [Option.bind_some, Option.some.injEq] at h
        subst h
        exact .child data _ hdata hparent (Or.inl ⟨hfinal, rfl⟩)
      · obtain ⟨m₂, hcall, hrest⟩ := Option.bind_eq_some_iff.mp h
        simp only [Option.bind_some, Option.some.injEq] at hrest
        subst hrest
        exact .child data m₂ hdata hparent (Or.inr hcall)

theorem sameEntries_modify (m : ResourceManager ε) (f : ModelObject ε → ModelObject ε)
    (id : Identifier) : SameEntries m (m.modify f (.resource id)) := by
  refine ⟨modify_sentinel m f id, fun key => ?_⟩
  rw [modify_mResources]
  split <;> simp

/-- INTERNAL: **no call adds an entry, or writes to the sentinel**.
SOURCE: resource/resource.hh:100-108, resource/model.cc:167-188 -/
theorem finalize_sameEntries {fuel : ℕ} {this : ModelHandle} {m m' : ResourceManager ε}
    (hsentinel : m.notFoundSentinel.finalized = true)
    (h : ResourceManager.finalize fuel this m = some m') : SameEntries m m' := by
  induction fuel generalizing this m m' with
  | zero => cases h
  | succ fuel ih =>
    cases this with
    | notFoundSentinel =>
      have hsame : some m = some m' := (finalize_sentinel fuel hsentinel).symm.trans h
      cases hsame
      exact .refl m
    | resource id =>
      cases finalize_cases h with
      | already _ => exact .refl m
      | top data _ _ => exact (sameEntries_modify m _ id).trans (sameEntries_modify _ _ id)
      | child data m₂ _ _ hcall =>
        have htake := sameEntries_modify m (.takeElements data) id
        have hparent : SameEntries (m.modify (.takeElements data) (.resource id)) m₂ := by
          rcases hcall with ⟨_, rfl⟩ | hcall
          · exact .refl _
          · apply ih _ hcall
            rw [htake.sentinel]
            exact hsentinel
        have hrest := (sameEntries_modify m₂ (.inherit (m₂.deref
          ((m.modify (.takeElements data) (.resource id)).models data.parent))) id).trans
            (sameEntries_modify _ .resetLoadData id)
        exact (htake.trans hparent).trans hrest

/-! ## Cycles -/

/-- The models with the property wait, each for another of them. -/
def Doomed (P : Identifier → Prop) (m : ResourceManager ε) : Prop :=
  ∀ id, P id → ∃ p, parentOf m id = some p ∧ P p

section Doomed

variable {P : Identifier → Prop} {m : ResourceManager ε} {id : Identifier}

theorem Doomed.isSome (hdoomed : Doomed P m) (hid : P id) : (m.mResources id).isSome := by
  obtain ⟨p, hparent, _⟩ := hdoomed id hid
  obtain ⟨o, data, hwaiting, _⟩ := waiting_of_parentOf hparent
  rw [hwaiting.found]
  rfl

/-- INTERNAL: a doomed model is not finalized. -/
theorem Doomed.not_finalized (hdoomed : Doomed P m) (hid : P id) :
    (m.deref (.resource id)).finalized ≠ true := by
  obtain ⟨p, hparent, _⟩ := hdoomed id hid
  obtain ⟨o, data, hwaiting, _⟩ := waiting_of_parentOf hparent
  rw [hwaiting.deref]
  simp [ModelObject.finalized, hwaiting.loadData]

/-- INTERNAL: the parent of a doomed model is doomed. -/
theorem Doomed.parent (hdoomed : Doomed P m) (hid : P id) {data : ModelLoadData ε}
    (hdata : (m.deref (.resource id)).mLoadData = some data) :
    data.parent.empty = false ∧ P data.parent := by
  obtain ⟨p, hparent, hp⟩ := hdoomed id hid
  obtain ⟨o, data', hwaiting, rfl, hname⟩ := waiting_of_parentOf hparent
  rw [hwaiting.deref, hwaiting.loadData] at hdata
  cases hdata
  exact ⟨hname, hp⟩

end Doomed

theorem doomed_modify {P : Identifier → Prop} {m : ResourceManager ε}
    {f : ModelObject ε → ModelObject ε} {id : Identifier} (hdoomed : Doomed P m) (hid : ¬P id) :
    Doomed P (m.modify f (.resource id)) := by
  intro key hkey
  obtain ⟨p, hparent, hp⟩ := hdoomed key hkey
  refine ⟨p, ?_, hp⟩
  have hne : key ≠ id := fun heq => hid (heq ▸ hkey)
  rw [← hparent]
  simp [parentOf, hne]

theorem doomed_takeElements {P : Identifier → Prop} {m : ResourceManager ε} {id : Identifier}
    {data : ModelLoadData ε} (hdoomed : Doomed P m)
    (hdata : (m.deref (.resource id)).mLoadData = some data) :
    Doomed P (m.modify (.takeElements data) (.resource id)) := by
  intro key hkey
  obtain ⟨p, hparent, hp⟩ := hdoomed key hkey
  refine ⟨p, ?_, hp⟩
  by_cases heq : key = id
  · subst heq
    obtain ⟨o, data', hwaiting, rfl, hname⟩ := waiting_of_parentOf hparent
    rw [hwaiting.deref, hwaiting.loadData] at hdata
    cases hdata
    simp [parentOf, hwaiting.found, ModelObject.takeElements, hname]
  · rw [← hparent]
    simp [parentOf, heq]

/-- INTERNAL: **a call on a doomed model does not return**, and a call that returns has not come
across one.
SOURCE: resource/model.cc:173-176 -/
theorem finalize_doomed {P : Identifier → Prop} {fuel : ℕ} {this : ModelHandle}
    {m m' : ResourceManager ε} (hsentinel : m.notFoundSentinel.finalized = true)
    (hdoomed : Doomed P m) (h : ResourceManager.finalize fuel this m = some m') :
    Doomed P m' ∧ ∀ id, this = .resource id → ¬P id := by
  induction fuel generalizing this m m' with
  | zero => cases h
  | succ fuel ih =>
    cases this with
    | notFoundSentinel =>
      have hsame : some m = some m' := (finalize_sentinel fuel hsentinel).symm.trans h
      cases hsame
      exact ⟨hdoomed, by simp⟩
    | resource id =>
      cases finalize_cases h with
      | already hfinal =>
        refine ⟨hdoomed, ?_⟩
        rintro _ ⟨rfl⟩ hid
        exact hdoomed.not_finalized hid hfinal
      | top data hdata htop =>
        have hfree : ¬P id := by
          intro hid
          have hname := (hdoomed.parent hid hdata).1
          simp [htop] at hname
        refine ⟨doomed_modify (doomed_modify hdoomed hfree) hfree, ?_⟩
        rintro _ ⟨rfl⟩
        exact hfree
      | child data m₂ hdata hname hcall =>
        have htake := doomed_takeElements hdoomed hdata
        have hsentinel₁ : (m.modify (.takeElements data)
            (.resource id)).notFoundSentinel.finalized = true := hsentinel
        have hfree : ¬P id := by
          intro hid
          -- the parent waits as well, so it was called, and that call did not return
          have hp := (hdoomed.parent hid hdata).2
          rw [models_of_some hname (htake.isSome hp)] at hcall
          rcases hcall with ⟨hfinal, _⟩ | hcall
          · exact htake.not_finalized hp hfinal
          · exact (ih hsentinel₁ htake hcall).2 _ rfl hp
        have hparent : Doomed P m₂ := by
          rcases hcall with ⟨_, rfl⟩ | hcall
          · exact htake
          · exact (ih hsentinel₁ htake hcall).1
        refine ⟨doomed_modify (doomed_modify hparent hfree) hfree, ?_⟩
        rintro _ ⟨rfl⟩
        exact hfree

/-- INTERNAL: **the loop does not return from a cycle**.
SOURCE: resource/resource.cc:35-38 -/
theorem finalizeAll_doomed {P : Identifier → Prop} {fuel : ℕ} {keys : List Identifier}
    {m m' : ResourceManager ε} (hsentinel : m.notFoundSentinel.finalized = true)
    (hdoomed : Doomed P m) (h : ResourceManager.finalizeAll fuel keys m = some m') :
    ∀ id ∈ keys, ¬P id := by
  induction keys generalizing m with
  | nil => simp
  | cons key keys ih =>
    obtain ⟨m₁, hcall, hrest⟩ := Option.bind_eq_some_iff.mp h
    obtain ⟨hdoomed₁, hfree⟩ := finalize_doomed hsentinel hdoomed hcall
    have hsentinel₁ : m₁.notFoundSentinel.finalized = true := by
      rw [(finalize_sameEntries hsentinel hcall).sentinel]
      exact hsentinel
    intro id hid
    rcases List.mem_cons.mp hid with rfl | hid
    · exact hfree _ rfl
    · exact ih hsentinel₁ hdoomed₁ hrest id hid

/-! ## Along a line -/

/-- All models are as they were loaded. -/
structure Fresh (m : ResourceManager ε) : Prop where
  sentinel : m.notFoundSentinel = .unloaded
  waiting : ∀ id o, m.mResources id = some o → ∃ data, o.mLoadData = some data

/-- The model has become what its line makes of it. -/
def Done (m₀ m : ResourceManager ε) (id : Identifier) : Prop :=
  (m₀.mResources id).isSome ∧
    ∃ line, Line (parentOf m₀) id line ∧ m.mResources id = some (inherited m₀ line)

/-- The model is as it was loaded, or done. -/
def Settled (m₀ m : ResourceManager ε) (id : Identifier) : Prop :=
  m.mResources id = m₀.mResources id ∨ Done m₀ m id

theorem Done.of_same {m₀ m m' : ResourceManager ε} {id : Identifier} (h : Done m₀ m id)
    (hsame : m'.mResources id = m.mResources id) : Done m₀ m' id := by
  obtain ⟨hsome, line, hline, hdone⟩ := h
  exact ⟨hsome, line, hline, hsame.trans hdone⟩

theorem firstElements_single (elements : List ε) : firstElements [elements] = elements := by
  cases elements <;> simp [firstElements]

theorem Unfinished.elementsOf {m : ResourceManager ε} {id : Identifier} {o : ModelObject ε}
    {data : ModelLoadData ε} (h : Unfinished m id o data) :
    Interface.elementsOf m id = data.elements := by
  simp [Interface.elementsOf, h.found, h.loadData]

theorem elementsOf_none {m : ResourceManager ε} {id : Identifier} (h : m.mResources id = none) :
    elementsOf m id = [] := by
  simp [elementsOf, h]

/-- INTERNAL: what a model without a parent becomes. -/
theorem inherited_top {m : ResourceManager ε} {id : Identifier} {o : ModelObject ε}
    {data : ModelLoadData ε} (h : Unfinished m id o data) :
    inherited m [id] = (o.takeElements data).resetLoadData := by
  simp [inherited, h.elementsOf, firstElements_single, occlusionOf, h.found,
    ModelObject.takeElements, ModelObject.resetLoadData]

/-- INTERNAL: what a model becomes whose parent is not found. -/
theorem inherited_orphan {m : ResourceManager ε} {id p : Identifier} {o : ModelObject ε}
    {data : ModelLoadData ε} (h : Unfinished m id o data) (hp : m.mResources p = none) :
    inherited m [id, p] = (ModelObject.inherit .unloaded (o.takeElements data)).resetLoadData := by
  simp [inherited, firstElements, h.elementsOf, elementsOf_none hp, occlusionOf, hp,
    ModelObject.takeElements, ModelObject.resetLoadData, ModelObject.inherit, ModelObject.unloaded]

/-- INTERNAL: what a model becomes whose parent is done. -/
theorem inherited_child {m : ResourceManager ε} {id : Identifier} {o : ModelObject ε}
    {data : ModelLoadData ε} (h : Unfinished m id o data) {line : List Identifier} (hline : line ≠ []) :
    inherited m (id :: line) =
      (ModelObject.inherit (inherited m line) (o.takeElements data)).resetLoadData := by
  obtain ⟨p, line, rfl⟩ := List.exists_cons_of_ne_nil hline
  simp [inherited, firstElements, h.elementsOf, ModelObject.takeElements,
    ModelObject.resetLoadData, ModelObject.inherit]

/-- What a call for a model does: its model is done, and no model outside of its line is touched. -/
structure Finishes (m₀ m m' : ResourceManager ε) (id : Identifier) (line : List Identifier) :
    Prop where
  result : m'.mResources id = some (inherited m₀ line)
  frame : ∀ k, k ∉ line → m'.mResources k = m.mResources k
  touched : ∀ k, m'.mResources k = m.mResources k ∨ Done m₀ m' k

/-- INTERNAL: a write to one model, which makes it done. -/
theorem finishes_of_write {m₀ m m' : ResourceManager ε} {id : Identifier} {line : List Identifier}
    (hsome : (m₀.mResources id).isSome) (hline : Line (parentOf m₀) id line)
    (hresult : m'.mResources id = some (inherited m₀ line))
    (hothers : ∀ k, k ≠ id → m'.mResources k = m.mResources k) : Finishes m₀ m m' id line where
  result := hresult
  frame k hk := hothers k fun heq => hk (heq ▸ hline.head_mem)
  touched k := by
    by_cases hk : k = id
    · subst hk
      exact Or.inr ⟨hsome, line, hline, hresult⟩
    · exact Or.inl (hothers k hk)

/-- INTERNAL: two writes to one model, before and behind a call for its parent. -/
theorem Finishes.child {m₀ m m₁ m₂ m' : ResourceManager ε} {id p : Identifier}
    {line : List Identifier} (hsome : (m₀.mResources id).isSome)
    (hline : Line (parentOf m₀) id (id :: line)) (h : Finishes m₀ m₁ m₂ p line)
    (hbefore : ∀ k, k ≠ id → m₁.mResources k = m.mResources k)
    (hresult : m'.mResources id = some (inherited m₀ (id :: line)))
    (hbehind : ∀ k, k ≠ id → m'.mResources k = m₂.mResources k) :
    Finishes m₀ m m' id (id :: line) where
  result := hresult
  frame k hk := by
    rw [List.mem_cons, not_or] at hk
    rw [hbehind k hk.1, h.frame k hk.2, hbefore k hk.1]
  touched k := by
    by_cases hk : k = id
    · subst hk
      exact Or.inr ⟨hsome, _, hline, hresult⟩
    · rcases h.touched k with hsame | hdone
      · exact Or.inl ((hbehind k hk).trans (hsame.trans (hbefore k hk)))
      · exact Or.inr (hdone.of_same (hbehind k hk))

/-- INTERNAL: a model that is done is not touched again.
SOURCE: resource/model.cc:168-169 -/
theorem finalize_done {m₀ m : ResourceManager ε} {id : Identifier} {line : List Identifier}
    (fuel : ℕ) (hline : Line (parentOf m₀) id line) (h : Done m₀ m id) :
    ∃ m', ResourceManager.finalize (fuel + 1) (.resource id) m = some m' ∧
      Finishes m₀ m m' id line := by
  obtain ⟨_, line', hline', hdone⟩ := h
  obtain rfl := hline.unique hline'
  refine ⟨m, ?_, hdone, fun k _ => rfl, fun k => Or.inl rfl⟩
  apply finalize_finalized
  simp [hdone, ModelObject.finalized, inherited]

section Lines

variable {m₀ : ResourceManager ε} {m : ResourceManager ε} {id : Identifier} {o : ModelObject ε}
  {data : ModelLoadData ε}

/-- INTERNAL: a call for a model without a parent. -/
theorem finalize_line_top (hwaiting₀ : Unfinished m₀ id o data) (hwaiting : Unfinished m id o data)
    (htop : parentOf m₀ id = none) (fuel : ℕ) :
    ∃ m', ResourceManager.finalize (fuel + 1) (.resource id) m = some m' ∧
      Finishes m₀ m m' id [id] := by
  have hparent : data.parent.empty = true := by
    by_contra hne
    rw [hwaiting₀.parentOf, if_neg hne] at htop
    cases htop
  refine ⟨_, finalize_top hwaiting hparent fuel,
    finishes_of_write (by simp [hwaiting₀.found]) (.top id htop) ?_ ?_⟩
  · simp [hwaiting.found, inherited_top hwaiting₀]
  · intro k hk
    simp [hk]

/-- INTERNAL: a call for a model whose parent is not there. -/
theorem finalize_line_orphan (hwaiting₀ : Unfinished m₀ id o data)
    (hwaiting : Unfinished m id o data) (hname : data.parent.empty = false)
    (hline : Line (parentOf m₀) id [id, data.parent]) (hmissing₀ : m₀.mResources data.parent = none)
    (hmissing : m.mResources data.parent = none) (hsentinel : m.notFoundSentinel = .unloaded)
    (fuel : ℕ) : ∃ m', ResourceManager.finalize (fuel + 2) (.resource id) m = some m' ∧
      Finishes m₀ m m' id [id, data.parent] := by
  have hmissing₁ : (m.modify (.takeElements data) (.resource id)).mResources
      data.parent = none := by
    simp [hmissing]
  have hsentinel₁ : (m.modify (.takeElements data) (.resource id)).notFoundSentinel.finalized =
      true := by
    rw [modify_sentinel, hsentinel]
    rfl
  rw [finalize_child hwaiting hname, models_of_none hmissing₁, finalize_sentinel _ hsentinel₁,
    Option.map_some, deref_sentinel, modify_sentinel, hsentinel]
  refine ⟨_, rfl, finishes_of_write (by simp [hwaiting₀.found]) hline ?_ ?_⟩
  · simp [hwaiting.found, inherited_orphan hwaiting₀ hmissing₀]
  · intro k hk
    simp [hk]

end Lines

section Lines

variable {m₀ : ResourceManager ε} (hfresh : Fresh m₀) (hacyclic : Acyclic (parentOf m₀))
include hfresh hacyclic

/-- INTERNAL: **a call finishes its model**, by induction on the line. It touches the models of the
line only, and each of them that it touches is done.
SOURCE: resource/model.cc:167-188 -/
theorem finalize_line {id : Identifier} {line : List Identifier} (hline : Line (parentOf m₀) id line)
    {m : ResourceManager ε} {fuel : ℕ} (hfuel : line.length ≤ fuel)
    (hsome : (m₀.mResources id).isSome) (hsentinel : m.notFoundSentinel = .unloaded)
    (hsettled : ∀ k ∈ line, Settled m₀ m k) :
    ∃ m', ResourceManager.finalize fuel (.resource id) m = some m' ∧
      Finishes m₀ m m' id line := by
  induction hline generalizing m fuel with
  | top id htop =>
    obtain ⟨fuel, rfl⟩ := Nat.exists_eq_succ_of_ne_zero (Nat.ne_of_gt hfuel)
    rcases hsettled id (by simp) with hwaits | hdone
    · obtain ⟨o, ho⟩ := Option.isSome_iff_exists.mp hsome
      obtain ⟨data, hdata⟩ := hfresh.waiting id o ho
      exact finalize_line_top ⟨ho, hdata⟩ ⟨hwaits.trans ho, hdata⟩ htop fuel
    · exact finalize_done fuel (.top id htop) hdone
  | child id p l hparent hline ih =>
    have hlength : 0 < l.length := List.length_pos_of_ne_nil hline.ne_nil
    have htwo : 2 ≤ fuel := by
      rw [List.length_cons] at hfuel
      omega
    obtain ⟨fuel, rfl⟩ := Nat.exists_eq_add_of_le' htwo
    have hwhole : Line (parentOf m₀) id (id :: l) := .child id p l hparent hline
    rcases hsettled id (by simp) with hwaits | hdone
    · obtain ⟨o, data, hwaiting₀, rfl, hname⟩ := waiting_of_parentOf hparent
      have hwaiting : Unfinished m id o data := ⟨hwaits.trans hwaiting₀.found, hwaiting₀.loadData⟩
      have hnotmem : id ∉ l := hacyclic.not_mem hparent hline
      have hsettledParent := hsettled data.parent (by simp [hline.head_mem])
      cases hp : m₀.mResources data.parent with
      | none =>
        have hmissing : m.mResources data.parent = none := by
          rcases hsettledParent with hsame | ⟨hsome', _⟩
          · exact hsame.trans hp
          · simp [hp] at hsome'
        obtain rfl : l = [data.parent] := by
          apply hline.unique
          apply Line.top
          simp [parentOf, hp]
        exact finalize_line_orphan hwaiting₀ hwaiting hname hwhole hp hmissing hsentinel fuel
      | some parent =>
        have hothers : ∀ k, k ≠ id →
            (m.modify (.takeElements data) (.resource id)).mResources k = m.mResources k := by
          intro k hk
          simp [hk]
        have hne : data.parent ≠ id := fun heq => hnotmem (heq ▸ hline.head_mem)
        have hsettled₁ : ∀ k ∈ l, Settled m₀ (m.modify (.takeElements data) (.resource id)) k := by
          intro k hk
          have hsame := hothers k fun heq => hnotmem (heq ▸ hk)
          rcases hsettled k (List.mem_cons_of_mem id hk) with hloaded | hdone
          · exact Or.inl (hsame.trans hloaded)
          · exact Or.inr (hdone.of_same hsame)
        have hthere : ((m.modify (.takeElements data) (.resource id)).mResources
            data.parent).isSome := by
          rw [hothers _ hne]
          rcases hsettledParent with hsame | ⟨_, _, _, hdone⟩
          · simp [hsame, hp]
          · simp [hdone]
        have hsentinel₁ : (m.modify (.takeElements data) (.resource id)).notFoundSentinel =
            .unloaded := hsentinel
        have hfuel₁ : l.length ≤ fuel + 1 := by simpa using hfuel
        obtain ⟨m₂, hcall, hfinishes⟩ := ih hfuel₁ (by simp [hp]) hsentinel₁ hsettled₁
        have hown : m₂.mResources id = some (o.takeElements data) := by
          rw [hfinishes.frame id hnotmem]
          simp [hwaiting.found]
        rw [finalize_child hwaiting hname, models_of_some hname hthere, hcall, Option.map_some,
          deref_resource, hfinishes.result]
        refine ⟨_, rfl, hfinishes.child hsome hwhole hothers ?_ ?_⟩
        · simp [hown, inherited_child hwaiting₀ hline.ne_nil]
        · intro k hk
          simp [hk]
    · exact finalize_done (fuel + 1) hwhole hdone

/-- INTERNAL: **the loop finishes its models**, by induction on the order of the loop. What is
settled before a call is settled behind it, and what is done stays done.
SOURCE: resource/resource.cc:35-38 -/
theorem finalizeAll_done {fuel : ℕ} {keys : List Identifier}
    (hkeys : ∀ id ∈ keys, (m₀.mResources id).isSome)
    (hbound : ∀ id ∈ keys, ∃ line, Line (parentOf m₀) id line ∧ line.length ≤ fuel)
    {m : ResourceManager ε} (hsentinel : m.notFoundSentinel = .unloaded)
    (hsettled : ∀ k, Settled m₀ m k) :
    ∃ m', ResourceManager.finalizeAll fuel keys m = some m' ∧
      m'.notFoundSentinel = .unloaded ∧ (∀ k, Settled m₀ m' k) ∧
      ∀ id, id ∈ keys ∨ Done m₀ m id → Done m₀ m' id := by
  induction keys generalizing m with
  | nil => exact ⟨m, rfl, hsentinel, hsettled, by simp⟩
  | cons key keys ih =>
    obtain ⟨line, hline, hfuel⟩ := hbound key (by simp)
    have hsome := hkeys key (by simp)
    obtain ⟨m₁, hcall, hdone, _, htouched⟩ :=
      finalize_line hfresh hacyclic hline hfuel hsome hsentinel fun k _ => hsettled k
    have hsentinel₁ : m₁.notFoundSentinel = .unloaded := by
      have hfinal : m.notFoundSentinel.finalized = true := by simp [hsentinel,
        ModelObject.unloaded, ModelObject.finalized]
      rw [(finalize_sameEntries hfinal hcall).sentinel, hsentinel]
    have hsettled₁ : ∀ k, Settled m₀ m₁ k := by
      intro k
      rcases htouched k with hsame | hnew
      · rcases hsettled k with hloaded | hold
        · exact Or.inl (hsame.trans hloaded)
        · exact Or.inr (hold.of_same hsame)
      · exact Or.inr hnew
    have hkept : ∀ k, Done m₀ m k → Done m₀ m₁ k := by
      intro k hk
      rcases htouched k with hsame | hnew
      · exact hk.of_same hsame
      · exact hnew
    obtain ⟨m', hrest, hsentinel', hsettled', hall⟩ :=
      ih (fun id hid => hkeys id (by simp [hid])) (fun id hid => hbound id (by simp [hid]))
        hsentinel₁ hsettled₁
    refine ⟨m', ?_, hsentinel', hsettled', fun id hid => hall id ?_⟩
    · exact Option.bind_eq_some_iff.mpr ⟨m₁, hcall, hrest⟩
    · rcases hid with hmem | hbefore
      · rcases List.mem_cons.mp hmem with rfl | hlater
        · exact Or.inr ⟨hsome, line, hline, hdone⟩
        · exact Or.inl hlater
      · exact Or.inr (hkept id hbefore)

end Lines

/-! ## Loading -/

/-- INTERNAL: what holds of no models and is kept by storing one holds behind the first loop.
SOURCE: resource/resource.cc:15-33 -/
theorem loadFiles_induction {P : ResourceManager ε → Prop} (hinit : P .init)
    (hstore : ∀ m id file, P m → P (m.store id (.construct file)))
    (files : List (ResourceManager.BlockFile ε)) : P (ResourceManager.loadFiles files) := by
  have hall : ∀ m, P m → P (files.foldl ResourceManager.loadFile m) := by
    induction files with
    | nil => exact fun m hm => hm
    | cons file files ih =>
      intro m hm
      apply ih
      unfold ResourceManager.loadFile
      split
      · exact hstore _ _ _ hm
      · exact hm
  exact hall _ hinit

theorem fresh_loadFiles (files : List (ResourceManager.BlockFile ε)) :
    Fresh (ResourceManager.loadFiles files) := by
  apply loadFiles_induction
  · exact ⟨rfl, fun id o h => nomatch h⟩
  · intro m id file hm
    refine ⟨hm.sentinel, fun key o h => ?_⟩
    simp only [ResourceManager.store] at h
    split at h
    · cases h
      exact ⟨_, rfl⟩
    · exact hm.waiting key o h

theorem finite_loadFiles (files : List (ResourceManager.BlockFile ε)) :
    {id | parentOf (ResourceManager.loadFiles files) id ≠ none}.Finite := by
  have hkeys : {id | (ResourceManager.loadFiles files).mResources id ≠ none}.Finite := by
    apply loadFiles_induction (P := fun m : ResourceManager ε => {id | m.mResources id ≠ none}.Finite)
    · simp [ResourceManager.init]
    · intro m id file hm
      apply (hm.insert id).subset
      intro key hkey
      by_cases heq : key = id
      · simp [heq]
      · simpa [ResourceManager.store, heq] using hkey
  apply hkeys.subset
  intro id hid hnone
  apply hid
  simp [parentOf, hnone]

theorem isSome_of_parentOf {m : ResourceManager ε} {id p : Identifier} (h : parentOf m id = some p) :
    (m.mResources id).isSome := by
  obtain ⟨o, data, hwaiting, _, _⟩ := waiting_of_parentOf h
  simp [hwaiting.found]

/-- INTERNAL: a model above itself.
SOURCE: resource/model.cc:173-176 -/
theorem not_finalized_of_cycle {m : ResourceManager ε} {keys : List Identifier}
    (hkeys : Enumerates keys m) (hsentinel : m.notFoundSentinel.finalized = true) {i : Identifier}
    (hcycle : Relation.TransGen (ParentOf (parentOf m)) i i) (fuel : ℕ) :
    ResourceManager.finalizeAll fuel keys m = none := by
  have hdoomed : Doomed (fun k => Relation.TransGen (ParentOf (parentOf m)) k i) m :=
    fun k hk => parent_of_cycle hcycle hk
  obtain ⟨p, hparent, _⟩ := hdoomed i hcycle
  cases h : ResourceManager.finalizeAll fuel keys m with
  | none => rfl
  | some m' =>
    have hmem : i ∈ keys := (hkeys.2 i).mpr (isSome_of_parentOf hparent)
    exact absurd hcycle (finalizeAll_doomed hsentinel hdoomed h i hmem)

/-- INTERNAL: without a cycle, the loop ends for every large enough bound.
SOURCE: resource/resource.cc:35-38 -/
theorem finalizeAll_of_acyclic {m : ResourceManager ε} (hfresh : Fresh m)
    (hacyclic : Acyclic (parentOf m)) (hline : ∀ id, ∃ line, Line (parentOf m) id line)
    {keys : List Identifier} (hkeys : Enumerates keys m) :
    ∃ bound, ∀ fuel, bound ≤ fuel → ∃ m', ResourceManager.finalizeAll fuel keys m = some m' ∧
      m'.notFoundSentinel = .unloaded ∧ (∀ k, Settled m m' k) ∧
      ∀ id, (m.mResources id).isSome → Done m m' id := by
  obtain ⟨bound, hbound⟩ := exists_line_bound hline keys
  refine ⟨bound, fun fuel hfuel => ?_⟩
  have hlines : ∀ id ∈ keys, ∃ line, Line (parentOf m) id line ∧ line.length ≤ fuel := by
    intro id hid
    obtain ⟨line, h⟩ := hline id
    exact ⟨line, h, le_trans (hbound id hid line h) hfuel⟩
  obtain ⟨m', hrun, hsentinel, hsettled, hdone⟩ :=
    finalizeAll_done hfresh hacyclic (fun id hid => (hkeys.2 id).mp hid) hlines hfresh.sentinel
      fun k => Or.inl rfl
  exact ⟨m', hrun, hsentinel, hsettled, fun id hid => hdone id (Or.inl ((hkeys.2 id).mpr hid))⟩

/-- SOURCE: resource/model.cc:167-188, resource/resource.cc:35-38 — **when loading terminates**. For
every list of model files and every order in which the models are iterated, the pass over all models
returns if and only if no model is above itself. -/
theorem finalize_terminates_iff (files : List (ResourceManager.BlockFile ε)) (keys : List Identifier)
    (hkeys : Enumerates keys (ResourceManager.loadFiles files)) :
    (∃ fuel after, ResourceManager.finalizeAll fuel keys (ResourceManager.loadFiles files) =
        some after) ↔
      Acyclic (parentOf (ResourceManager.loadFiles files)) := by
  have hfresh := fresh_loadFiles files
  constructor
  · rintro ⟨fuel, after, hrun⟩ i hcycle
    have hfinal : (ResourceManager.loadFiles files).notFoundSentinel.finalized = true := by
      simp [hfresh.sentinel, ModelObject.unloaded, ModelObject.finalized]
    rw [not_finalized_of_cycle hkeys hfinal hcycle fuel] at hrun
    cases hrun
  · intro hacyclic
    obtain ⟨bound, hbound⟩ := finalizeAll_of_acyclic hfresh hacyclic
      (exists_line hacyclic (finite_loadFiles files)) hkeys
    obtain ⟨after, hrun, _⟩ := hbound bound (le_refl bound)
    exact ⟨bound, after, hrun⟩

/-- The files of `block/a`, with the parent `block/b`, and of `block/b`, without one. -/
def twoFiles : List (ResourceManager.BlockFile ℕ) :=
  [⟨"minecraft".toList, "a.json".toList, ⟨some "block/b".toList, none, some false⟩⟩,
    ⟨"minecraft".toList, "b.json".toList, ⟨none, some [1, 2], none⟩⟩]

def blockA : Identifier := .ofText "block/a".toList

def blockB : Identifier := .ofText "block/b".toList

theorem mResources_twoFiles (id : Identifier) :
    (ResourceManager.loadFiles twoFiles).mResources id =
      if id = blockB then some ⟨some ⟨.unnamed, [1, 2]⟩, true, []⟩
      else if id = blockA then some ⟨some ⟨blockB, []⟩, false, []⟩ else none := rfl

theorem enumerates_twoFiles :
    Enumerates [blockA, blockB] (ResourceManager.loadFiles twoFiles) := by
  refine ⟨by decide, fun id => ?_⟩
  rw [mResources_twoFiles]
  by_cases hb : id = blockB
  · simp [hb]
  · by_cases ha : id = blockA
    · subst ha
      simp [hb]
    · simp [ha, hb]

theorem acyclic_twoFiles : Acyclic (parentOf (ResourceManager.loadFiles twoFiles)) := by
  have hchild : ∀ i j, ParentOf (parentOf (ResourceManager.loadFiles twoFiles)) i j →
      i = blockA ∧ j = blockB := by
    intro i j h
    obtain ⟨o, data, hwaiting, rfl, hname⟩ := waiting_of_parentOf h
    have hfound := hwaiting.found
    rw [mResources_twoFiles] at hfound
    split at hfound
    · cases hfound
      cases hwaiting.loadData
      cases hname
    · split at hfound
      · rename_i ha
        cases hfound
        cases hwaiting.loadData
        exact ⟨ha, rfl⟩
      · cases hfound
  intro i hcycle
  obtain ⟨j, hfirst, _⟩ := Relation.TransGen.head'_iff.mp hcycle
  obtain ⟨k, _, hlast⟩ := Relation.TransGen.tail'_iff.mp hcycle
  have hsame : blockA = blockB := (hchild i j hfirst).1.symm.trans (hchild k i hlast).2
  exact absurd hsame (by decide)

theorem finalize_terminates_iff_two :
    (∃ fuel after, ResourceManager.finalizeAll fuel [blockA, blockB]
        (ResourceManager.loadFiles twoFiles) = some after) ↔
      Acyclic (parentOf (ResourceManager.loadFiles twoFiles)) :=
  finalize_terminates_iff twoFiles [blockA, blockB] enumerates_twoFiles

/-- SOURCE: resource/model.cc:173-176 — the model `block/a` whose file names `block/a` as its
parent: the pass over this one model does not return. -/
theorem own_parent_does_not_terminate :
    ∃ (files : List (ResourceManager.BlockFile ℕ)) (keys : List Identifier),
      Enumerates keys (ResourceManager.loadFiles files) ∧
      ¬∃ fuel after, ResourceManager.finalizeAll fuel keys (ResourceManager.loadFiles files) =
        some after := by
  let files : List (ResourceManager.BlockFile ℕ) :=
    [⟨"minecraft".toList, "a.json".toList, ⟨some "block/a".toList, none, none⟩⟩]
  have hfound : ∀ id, (ResourceManager.loadFiles files).mResources id =
      if id = blockA then some ⟨some ⟨blockA, []⟩, true, []⟩ else none := fun id => rfl
  have hkeys : Enumerates [blockA] (ResourceManager.loadFiles files) := by
    refine ⟨by decide, fun id => ?_⟩
    rw [hfound]
    by_cases ha : id = blockA
    · simp [ha]
    · simp [ha]
  have hself : parentOf (ResourceManager.loadFiles files) blockA = some blockA := by
    have hname : blockA.empty = false := by decide
    simp [parentOf, hfound, hname]
  refine ⟨files, [blockA], hkeys, ?_⟩
  rintro ⟨fuel, after, hrun⟩
  rw [not_finalized_of_cycle hkeys rfl (Relation.TransGen.single hself) fuel] at hrun
  cases hrun

/-! ## The models after loading -/

theorem finalizeAll_sameEntries {fuel : ℕ} {keys : List Identifier} {m m' : ResourceManager ε}
    (hsentinel : m.notFoundSentinel.finalized = true)
    (h : ResourceManager.finalizeAll fuel keys m = some m') : SameEntries m m' := by
  induction keys generalizing m with
  | nil =>
    cases h
    exact .refl _
  | cons key keys ih =>
    obtain ⟨m₁, hcall, hrest⟩ := Option.bind_eq_some_iff.mp h
    have hsame := finalize_sameEntries hsentinel hcall
    apply hsame.trans
    apply ih _ hrest
    rw [hsame.sentinel]
    exact hsentinel

/-- SOURCE: resource/model.cc:167-188, resource/resource.cc:14-39 — **what loading makes of the
models**. For every list of model files without a cycle there is one state in which every order of
iterating the models ends: every model is finalized, with the elements of the first model of its
line that has any and the ambient occlusion of the last one, or `true` where this one is missing.
Neither the sentinel nor the keys of `m_resources` are different at any turn of the loop. -/
theorem load_inherits (files : List (ResourceManager.BlockFile ε))
    (hacyclic : Acyclic (parentOf (ResourceManager.loadFiles files))) :
    ∃ after : ResourceManager ε,
      (∀ keys, Enumerates keys (ResourceManager.loadFiles files) → ∃ bound, ∀ fuel, bound ≤ fuel →
        ResourceManager.finalizeAll fuel keys (ResourceManager.loadFiles files) = some after ∧
        ∀ front back, keys = front ++ back → ∃ mid,
          ResourceManager.finalizeAll fuel front (ResourceManager.loadFiles files) = some mid ∧
          SameEntries (ResourceManager.loadFiles files) mid) ∧
      SameEntries (ResourceManager.loadFiles files) after ∧
      ∀ id, ((ResourceManager.loadFiles files).mResources id).isSome →
        ∃ line, Line (parentOf (ResourceManager.loadFiles files)) id line ∧
          after.mResources id = some (inherited (ResourceManager.loadFiles files) line) := by
  have hfresh := fresh_loadFiles files
  have hfinal : (ResourceManager.loadFiles files).notFoundSentinel.finalized = true := by
    simp [hfresh.sentinel, ModelObject.unloaded, ModelObject.finalized]
  have hlines := exists_line hacyclic (finite_loadFiles files)
  choose line hline using hlines
  let after : ResourceManager ε :=
    { mResources := fun id => ((ResourceManager.loadFiles files).mResources id).map fun _ =>
        inherited (ResourceManager.loadFiles files) (line id)
      notFoundSentinel := .unloaded }
  refine ⟨after, fun keys hkeys => ?_, ⟨hfresh.sentinel.symm, fun id => ?_⟩, fun id hid => ?_⟩
  · obtain ⟨bound, hbound⟩ :=
      finalizeAll_of_acyclic hfresh hacyclic (fun id => ⟨line id, hline id⟩) hkeys
    refine ⟨bound, fun fuel hfuel => ?_⟩
    obtain ⟨m', hrun, hsentinel, hsettled, hdone⟩ := hbound fuel hfuel
    have hresources : m'.mResources = after.mResources := by
      funext id
      cases hid : (ResourceManager.loadFiles files).mResources id with
      | none =>
        rcases hsettled id with hsame | ⟨hsome, _⟩
        · simp [after, hsame, hid]
        · simp [hid] at hsome
      | some o =>
        obtain ⟨_, l, hl, hfound⟩ := hdone id (by simp [hid])
        simp [after, hfound, hid, hl.unique (hline id)]
    have hafter : m' = after := by
      obtain ⟨resources, sentinel⟩ := m'
      simp only at hresources hsentinel
      rw [hresources, hsentinel]
    rw [hafter] at hrun
    refine ⟨hrun, fun front back hsplit => ?_⟩
    rw [hsplit, ResourceManager.finalizeAll, List.foldlM_append] at hrun
    obtain ⟨mid, hfront, _⟩ := Option.bind_eq_some_iff.mp hrun
    exact ⟨mid, hfront, finalizeAll_sameEntries hfinal hfront⟩
  · simp [after]
  · obtain ⟨o, ho⟩ := Option.isSome_iff_exists.mp hid
    exact ⟨line id, hline id, by simp [after, ho]⟩

theorem load_inherits_two :
    ∃ after : ResourceManager ℕ,
      (∀ keys, Enumerates keys (ResourceManager.loadFiles twoFiles) → ∃ bound, ∀ fuel, bound ≤ fuel →
        ResourceManager.finalizeAll fuel keys (ResourceManager.loadFiles twoFiles) = some after ∧
        ∀ front back, keys = front ++ back → ∃ mid,
          ResourceManager.finalizeAll fuel front (ResourceManager.loadFiles twoFiles) = some mid ∧
          SameEntries (ResourceManager.loadFiles twoFiles) mid) ∧
      SameEntries (ResourceManager.loadFiles twoFiles) after ∧
      ∀ id, ((ResourceManager.loadFiles twoFiles).mResources id).isSome →
        ∃ line, Line (parentOf (ResourceManager.loadFiles twoFiles)) id line ∧
          after.mResources id = some (inherited (ResourceManager.loadFiles twoFiles) line) :=
  load_inherits twoFiles acyclic_twoFiles

/-- The model `block/a` takes the elements and the ambient occlusion of `block/b`. -/
example : (ResourceManager.finalizeAll 2 [blockA, blockB] (ResourceManager.loadFiles twoFiles)).bind
    (fun m => m.mResources blockA) = some ⟨none, true, [1, 2]⟩ := by decide

end Mccpp.Analysis
