import Mccpp.Interface.Cvars

/-!
# Cvars stay in force

A cvar that is written to keeps its name and its callback, so the set stays in order, and a loop over the cvars
leaves each as its callback has made it, since the others do not disturb it.
-/

set_option autoImplicit false

namespace Mccpp.Analysis

open Mccpp.Library Mccpp.Interface Mccpp.Model.Cvars

variable {F S : Type} {means : CvarMeaning F S}

/-! ## One cvar -/

/-- What `set_value` does, with `newValue` as the callback leaves it. -/
inductive Sets (c : Cvar F S) (newValue : F) (s : S) : Cvar F S → S → Prop where
  | taken (h : (c.callback newValue s).2.2 = true) :
      Sets c newValue s { c with value := (c.callback newValue s).1 } (c.callback newValue s).2.1
  | refused (h : (c.callback newValue s).2.2 = false) : Sets c newValue s c (c.callback newValue s).2.1

/-- INTERNAL: **what `set_value` can do**.
SOURCE: cvar.cc:27-34 -/
theorem sets_setValue (c : Cvar F S) (newValue : F) (s : S) :
    Sets c newValue s (c.setValue newValue s).1 (c.setValue newValue s).2.1 := by
  have htaken := @Sets.taken F S c newValue s
  have hrefused := @Sets.refused F S c newValue s
  rw [Cvar.setValue]
  rcases hcall : c.callback newValue s with ⟨v, s', ok⟩
  rw [hcall] at htaken hrefused
  cases ok with
  | true => exact htaken rfl
  | false => exact hrefused rfl

theorem name_of_sets {c c' : Cvar F S} {v : F} {s s' : S} (h : Sets c v s c' s') : c'.name = c.name := by
  cases h with
  | taken => rfl
  | refused => rfl

theorem enforces_of_sets {c c' : Cvar F S} {v : F} {s s' : S} (h : Sets c v s c' s') (hc : Enforces means c) :
    Enforces means c' := by
  cases h with
  | taken => exact ⟨hc.taken, hc.refused, hc.others⟩
  | refused => exact hc

theorem means_of_sets {c c' : Cvar F S} {v : F} {s s' : S} (h : Sets c v s c' s') (hc : Enforces means c)
    (hs : means c.name c.value s) : means c'.name c'.value s' := by
  cases h with
  | taken h => exact hc.taken v s h
  | refused h => exact hc.refused v s c.value h hs

theorem means_other_of_sets {c c' : Cvar F S} {v : F} {s s' : S} (h : Sets c v s c' s') (hc : Enforces means c)
    {name : List Char} {value : F} (hne : name ≠ c.name) (hs : means name value s) : means name value s' := by
  cases h with
  | taken => exact hc.others v s name value hne hs
  | refused => exact hc.others v s name value hne hs

theorem descends_self (c : Cvar F S) : Descends c c := ⟨rfl, rfl, rfl, Or.inl rfl⟩

theorem descends_of_sets {first c c' : Cvar F S} {v : F} {s s' : S} (h : Sets c v s c' s')
    (hc : Descends first c) : Descends first c' := by
  cases h with
  | taken h =>
    rw [hc.callback] at h
    refine ⟨hc.name, hc.help, hc.callback, Or.inr ⟨v, s, h, ?_⟩⟩
    rw [hc.callback]
  | refused => exact hc

/-! ## The set -/

/-- INTERNAL: what is found besides the new cvar is what there was.
SOURCE: cvar.cc:18 -/
theorem perm_emplace {c : Cvar F S} {cvars cvars' : List (Cvar F S)} (h : emplace c cvars = some cvars') :
    cvars'.Perm (c :: cvars) := by
  induction cvars generalizing cvars' with
  | nil =>
    obtain rfl := Option.some.inj h
    exact List.Perm.refl _
  | cons other rest ih =>
    rw [emplace] at h
    split_ifs at h with hlt hgt
    · obtain rfl := Option.some.inj h
      exact List.Perm.refl _
    · obtain ⟨rest', hrest, rfl⟩ := Option.map_eq_some_iff.mp h
      exact ((ih hrest).cons other).trans (List.Perm.swap c other rest)

theorem pairwise_emplace {c : Cvar F S} {cvars cvars' : List (Cvar F S)} (h : emplace c cvars = some cvars')
    (hcvars : cvars.Pairwise (·.name < ·.name)) : cvars'.Pairwise (·.name < ·.name) := by
  induction cvars generalizing cvars' with
  | nil =>
    obtain rfl := Option.some.inj h
    exact List.pairwise_singleton _ _
  | cons other rest ih =>
    obtain ⟨hother, hrest⟩ := List.pairwise_cons.mp hcvars
    rw [emplace] at h
    split_ifs at h with hlt hgt
    · obtain rfl := Option.some.inj h
      refine List.pairwise_cons.mpr ⟨fun d hd => ?_, hcvars⟩
      rcases List.mem_cons.mp hd with rfl | hd
      · exact hlt
      · exact lt_trans hlt (hother d hd)
    · obtain ⟨rest', hemplace, rfl⟩ := Option.map_eq_some_iff.mp h
      refine List.pairwise_cons.mpr ⟨fun d hd => ?_, ih hemplace hrest⟩
      rcases List.mem_cons.mp ((perm_emplace hemplace).mem_iff.mp hd) with rfl | hd
      · exact hgt
      · exact hother d hd

/-- INTERNAL: the assertion holds for a new name only.
SOURCE: cvar.cc:18-19 -/
theorem emplace_isSome_iff {c : Cvar F S} {cvars : List (Cvar F S)} (h : cvars.Pairwise (·.name < ·.name)) :
    (emplace c cvars).isSome = true ↔ c.name ∉ cvars.map Cvar.name := by
  induction cvars with
  | nil => exact iff_of_true rfl List.not_mem_nil
  | cons other rest ih =>
    obtain ⟨hother, hrest⟩ := List.pairwise_cons.mp h
    rw [emplace, List.map_cons, List.mem_cons, not_or]
    split_ifs with hlt hgt
    · refine iff_of_true rfl ⟨hlt.ne, fun hmem => ?_⟩
      obtain ⟨d, hd, hname⟩ := List.mem_map.mp hmem
      exact (lt_trans hlt (hother d hd)).ne hname.symm
    · rw [Option.isSome_map, ih hrest]
      exact (and_iff_right hgt.ne').symm
    · have heq : c.name = other.name := le_antisymm (not_lt.mp hgt) (not_lt.mp hlt)
      exact iff_of_false Bool.false_ne_true fun hne => hne.1 heq

/-! ## The loop -/

theorem editCvars_cons (typed : List Char → Option F) (c : Cvar F S) (cvars : List (Cvar F S)) (s : S) :
    (typed c.name = none ∧
        editCvars typed (c :: cvars) s = (c :: (editCvars typed cvars s).1, (editCvars typed cvars s).2)) ∨
      ∃ v c' s', Sets c v s c' s' ∧
        editCvars typed (c :: cvars) s = (c' :: (editCvars typed cvars s').1, (editCvars typed cvars s').2) := by
  rw [editCvars]
  cases htyped : typed c.name with
  | none => exact Or.inl ⟨rfl, rfl⟩
  | some v => exact Or.inr ⟨v, _, _, sets_setValue c v s, rfl⟩

/-- INTERNAL: what no value that is set changes about a cvar, the loop leaves to all of them. -/
theorem forall_editCvars {P : Cvar F S → Prop} (hP : ∀ c v s c' s', Sets c v s c' s' → P c → P c')
    (typed : List Char → Option F) {cvars : List (Cvar F S)} (h : ∀ c ∈ cvars, P c) (s : S) :
    ∀ c ∈ (editCvars typed cvars s).1, P c := by
  induction cvars generalizing s with
  | nil => exact h
  | cons c cvars ih =>
    obtain ⟨hc, hcvars⟩ := List.forall_mem_cons.mp h
    rcases editCvars_cons typed c cvars s with ⟨_, hedit⟩ | ⟨v, c', s', hsets, hedit⟩
    · rw [hedit]
      exact List.forall_mem_cons.mpr ⟨hc, ih hcvars s⟩
    · rw [hedit]
      exact List.forall_mem_cons.mpr ⟨hP c v s c' s' hsets hc, ih hcvars s'⟩

theorem names_editCvars (typed : List Char → Option F) (cvars : List (Cvar F S)) (s : S) :
    (editCvars typed cvars s).1.map Cvar.name = cvars.map Cvar.name := by
  induction cvars generalizing s with
  | nil => rfl
  | cons c cvars ih =>
    rcases editCvars_cons typed c cvars s with ⟨_, hedit⟩ | ⟨v, c', s', hsets, hedit⟩
    · rw [hedit, List.map_cons, List.map_cons, ih s]
    · rw [hedit, List.map_cons, List.map_cons, ih s', name_of_sets hsets]

/-- INTERNAL: the loop does not disturb what names mean that it does not come by. -/
theorem means_other_editCvars (typed : List Char → Option F) {cvars : List (Cvar F S)}
    (henforces : ∀ c ∈ cvars, Enforces means c) {name : List Char} {value : F} (hname : name ∉ cvars.map Cvar.name)
    {s : S} (hs : means name value s) : means name value (editCvars typed cvars s).2 := by
  induction cvars generalizing s with
  | nil => exact hs
  | cons c cvars ih =>
    obtain ⟨hc, hcvars⟩ := List.forall_mem_cons.mp henforces
    rw [List.map_cons, List.mem_cons, not_or] at hname
    rcases editCvars_cons typed c cvars s with ⟨_, hedit⟩ | ⟨v, c', s', hsets, hedit⟩
    · rw [hedit]
      exact ih hcvars hname.2 hs
    · rw [hedit]
      exact ih hcvars hname.2 (means_other_of_sets hsets hc hname.1 hs)

/-- INTERNAL: **the loop leaves all as the values say**. The induction is on the cvars that are still to come; each
is dealt with once, since the names are different.
SOURCE: game.cc:159-172 -/
theorem means_editCvars (typed : List Char → Option F) {cvars : List (Cvar F S)}
    (henforces : ∀ c ∈ cvars, Enforces means c) (horder : cvars.Pairwise (·.name < ·.name)) {s : S}
    (hs : ∀ c ∈ cvars, means c.name c.value s) :
    ∀ c ∈ (editCvars typed cvars s).1, means c.name c.value (editCvars typed cvars s).2 := by
  induction cvars generalizing s with
  | nil => exact hs
  | cons c cvars ih =>
    obtain ⟨hc, hcvars⟩ := List.forall_mem_cons.mp henforces
    obtain ⟨hfirst, hrest⟩ := List.pairwise_cons.mp horder
    obtain ⟨hcs, hss⟩ := List.forall_mem_cons.mp hs
    have hname : c.name ∉ cvars.map Cvar.name := by
      intro hmem
      obtain ⟨d, hd, hsame⟩ := List.mem_map.mp hmem
      exact (hfirst d hd).ne hsame.symm
    rcases editCvars_cons typed c cvars s with ⟨_, hedit⟩ | ⟨v, c', s', hsets, hedit⟩
    · rw [hedit]
      refine List.forall_mem_cons.mpr ⟨?_, ih hcvars hrest hss⟩
      exact means_other_editCvars typed hcvars hname hcs
    · rw [hedit]
      refine List.forall_mem_cons.mpr ⟨?_, ih hcvars hrest fun d hd => ?_⟩
      · rw [← name_of_sets hsets] at hname
        exact means_other_editCvars typed hcvars hname (means_of_sets hsets hc hcs)
      · exact means_other_of_sets hsets hc (hfirst d hd).ne' (hss d hd)

/-! ## Runs -/

/-- What holds behind events that have created these cvars. -/
structure CvarsSound (means : CvarMeaning F S) (created : List (Cvar F S)) (st : State F S) : Prop where
  order : st.cvars.Pairwise (·.name < ·.name)
  names : (st.cvars.map Cvar.name).Perm (created.map Cvar.name)
  enforces : ∀ c ∈ st.cvars, Enforces means c
  inForce : InForce means st
  descends : ∀ c ∈ st.cvars, ∃ first ∈ created, Descends first c

theorem cvarsSound_nil (s : S) : CvarsSound means [] (⟨[], s⟩ : State F S) :=
  ⟨List.Pairwise.nil, List.Perm.refl _, nofun, nofun, nofun⟩

theorem cvarsSound_create {created : List (Cvar F S)} {st st' : State F S} {c : Cvar F S}
    (h : CvarsSound means created st) (hc : Enforces means c) (hvalue : means c.name c.value st.rest)
    (hstep : st.create c = some st') : CvarsSound means (created ++ [c]) st' := by
  obtain ⟨cvars, hemplace, rfl⟩ := Option.map_eq_some_iff.mp hstep
  have hperm := perm_emplace hemplace
  have hmem : ∀ {P : Cvar F S → Prop}, P c → (∀ d ∈ st.cvars, P d) → ∀ d ∈ cvars, P d := by
    intro P hPc hP d hd
    rcases List.mem_cons.mp (hperm.mem_iff.mp hd) with rfl | hd
    · exact hPc
    · exact hP d hd
  refine ⟨pairwise_emplace hemplace h.order, ?_, hmem hc h.enforces, hmem hvalue h.inForce, hmem ?_ ?_⟩
  · rw [List.map_append, List.map_singleton]
    exact (hperm.map _).trans ((h.names.cons c.name).trans (List.perm_append_singleton c.name _).symm)
  · exact ⟨c, List.mem_append_right _ List.mem_cons_self, descends_self c⟩
  · intro d hd
    obtain ⟨first, hfirst, hdescends⟩ := h.descends d hd
    exact ⟨first, List.mem_append_left _ hfirst, hdescends⟩

theorem cvarsSound_frame {created : List (Cvar F S)} {st : State F S} (h : CvarsSound means created st)
    (typed : List Char → Option F) :
    CvarsSound means created
      ⟨(editCvars typed st.cvars st.rest).1, (editCvars typed st.cvars st.rest).2⟩ where
  order := by
    have hnames := List.pairwise_map.mpr h.order
    rw [← names_editCvars typed st.cvars st.rest] at hnames
    exact List.pairwise_map.mp hnames
  names := by
    rw [names_editCvars]
    exact h.names
  enforces := forall_editCvars (fun _ _ _ _ _ hsets hc => enforces_of_sets hsets hc) typed h.enforces st.rest
  inForce := means_editCvars typed h.enforces h.order h.inForce
  descends := by
    refine forall_editCvars (fun c v s c' s' hsets hc => ?_) typed h.descends st.rest
    obtain ⟨first, hfirst, hdescends⟩ := hc
    exact ⟨first, hfirst, descends_of_sets hsets hdescends⟩

/-- INTERNAL: **what a whole run keeps**. -/
theorem cvarsSound_run {created : List (Cvar F S)} {st st' : State F S} {events : List (Event F S)}
    (h : CvarsSound means created st) (hevents : EachStep step (Introduces means) st events)
    (hrun : runActions step st events = some st') : CvarsSound means (created ++ createdBy events) st' := by
  induction events generalizing created st with
  | nil =>
    rw [runActions_nil, Option.some.injEq] at hrun
    subst hrun
    rw [createdBy, List.append_nil]
    exact h
  | cons e events ih =>
    rw [runActions_cons, Option.bind_eq_some_iff] at hrun
    obtain ⟨t, hstep, hrest⟩ := hrun
    obtain ⟨hintroduces, hlater⟩ := hevents t hstep
    cases e with
    | create c =>
      have hnext := ih (cvarsSound_create h hintroduces.1 hintroduces.2 hstep) hlater hrest
      rw [List.append_assoc, List.singleton_append] at hnext
      exact hnext
    | frame typed =>
      obtain rfl := Option.some.inj hstep
      exact ih (cvarsSound_frame h typed) hlater hrest

/-! ## Those of the renderer -/

section

variable [BEq F] [NatCast F]

theorem beq_eq_decide (hF : SmallFloats F) {v : F} {k n : ℕ} (hk : k < 4) (hn : n < 4) (h : (v == (k : F)) = true) :
    (v == (n : F)) = decide (k = n) := by
  by_cases hsame : k = n
  · rw [← hsame, h, decide_eq_true rfl]
  · rw [decide_eq_false hsame, Bool.eq_false_iff]
    exact fun hv => hsame (hF.unique v k n hk hn h hv)

theorem cullsAs_iff (hF : SmallFloats F) {v : F} {r : Raster} {k : ℕ} (hk : k < 4) (h : (v == (k : F)) = true) :
    CullsAs v r ↔ r.cullFace = !decide (k = 0) ∧ (k = 1 → r.culledFace = .back) ∧
      (k = 2 → r.culledFace = .front) ∧ (k = 3 → r.culledFace = .frontAndBack) := by
  have h0 := beq_eq_decide hF hk (by decide : 0 < 4) h
  have h1 := beq_eq_decide hF hk (by decide : 1 < 4) h
  have h2 := beq_eq_decide hF hk (by decide : 2 < 4) h
  have h3 := beq_eq_decide hF hk (by decide : 3 < 4) h
  rw [← h0, ← decide_eq_true_iff (p := k = 1), ← decide_eq_true_iff (p := k = 2),
    ← decide_eq_true_iff (p := k = 3), ← h1, ← h2, ← h3]
  constructor
  · intro hculls
    exact ⟨hculls.off, hculls.back, hculls.front, hculls.both⟩
  · rintro ⟨hoff, hback, hfront, hboth⟩
    exact ⟨hoff, hback, hfront, hboth⟩

theorem fillsAs_iff (hF : SmallFloats F) {v : F} {r : Raster} {k : ℕ} (hk : k < 4) (h : (v == (k : F)) = true) :
    FillsAs v r ↔ (k = 0 → r.polygonMode = .fill) ∧ (k = 1 → r.polygonMode = .line) ∧
      (k = 2 → r.polygonMode = .point) := by
  have h0 := beq_eq_decide hF hk (by decide : 0 < 4) h
  have h1 := beq_eq_decide hF hk (by decide : 1 < 4) h
  have h2 := beq_eq_decide hF hk (by decide : 2 < 4) h
  rw [← decide_eq_true_iff (p := k = 0), ← decide_eq_true_iff (p := k = 1), ← decide_eq_true_iff (p := k = 2),
    ← h0, ← h1, ← h2]
  constructor
  · intro hfills
    exact ⟨hfills.fill, hfills.line, hfills.point⟩
  · rintro ⟨hfill, hline, hpoint⟩
    exact ⟨hfill, hline, hpoint⟩

/-- What a callback of the renderer does with a value that it is given. -/
structure Decides (n : ℕ) (callback : F → Raster → F × Raster × Bool) : Prop where
  value : ∀ v r, (callback v r).1 = v
  taken : ∀ v r, (callback v r).2.2 = accepts n v
  refused : ∀ v r, (callback v r).2.2 = false → (callback v r).2.1 = r

/-- SOURCE: renderer/renderer.cc:314-330 -/
theorem decides_cullFaces : Decides 4 (cullFaces : F → Raster → F × Raster × Bool) where
  value v r := by
    rw [cullFaces]
    split_ifs <;> rfl
  taken v r := by
    have haccepts : accepts 4 v = ((v == ((0 : ℕ) : F)) || ((v == ((1 : ℕ) : F)) ||
        ((v == ((2 : ℕ) : F)) || ((v == ((3 : ℕ) : F)) || false)))) := rfl
    rw [haccepts, cullFaces]
    split_ifs with h0 h1 h2 h3 <;> simp only [*, Bool.true_or, Bool.false_or, Bool.or_true]
  refused v r h := by
    rw [cullFaces] at h ⊢
    split_ifs at h ⊢
    rfl

/-- SOURCE: renderer/renderer.cc:332-343 -/
theorem decides_wireframe : Decides 3 (wireframe : F → Raster → F × Raster × Bool) where
  value v r := by
    rw [wireframe]
    split_ifs <;> rfl
  taken v r := by
    have haccepts : accepts 3 v = ((v == ((0 : ℕ) : F)) || ((v == ((1 : ℕ) : F)) ||
        ((v == ((2 : ℕ) : F)) || false))) := rfl
    rw [haccepts, wireframe]
    split_ifs with h0 h1 h2 <;> simp only [*, Bool.true_or, Bool.false_or, Bool.or_true]
  refused v r h := by
    rw [wireframe] at h ⊢
    split_ifs at h ⊢
    rfl

theorem cullFaces_polygonMode (v : F) (r : Raster) : (cullFaces v r).2.1.polygonMode = r.polygonMode := by
  rw [cullFaces]
  split_ifs <;> rfl

theorem wireframe_culling (v : F) (r : Raster) :
    (wireframe v r).2.1.cullFace = r.cullFace ∧ (wireframe v r).2.1.culledFace = r.culledFace := by
  rw [wireframe]
  split_ifs <;> exact ⟨rfl, rfl⟩

theorem cullsAs_cullFaces (hF : SmallFloats F) {v : F} {r : Raster} (h : (cullFaces v r).2.2 = true) :
    CullsAs v (cullFaces v r).2.1 := by
  rw [cullFaces] at h ⊢
  split_ifs at h ⊢ with h0 h1 h2 h3
  · exact (cullsAs_iff hF (by decide) h0).mpr ⟨rfl, nofun, nofun, nofun⟩
  · exact (cullsAs_iff hF (by decide) h1).mpr ⟨rfl, fun _ => rfl, nofun, nofun⟩
  · exact (cullsAs_iff hF (by decide) h2).mpr ⟨rfl, nofun, fun _ => rfl, nofun⟩
  · exact (cullsAs_iff hF (by decide) h3).mpr ⟨rfl, nofun, nofun, fun _ => rfl⟩

theorem fillsAs_wireframe (hF : SmallFloats F) {v : F} {r : Raster} (h : (wireframe v r).2.2 = true) :
    FillsAs v (wireframe v r).2.1 := by
  rw [wireframe] at h ⊢
  split_ifs at h ⊢ with h0 h1 h2
  · exact (fillsAs_iff hF (by decide) h0).mpr ⟨fun _ => rfl, nofun, nofun⟩
  · exact (fillsAs_iff hF (by decide) h1).mpr ⟨nofun, fun _ => rfl, nofun⟩
  · exact (fillsAs_iff hF (by decide) h2).mpr ⟨nofun, nofun, fun _ => rfl⟩

theorem cullsAs_of_same {v : F} {r r' : Raster} (h : CullsAs v r)
    (hsame : r'.cullFace = r.cullFace ∧ r'.culledFace = r.culledFace) : CullsAs v r' where
  off := hsame.1.trans h.off
  back hv := hsame.2.trans (h.back hv)
  front hv := hsame.2.trans (h.front hv)
  both hv := hsame.2.trans (h.both hv)

theorem fillsAs_of_same {v : F} {r r' : Raster} (h : FillsAs v r) (hsame : r'.polygonMode = r.polygonMode) :
    FillsAs v r' where
  fill hv := hsame.trans (h.fill hv)
  line hv := hsame.trans (h.line hv)
  point hv := hsame.trans (h.point hv)

theorem cullFaces_lt_wireframe : "r_cull_faces".toList < "r_wireframe".toList := by decide

theorem cullFaces_ne_wireframe : "r_cull_faces".toList ≠ "r_wireframe".toList := cullFaces_lt_wireframe.ne

/-- INTERNAL: `r_cull_faces` does what it means, and nothing to `r_wireframe`.
SOURCE: renderer/renderer.cc:314-330 -/
theorem enforces_cullFaces (hF : SmallFloats F) {c : Cvar F Raster} (hname : c.name = "r_cull_faces".toList)
    (hcallback : c.callback = cullFaces) : Enforces rasterMeaning c := by
  refine ⟨fun v r htaken => ?_, fun v r value hrefused hmeans => ?_, fun v r name value hother hmeans => ?_⟩
  · rw [hname, hcallback, decides_cullFaces.value]
    rw [hcallback] at htaken
    exact ⟨fun _ => cullsAs_cullFaces hF htaken, fun h => absurd h cullFaces_ne_wireframe⟩
  · rw [hcallback] at hrefused ⊢
    rwa [decides_cullFaces.refused v r hrefused]
  · rw [hname] at hother
    rw [hcallback]
    exact ⟨fun h => absurd h hother, fun h => fillsAs_of_same (hmeans.2 h) (cullFaces_polygonMode v r)⟩

/-- INTERNAL: `r_wireframe` does what it means, and nothing to `r_cull_faces`.
SOURCE: renderer/renderer.cc:332-343 -/
theorem enforces_wireframe (hF : SmallFloats F) {c : Cvar F Raster} (hname : c.name = "r_wireframe".toList)
    (hcallback : c.callback = wireframe) : Enforces rasterMeaning c := by
  refine ⟨fun v r htaken => ?_, fun v r value hrefused hmeans => ?_, fun v r name value hother hmeans => ?_⟩
  · rw [hname, hcallback, decides_wireframe.value]
    rw [hcallback] at htaken
    exact ⟨fun h => absurd h.symm cullFaces_ne_wireframe, fun _ => fillsAs_wireframe hF htaken⟩
  · rw [hcallback] at hrefused ⊢
    rwa [decides_wireframe.refused v r hrefused]
  · rw [hname] at hother
    rw [hcallback]
    exact ⟨fun h => cullsAs_of_same (hmeans.1 h) (wireframe_culling v r), fun h => absurd h hother⟩

theorem enforces_settingsCvars (hF : SmallFloats F) (settings : Settings F) :
    ∀ c ∈ settingsCvars settings, Enforces rasterMeaning c := by
  rw [settingsCvars, List.forall_mem_cons, List.forall_mem_singleton]
  exact ⟨enforces_cullFaces hF rfl rfl, enforces_wireframe hF rfl rfl⟩

theorem pairwise_settingsCvars (settings : Settings F) :
    (settingsCvars settings).Pairwise (·.name < ·.name) :=
  List.pairwise_pair.mpr cullFaces_lt_wireframe

theorem inForce_settingsCvars {settings : Settings F} {r : Raster} :
    InForce rasterMeaning ⟨settingsCvars settings, r⟩ ↔ DrawsAs settings r := by
  rw [InForce, settingsCvars, List.forall_mem_cons, List.forall_mem_singleton]
  constructor
  · rintro ⟨hculls, hfills⟩
    exact ⟨hculls.1 rfl, hfills.2 rfl⟩
  · rintro ⟨hculls, hfills⟩
    refine ⟨⟨fun _ => hculls, fun h => ?_⟩, ⟨fun h => ?_, fun _ => hfills⟩⟩
    · exact absurd h cullFaces_ne_wireframe
    · exact absurd h.symm cullFaces_ne_wireframe

/-- INTERNAL: what the loop does to the value of a cvar that decides by its value.
SOURCE: game.cc:159-165 -/
theorem exists_editCvars_cons {n : ℕ} {c : Cvar F Raster} (h : Decides n c.callback)
    (typed : List Char → Option F) (cvars : List (Cvar F Raster)) (r : Raster) :
    ∃ r', (editCvars typed (c :: cvars) r).1 =
      { c with value := entered n c.value (typed c.name) } :: (editCvars typed cvars r').1 := by
  rw [editCvars]
  cases htyped : typed c.name with
  | none => exact ⟨r, rfl⟩
  | some v =>
    refine ⟨(c.setValue v r).2.1, ?_⟩
    have hvalue := h.value v r
    have htaken := h.taken v r
    have hset : (c.setValue v r).1 = { c with value := entered n c.value (some v) } := by
      rcases hcall : c.callback v r with ⟨v', r', ok⟩
      rw [hcall] at hvalue htaken
      obtain rfl : v' = v := hvalue
      obtain rfl : ok = accepts n v' := htaken
      rw [Cvar.setValue, hcall, entered, Option.filter]
      cases accepts n v' with
      | true => rfl
      | false => rfl
    rw [← hset]

theorem editCvars_settingsCvars (typed : List Char → Option F) (settings : Settings F) (r : Raster) :
    (editCvars typed (settingsCvars settings) r).1 = settingsCvars (settings.enter typed) := by
  obtain ⟨r', hcull⟩ := exists_editCvars_cons (c := { rCullFaces with value := settings.cullFaces })
    decides_cullFaces typed [{ rWireframe with value := settings.wireframe }] r
  obtain ⟨r'', hwireframe⟩ := exists_editCvars_cons (c := { rWireframe with value := settings.wireframe })
    decides_wireframe typed [] r'
  rw [settingsCvars, hcull, hwireframe]
  rfl

theorem drawsAs_editCvars (hF : SmallFloats F) (typed : List Char → Option F) {settings : Settings F} {r : Raster}
    (h : DrawsAs settings r) :
    DrawsAs (settings.enter typed) (editCvars typed (settingsCvars settings) r).2 := by
  have hmeans := means_editCvars typed (enforces_settingsCvars hF settings) (pairwise_settingsCvars settings)
    (inForce_settingsCvars.mpr h)
  rw [editCvars_settingsCvars] at hmeans
  exact inForce_settingsCvars.mp hmeans

/-- INTERNAL: **what frames keep**. -/
theorem drawsAs_run (hF : SmallFloats F) (frames : List (List Char → Option F)) {settings : Settings F} {r : Raster}
    (h : DrawsAs settings r) :
    ∃ r', runActions step ⟨settingsCvars settings, r⟩ (frames.map Event.frame) =
        some ⟨settingsCvars (frames.foldl Settings.enter settings), r'⟩ ∧
      DrawsAs (frames.foldl Settings.enter settings) r' := by
  induction frames generalizing settings r with
  | nil => exact ⟨r, rfl, h⟩
  | cons typed frames ih =>
    obtain ⟨r', hrun, hdraws⟩ := ih (drawsAs_editCvars hF typed h)
    refine ⟨r', ?_, hdraws⟩
    have hstep : step ⟨settingsCvars settings, r⟩ (.frame typed) =
        some ⟨settingsCvars (settings.enter typed), (editCvars typed (settingsCvars settings) r).2⟩ := by
      rw [← editCvars_settingsCvars typed settings r]
      rfl
    rw [List.map_cons, runActions_cons, hstep, Option.bind_some, hrun]
    rfl

theorem drawsAs_firstSettings (hF : SmallFloats F) :
    DrawsAs (firstSettings : Settings F) Raster.context.init where
  culls := (cullsAs_iff hF (by decide) (hF.self 1 (by decide))).mpr ⟨rfl, fun _ => rfl, nofun, nofun⟩
  fills := (fillsAs_iff hF (by decide) (hF.self 0 (by decide))).mpr ⟨fun _ => rfl, nofun, nofun⟩

/-- INTERNAL: no assertion fails, since the two have different names.
SOURCE: renderer/renderer.cc:305-343 -/
theorem renderer_eq :
    (renderer : Option (State F Raster)) = some ⟨settingsCvars firstSettings, Raster.context.init⟩ := by
  have hlt : (rCullFaces : Cvar F Raster).name < (rWireframe : Cvar F Raster).name := cullFaces_lt_wireframe
  have hemplace : emplace rWireframe [(rCullFaces : Cvar F Raster)] = some [rCullFaces, rWireframe] := by
    rw [emplace, if_neg hlt.not_gt, if_pos hlt]
    rfl
  rw [renderer, State.create, emplace, Option.map_some, Option.bind_some, State.create, hemplace]
  rfl

end

/-! ## All runs -/

/-- INTERNAL: whole numbers in place of floats. -/
theorem smallFloats_int : SmallFloats ℤ where
  self _ _ := beq_self_eq_true _
  unique v m n _ _ hm hn := by
    have hsame := (beq_iff_eq.mp hm).symm.trans (beq_iff_eq.mp hn)
    exact Int.ofNat_inj.mp hsame

/-- What is typed into the field of `r_cull_faces`. -/
def typedCullFaces (v : ℤ) (name : List Char) : Option ℤ := if name = "r_cull_faces".toList then some v else none

/-- SOURCE: cvar.cc:13-34, game.cc:159-172 — **cvars stay in order and in force**. Whatever cvars are created and
whatever is typed into their fields, in any order: writing to cvars in the set leaves it in the order of their
names, with each that was created once; another can be created exactly if its name is new. Each is as it was
created, but for a value that its callback has taken. If the callbacks enforce what they take and do not disturb one
another, what there is besides is at all times as the values say. -/
theorem cvars_stay_in_force {s : S} {events : List (Event F S)} {st : State F S}
    (hevents : EachStep step (Introduces means) ⟨[], s⟩ events)
    (hrun : runActions step ⟨[], s⟩ events = some st) :
    st.cvars.Pairwise (·.name < ·.name) ∧
      (st.cvars.map Cvar.name).Perm ((createdBy events).map Cvar.name) ∧
      (∀ c, (st.create c).isSome = true ↔ c.name ∉ (createdBy events).map Cvar.name) ∧
      InForce means st ∧ ∀ c ∈ st.cvars, ∃ first ∈ createdBy events, Descends first c := by
  have hsound := cvarsSound_run (cvarsSound_nil s) hevents hrun
  rw [List.nil_append] at hsound
  refine ⟨hsound.order, hsound.names, fun c => ?_, hsound.inForce, hsound.descends⟩
  rw [State.create, Option.isSome_map, emplace_isSome_iff hsound.order, hsound.names.mem_iff]

/-- Those of the renderer are in force, and there is no second `r_cull_faces`. -/
theorem cvars_stay_in_force_renderer :
    ∃ st : State ℤ Raster, runActions step ⟨[], Raster.context.init⟩
        [.create rCullFaces, .create rWireframe, .frame (typedCullFaces 2)] = some st ∧
      InForce rasterMeaning st ∧ (st.create rCullFaces).isSome = false := by
  have hmeans := inForce_settingsCvars.mpr (drawsAs_firstSettings smallFloats_int)
  have henforces := enforces_settingsCvars smallFloats_int firstSettings
  have hevents : EachStep step (Introduces rasterMeaning) (⟨[], Raster.context.init⟩ : State ℤ Raster)
      [.create rCullFaces, .create rWireframe, .frame (typedCullFaces 2)] := by
    intro st hfirst
    obtain rfl := Option.some.inj hfirst
    refine ⟨⟨henforces _ List.mem_cons_self, hmeans _ List.mem_cons_self⟩, fun st' _ => ?_⟩
    have hmem : rWireframe ∈ settingsCvars (firstSettings : Settings ℤ) :=
      List.mem_cons_of_mem _ List.mem_cons_self
    exact ⟨⟨henforces _ hmem, hmeans _ hmem⟩, fun _ _ => ⟨trivial, trivial⟩⟩
  refine ⟨_, rfl, ?_⟩
  obtain ⟨_, _, hcreate, hinForce, _⟩ := cvars_stay_in_force hevents rfl
  refine ⟨hinForce, Bool.eq_false_iff.mpr fun hsome => ?_⟩
  exact (hcreate rCullFaces).mp hsome List.mem_cons_self

/-- SOURCE: renderer/renderer.cc:305-343, game.cc:159-172 — **drawn as it is set**. A renderer has its two cvars
without an assertion failing, and at the end of every frame, whatever has been typed so far, each has the last of the
values typed into its field that it accepts, or the one it starts with, and OpenGL leaves out faces and draws the
others as these values say. -/
theorem renderer_draws_as_set [BEq F] [NatCast F] (hF : SmallFloats F) (frames : List (List Char → Option F)) :
    ∃ st st', renderer = some st ∧ runActions step st (frames.map Event.frame) = some st' ∧
      st'.cvars = settingsCvars (frames.foldl Settings.enter firstSettings) ∧
      DrawsAs (frames.foldl Settings.enter firstSettings) st'.rest := by
  obtain ⟨r', hrun, hdraws⟩ := drawsAs_run hF frames (drawsAs_firstSettings hF)
  exact ⟨_, _, renderer_eq, hrun, rfl, hdraws⟩

/-- Front faces are left out, and a value that is none of its values does not change this. -/
theorem renderer_draws_as_set_front :
    ∃ st st', (renderer : Option (State ℤ Raster)) = some st ∧
      runActions step st ([typedCullFaces 2, typedCullFaces 7].map Event.frame) = some st' ∧
      st'.rest.cullFace = true ∧ st'.rest.culledFace = .front := by
  obtain ⟨st, st', hrenderer, hrun, _, hdraws⟩ :=
    renderer_draws_as_set smallFloats_int [typedCullFaces 2, typedCullFaces 7]
  have hsettings : [typedCullFaces 2, typedCullFaces 7].foldl Settings.enter firstSettings = ⟨2, 0⟩ := rfl
  rw [hsettings] at hdraws
  exact ⟨st, st', hrenderer, hrun, hdraws.culls.off, hdraws.culls.front rfl⟩

end Mccpp.Analysis
