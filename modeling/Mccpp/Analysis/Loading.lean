import Mccpp.Interface.DepthFirst

/-!
# Getting resources from constructors

Between two calls of `get`, the managers of all runs are `Consistent`. A call keeps that, and what
it throws tells why (`Reason`); this is all that one needs to know of a nested call. What is
returned is loaded, hence has no cycle ahead, and so the calls that throw are known as well.
-/

set_option autoImplicit false

namespace Mccpp.Analysis

open Mccpp.Library Mccpp.Interface Mccpp.Model.Loading

variable {τ ε α β : Type}

/-! ## Sequencing -/

section Sequencing

variable {x : Load τ ε α} {f : α → Load τ ε β} {m m' : Manager τ} {outcome : Outcome ε β}

/-- INTERNAL: how code and its continuation end. -/
theorem bind_cases (h : Load.bind x f m = some (outcome, m')) :
    (∃ value m₁, x m = some (.returned value, m₁) ∧ f value m₁ = some (outcome, m')) ∨
    (∃ e, x m = some (.thrown e, m') ∧ outcome = .thrown e) ∨
    (x m = some (.assertionFailed, m') ∧ outcome = .assertionFailed) := by
  cases hx : x m with
  | none => simp [Load.bind, hx] at h
  | some result =>
    obtain ⟨first, m₁⟩ := result
    cases first with
    | returned value =>
      left
      exact ⟨value, m₁, rfl, by simpa [Load.bind, hx] using h⟩
    | thrown e =>
      right; left
      have hends : Outcome.thrown e = outcome ∧ m₁ = m' := by simpa [Load.bind, hx] using h
      exact ⟨e, by rw [hends.2], hends.1.symm⟩
    | assertionFailed =>
      right; right
      have hends : Outcome.assertionFailed = outcome ∧ m₁ = m' := by
        simpa [Load.bind, hx] using h
      exact ⟨by rw [hends.2], hends.1.symm⟩

/-- INTERNAL: code ends if its first part does, and what follows does when that returns. -/
theorem bind_isSome (hx : (x m).isSome)
    (hf : ∀ value m₁, x m = some (.returned value, m₁) → (f value m₁).isSome) :
    (Load.bind x f m).isSome := by
  cases hresult : x m with
  | none => simp [hresult] at hx
  | some result =>
    obtain ⟨first, m₁⟩ := result
    cases first with
    | returned value => simpa [Load.bind, hresult] using hf value m₁ hresult
    | thrown e => simp [Load.bind, hresult]
    | assertionFailed => simp [Load.bind, hresult]

end Sequencing

theorem scopeExit_cases {callback : Manager τ → Manager τ} {x : Load τ ε α} {m m' : Manager τ}
    {outcome : Outcome ε α} (h : Load.scopeExit callback x m = some (outcome, m')) :
    ∃ m₁, x m = some (outcome, m₁) ∧ (outcome ≠ .assertionFailed → m' = callback m₁) := by
  cases hx : x m with
  | none => simp [Load.scopeExit, hx] at h
  | some result =>
    obtain ⟨first, m₁⟩ := result
    cases first <;> simp only [Load.scopeExit, hx, Option.some.injEq, Prod.mk.injEq] at h <;>
      exact ⟨m₁, by rw [h.1], fun hne => by simp_all⟩

theorem scopeExit_isSome {callback : Manager τ → Manager τ} {x : Load τ ε α} {m : Manager τ}
    (h : (x m).isSome) : (Load.scopeExit callback x m).isSome := by
  obtain ⟨⟨outcome, m₁⟩, hx⟩ := Option.isSome_iff_exists.mp h
  cases outcome <;> simp [Load.scopeExit, hx]

/-! ## What holds between two calls -/

section Invariant

variable {constructors : StorageKey τ → Constructor τ ε}

/-- What is in `m_resources` has been made for its key, with all it depends on; what is in progress
is not there. -/
structure Consistent (constructors : StorageKey τ → Constructor τ ε) (m : Manager τ) : Prop where
  made : ∀ key res, m.mResources key = some res → (m.objects[res]?).map Resource.key = some key
  stored : ∀ (res : ℕ) o, m.objects[res]? = some o → m.mResources o.key = some res
  closed : ClosedUnder (Needs constructors) (loaded m)
  acyclic : ∀ key ∈ loaded m, ¬Relation.TransGen (Needs constructors) key key
  sound : ∀ key ∈ loaded m, (constructors key).failure = none
  waiting : ∀ key ∈ inProgressKeys m, m.mResources key = none
  distinct : (inProgressKeys m).Nodup

/-- Why an exception is thrown for `key` when `keys` are in progress. -/
inductive Reason (constructors : StorageKey τ → Constructor τ ε) (keys : List (StorageKey τ))
    (key : StorageKey τ) : Exception ε → Prop where
  | cycle : Trapped (Needs constructors) keys key →
      Reason constructors keys key resourceCycleDetected
  | failure (k : StorageKey τ) (e : ε) : Relation.ReflTransGen (Needs constructors) key k →
      (constructors k).failure = some e → Reason constructors keys key (.ownException e)

/-- INTERNAL: an exception of a dependency is one of the resource that needs it. -/
theorem Reason.of_need {keys : List (StorageKey τ)} {key dep : StorageKey τ} {e : Exception ε}
    (hneeds : Needs constructors key dep) (h : Reason constructors (key :: keys) dep e) :
    Reason constructors keys key e := by
  cases h with
  | cycle htrapped => exact .cycle (htrapped.of_need hneeds)
  | failure k e hway hfailure => exact .failure k e (.head hneeds hway) hfailure

/-- What a call keeps, however it ends. -/
structure Keeps (constructors : StorageKey τ → Constructor τ ε) (m m' : Manager τ) : Prop where
  consistent : Consistent constructors m'
  initList : m'.mInitList = m.mInitList
  kept : ∀ k res, m.mResources k = some res → m'.mResources k = some res

/-- INTERNAL: the specification of a call, as far as the caller needs it. -/
structure Got (constructors : StorageKey τ → Constructor τ ε) (m : Manager τ)
    (key : StorageKey τ) (outcome : Outcome ε (Option ℕ)) (m' : Manager τ) : Prop where
  keeps : Keeps constructors m m'
  returned : ∀ p, outcome = .returned p → ∃ res, p = some res ∧ m'.mResources key = some res
  thrown : ∀ e, outcome = .thrown e → Reason constructors (inProgressKeys m) key e
  asserted : outcome ≠ .assertionFailed

theorem Keeps.refl {m : Manager τ} (h : Consistent constructors m) : Keeps constructors m m :=
  ⟨h, rfl, fun _ _ h => h⟩

theorem Keeps.trans {m₁ m₂ m₃ : Manager τ} (h : Keeps constructors m₁ m₂)
    (h' : Keeps constructors m₂ m₃) : Keeps constructors m₁ m₃ where
  consistent := h'.consistent
  initList := h'.initList.trans h.initList
  kept k res hres := h'.kept k res (h.kept k res hres)

theorem mem_loaded {m : Manager τ} {key : StorageKey τ} :
    key ∈ loaded m ↔ ∃ res, m.mResources key = some res := by
  simp [loaded, Option.ne_none_iff_exists']

theorem Keeps.loaded {m m' : Manager τ} (h : Keeps constructors m m') {key : StorageKey τ}
    (hkey : key ∈ Interface.loaded m) : key ∈ Interface.loaded m' := by
  obtain ⟨res, hres⟩ := mem_loaded.mp hkey
  exact mem_loaded.mpr ⟨res, h.kept key res hres⟩

theorem consistent_init : Consistent constructors (Manager.init : Manager τ) where
  made _ _ h := by simp [Manager.init] at h
  stored _ _ h := by simp [Manager.init] at h
  closed _ h := by simp [Interface.loaded, Manager.init] at h
  acyclic _ h := by simp [Interface.loaded, Manager.init] at h
  sound _ h := by simp [Interface.loaded, Manager.init] at h
  waiting _ h := by simp [inProgressKeys, Manager.init] at h
  distinct := by simp [inProgressKeys, Manager.init]

/-- INTERNAL: a resource is made once. -/
theorem Consistent.nodup {m : Manager τ} (h : Consistent constructors m) :
    (m.objects.map Resource.key).Nodup := by
  rw [List.nodup_iff_getElem?_ne_getElem?]
  intro i j hij hj hsame
  rw [List.length_map] at hj
  have hi : i < m.objects.length := hij.trans hj
  simp only [List.getElem?_map, List.getElem?_eq_getElem hi, List.getElem?_eq_getElem hj,
    Option.map_some, Option.some.injEq] at hsame
  have hfirst := h.stored i _ (List.getElem?_eq_getElem hi)
  have hsecond := h.stored j _ (List.getElem?_eq_getElem hj)
  rw [hsame, hsecond, Option.some.injEq] at hfirst
  omega

/-! ## The list of what is in progress -/

@[simp] theorem inProgressKeys_emplaceFront (m : Manager τ) (key : StorageKey τ) :
    inProgressKeys (m.emplaceFront key).2 = key :: inProgressKeys m := rfl

@[simp] theorem emplaceFront_mResources (m : Manager τ) (key : StorageKey τ) :
    (m.emplaceFront key).2.mResources = m.mResources := rfl

@[simp] theorem erase_mResources (m : Manager τ) (iter : ℕ) :
    (m.erase iter).mResources = m.mResources := rfl

@[simp] theorem erase_objects (m : Manager τ) (iter : ℕ) :
    (m.erase iter).objects = m.objects := rfl

theorem Consistent.emplaceFront {m : Manager τ} {key : StorageKey τ}
    (h : Consistent constructors m) (hres : m.mResources key = none)
    (hkey : key ∉ inProgressKeys m) : Consistent constructors (m.emplaceFront key).2 where
  made := h.made
  stored := h.stored
  closed := h.closed
  acyclic := h.acyclic
  sound := h.sound
  waiting := by simpa [hres] using h.waiting
  distinct := by simpa [hkey] using h.distinct

/-- INTERNAL: what was emplaced is erased, and nothing else. -/
theorem erase_mInitList {m m₁ : Manager τ} {key : StorageKey τ}
    (h : m₁.mInitList = (m.emplaceFront key).2.mInitList) :
    (m₁.erase (m.emplaceFront key).1).mInitList = m.mInitList := by
  simp [Manager.erase, h, Manager.emplaceFront]

/-- INTERNAL: a constructor that throws leaves a consistent manager, without what was in
progress. -/
theorem Keeps.unwind {m m₁ : Manager τ} {key : StorageKey τ} (hm : Consistent constructors m)
    (h : Keeps constructors (m.emplaceFront key).2 m₁) :
    Keeps constructors m (m₁.erase (m.emplaceFront key).1) where
  initList := erase_mInitList h.initList
  kept := h.kept
  consistent := {
    made := h.consistent.made
    stored := h.consistent.stored
    closed := h.consistent.closed
    acyclic := h.consistent.acyclic
    sound := h.consistent.sound
    waiting := by
      intro k hk
      rw [inProgressKeys, erase_mInitList h.initList] at hk
      apply h.consistent.waiting
      rw [inProgressKeys, h.initList]
      exact List.mem_cons_of_mem _ hk
    distinct := by
      rw [inProgressKeys, erase_mInitList h.initList]
      exact hm.distinct }

end Invariant

/-! ## A call -/

section Call

variable [DecidableEq τ] {constructors : StorageKey τ → Constructor τ ε}

@[simp] theorem inProgress_iff {m : Manager τ} {key : StorageKey τ} :
    m.inProgress key = true ↔ key ∈ inProgressKeys m := by
  simp [Manager.inProgress, inProgressKeys]

/-- The manager in which a resource has been made and inserted. -/
def insertResource (key : StorageKey τ) (handles : List (Option ℕ)) (m : Manager τ) : Manager τ :=
  { m with
    mResources := fun k => if k = key then some m.objects.length else m.mResources k
    objects := m.objects ++ [⟨key, handles⟩] }

theorem loaded_insertResource {key : StorageKey τ} {handles : List (Option ℕ)} {m : Manager τ} :
    loaded (insertResource key handles m) = insert key (loaded m) := by
  ext k
  by_cases hk : k = key <;> simp [insertResource, loaded, hk]

/-- INTERNAL: what is in the map after an insertion has been made for its key. -/
theorem made_insertResource {m : Manager τ} (hm : Consistent constructors m) {key k : StorageKey τ}
    {handles : List (Option ℕ)} {res : ℕ}
    (h : (insertResource key handles m).mResources k = some res) :
    ((insertResource key handles m).objects[res]?).map Resource.key = some k := by
  simp only [insertResource] at h ⊢
  by_cases hsame : k = key
  · rw [if_pos hsame, Option.some.injEq] at h
    simp [← h, hsame]
  · rw [if_neg hsame] at h
    have hmade := hm.made k res h
    obtain ⟨o, ho, -⟩ := Option.map_eq_some_iff.mp hmade
    rwa [List.getElem?_append_left (List.getElem?_eq_some_iff.mp ho).1]

/-- INTERNAL: what has been made is in the map after an insertion, if the key is new there. -/
theorem stored_insertResource {m : Manager τ} (hm : Consistent constructors m)
    {key : StorageKey τ} {handles : List (Option ℕ)} (hnew : m.mResources key = none) {res : ℕ}
    {o : Resource τ} (h : (insertResource key handles m).objects[res]? = some o) :
    (insertResource key handles m).mResources o.key = some res := by
  simp only [insertResource] at h ⊢
  rcases Nat.lt_or_ge res m.objects.length with hlt | hge
  · rw [List.getElem?_append_left hlt] at h
    have hstored := hm.stored res o h
    have hother : o.key ≠ key := by
      intro hsame
      simp [hsame, hnew] at hstored
    rwa [if_neg hother]
  · rw [List.getElem?_append_right hge] at h
    obtain ⟨hlast, rfl⟩ := List.getElem?_eq_some_iff.mp h
    have hend : res = m.objects.length := by
      rw [List.length_singleton] at hlast
      omega
    simp [hend]

/-- INTERNAL: a resource whose dependencies are loaded may join them.
SOURCE: resource/resource.cc:70-74 -/
theorem Keeps.finish {m m₁ : Manager τ} {key : StorageKey τ} (handles : List (Option ℕ))
    (hm : Consistent constructors m) (hkey : key ∉ inProgressKeys m)
    (h : Keeps constructors (m.emplaceFront key).2 m₁)
    (hneeds : ∀ dep, Needs constructors key dep → dep ∈ Interface.loaded m₁)
    (hfailure : (constructors key).failure = none) :
    Keeps constructors m ((insertResource key handles m₁).erase (m.emplaceFront key).1) := by
  have hlist : ((insertResource key handles m₁).erase (m.emplaceFront key).1).mInitList =
      m.mInitList := @erase_mInitList τ m (insertResource key handles m₁) key h.initList
  have hkeys : inProgressKeys m₁ = key :: inProgressKeys m := by
    rw [inProgressKeys, h.initList]
    rfl
  have hres : m₁.mResources key = none := h.consistent.waiting key (by simp [hkeys])
  have hnew : key ∉ Interface.loaded m₁ := by simpa [Interface.loaded] using hres
  have hloaded : Interface.loaded
      ((insertResource key handles m₁).erase (m.emplaceFront key).1) =
        insert key (Interface.loaded m₁) := @loaded_insertResource τ _ key handles m₁
  have hothers : ∀ k, k ≠ key →
      (insertResource key handles m₁).mResources k = m₁.mResources k := by
    intro k hne
    simp [insertResource, hne]
  refine ⟨⟨?_, ?_, ?_, ?_, ?_, ?_, ?_⟩, hlist, ?_⟩
  · intro k res hk
    exact made_insertResource h.consistent hk
  · intro res o ho
    exact stored_insertResource h.consistent hres ho
  · rw [hloaded]
    exact h.consistent.closed.insert hneeds
  · rw [hloaded]
    rintro k (rfl | hk)
    · exact h.consistent.closed.not_cycle hneeds hnew
    · exact h.consistent.acyclic k hk
  · rw [hloaded]
    rintro k (rfl | hk)
    · exact hfailure
    · exact h.consistent.sound k hk
  · intro k hk
    rw [inProgressKeys, hlist] at hk
    rw [erase_mResources, hothers k fun hsame => hkey (hsame ▸ hk)]
    exact h.consistent.waiting k (by rw [hkeys]; exact List.mem_cons_of_mem _ hk)
  · rw [inProgressKeys, hlist]
    exact hm.distinct
  · intro k res hk
    have hk₁ : m₁.mResources k = some res := h.kept k res hk
    have hne : k ≠ key := by
      intro hsame
      simp [hsame, hres] at hk₁
    rw [erase_mResources, hothers k hne, hk₁]

omit [DecidableEq τ] in
/-- INTERNAL: the calls of a constructor. -/
theorem getDependencies_spec {get : StorageKey τ → Load τ ε (Option ℕ)}
    (hget : ∀ key m outcome m', Consistent constructors m → get key m = some (outcome, m') →
      Got constructors m key outcome m')
    (keys : List (StorageKey τ)) (m : Manager τ) (outcome : Outcome ε (List (Option ℕ)))
    (m' : Manager τ) (hm : Consistent constructors m)
    (h : getDependencies get keys m = some (outcome, m')) :
    Keeps constructors m m' ∧ (∀ handles, outcome = .returned handles →
      ∀ key ∈ keys, key ∈ loaded m') ∧
    (∀ e, outcome = .thrown e → ∃ key ∈ keys, Reason constructors (inProgressKeys m) key e) ∧
    outcome ≠ .assertionFailed := by
  induction keys generalizing m outcome with
  | nil =>
    obtain ⟨rfl, rfl⟩ : Outcome.returned [] = outcome ∧ m = m' := by
      simpa [getDependencies, Load.result] using h
    exact ⟨.refl hm, by simp, by simp, by simp⟩
  | cons key keys ih =>
    rcases bind_cases h with ⟨p, m₁, hfirst, hrest⟩ | ⟨e, hfirst, rfl⟩ | ⟨hfirst, rfl⟩
    · have hgot := hget key m _ m₁ hm hfirst
      have hkeys : inProgressKeys m₁ = inProgressKeys m := by
        rw [inProgressKeys, hgot.keeps.initList, inProgressKeys]
      obtain ⟨res, -, hres⟩ := hgot.returned p rfl
      have hkey : key ∈ loaded m₁ := mem_loaded.mpr ⟨res, hres⟩
      rcases bind_cases hrest with ⟨ps, m₂, hothers, hends⟩ | ⟨e, hothers, rfl⟩ | ⟨hothers, rfl⟩
      · obtain ⟨rfl, rfl⟩ : Outcome.returned (p :: ps) = outcome ∧ m₂ = m' := by
          simpa [Load.result] using hends
        obtain ⟨hkeeps, hloaded, -, -⟩ := ih m₁ _ hgot.keeps.consistent hothers
        refine ⟨hgot.keeps.trans hkeeps, ?_, by simp, by simp⟩
        intro _ _ k hk
        rcases List.mem_cons.mp hk with rfl | hk
        · exact hkeeps.loaded hkey
        · exact hloaded ps rfl k hk
      · obtain ⟨hkeeps, -, hthrown, -⟩ := ih m₁ _ hgot.keeps.consistent hothers
        refine ⟨hgot.keeps.trans hkeeps, by simp, ?_, by simp⟩
        rintro e' ⟨⟩
        obtain ⟨k, hk, hreason⟩ := hthrown e rfl
        exact ⟨k, List.mem_cons_of_mem _ hk, hkeys ▸ hreason⟩
      · obtain ⟨-, -, -, hasserted⟩ := ih m₁ _ hgot.keeps.consistent hothers
        exact absurd rfl hasserted
    · have hgot := hget key m _ m' hm hfirst
      refine ⟨hgot.keeps, by simp, ?_, by simp⟩
      rintro e' ⟨⟩
      exact ⟨key, List.mem_cons_self, hgot.thrown e rfl⟩
    · exact absurd rfl (hget key m _ m' hm hfirst).asserted

omit [DecidableEq τ] in
/-- INTERNAL: a constructor makes its resource when its dependencies are loaded, or it throws.
SOURCE: resource/resource.hh:74-77 -/
theorem createResource_spec {get : StorageKey τ → Load τ ε (Option ℕ)}
    (hget : ∀ key m outcome m', Consistent constructors m → get key m = some (outcome, m') →
      Got constructors m key outcome m')
    {key : StorageKey τ} {m m' : Manager τ} {outcome : Outcome ε ℕ}
    (hm : Consistent constructors m)
    (h : createResource get key (constructors key) m = some (outcome, m')) :
    (∃ handles m₁, Keeps constructors m m₁ ∧
      (∀ dep, Needs constructors key dep → dep ∈ loaded m₁) ∧
      (constructors key).failure = none ∧ outcome = .returned m₁.objects.length ∧
      m' = { m₁ with objects := m₁.objects ++ [⟨key, handles⟩] }) ∨
    ∃ e, outcome = .thrown e ∧ Keeps constructors m m' ∧
      ((∃ dep, Needs constructors key dep ∧ Reason constructors (inProgressKeys m) dep e) ∨
        ∃ own, e = .ownException own ∧ (constructors key).failure = some own) := by
  rcases bind_cases h with ⟨handles, m₁, hdeps, hmake⟩ | ⟨e, hdeps, rfl⟩ | ⟨hdeps, rfl⟩
  · obtain ⟨hkeeps, hneeds, -, -⟩ := getDependencies_spec hget _ _ _ m₁ hm hdeps
    cases hfailure : (constructors key).failure with
    | none =>
      left
      obtain ⟨rfl, rfl⟩ : Outcome.returned m₁.objects.length = outcome ∧
          { m₁ with objects := m₁.objects ++ [⟨key, handles⟩] } = m' := by
        simpa [hfailure, makeUnique] using hmake
      exact ⟨handles, m₁, hkeeps, hneeds handles rfl, rfl, rfl, rfl⟩
    | some own =>
      right
      obtain ⟨rfl, rfl⟩ : Outcome.thrown (.ownException own) = outcome ∧ m₁ = m' := by
        simpa [hfailure, Load.throwing] using hmake
      exact ⟨.ownException own, rfl, hkeeps, .inr ⟨own, rfl, rfl⟩⟩
  · right
    obtain ⟨hkeeps, -, hthrown, -⟩ := getDependencies_spec hget _ _ _ m' hm hdeps
    exact ⟨e, rfl, hkeeps, .inl (hthrown e rfl)⟩
  · exact absurd rfl (getDependencies_spec hget _ _ _ m' hm hdeps).2.2.2

/-- INTERNAL: the three ways of a call.
SOURCE: resource/resource.cc:49-74 -/
theorem get_succ (fuel : ℕ) (key : StorageKey τ) (m : Manager τ) :
    Model.Loading.get constructors (fuel + 1) key m =
      match m.mResources key with
      | some res => some (.returned (some res), m)
      | none =>
        if m.inProgress key then some (.thrown resourceCycleDetected, m)
        else Load.scopeExit (Manager.erase (m.emplaceFront key).1)
          (.bind (createResource (Model.Loading.get constructors fuel) key (constructors key))
            fun res => tryEmplace key res) (m.emplaceFront key).2 := by
  rfl

/-- INTERNAL: a call that runs the constructor.
SOURCE: resource/resource.cc:67-74 -/
theorem construct_spec {get : StorageKey τ → Load τ ε (Option ℕ)}
    (hget : ∀ key m outcome m', Consistent constructors m → get key m = some (outcome, m') →
      Got constructors m key outcome m')
    {key : StorageKey τ} {m m' : Manager τ} {outcome : Outcome ε (Option ℕ)}
    (hm : Consistent constructors m) (hres : m.mResources key = none)
    (hkey : key ∉ inProgressKeys m)
    (h : Load.scopeExit (Manager.erase (m.emplaceFront key).1)
      (.bind (createResource get key (constructors key)) fun res => tryEmplace key res)
      (m.emplaceFront key).2 = some (outcome, m')) : Got constructors m key outcome m' := by
  obtain ⟨m₁, hbody, hexit⟩ := scopeExit_cases h
  have hm₁ := hm.emplaceFront hres hkey
  rcases bind_cases hbody with ⟨p, m₂, hcreate, hinsert⟩ | ⟨e, hcreate, rfl⟩ | ⟨hcreate, rfl⟩
  · rcases createResource_spec hget hm₁ hcreate with
      ⟨handles, m₃, hkeeps, hneeds, hfailure, hp, rfl⟩ | ⟨e, hne, -, -⟩
    · obtain rfl : p = m₃.objects.length := by simpa using hp
      -- the key has been in progress all the time, hence it is not in the map
      have hfree : m₃.mResources key = none := by
        apply hkeeps.consistent.waiting
        rw [inProgressKeys, hkeeps.initList]
        exact List.mem_cons_self
      obtain ⟨rfl, rfl⟩ : Outcome.returned (some m₃.objects.length) = outcome ∧
          insertResource key handles m₃ = m₁ := by
        simpa [tryEmplace, hfree, insertResource] using hinsert
      rw [hexit (by simp)]
      refine ⟨hkeeps.finish handles hm hkey hneeds hfailure, ?_, by simp, by simp⟩
      intro p hp
      exact ⟨m₃.objects.length, by simpa using hp.symm, by simp [insertResource]⟩
    · cases hne
  · rcases createResource_spec hget hm₁ hcreate with
      ⟨_, _, _, _, _, hne, _⟩ | ⟨e', heq, hkeeps, hreason⟩
    · cases hne
    · cases heq
      rw [hexit (by simp)]
      refine ⟨hkeeps.unwind hm, by simp, ?_, by simp⟩
      rintro e' ⟨⟩
      rcases hreason with ⟨dep, hdep, hreason⟩ | ⟨own, rfl, hfailure⟩
      · exact hreason.of_need hdep
      · exact .failure key own .refl hfailure
  · rcases createResource_spec hget hm₁ hcreate with ⟨_, _, _, _, _, hne, _⟩ | ⟨_, hne, _, _⟩ <;>
      cases hne

/-- INTERNAL: **what a call does, if it comes to an end**.
SOURCE: resource/resource.cc:46-75 -/
theorem get_got (fuel : ℕ) (key : StorageKey τ) (m : Manager τ)
    (outcome : Outcome ε (Option ℕ)) (m' : Manager τ) (hm : Consistent constructors m)
    (h : Model.Loading.get constructors fuel key m = some (outcome, m')) :
    Got constructors m key outcome m' := by
  induction fuel generalizing key m outcome m' with
  | zero => simp [Model.Loading.get, getInternal] at h
  | succ fuel ih =>
    rw [get_succ] at h
    cases hres : m.mResources key with
    | some res =>
      obtain ⟨rfl, rfl⟩ : Outcome.returned (some res) = outcome ∧ m = m' := by
        simpa [hres] using h
      exact ⟨.refl hm, fun p hp => ⟨res, by simpa using hp.symm, hres⟩, by simp, by simp⟩
    | none =>
      by_cases hkey : key ∈ inProgressKeys m
      · obtain ⟨rfl, rfl⟩ : Outcome.thrown resourceCycleDetected = outcome ∧ m = m' := by
          simpa [hres, hkey] using h
        refine ⟨.refl hm, by simp, ?_, by simp⟩
        rintro e ⟨⟩
        exact .cycle (.of_mem hkey)
      · exact construct_spec ih hm hres hkey (by simpa [hres, hkey] using h)

/-! ## The depth of the recursion -/

omit [DecidableEq τ] in
/-- INTERNAL: the calls of a constructor come to an end if each of them does. -/
theorem getDependencies_isSome {get : StorageKey τ → Load τ ε (Option ℕ)}
    (hget : ∀ key m outcome m', Consistent constructors m → get key m = some (outcome, m') →
      Got constructors m key outcome m')
    {items : List (InitItem τ)}
    (hends : ∀ key m, Consistent constructors m → m.mInitList = items → (get key m).isSome)
    (keys : List (StorageKey τ)) (m : Manager τ) (hm : Consistent constructors m)
    (hitems : m.mInitList = items) : (getDependencies get keys m).isSome := by
  induction keys generalizing m with
  | nil => rfl
  | cons key keys ih =>
    refine bind_isSome (hends key m hm hitems) ?_
    intro p m₁ hfirst
    have hkeeps := (hget key m _ m₁ hm hfirst).keeps
    refine bind_isSome (ih m₁ hkeeps.consistent (hkeeps.initList.trans hitems)) ?_
    intro ps m₂ _
    rfl

/-- INTERNAL: **the recursion ends**: what is in progress are different resources with
dependencies, of which there are finitely many.
SOURCE: resource/resource.cc:56-65 -/
theorem get_isSome (hfinite : (dependent constructors).Finite) (fuel : ℕ) (key : StorageKey τ)
    (m : Manager τ) (hm : Consistent constructors m)
    (hprogress : ∀ k ∈ inProgressKeys m, k ∈ dependent constructors)
    (hfuel : hfinite.toFinset.card < fuel + m.mInitList.length) :
    (Model.Loading.get constructors fuel key m).isSome := by
  induction fuel generalizing key m with
  | zero =>
    have hsubset : (inProgressKeys m).toFinset ⊆ hfinite.toFinset := by
      intro k hk
      simpa using hprogress k (by simpa using hk)
    have hcard := Finset.card_le_card hsubset
    rw [List.toFinset_card_of_nodup hm.distinct, inProgressKeys, List.length_map] at hcard
    omega
  | succ fuel ih =>
    rw [get_succ]
    cases hres : m.mResources key with
    | some res => rfl
    | none =>
      by_cases hkey : key ∈ inProgressKeys m
      · simp [hkey]
      · simp only [inProgress_iff, hkey, if_false]
        refine scopeExit_isSome (bind_isSome (bind_isSome ?_ ?_) ?_)
        · by_cases hdeps : (constructors key).dependencies = []
          · rw [hdeps]
            rfl
          · have hends : ∀ dep m₁, Consistent constructors m₁ →
                m₁.mInitList = (m.emplaceFront key).2.mInitList →
                (Model.Loading.get constructors fuel dep m₁).isSome := by
              intro dep m₁ hm₁ hitems
              have hkeys : inProgressKeys m₁ = key :: inProgressKeys m := by
                rw [inProgressKeys, hitems]
                rfl
              have hlength : m₁.mInitList.length = m.mInitList.length + 1 := by
                rw [hitems]
                rfl
              refine ih dep m₁ hm₁ ?_ (by omega)
              rw [hkeys]
              exact List.forall_mem_cons.mpr ⟨hdeps, hprogress⟩
            exact getDependencies_isSome (get_got fuel) hends _ _ (hm.emplaceFront hres hkey) rfl
        · intro handles m₁ _
          cases (constructors key).failure <;> rfl
        · intro res m₁ _
          unfold tryEmplace
          cases m₁.mResources key <;> rfl

/-! ## Runs -/

/-- What is known of the manager when a call is made. -/
structure Underway (constructors : StorageKey τ → Constructor τ ε)
    (hfinite : (dependent constructors).Finite) (fuel : ℕ) (m : Manager τ)
    (key : StorageKey τ) : Prop where
  consistent : Consistent constructors m
  progress : ∀ k ∈ inProgressKeys m, k ∈ dependent constructors
  leads : ∀ k ∈ inProgressKeys m, Relation.TransGen (Needs constructors) k key
  enough : hfinite.toFinset.card < fuel + m.mInitList.length

/-- INTERNAL: between the calls of the program nothing is in progress. -/
theorem topLevel_invariant {depth : ℕ} {m m' : Manager τ} {calls : List (StorageKey τ)}
    (hm : Consistent constructors m)
    (h : runActions (topLevel constructors depth) m calls = some m') :
    Keeps constructors m m' := by
  refine runActions_invariant _ (Keeps constructors m) ?_ m m' calls (.refl hm) h
  intro m₁ key m₂ hkeeps hstep
  obtain ⟨⟨outcome, m₃⟩, hget, rfl⟩ := Option.map_eq_some_iff.mp hstep
  exact hkeeps.trans (get_got depth key m₁ outcome m₃ hkeeps.consistent hget).keeps

/-- INTERNAL: the calls of the program can be made one after another. -/
theorem topLevel_runs (hfinite : (dependent constructors).Finite) {depth : ℕ}
    (hdepth : hfinite.toFinset.card < depth) (calls : List (StorageKey τ)) (m : Manager τ)
    (hm : Consistent constructors m) (hlist : m.mInitList = []) :
    ∃ m', runActions (topLevel constructors depth) m calls = some m' := by
  induction calls generalizing m with
  | nil => exact ⟨m, rfl⟩
  | cons key calls ih =>
    have hsome := get_isSome hfinite depth key m hm (by simp [inProgressKeys, hlist])
      (by rw [hlist]; exact hdepth)
    obtain ⟨⟨outcome, m₁⟩, hget⟩ := Option.isSome_iff_exists.mp hsome
    have hkeeps := (get_got depth key m outcome m₁ hm hget).keeps
    obtain ⟨m', hrun⟩ := ih m₁ hkeeps.consistent (hkeeps.initList.trans hlist)
    exact ⟨m', by simp [runActions_cons, topLevel, hget, hrun]⟩

/-- INTERNAL: what is known of the calls of a run, by induction on how they come to be made. -/
theorem Begins.underway (hfinite : (dependent constructors).Finite) {depth fuel : ℕ}
    (hdepth : hfinite.toFinset.card < depth) {m : Manager τ} {key : StorageKey τ}
    (h : Begins constructors depth fuel m key) : Underway constructors hfinite fuel m key := by
  induction h with
  | outer calls m key hrun =>
    have hkeeps := topLevel_invariant consistent_init hrun
    have hlist : m.mInitList = [] := hkeeps.initList
    exact {
      consistent := hkeeps.consistent
      progress := by simp [inProgressKeys, hlist]
      leads := by simp [inProgressKeys, hlist]
      enough := by rw [hlist]; exact hdepth }
  | inner fuel m m' key dep before after handles _ hres hkey hdeps hrun ih =>
    have hfresh : key ∉ inProgressKeys m := by simpa [← inProgress_iff] using hkey
    obtain ⟨hkeeps, -, -, -⟩ := getDependencies_spec (get_got fuel) before _ _ m'
      (ih.consistent.emplaceFront hres hfresh) hrun
    have hkeys : inProgressKeys m' = key :: inProgressKeys m := by
      rw [inProgressKeys, hkeeps.initList]
      rfl
    have hneeds : Needs constructors key dep := by simp [Needs, hdeps]
    exact {
      consistent := hkeeps.consistent
      progress := by
        rw [hkeys]
        exact List.forall_mem_cons.mpr ⟨by simp [dependent, hdeps], ih.progress⟩
      leads := by
        rw [hkeys]
        exact List.forall_mem_cons.mpr ⟨.single hneeds, fun k hk => (ih.leads k hk).tail hneeds⟩
      enough := by
        have hlength : m'.mInitList.length = m.mInitList.length + 1 := by
          rw [hkeeps.initList]
          rfl
        have := ih.enough
        omega }

/-- INTERNAL: a loaded resource is returned.
SOURCE: resource/resource.cc:49-51 -/
theorem get_loaded {depth : ℕ} (hdepth : 0 < depth) {m : Manager τ} {key : StorageKey τ} {res : ℕ}
    (h : m.mResources key = some res) :
    Model.Loading.get constructors depth key m = some (.returned (some res), m) := by
  obtain ⟨fuel, rfl⟩ : ∃ fuel, depth = fuel + 1 := ⟨depth - 1, by omega⟩
  simp [get_succ, h]

section Search

variable {hfinite : (dependent constructors).Finite} {fuel : ℕ} {m m' : Manager τ}
  {key : StorageKey τ} {outcome : Outcome ε (Option ℕ)}

omit [DecidableEq τ] in
/-- INTERNAL: no cycle leads through what is loaded. -/
theorem Underway.cycleAhead_iff (h : Underway constructors hfinite fuel m key) :
    CycleAhead (Pending constructors m) key ↔ CycleAhead (Needs constructors) key :=
  h.consistent.closed.cycleAhead_outside h.consistent.acyclic

omit [DecidableEq τ] in
/-- INTERNAL: an exception tells of a cycle ahead, or comes from a constructor on the way. -/
theorem Underway.reason (h : Underway constructors hfinite fuel m key) {e : Exception ε}
    (hreason : Reason constructors (inProgressKeys m) key e) :
    e = resourceCycleDetected ∧ CycleAhead (Pending constructors m) key ∨
      ∃ own k, e = .ownException own ∧ Relation.ReflTransGen (Pending constructors m) key k ∧
        (constructors k).failure = some own := by
  cases hreason with
  | cycle htrapped => exact .inl ⟨rfl, h.cycleAhead_iff.mpr (htrapped.cycleAhead h.leads)⟩
  | failure k own hway hfailure =>
    refine .inr ⟨own, k, rfl, h.consistent.closed.outside hway ?_, hfailure⟩
    intro hloaded
    simp [h.consistent.sound k hloaded] at hfailure

omit [DecidableEq τ] in
/-- INTERNAL: what is returned has no cycle ahead. -/
theorem Underway.throws (h : Underway constructors hfinite fuel m key)
    (hgot : Got constructors m key outcome m')
    (hcycle : CycleAhead (Pending constructors m) key) : ∃ e, outcome = .thrown e := by
  cases houtcome : outcome with
  | thrown e => exact ⟨e, rfl⟩
  | assertionFailed => exact absurd houtcome hgot.asserted
  | returned p =>
    obtain ⟨res, -, hres⟩ := hgot.returned p houtcome
    have hm' := hgot.keeps.consistent
    exact absurd (h.cycleAhead_iff.mp hcycle)
      (hm'.closed.not_cycleAhead hm'.acyclic (mem_loaded.mpr ⟨res, hres⟩))

/-- INTERNAL: a call of a run is a step of the search. -/
theorem Underway.depthFirst (h : Underway constructors hfinite fuel m key)
    (hget : Model.Loading.get constructors fuel key m = some (outcome, m')) :
    DepthFirst constructors m key outcome m' := by
  have hgot := get_got fuel key m outcome m' h.consistent hget
  have hdetected : outcome = .thrown resourceCycleDetected →
      CycleAhead (Pending constructors m) key := by
    intro hthrown
    rcases h.reason (hgot.thrown _ hthrown) with ⟨-, hcycle⟩ | ⟨own, k, hne, -, -⟩
    · exact hcycle
    · cases hne
  exact {
    initList := hgot.keeps.initList
    constructedOnce := hgot.keeps.consistent.nodup
    kept := hgot.keeps.kept
    same := by
      intro res hres
      have hfuel : 0 < fuel := by
        rcases Nat.eq_zero_or_pos fuel with rfl | hpos
        · simp [Model.Loading.get, getInternal] at hget
        · exact hpos
      rw [get_loaded hfuel hres, Option.some.injEq, Prod.mk.injEq] at hget
      exact ⟨hget.1.symm, hget.2.symm⟩
    found := by
      intro p hp
      obtain ⟨res, hp, hres⟩ := hgot.returned p hp
      exact ⟨res, hp, hres, hgot.keeps.consistent.made key res hres⟩
    asserted := hgot.asserted
    cycleAhead := hdetected
    cycleThrows := h.throws hgot
    cycleDetected := by
      intro hsound
      refine ⟨hdetected, fun hcycle => ?_⟩
      obtain ⟨e, he⟩ := h.throws hgot hcycle
      rcases h.reason (hgot.thrown e he) with ⟨rfl, -⟩ | ⟨own, k, -, hway, hfailure⟩
      · exact he
      · simp [hsound k hway] at hfailure
    failed := by
      intro e he
      rcases h.reason (hgot.thrown _ he) with ⟨hne, -⟩ | ⟨own, k, hown, hway, hfailure⟩
      · cases hne
      · cases hown
        exact ⟨k, hway, hfailure⟩ }

end Search

/-! ## The claims about loading -/

/-- SOURCE: resource/resource.cc:46-75, utility/scope_guard.hh:10-27, resource/resource.hh:58-94 —
**loading resources is a depth-first search with memory**. The constructors get their dependencies,
of which there are finitely many, and the program gets one resource after another, whether that
throws or not. Then every call comes to an end, those of the constructors included: it leaves the
list of resources in progress as it was, makes no resource twice and fails no assertion; and it
throws `resource cycle detected` exactly if there is a cycle ahead among the resources that are not
loaded, unless a constructor throws an exception of its own before that. What is returned once is
returned ever after. -/
theorem get_depth_first (constructors : StorageKey τ → Constructor τ ε)
    (hfinite : (dependent constructors).Finite) (depth : ℕ)
    (hdepth : hfinite.toFinset.card < depth) :
    (∀ calls, ∃ m, runActions (topLevel constructors depth) .init calls = some m ∧
      m.mInitList = []) ∧
    (∀ fuel m key, Begins constructors depth fuel m key →
      ∃ outcome m', Model.Loading.get constructors fuel key m = some (outcome, m') ∧
        DepthFirst constructors m key outcome m') ∧
    ∀ calls more key m m₁ m₂ p, runActions (topLevel constructors depth) .init calls = some m →
      Model.Loading.get constructors depth key m = some (.returned p, m₁) →
      runActions (topLevel constructors depth) m₁ more = some m₂ →
      Model.Loading.get constructors depth key m₂ = some (.returned p, m₂) := by
  refine ⟨?_, ?_, ?_⟩
  · intro calls
    obtain ⟨m, hrun⟩ := topLevel_runs hfinite hdepth calls .init consistent_init rfl
    exact ⟨m, hrun, (topLevel_invariant consistent_init hrun).initList⟩
  · intro fuel m key hbegins
    have hunderway := Begins.underway hfinite hdepth hbegins
    obtain ⟨⟨outcome, m'⟩, hget⟩ := Option.isSome_iff_exists.mp
      (get_isSome hfinite fuel key m hunderway.consistent hunderway.progress hunderway.enough)
    exact ⟨outcome, m', hget, hunderway.depthFirst hget⟩
  · intro calls more key m m₁ m₂ p hrun hget hmore
    have hm := (topLevel_invariant consistent_init hrun).consistent
    have hgot := get_got depth key m _ m₁ hm hget
    obtain ⟨res, rfl, hres⟩ := hgot.returned p rfl
    have hlater := topLevel_invariant hgot.keeps.consistent hmore
    exact get_loaded (by omega) (hlater.kept key res hres)

end Call

/-- Two resources that need each other. -/
def mutualConstructors (key : StorageKey Unit) : Constructor Unit Unit :=
  if key.id.mData = ['a'] then ⟨[⟨(), ⟨['b']⟩⟩], none⟩
  else if key.id.mData = ['b'] then ⟨[⟨(), ⟨['a']⟩⟩], none⟩
  else ⟨[], none⟩

theorem get_depth_first_mutual : ∃ outcome m',
    Model.Loading.get mutualConstructors 3 ⟨(), ⟨['a']⟩⟩ .init = some (outcome, m') ∧
      DepthFirst mutualConstructors .init ⟨(), ⟨['a']⟩⟩ outcome m' ∧
      outcome = .thrown resourceCycleDetected := by
  have hsubset : dependent mutualConstructors ⊆
      (({⟨(), ⟨['a']⟩⟩, ⟨(), ⟨['b']⟩⟩} : Finset (StorageKey Unit)) : Set (StorageKey Unit)) := by
    rintro ⟨_, ⟨text⟩⟩ hkey
    by_contra hother
    simp only [Finset.coe_insert, Finset.coe_singleton, Set.mem_insert_iff,
      Set.mem_singleton_iff, StorageKey.mk.injEq, Model.Identifier.mk.injEq, true_and,
      not_or] at hother
    simp [dependent, mutualConstructors, hother.1, hother.2] at hkey
  have hfinite : (dependent mutualConstructors).Finite :=
    (Finset.finite_toSet _).subset hsubset
  have hcard : hfinite.toFinset.card < 3 := by
    have hle := Finset.card_le_card (Set.Finite.toFinset_subset.mpr hsubset : hfinite.toFinset ⊆ _)
    exact Nat.lt_of_le_of_lt hle (by decide)
  obtain ⟨outcome, m', hget, hsearch⟩ :=
    (get_depth_first mutualConstructors hfinite 3 hcard).2.1 3 .init ⟨(), ⟨['a']⟩⟩
      (.outer [] .init _ rfl)
  have hcycle : (Model.Loading.get mutualConstructors 3 ⟨(), ⟨['a']⟩⟩ .init).map Prod.fst =
      some (.thrown resourceCycleDetected) := by decide
  rw [hget, Option.map_some, Option.some.injEq] at hcycle
  exact ⟨outcome, m', hget, hsearch, hcycle⟩

end Mccpp.Analysis
