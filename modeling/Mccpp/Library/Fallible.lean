import Mathlib.Data.List.Forall2

/-!
# Computations that may fail

Computations one after another return exactly when each of them returns, on what the ones before
returned.
-/

set_option autoImplicit false

namespace Mccpp.Library

variable {ε α β : Type}

/-- INTERNAL: **one computation behind another**. -/
theorem bind_eq_ok_iff {x : Except ε α} {f : α → Except ε β} {r : β} :
    x >>= f = .ok r ↔ ∃ a, x = .ok a ∧ f a = .ok r := by
  cases x with
  | error e =>
    constructor
    · intro h
      cases h
    · rintro ⟨a, ha, -⟩
      cases ha
  | ok a =>
    constructor
    · intro h
      exact ⟨a, rfl, h⟩
    · rintro ⟨a', ha, h⟩
      rwa [Except.ok.inj ha]

/-- INTERNAL: the first step of a fold. -/
theorem foldlM_cons_eq_ok_iff {f : β → α → Except ε β} {a : α} {l : List α} {b r : β} :
    (a :: l).foldlM f b = .ok r ↔ ∃ next, f b a = .ok next ∧ l.foldlM f next = .ok r := by
  rw [List.foldlM_cons]
  exact bind_eq_ok_iff

/-- INTERNAL: a fold that checks every entry fails at the first one that is refused. -/
theorem foldlM_check (refused : α → Prop) [DecidablePred refused] (e : ε) (f : β → α → β) (l : List α)
    (b : β) :
    l.foldlM (fun b a => if refused a then Except.error e else .ok (f b a)) b =
      if ∃ a ∈ l, refused a then Except.error e else .ok (l.foldl f b) := by
  induction l generalizing b with
  | nil => simp [pure, Except.pure]
  | cons a l ih =>
    rw [List.foldlM_cons]
    by_cases ha : refused a
    · simp [ha, bind, Except.bind]
    · simp only [ha, if_false, bind, Except.bind, List.mem_cons, exists_eq_or_imp, false_or, List.foldl_cons]
      exact ih (f b a)

/-- INTERNAL: one result for each of the computations. -/
theorem mapM_eq_ok_iff {f : α → Except ε β} {l : List α} {r : List β} :
    l.mapM f = .ok r ↔ List.Forall₂ (fun a b => f a = .ok b) l r := by
  induction l generalizing r with
  | nil =>
    rw [List.mapM_nil, List.forall₂_nil_left_iff]
    constructor
    · intro h
      exact (Except.ok.inj h).symm
    · intro h
      rw [h]
      rfl
  | cons a l ih =>
    rw [List.mapM_cons, bind_eq_ok_iff]
    constructor
    · rintro ⟨b, hfirst, h⟩
      obtain ⟨bs, hrest, h⟩ := bind_eq_ok_iff.mp h
      obtain rfl := Except.ok.inj h
      exact .cons hfirst (ih.mp hrest)
    · rintro ⟨⟩
      next b bs hfirst hrest => exact ⟨b, hfirst, bind_eq_ok_iff.mpr ⟨bs, ih.mpr hrest, rfl⟩⟩

theorem mapM_returns {f : α → Except ε β} {l : List α} (h : ∀ a ∈ l, ∃ b, f a = .ok b) :
    ∃ bs, l.mapM f = .ok bs := by
  induction l with
  | nil => exact ⟨[], rfl⟩
  | cons a l ih =>
    obtain ⟨b, hb⟩ := h a List.mem_cons_self
    obtain ⟨bs, hbs⟩ := ih fun a ha => h a (List.mem_cons_of_mem _ ha)
    exact ⟨b :: bs, mapM_eq_ok_iff.mpr (.cons hb (mapM_eq_ok_iff.mp hbs))⟩

/-- INTERNAL: the lists that computations without a reason for failing return. -/
theorem exists_mapM_eq_some_iff {f : α → Option β} {r : List β} :
    (∃ l : List α, l.mapM f = some r) ↔ ∀ b ∈ r, ∃ a, f a = some b := by
  induction r with
  | nil =>
    refine ⟨fun _ => List.forall_mem_nil _, fun _ => ⟨[], ?_⟩⟩
    rw [List.mapM_nil]
    rfl
  | cons b r ih =>
    rw [List.forall_mem_cons, ← ih]
    constructor
    · rintro ⟨l, hl⟩
      cases l with
      | nil => cases hl
      | cons a l =>
        rw [List.mapM_cons] at hl
        obtain ⟨first, hfirst, hrest⟩ := Option.bind_eq_some_iff.mp hl
        obtain ⟨rest, hrest, heq⟩ := Option.bind_eq_some_iff.mp hrest
        cases heq
        exact ⟨⟨a, hfirst⟩, l, hrest⟩
    · rintro ⟨⟨a, ha⟩, l, hl⟩
      refine ⟨a :: l, ?_⟩
      rw [List.mapM_cons, ha, hl]
      rfl

/-- INTERNAL: one result for each of the computations, where none of them fails. -/
theorem mapM_eq_some_iff {f : α → Option β} {l : List α} {r : List β} :
    l.mapM f = some r ↔ List.Forall₂ (fun a b => f a = some b) l r := by
  induction l generalizing r with
  | nil =>
    rw [List.mapM_nil, List.forall₂_nil_left_iff]
    constructor
    · intro h
      exact (Option.some.inj h).symm
    · intro h
      rw [h]
      rfl
  | cons a l ih =>
    rw [List.mapM_cons]
    constructor
    · intro h
      obtain ⟨b, hfirst, h⟩ := Option.bind_eq_some_iff.mp h
      obtain ⟨bs, hrest, h⟩ := Option.bind_eq_some_iff.mp h
      obtain rfl := Option.some.inj h
      exact .cons hfirst (ih.mp hrest)
    · rintro ⟨⟩
      next b bs hfirst hrest =>
        rw [hfirst, ih.mpr hrest]
        rfl

theorem mem_mapM_iff {f : α → Option β} {l : List α} {r : List β} (h : l.mapM f = some r) {b : β} :
    b ∈ r ↔ ∃ a ∈ l, f a = some b := by
  have hall := mapM_eq_some_iff.mp h
  clear h
  induction hall with
  | nil => simp
  | cons hfirst _ ih =>
    rw [List.mem_cons, List.exists_mem_cons_iff, hfirst, Option.some_inj]
    exact or_congr eq_comm ih

theorem exists_mem_mapM {f : α → Option β} {l : List α} {r : List β} (h : l.mapM f = some r) {a : α} (ha : a ∈ l) :
    ∃ b ∈ r, f a = some b := by
  have hall := mapM_eq_some_iff.mp h
  clear h
  induction hall with
  | nil => cases ha
  | cons hfirst _ ih =>
    rcases List.mem_cons.mp ha with rfl | ha
    · exact ⟨_, List.mem_cons_self, hfirst⟩
    · obtain ⟨b, hb, h⟩ := ih ha
      exact ⟨b, List.mem_cons_of_mem _ hb, h⟩

/-- INTERNAL: what the results keep of what they are computed from. -/
theorem map_mapM_eq {γ : Type} {f : α → Option β} {l : List α} {r : List β} (h : l.mapM f = some r) {g : β → γ}
    {k : α → γ} (hkeep : ∀ a b, f a = some b → g b = k a) : r.map g = l.map k := by
  have hall := mapM_eq_some_iff.mp h
  clear h
  induction hall with
  | nil => rfl
  | cons hfirst _ ih => rw [List.map_cons, List.map_cons, hkeep _ _ hfirst, ih]

/-- INTERNAL: folds over two lists whose entries do the same, one after another. -/
theorem foldlM_eq_of_forall₂ {m : Type → Type} [Monad m] {σ : Type} {f : σ → α → m σ} {g : σ → β → m σ}
    {R : α → β → Prop} (hsame : ∀ a b s, R a b → f s a = g s b) {l : List α} {l' : List β}
    (h : List.Forall₂ R l l') (s : σ) : l.foldlM f s = l'.foldlM g s := by
  induction h generalizing s with
  | nil => rfl
  | cons hfirst _ ih =>
    rw [List.foldlM_cons, List.foldlM_cons, hsame _ _ s hfirst]
    congr 1
    funext s
    exact ih s

/-- INTERNAL: a fold of folds. -/
theorem foldlM_folds {m : Type → Type} [Monad m] [LawfulMonad m] {σ : Type} (f : σ → β → m σ)
    (g : α → List β) (l : List α) (s : σ) :
    (l.flatMap g).foldlM f s = l.foldlM (fun s a => (g a).foldlM f s) s := by
  induction l generalizing s with
  | nil => rfl
  | cons a l ih =>
    rw [List.flatMap_cons, List.foldlM_append, List.foldlM_cons]
    congr 1
    funext s
    exact ih s

/-- INTERNAL: where no two entries have the same key, the entry of a key is the first of its key. -/
theorem lookup_eq_some_iff_mem [BEq α] [LawfulBEq α] {l : List (α × β)} (hkeys : (l.map Prod.fst).Nodup) {a : α}
    {b : β} : l.lookup a = some b ↔ (a, b) ∈ l := by
  induction l with
  | nil => simp
  | cons first l ih =>
    obtain ⟨key, value⟩ := first
    rw [List.map_cons, List.nodup_cons] at hkeys
    rw [List.lookup_cons, List.mem_cons]
    by_cases hkey : a = key
    · subst hkey
      have hnot : (a, b) ∉ l := fun h => hkeys.1 (List.mem_map.mpr ⟨_, h, rfl⟩)
      simp [hnot, eq_comm]
    · rw [beq_false_of_ne hkey]
      simpa [hkey] using ih hkeys.2

end Mccpp.Library
