import Mathlib.Data.Set.Insert
import Mathlib.Logic.Relation

/-!
# Reachability with a closed set of finished elements

A relation `R` of elements to those they need, and a set `S` of elements that are finished. `S` is
closed: whatever a finished element needs is finished. Then a way to an element that is not finished
never enters `S` (`ClosedUnder.outside`), and an element whose needs are finished, but that is not
finished itself, lies on no cycle (`ClosedUnder.not_cycle`).

`Trapped R l a` is what a depth-first search finds out about `a` when `l` are the elements it is in
the middle of: from `a` one comes to one of them, or to a cycle.
-/

set_option autoImplicit false

namespace Mccpp.Library

variable {α : Type} {R : α → α → Prop} {S : Set α}

/-- Whatever an element of `S` needs is in `S`. -/
def ClosedUnder (R : α → α → Prop) (S : Set α) : Prop := ∀ a ∈ S, ∀ b, R a b → b ∈ S

/-- The steps of `R` that do not start in `S`. -/
def Outside (R : α → α → Prop) (S : Set α) (a b : α) : Prop := a ∉ S ∧ R a b

/-- From `a` one comes to an element that is on a cycle. -/
def CycleAhead (R : α → α → Prop) (a : α) : Prop :=
  ∃ b, Relation.ReflTransGen R a b ∧ Relation.TransGen R b b

/-- From `a` one comes to an element of `l`, or to one that is on a cycle. -/
def Trapped (R : α → α → Prop) (l : List α) (a : α) : Prop :=
  ∃ b, Relation.ReflTransGen R a b ∧ (b ∈ l ∨ Relation.TransGen R b b)

namespace ClosedUnder

theorem reaches (hclosed : ClosedUnder R S) {a b : α} (h : Relation.ReflTransGen R a b)
    (ha : a ∈ S) : b ∈ S := by
  induction h with
  | refl => exact ha
  | tail _ hstep ih => exact hclosed _ ih _ hstep

/-- INTERNAL: a way to an element outside runs outside. -/
theorem outside (hclosed : ClosedUnder R S) {a b : α} (h : Relation.ReflTransGen R a b)
    (hb : b ∉ S) : Relation.ReflTransGen (Outside R S) a b := by
  induction h using Relation.ReflTransGen.head_induction_on with
  | refl => exact Relation.ReflTransGen.refl
  | head hstep hrest ih =>
    refine Relation.ReflTransGen.head ⟨?_, hstep⟩ ih
    intro ha
    exact hb (hclosed.reaches (Relation.ReflTransGen.head hstep hrest) ha)

/-- INTERNAL: where no finished element is on a cycle, a cycle ahead is met without passing one. -/
theorem cycleAhead_outside (hclosed : ClosedUnder R S)
    (hacyclic : ∀ a ∈ S, ¬Relation.TransGen R a a) {a : α} :
    CycleAhead (Outside R S) a ↔ CycleAhead R a := by
  have hmono : ∀ x y, Outside R S x y → R x y := fun _ _ h => h.2
  constructor
  · rintro ⟨b, hway, hcycle⟩
    exact ⟨b, Relation.ReflTransGen.mono hmono _ _ hway, Relation.TransGen.mono hmono _ _ hcycle⟩
  · rintro ⟨b, hway, hcycle⟩
    have hb : b ∉ S := fun hb => hacyclic b hb hcycle
    obtain ⟨c, hstep, hback⟩ := Relation.TransGen.head'_iff.mp hcycle
    exact ⟨b, hclosed.outside hway hb,
      Relation.TransGen.head' ⟨hb, hstep⟩ (hclosed.outside hback hb)⟩

/-- INTERNAL: an unfinished element whose needs are finished is on no cycle. -/
theorem not_cycle (hclosed : ClosedUnder R S) {a : α} (hneeds : ∀ b, R a b → b ∈ S) (ha : a ∉ S) :
    ¬Relation.TransGen R a a := by
  intro hcycle
  obtain ⟨b, hstep, hback⟩ := Relation.TransGen.head'_iff.mp hcycle
  exact ha (hclosed.reaches hback (hneeds b hstep))

theorem insert (hclosed : ClosedUnder R S) {a : α} (hneeds : ∀ b, R a b → b ∈ S) :
    ClosedUnder R (insert a S) := by
  rintro c (rfl | hc) b hstep
  · exact Set.mem_insert_of_mem _ (hneeds b hstep)
  · exact Set.mem_insert_of_mem _ (hclosed c hc b hstep)

/-- INTERNAL: nothing finished leads to a cycle. -/
theorem not_cycleAhead (hclosed : ClosedUnder R S)
    (hacyclic : ∀ a ∈ S, ¬Relation.TransGen R a a) {a : α} (ha : a ∈ S) : ¬CycleAhead R a := by
  rintro ⟨b, hway, hcycle⟩
  exact hacyclic b (hclosed.reaches hway ha) hcycle

end ClosedUnder

namespace Trapped

theorem of_mem {l : List α} {a : α} (h : a ∈ l) : Trapped R l a :=
  ⟨a, Relation.ReflTransGen.refl, .inl h⟩

/-- INTERNAL: an element is trapped by what it needs, when that is searched with the element itself
among those in progress. -/
theorem of_need {l : List α} {a b : α} (hstep : R a b) (h : Trapped R (a :: l) b) :
    Trapped R l a := by
  obtain ⟨c, hway, hend⟩ := h
  have hfrom : Relation.ReflTransGen R a c := Relation.ReflTransGen.head hstep hway
  rcases hend with hmem | hcycle
  · rcases List.mem_cons.mp hmem with rfl | hmem
    · exact ⟨c, Relation.ReflTransGen.refl, .inr (Relation.TransGen.head' hstep hway)⟩
    · exact ⟨c, hfrom, .inl hmem⟩
  · exact ⟨c, hfrom, .inr hcycle⟩

/-- INTERNAL: when all in progress lead to `a`, to be trapped is to have a cycle ahead. -/
theorem cycleAhead {l : List α} {a : α} (hprogress : ∀ b ∈ l, Relation.TransGen R b a)
    (h : Trapped R l a) : CycleAhead R a := by
  obtain ⟨b, hway, hmem | hcycle⟩ := h
  · exact ⟨b, hway, Relation.TransGen.trans_left (hprogress b hmem) hway⟩
  · exact ⟨b, hway, hcycle⟩

end Trapped

end Mccpp.Library
