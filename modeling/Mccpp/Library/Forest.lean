import Mathlib.Data.Set.Finite.Basic
import Mathlib.Data.Fintype.Order
import Mathlib.Logic.Relation
import Mathlib.Order.WellFounded

/-!
# Parent links

A partial function `parent` that may have cycles. `Line parent i l`: from `i` upwards, `l` are the
elements one comes by, down to one without a parent. Where no element is an ancestor of itself and
only finitely many have a parent, there is a line from every element (`exists_line`), and it does
not come back to where it started.
-/

set_option autoImplicit false

namespace Mccpp.Library

variable {ι : Type} {parent : ι → Option ι}

/-- The second is the parent of the first. -/
def ParentOf (parent : ι → Option ι) (i j : ι) : Prop := parent i = some j

/-- No element is above itself. -/
def Acyclic (parent : ι → Option ι) : Prop := ∀ i, ¬Relation.TransGen (ParentOf parent) i i

/-- The elements from `i` upwards. -/
inductive Line (parent : ι → Option ι) : ι → List ι → Prop where
  | top (i : ι) : parent i = none → Line parent i [i]
  | child (i j : ι) (l : List ι) : parent i = some j → Line parent j l → Line parent i (i :: l)

theorem Line.ne_nil {i : ι} {l : List ι} (h : Line parent i l) : l ≠ [] := by
  cases h <;> simp

theorem Line.head_mem {i : ι} {l : List ι} (h : Line parent i l) : i ∈ l := by
  cases h <;> simp

/-- INTERNAL: there is one line from an element. -/
theorem Line.unique {i : ι} {l l' : List ι} (h : Line parent i l) (h' : Line parent i l') :
    l = l' := by
  induction h generalizing l' with
  | top i htop =>
    cases h' with
    | top _ _ => rfl
    | child _ j _ hparent _ => simp [htop] at hparent
  | child i j l hparent _ ih =>
    cases h' with
    | top _ htop => simp [htop] at hparent
    | child _ j' _ hparent' hline' =>
      have hsame : j' = j := by simpa [hparent] using hparent'.symm
      subst hsame
      simp [ih hline']

/-- INTERNAL: what is on the line is the element or above it. -/
theorem Line.above {i : ι} {l : List ι} (h : Line parent i l) :
    ∀ k ∈ l, Relation.ReflTransGen (ParentOf parent) i k := by
  induction h with
  | top i _ =>
    intro k hk
    rw [List.mem_singleton.mp hk]
  | child i j l hparent _ ih =>
    intro k hk
    rcases List.mem_cons.mp hk with rfl | hk
    · exact Relation.ReflTransGen.refl
    · exact Relation.ReflTransGen.head hparent (ih k hk)

/-- INTERNAL: a line does not come back. -/
theorem Acyclic.not_mem {i j : ι} {l : List ι} (hacyclic : Acyclic parent)
    (hparent : parent i = some j) (h : Line parent j l) : i ∉ l := fun hmem =>
  hacyclic i (Relation.TransGen.head' hparent (h.above i hmem))

/-- INTERNAL: **upwards, a finite forest comes to an end**. -/
theorem exists_line (hacyclic : Acyclic parent) (hfinite : {i | parent i ≠ none}.Finite) (i : ι) :
    ∃ l, Line parent i l := by
  let S : Type := {i // i ∈ {i | parent i ≠ none}}
  have : Finite S := hfinite
  let R : S → S → Prop := fun a b => Relation.TransGen (ParentOf parent) b.val a.val
  have : Std.Irrefl R := ⟨fun a h => hacyclic a.val h⟩
  have : IsTrans S R := ⟨fun a b c hab hbc => hbc.trans hab⟩
  have hwf : WellFounded R := Finite.wellFounded_of_trans_of_irrefl R
  have hbelow : ∀ a : S, ∃ l, Line parent a.val l := by
    intro a
    induction a using hwf.induction with
    | _ a ih =>
      obtain ⟨j, hj⟩ := Option.ne_none_iff_exists'.mp a.property
      cases hnext : parent j with
      | none => exact ⟨_, .child a.val j _ hj (.top j hnext)⟩
      | some k =>
        have hsupport : parent j ≠ none := by simp [hnext]
        obtain ⟨l, hline⟩ := ih ⟨j, hsupport⟩ (Relation.TransGen.single hj)
        exact ⟨_, .child a.val j l hj hline⟩
  cases htop : parent i with
  | none => exact ⟨_, .top i htop⟩
  | some j => exact hbelow ⟨i, by simp [htop]⟩

/-- INTERNAL: lines from finitely many elements are bounded in length. -/
theorem exists_line_bound (hline : ∀ i, ∃ l, Line parent i l) (is : List ι) :
    ∃ bound, ∀ i ∈ is, ∀ l, Line parent i l → l.length ≤ bound := by
  induction is with
  | nil => exact ⟨0, by simp⟩
  | cons i is ih =>
    obtain ⟨bound, hbound⟩ := ih
    obtain ⟨l, hl⟩ := hline i
    refine ⟨max l.length bound, fun k hk l' hl' => ?_⟩
    rcases List.mem_cons.mp hk with rfl | hk
    · rw [hl'.unique hl]
      exact le_max_left _ _
    · exact le_trans (hbound k hk l' hl') (le_max_right _ _)

/-- INTERNAL: what leads to a cycle is closed upwards: each such element has a parent, which leads
to it too. -/
theorem parent_of_cycle {i k : ι} (hcycle : Relation.TransGen (ParentOf parent) i i)
    (h : Relation.TransGen (ParentOf parent) k i) :
    ∃ j, parent k = some j ∧ Relation.TransGen (ParentOf parent) j i := by
  obtain ⟨j, hparent, hrest⟩ := Relation.TransGen.head'_iff.mp h
  rcases Relation.reflTransGen_iff_eq_or_transGen.mp hrest with rfl | htrans
  · exact ⟨_, hparent, hcycle⟩
  · exact ⟨j, hparent, htrans⟩

end Mccpp.Library
