import Mathlib.Algebra.BigOperators.Ring.Finset
import Mathlib.Algebra.BigOperators.Group.Finset.Sigma
import Mathlib.Tactic.Ring

/-!
# The boundary of a set of cells

Directed edges are pairs of points, and `flow es P Q` is how much more often a list of them
goes from `P` to `Q` than back. A list of directed edges is closed when there is no flow.

A cell has one face in each of finitely many directions. If a cell alone is closed, and a face
seen from the cell on its other side is the same face with its edges reversed, then the faces
between a finite set of cells and its outside are closed together (`sum_boundary_eq_zero`).
-/

set_option autoImplicit false

namespace Mccpp.Library

open Finset

/-! ## Directed edges -/

section Flow

variable {P : Type} [DecidableEq P]

/-- No edge occurs more often in one direction than in the other. -/
def Closed (es : List (P × P)) : Prop := ∀ a b, es.count (a, b) = es.count (b, a)

/-- How much more often the edges go from `a` to `b` than back. -/
def flow (es : List (P × P)) (a b : P) : ℤ := es.count (a, b) - es.count (b, a)

theorem flow_nil (a b : P) : flow [] a b = 0 := rfl

theorem flow_append (es fs : List (P × P)) (a b : P) :
    flow (es ++ fs) a b = flow es a b + flow fs a b := by
  unfold flow
  rw [List.count_append, List.count_append]
  push_cast
  ring

/-- Splits a list of edges into single ones. -/
theorem flow_cons_cons (e f : P × P) (es : List (P × P)) (a b : P) :
    flow (e :: f :: es) a b = flow [e] a b + flow (f :: es) a b :=
  flow_append [e] (f :: es) a b

theorem flow_flatMap {α : Type} (l : List α) (f : α → List (P × P)) (a b : P) :
    flow (l.flatMap f) a b = (l.map fun x => flow (f x) a b).sum := by
  induction l with
  | nil => rfl
  | cons x l ih => rw [List.flatMap_cons, flow_append, ih, List.map_cons, List.sum_cons]

/-- An edge taken back. -/
theorem flow_swap (c d a b : P) : flow [(d, c)] a b = -flow [(c, d)] a b := by
  have hswap : ∀ a b : P, List.count (a, b) [(d, c)] = List.count (b, a) [(c, d)] := by
    intro a b
    simp only [List.count_singleton, beq_iff_eq, Prod.mk.injEq]
    congr 1
    exact propext ⟨fun h => ⟨h.2, h.1⟩, fun h => ⟨h.2, h.1⟩⟩
  unfold flow
  rw [hswap, hswap]
  ring

theorem closed_of_flow {es : List (P × P)} (h : ∀ a b, flow es a b = 0) : Closed es := by
  intro a b
  have hflow := h a b
  unfold flow at hflow
  omega

end Flow

/-! ## Cells -/

section Cells

variable {G M : Type} [AddCommGroup G] [DecidableEq G] [AddCommGroup M]

/-- The faces inside a set of cells cancel in pairs. -/
theorem sum_inner_eq_zero (cells directions : Finset G) (hzero : (0 : G) ∉ directions)
    (hneg : ∀ d ∈ directions, -d ∈ directions) (face : G → G → M)
    (hback : ∀ p, ∀ d ∈ directions, face (p + d) (-d) = -face p d) :
    ∑ e ∈ (cells ×ˢ directions).filter (fun e => e.1 + e.2 ∈ cells), face e.1 e.2 = 0 := by
  refine sum_involution (fun e _ => (e.1 + e.2, -e.2)) ?_ ?_ ?_ ?_
  · rintro ⟨p, d⟩ h
    simp only [mem_filter, mem_product] at h
    rw [hback p d h.1.2]
    exact add_neg_cancel (face p d)
  · rintro ⟨p, d⟩ h _ hfixed
    simp only [mem_filter, mem_product] at h
    have hd : d = 0 := by simpa using congrArg Prod.fst hfixed
    exact hzero (hd ▸ h.1.2)
  · rintro ⟨p, d⟩ h
    simp only [mem_filter, mem_product] at h ⊢
    refine ⟨⟨h.2, hneg d h.1.2⟩, ?_⟩
    rw [add_neg_cancel_right]
    exact h.1.1
  · rintro ⟨p, d⟩ _
    simp

/-- **The boundary of a finite set of cells is closed.** -/
theorem sum_boundary_eq_zero (cells directions : Finset G) (hzero : (0 : G) ∉ directions)
    (hneg : ∀ d ∈ directions, -d ∈ directions) (face : G → G → M)
    (hback : ∀ p, ∀ d ∈ directions, face (p + d) (-d) = -face p d)
    (hcell : ∀ p, ∑ d ∈ directions, face p d = 0) :
    ∑ p ∈ cells, ∑ d ∈ directions.filter (fun d => p + d ∉ cells), face p d = 0 := by
  have hinner := sum_inner_eq_zero cells directions hzero hneg face hback
  rw [sum_filter, sum_product] at hinner
  have hsplit : ∀ p, ∑ d ∈ directions.filter (fun d => p + d ∉ cells), face p d =
      -∑ d ∈ directions, if p + d ∈ cells then face p d else 0 := by
    intro p
    have hall := sum_filter_add_sum_filter_not directions (fun d => p + d ∈ cells) (face p)
    rw [hcell p, sum_filter] at hall
    exact (neg_eq_of_add_eq_zero_right hall).symm
  simp only [hsplit, sum_neg_distrib, hinner, neg_zero]

end Cells

end Mccpp.Library
