import Mathlib.Algebra.Module.Basic
import Mathlib.Algebra.Order.Field.Basic
import Mathlib.Algebra.Order.Group.Abs
import Mathlib.Tactic.FieldSimp
import Mathlib.Tactic.Linarith
import Mathlib.Tactic.Module

/-!
# Two triangles on a common side

In a space over an ordered field, `diamond m u v` is the parallelogram whose corners are `m + u`,
`m + v`, `m - u` and `m - v`, in this order. Its diagonal from `m + v` to `m - v` cuts it into two
triangles, which together cover it (`triangleHull_union`).
-/

set_option autoImplicit false

namespace Mccpp.Library

variable {K V : Type} [Field K] [LinearOrder K] [IsStrictOrderedRing K] [AddCommGroup V]
  [Module K V]

/-- The points of a triangle. -/
def triangleHull (K : Type) {V : Type} [Field K] [LinearOrder K] [AddCommGroup V] [Module K V]
    (a b c : V) : Set V :=
  {p | ∃ r s t : K, 0 ≤ r ∧ 0 ≤ s ∧ 0 ≤ t ∧ r + s + t = 1 ∧ p = r • a + s • b + t • c}

/-- The points of the parallelogram around `m`, by its half diagonals. -/
def diamond (K : Type) {V : Type} [Field K] [LinearOrder K] [AddCommGroup V] [Module K V]
    (m u v : V) : Set V :=
  {p | ∃ s t : K, |s| + |t| ≤ 1 ∧ p = m + s • u + t • v}

theorem triangleHull_swap (a b c : V) : triangleHull K a b c = triangleHull K b a c := by
  ext p
  constructor
  · rintro ⟨r, s, t, hr, hs, ht, hsum, rfl⟩
    exact ⟨s, r, t, hs, hr, ht, by linarith, by module⟩
  · rintro ⟨r, s, t, hr, hs, ht, hsum, rfl⟩
    exact ⟨s, r, t, hs, hr, ht, by linarith, by module⟩

/-- INTERNAL: one of the triangles, in the coordinates of the parallelogram. -/
theorem mem_triangleHull_half (m u v p : V) :
    p ∈ triangleHull K (m + u) (m + v) (m - v) ↔
      ∃ s t : K, 0 ≤ s ∧ s + |t| ≤ 1 ∧ p = m + s • u + t • v := by
  constructor
  · rintro ⟨r, s, t, hr, hs, ht, hsum, rfl⟩
    refine ⟨r, s - t, hr, ?_, ?_⟩
    · have hle : |s - t| ≤ s + t := abs_le.mpr ⟨by linarith, by linarith⟩
      linarith
    · have hm : (r + s + t) • m = m := by rw [hsum, one_smul]
      calc r • (m + u) + s • (m + v) + t • (m - v)
          = (r + s + t) • m + r • u + (s - t) • v := by module
        _ = m + r • u + (s - t) • v := by rw [hm]
  · rintro ⟨s, t, hs, hle, rfl⟩
    have hupper : t ≤ 1 - s := by linarith [le_abs_self t]
    have hlower : -t ≤ 1 - s := by linarith [neg_le_abs t]
    refine ⟨s, (1 - s + t) / 2, (1 - s - t) / 2, hs, by linarith, by linarith, by ring, ?_⟩
    module

/-- INTERNAL: **the two triangles cover the parallelogram**, and nothing else. -/
theorem triangleHull_union (m u v : V) :
    triangleHull K (m + u) (m + v) (m - v) ∪ triangleHull K (m + v) (m - u) (m - v) =
      diamond K m u v := by
  have hother : triangleHull K (m + v) (m - u) (m - v) =
      triangleHull K (m + -u) (m + v) (m - v) := by
    rw [triangleHull_swap, sub_eq_add_neg m u]
  ext p
  rw [hother, Set.mem_union, mem_triangleHull_half, mem_triangleHull_half]
  constructor
  · rintro (⟨s, t, hs, hle, rfl⟩ | ⟨s, t, hs, hle, rfl⟩)
    · exact ⟨s, t, by rwa [abs_of_nonneg hs], rfl⟩
    · exact ⟨-s, t, by rwa [abs_neg, abs_of_nonneg hs], by module⟩
  · rintro ⟨s, t, hle, rfl⟩
    rcases le_total 0 s with hs | hs
    · exact .inl ⟨s, t, hs, by rwa [abs_of_nonneg hs] at hle, rfl⟩
    · exact .inr ⟨-s, t, by linarith, by rwa [abs_of_nonpos hs] at hle, by module⟩

omit [AddCommGroup V] [Module K V] in
/-- INTERNAL: the ball of the sum of the coordinates is that of their greatest, turned. -/
theorem abs_add_abs_le_iff (s t r : K) : |s| + |t| ≤ r ↔ |s + t| ≤ r ∧ |s - t| ≤ r := by
  constructor
  · intro h
    exact ⟨(abs_add_le s t).trans h, (abs_sub s t).trans h⟩
  · rintro ⟨hadd, hsub⟩
    rw [abs_le] at hadd hsub
    rcases abs_cases s with ⟨hs, _⟩ | ⟨hs, _⟩ <;> rcases abs_cases t with ⟨ht, _⟩ | ⟨ht, _⟩ <;>
      linarith

end Mccpp.Library
