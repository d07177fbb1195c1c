import Mathlib.Algebra.Ring.CharZero
import Mathlib.Tactic.LinearCombination
import Mathlib.Tactic.Ring
import Mccpp.Interface.ModelFaces
import Mccpp.Analysis.ChunkMesh

/-!
# Rotations about unit vectors

A rotation keeps products of vectors (`scalarProduct_rotation`, `vectorProduct_rotation`), and no
vectors but those along its axis (`rotation_eq_self_iff`).
-/

set_option autoImplicit false

namespace Mccpp.Analysis

open Mccpp.Model Mccpp.Interface

variable {K : Type} [Field K] {c s : K} {n : Vec3 K}

@[simp] theorem Vec3.scale_x (v : Vec3 K) (k : K) : (v.scale k).x = v.x * k := rfl
@[simp] theorem Vec3.scale_y (v : Vec3 K) (k : K) : (v.scale k).y = v.y * k := rfl
@[simp] theorem Vec3.scale_z (v : Vec3 K) (k : K) : (v.scale k).z = v.z * k := rfl

theorem axisRotation_scale (v : Vec3 K) (k : K) :
    axisRotation c s n (v.scale k) = (axisRotation c s n v).scale k := by
  ext <;> simp [axisRotation] <;> ring

theorem axisRotation_sub (v w : Vec3 K) :
    axisRotation c s n (v + -w) = axisRotation c s n v + -axisRotation c s n w := by
  ext <;> simp [axisRotation] <;> ring

/-- INTERNAL: lengths and angles are kept. -/
theorem scalarProduct_rotation (hunit : c ^ 2 + s ^ 2 = 1) (hn : scalarProduct n n = 1)
    (v w : Vec3 K) :
    scalarProduct (axisRotation c s n v) (axisRotation c s n w) = scalarProduct v w := by
  simp only [scalarProduct, axisRotation, Vec3.x_add, Vec3.y_add, Vec3.z_add, Vec3.scale_x,
    Vec3.scale_y, Vec3.scale_z] at hn ⊢
  linear_combination
    ((v.x * w.x + v.y * w.y + v.z * w.z) -
        (n.x * v.x + n.y * v.y + n.z * v.z) * (n.x * w.x + n.y * w.y + n.z * w.z)) * hunit +
      (s ^ 2 * (v.x * w.x + v.y * w.y + v.z * w.z) + (1 - c) ^ 2 *
        ((n.x * v.x + n.y * v.y + n.z * v.z) * (n.x * w.x + n.y * w.y + n.z * w.z))) * hn

/-- INTERNAL: so is the direction of turning. The difference of the two sides is a combination of the
products of `n` with `v × w`. -/
theorem vectorProduct_rotation (hunit : c ^ 2 + s ^ 2 = 1) (hn : scalarProduct n n = 1)
    (v w : Vec3 K) :
    vectorProduct (axisRotation c s n v) (axisRotation c s n w) =
      axisRotation c s n (vectorProduct v w) := by
  simp only [scalarProduct] at hn
  ext <;> simp only [vectorProduct, axisRotation, Vec3.x_add, Vec3.y_add, Vec3.z_add, Vec3.scale_x,
    Vec3.scale_y, Vec3.scale_z]
  · linear_combination (n.x * (v.y * w.z - v.z * w.y) + n.y * (v.z * w.x - v.x * w.z) +
        n.z * (v.x * w.y - v.y * w.x)) * n.x * hunit +
      (c * (1 - c) * (v.y * w.z - v.z * w.y) + s * (1 - c) *
        (n.y * (v.x * w.y - v.y * w.x) - n.z * (v.z * w.x - v.x * w.z))) * hn
  · linear_combination (n.x * (v.y * w.z - v.z * w.y) + n.y * (v.z * w.x - v.x * w.z) +
        n.z * (v.x * w.y - v.y * w.x)) * n.y * hunit +
      (c * (1 - c) * (v.z * w.x - v.x * w.z) + s * (1 - c) *
        (n.z * (v.y * w.z - v.z * w.y) - n.x * (v.x * w.y - v.y * w.x))) * hn
  · linear_combination (n.x * (v.y * w.z - v.z * w.y) + n.y * (v.z * w.x - v.x * w.z) +
        n.z * (v.x * w.y - v.y * w.x)) * n.z * hunit +
      (c * (1 - c) * (v.x * w.y - v.y * w.x) + s * (1 - c) *
        (n.x * (v.z * w.x - v.x * w.z) - n.y * (v.y * w.z - v.z * w.y))) * hn

/-- INTERNAL: **only vectors along the axis are kept**, unless the rotation is by no angle. For the part
`u` of a vector across the axis, `n × (n × u) = -u`. -/
theorem rotation_eq_self_iff [CharZero K] (hunit : c ^ 2 + s ^ 2 = 1) (hn : scalarProduct n n = 1)
    (v : Vec3 K) : axisRotation c s n v = v ↔ c = 1 ∨ v = n.scale (scalarProduct n v) := by
  simp only [scalarProduct] at hn
  constructor
  · intro h
    obtain ⟨hx, hy, hz⟩ := Vec3.ext_iff.mp h
    simp only [axisRotation, Vec3.x_add, Vec3.y_add, Vec3.z_add, Vec3.scale_x, Vec3.scale_y,
      Vec3.scale_z] at hx hy hz
    by_cases hc : c = 1
    · exact Or.inl hc
    · have hne : (2 : K) * (1 - c) ≠ 0 :=
        mul_ne_zero two_ne_zero (sub_ne_zero.mpr (Ne.symm hc))
      right
      ext <;> simp only [scalarProduct, Vec3.scale_x, Vec3.scale_y, Vec3.scale_z] <;>
        apply mul_left_cancel₀ hne
      · linear_combination (c - 1) * hx - s * (n.y * hz - n.z * hy) -
          (v.x - (n.x * v.x + n.y * v.y + n.z * v.z) * n.x) * hunit - s ^ 2 * v.x * hn
      · linear_combination (c - 1) * hy - s * (n.z * hx - n.x * hz) -
          (v.y - (n.x * v.x + n.y * v.y + n.z * v.z) * n.y) * hunit - s ^ 2 * v.y * hn
      · linear_combination (c - 1) * hz - s * (n.x * hy - n.y * hx) -
          (v.z - (n.x * v.x + n.y * v.y + n.z * v.z) * n.z) * hunit - s ^ 2 * v.z * hn
  · rintro (hc | hv)
    · have hs : s = 0 := by
        rw [hc] at hunit
        exact pow_eq_zero_iff two_ne_zero |>.mp (by linear_combination hunit)
      ext <;> simp [axisRotation, hc, hs]
    · obtain ⟨hx, hy, hz⟩ := Vec3.ext_iff.mp hv
      simp only [scalarProduct, Vec3.scale_x, Vec3.scale_y, Vec3.scale_z] at hx hy hz
      ext <;> simp only [axisRotation, Vec3.x_add, Vec3.y_add, Vec3.z_add, Vec3.scale_x, Vec3.scale_y,
        Vec3.scale_z]
      · linear_combination s * (n.y * hz - n.z * hy) - (1 - c) * hx
      · linear_combination s * (n.z * hx - n.x * hz) - (1 - c) * hy
      · linear_combination s * (n.x * hy - n.y * hx) - (1 - c) * hz

end Mccpp.Analysis
