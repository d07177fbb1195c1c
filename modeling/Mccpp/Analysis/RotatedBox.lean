import Mathlib.Algebra.BigOperators.Group.List.Basic
import Mathlib.Data.List.Flatten
import Mathlib.LinearAlgebra.Matrix.Notation
import Mathlib.Tactic.FieldSimp
import Mathlib.Tactic.LinearCombination
import Mathlib.Tactic.Ring
import Mccpp.Interface.RotatedBox
import Mccpp.Analysis.Rotations

/-!
# Rotating the elements of a model

Where the elements are rotated about is twice as far from the centre of the block as their rotation
origin. So every vertex is off by the same vector: what the rotation about `0` does to the rotation
origin (`elementTransform_eq`). A rotation only keeps what is on its axis.
-/

set_option autoImplicit false

namespace Mccpp.Analysis

open Mccpp.Model Mccpp.Interface

variable {K A : Type} [Field K]

/-! ## One point -/

section Rotation

variable {c s : K} {n : Vec3 K}

@[simp] theorem Vec3.map_x {α β : Type} (f : α → β) (v : Vec3 α) : (v.map f).x = f v.x := rfl
@[simp] theorem Vec3.map_y {α β : Type} (f : α → β) (v : Vec3 α) : (v.map f).y = f v.y := rfl
@[simp] theorem Vec3.map_z {α β : Type} (f : α → β) (v : Vec3 α) : (v.map f).z = f v.z := rfl

theorem add_neg_eq_zero_iff (v w : Vec3 K) : v + -w = ⟨0, 0, 0⟩ ↔ w = v := by
  simp only [Vec3.ext_iff, Vec3.x_add, Vec3.y_add, Vec3.z_add, Vec3.x_neg, Vec3.y_neg, Vec3.z_neg,
    ← sub_eq_add_neg, sub_eq_zero, eq_comm]

theorem unit_of_axisAligned (h : AxisAligned n) : n.x * n.x + n.y * n.y + n.z * n.z = 1 := by
  simp only [AxisAligned, List.mem_cons, List.not_mem_nil, or_false] at h
  rcases h with rfl | rfl | rfl | rfl | rfl | rfl <;> ring

/-- INTERNAL: **a rotation keeps the points of its axis**, and no others unless it is by no
angle. -/
theorem axisRotation_eq_self_iff [CharZero K] (hunit : c ^ 2 + s ^ 2 = 1) (hn : AxisAligned n)
    (v : Vec3 K) : axisRotation c s n v = v ↔
      c = 1 ∨ (n.x = 0 → v.x = 0) ∧ (n.y = 0 → v.y = 0) ∧ (n.z = 0 → v.z = 0) := by
  have hkept := rotation_eq_self_iff hunit (unit_of_axisAligned hn) v
  simp only [AxisAligned, List.mem_cons, List.not_mem_nil, or_false] at hn
  rcases hn with rfl | rfl | rfl | rfl | rfl | rfl <;>
    simpa [Vec3.ext_iff, scalarProduct] using hkept

end Rotation

/-! ## One element -/

section Element

variable {glm : Glm K A} {cos sin : A → K} {e : ModelElement K A}

/-- The rotation of an element, about `0`. -/
def turn (cos sin : A → K) (e : ModelElement K A) (p : Vec3 K) : Vec3 K :=
  axisRotation (cos e.rotationAngle) (sin e.rotationAngle) e.rotationAxis p

/-- How far the vertices of an element are off. -/
def offset (cos sin : A → K) (e : ModelElement K A) : Vec3 K :=
  blockSpace e.rotationOrigin + -turn cos sin e (blockSpace e.rotationOrigin)

/-- INTERNAL: what an element is rotated about is twice as far away as its origin.
SOURCE: renderer/renderer.cc:111-113 -/
theorem rotOrigin_eq [CharZero K] :
    rotOrigin e = blockSpace e.rotationOrigin + blockSpace e.rotationOrigin := by
  ext <;> simp only [rotOrigin, blockSpace, Vec3.map_x, Vec3.map_y, Vec3.map_z, Vec3.x_add,
    Vec3.y_add, Vec3.z_add] <;> field_simp <;> ring

/-- INTERNAL: what the matrices do to a point.
SOURCE: renderer/renderer.cc:124-130 -/
theorem elementTransform_eq_turn (hglm : GlmLaws glm cos sin)
    (hn : e.rotationAxis.x * e.rotationAxis.x + e.rotationAxis.y * e.rotationAxis.y +
      e.rotationAxis.z * e.rotationAxis.z = 1) (p : Vec3 K) :
    elementTransform glm e p = turn cos sin e (p + -rotOrigin e) + rotOrigin e := by
  unfold elementTransform
  rw [hglm.translate, hglm.rotate _ _ _ _ hn, hglm.translate, hglm.mat4]
  rfl

/-- INTERNAL: **every point is off by the same vector**.
SOURCE: renderer/renderer.cc:113-130 -/
theorem elementTransform_eq [CharZero K] (hglm : GlmLaws glm cos sin) (he : Rotated e)
    (p : Vec3 K) : elementTransform glm e p = rotatedPoint cos sin e p + offset cos sin e := by
  rw [elementTransform_eq_turn hglm (unit_of_axisAligned he.axis), rotOrigin_eq, offset, rotatedPoint,
    rotationAbout]
  ext <;> simp only [turn, axisRotation, Vec3.scale, Vec3.x_add, Vec3.y_add, Vec3.z_add, Vec3.x_neg,
    Vec3.y_neg, Vec3.z_neg] <;> ring

/-- INTERNAL: the rotation origin is a fixed point of the right rotation. -/
theorem rotatedPoint_origin :
    rotatedPoint cos sin e (blockSpace e.rotationOrigin) = blockSpace e.rotationOrigin := by
  ext <;> simp [rotatedPoint, rotationAbout, axisRotation, Vec3.scale]

theorem blockSpace_eq_zero [CharZero K] (r : K) : r / 16 - 1 / 2 = 0 ↔ r = 8 := by
  constructor
  · intro h
    linear_combination 16 * h
  · rintro rfl
    norm_num

/-- INTERNAL: nothing is off exactly when the rotation keeps the rotation origin. -/
theorem offset_eq_zero_iff [CharZero K] (hunit : cos e.rotationAngle ^ 2 + sin e.rotationAngle ^ 2 = 1)
    (he : Rotated e) : offset cos sin e = ⟨0, 0, 0⟩ ↔ Centred cos e := by
  have hkept := axisRotation_eq_self_iff hunit he.axis (blockSpace e.rotationOrigin)
  simp only [blockSpace, Vec3.map_x, Vec3.map_y, Vec3.map_z, blockSpace_eq_zero] at hkept
  rw [Centred, ← hkept]
  exact add_neg_eq_zero_iff _ _

/-- INTERNAL: the fixed point of the transform.
SOURCE: renderer/renderer.cc:124-130 -/
theorem elementTransform_origin [CharZero K] (hglm : GlmLaws glm cos sin)
    (hunit : cos e.rotationAngle ^ 2 + sin e.rotationAngle ^ 2 = 1) (he : Rotated e) :
    elementTransform glm e (blockSpace e.rotationOrigin) = blockSpace e.rotationOrigin ↔
      Centred cos e := by
  rw [elementTransform_eq hglm he, rotatedPoint_origin, ← offset_eq_zero_iff hunit he]
  simp [Vec3.ext_iff]

/-! ## One side -/

omit [Field K] in
/-- INTERNAL: the corners of a side, in the order they are drawn in.
SOURCE: renderer/renderer.cc:131-218 -/
theorem sideQuad_perm (lo hi : Vec3 K) (side : Side) :
    ((sideQuad lo hi side).map Prod.fst).Perm (sideCorners lo hi side) := by
  cases side with
  | down => exact .cons _ (.swap _ _ _)
  | up => exact .refl _
  | north => exact .refl _
  | south => exact .cons _ (.swap _ _ _)
  | east => exact .cons _ (.swap _ _ _)
  | west => exact .refl _

omit [Field K] in
theorem length_sideQuad (lo hi : Vec3 K) (side : Side) : (sideQuad lo hi side).length = 4 := by
  cases side <;> rfl

theorem sum_map_add_const {α : Type} (l : List α) (f : α → K) (d : K) :
    (l.map fun a => f a + d).sum = (l.map f).sum + l.length * d := by
  induction l with
  | nil => simp
  | cons a l ih =>
    simp only [List.map_cons, List.sum_cons, ih, List.length_cons, Nat.cast_add, Nat.cast_one]
    ring

/-- INTERNAL: four points that are moved by the same vector are only permuted if they are not moved
at all, as the sum of each coordinate shows. -/
theorem perm_moved_iff [CharZero K] {l l' : List (Vec3 K)} (hl : l.length = 4) (hperm : l.Perm l')
    (f : Vec3 K → Vec3 K) (d : Vec3 K) :
    (l.map fun p => f p + d).Perm (l'.map f) ↔ d = ⟨0, 0, 0⟩ := by
  constructor
  · intro h
    have hcoordinate : ∀ g : Vec3 K → K, (∀ v w, g (v + w) = g v + g w) → g d = 0 := by
      intro g hg
      have hmoved := (h.map g).sum_eq
      have hsame := ((hperm.map f).map g).sum_eq
      simp only [List.map_map, Function.comp_def, hg] at hmoved hsame
      rw [sum_map_add_const, ← hsame, hl, add_eq_left, mul_eq_zero] at hmoved
      exact hmoved.resolve_left (by norm_num)
    exact Vec3.ext (hcoordinate Vec3.x fun _ _ => rfl) (hcoordinate Vec3.y fun _ _ => rfl)
      (hcoordinate Vec3.z fun _ _ => rfl)
  · rintro rfl
    have hstay : (fun p => f p + (⟨0, 0, 0⟩ : Vec3 K)) = f := by
      funext p
      ext <;> simp
    rw [hstay]
    exact hperm.map f

/-- INTERNAL: **a side is shown where it belongs exactly when the element is centred**.
SOURCE: renderer/renderer.cc:131-218 -/
theorem showsSide_iff [CharZero K] (hglm : GlmLaws glm cos sin)
    (hunit : cos e.rotationAngle ^ 2 + sin e.rotationAngle ^ 2 = 1) (he : Rotated e)
    (side : Side) : ShowsSide cos sin (e, side) (sideVertices glm e side) ↔ Centred cos e := by
  have hbox : elementBox glm e = (blockSpace e.boxFrom, blockSpace e.boxTo) := by
    simp [elementBox, he.rescale, blockSpace]
  have hpositions : (sideVertices glm e side).map ModelVertex.position =
      ((sideQuad (blockSpace e.boxFrom) (blockSpace e.boxTo) side).map Prod.fst).map
        fun p => rotatedPoint cos sin e p + offset cos sin e := by
    simp only [sideVertices, hbox, List.map_map, Function.comp_def, elementTransform_eq hglm he]
  rw [ShowsSide, hpositions, ← offset_eq_zero_iff hunit he]
  exact perm_moved_iff (by rw [List.length_map, length_sideQuad]) (sideQuad_perm _ _ side) _ _

/-! ## Models -/

end Element

/-- The sides of the elements of a model that are drawn. -/
def modelSides (model : List (ModelElement K A)) : List (ModelElement K A × Side) :=
  model.flatMap fun e => (drawnSides e).map fun side => (e, side)

/-- The indices of a side whose vertices start here. -/
def sideIndices (start : ℕ) : List (BitVec 32) :=
  [start + 0, start + 1, start + 2, start + 3, start + 2, start + 1].map (BitVec.ofNat 32)

/-- The block of a side that is drawn. -/
def appendSide (glm : Glm K A) (m : ModelMesh K × ℕ) (f : ModelElement K A × Side) :
    ModelMesh K × ℕ :=
  (⟨m.1.vertices ++ sideVertices glm f.1 f.2, m.1.indicies ++ sideIndices m.2⟩, m.2 + 4)

/-- INTERNAL: only the sides that are drawn count.
SOURCE: renderer/renderer.cc:131-218 -/
theorem drawElement_eq (glm : Glm K A) (e : ModelElement K A) (m : ModelMesh K × ℕ) :
    drawElement glm m e = ((drawnSides e).map fun side => (e, side)).foldl (appendSide glm) m := by
  have hsides : ∀ (l : List Side) (m : ModelMesh K × ℕ), l.foldl (drawSide glm e) m =
      ((l.filter fun side => shouldDrawFace (e.face side)).map fun side => (e, side)).foldl
        (appendSide glm) m := by
    intro l
    induction l with
    | nil => exact fun m => rfl
    | cons side l ih =>
      intro m
      rw [List.foldl_cons, ih]
      by_cases hdraw : shouldDrawFace (e.face side) <;> simp [drawSide, hdraw, appendSide, sideIndices]
  exact hsides _ m

/-- INTERNAL: **sides one after another**, where the running index is the number of vertices. -/
theorem foldl_appendSide (glm : Glm K A) (sides : List (ModelElement K A × Side)) (mesh : ModelMesh K)
    (start : ℕ) : (sides.foldl (appendSide glm) (mesh, start)).1 =
      ⟨mesh.vertices ++ sides.flatMap fun f => sideVertices glm f.1 f.2,
        mesh.indicies ++ (List.range sides.length).flatMap fun i => sideIndices (start + 4 * i)⟩ := by
  induction sides generalizing mesh start with
  | nil => simp
  | cons f sides ih =>
    have hnext : ∀ i, start + 4 + 4 * i = start + 4 * (i + 1) := fun i => by ring
    rw [List.foldl_cons, appendSide, ih]
    simp only [List.flatMap_cons, List.append_assoc, List.length_cons, List.range_succ_eq_map,
      List.flatMap_map, hnext, Nat.mul_zero, Nat.add_zero]

/-- INTERNAL: **what is appended for a model**, side by side.
SOURCE: renderer/renderer.cc:104-221 -/
theorem generateModelMesh_eq (glm : Glm K A) (model : List (ModelElement K A)) (mesh : ModelMesh K) :
    generateModelMesh glm model mesh =
      ⟨mesh.vertices ++ (modelSides model).flatMap fun f => sideVertices glm f.1 f.2,
        mesh.indicies ++ (List.range (modelSides model).length).flatMap fun i =>
          sideIndices (mesh.vertices.length + 4 * i)⟩ := by
  have helements : model.foldl (drawElement glm) (mesh, mesh.vertices.length) =
      (modelSides model).foldl (appendSide glm) (mesh, mesh.vertices.length) := by
    rw [modelSides, List.foldl_flatMap]
    congr 1
    funext m e
    exact drawElement_eq glm e m
  rw [generateModelMesh, helements, foldl_appendSide]

theorem generateModelMesh_vertices (glm : Glm K A) (model : List (ModelElement K A))
    (mesh : ModelMesh K) : (generateModelMesh glm model mesh).vertices =
      mesh.vertices ++ ((modelSides model).map fun f => sideVertices glm f.1 f.2).flatten := by
  rw [generateModelMesh_eq, List.flatMap_def]

theorem length_sideVertices (glm : Glm K A) (e : ModelElement K A) (side : Side) :
    (sideVertices glm e side).length = 4 := by
  rw [sideVertices, List.length_map, length_sideQuad]

/-- INTERNAL: quads of four vertices are where the vertices are cut. -/
theorem exists_quads_iff {glm : Glm K A} {model : List (ModelElement K A)}
    {P : ModelElement K A × Side → List (ModelVertex K) → Prop}
    (hfour : ∀ f quad, P f quad → quad.length = 4) :
    (∃ quads, List.Forall₂ P (modelSides model) quads ∧
      ((modelSides model).map fun f => sideVertices glm f.1 f.2).flatten = quads.flatten) ↔
      ∀ f ∈ modelSides model, P f (sideVertices glm f.1 f.2) := by
  constructor
  · rintro ⟨quads, hquads, hflatten⟩
    have hlengths : ((modelSides model).map fun f => sideVertices glm f.1 f.2).map List.length =
        quads.map List.length := by
      rw [List.map_map, ← List.forall₂_eq_eq_eq, List.forall₂_map_left_iff,
        List.forall₂_map_right_iff]
      refine hquads.imp fun f quad hquad => ?_
      rw [hfour f quad hquad, Function.comp_apply, length_sideVertices]
    have hsame := List.eq_iff_flatten_eq.mpr ⟨hflatten, hlengths⟩
    rw [← hsame] at hquads
    exact List.forall₂_same.mp (List.forall₂_map_right_iff.mp hquads)
  · intro h
    exact ⟨_, List.forall₂_map_right_iff.mpr (List.forall₂_same.mpr h), rfl⟩

omit [Field K] in
/-- INTERNAL: what is said of every side that is drawn is said of the elements that are seen. -/
theorem forall_modelSides_iff {model : List (ModelElement K A)} {Q : ModelElement K A → Prop} :
    (∀ f ∈ modelSides model, Q f.1) ↔ ∀ e ∈ model, drawnSides e ≠ [] → Q e := by
  constructor
  · intro h e he hdrawn
    obtain ⟨side, hside⟩ := List.exists_mem_of_ne_nil _ hdrawn
    exact h (e, side) (List.mem_flatMap.mpr ⟨e, he, List.mem_map.mpr ⟨side, hside, rfl⟩⟩)
  · intro h f hf
    obtain ⟨e, he, hf⟩ := List.mem_flatMap.mp hf
    obtain ⟨side, hside, rfl⟩ := List.mem_map.mp hf
    exact h e he (List.ne_nil_of_mem hside)

omit [Field K] in
theorem length_sideCorners (lo hi : Vec3 K) (side : Side) : (sideCorners lo hi side).length = 4 := by
  cases side <;> rfl

theorem length_of_showsSide {cos sin : A → K} {f : ModelElement K A × Side}
    {quad : List (ModelVertex K)} (h : ShowsSide cos sin f quad) : quad.length = 4 := by
  simpa [length_sideCorners] using h.length_eq

/-- INTERNAL: **the vertices of a model show it exactly when its elements are centred**, those
with a side that is drawn. -/
theorem showsModel_iff [CharZero K] {glm : Glm K A} {cos sin : A → K}
    (hglm : GlmLaws glm cos sin) (hunit : ∀ a, cos a ^ 2 + sin a ^ 2 = 1)
    {model : List (ModelElement K A)} (hmodel : ∀ e ∈ model, Rotated e) :
    ShowsModel cos sin model ((modelSides model).map fun f => sideVertices glm f.1 f.2).flatten ↔
      ∀ e ∈ model, drawnSides e ≠ [] → Centred cos e := by
  have hside : ∀ f ∈ modelSides model,
      (ShowsSide cos sin f (sideVertices glm f.1 f.2) ↔ Centred cos f.1) := by
    intro f hf
    obtain ⟨e, he, hf⟩ := List.mem_flatMap.mp hf
    obtain ⟨side, -, rfl⟩ := List.mem_map.mp hf
    exact showsSide_iff hglm (hunit _) (hmodel e he) side
  rw [← forall_modelSides_iff, ← forall₂_congr hside]
  exact exists_quads_iff fun _ _ hquad => length_of_showsSide hquad

/-- INTERNAL: a rotation is loaded with an axis.
SOURCE: resource/model.cc:101-111 -/
theorem axisAligned_of_loadRotation {glm : Glm K A} {elem e : ModelElement K A}
    {file : RotationFile K} (h : loadRotation glm elem file = some e) :
    AxisAligned e.rotationAxis := by
  unfold loadRotation at h
  by_cases hx : file.axis = ['x']
  · simp only [hx, if_true, Option.bind_eq_bind, Option.bind_some, Option.some.injEq] at h
    simp [← h, AxisAligned]
  · by_cases hy : file.axis = ['y']
    · simp [hy] at h
      simp [← h, AxisAligned]
    · by_cases hz : file.axis = ['z']
      · simp [hz] at h
        simp [← h, AxisAligned]
      · simp [hx, hy, hz] at h

/-- INTERNAL: so is every element, also one without a rotation.
SOURCE: resource/model.cc:83-141 -/
theorem axisAligned_of_loadElement [LinearOrder K] {glm : Glm K A} {file : ElementFile K}
    {e : ModelElement K A} (h : loadElement glm file = some e) : AxisAligned e.rotationAxis := by
  simp only [loadElement, Option.bind_eq_bind, Option.bind_eq_some_iff] at h
  obtain ⟨-, -, -, -, elem, helem, hfaces⟩ := h
  have haxis : AxisAligned elem.rotationAxis := by
    cases hrotation : file.rotation with
    | none =>
      have hinit : initialElement glm file.boxFrom file.boxTo = elem := by
        simpa [hrotation] using helem
      simp [← hinit, initialElement, AxisAligned]
    | some rotation => exact axisAligned_of_loadRotation (by simpa [hrotation] using helem)
  have hkept : e.rotationAxis = elem.rotationAxis := by
    rw [← Option.some.inj hfaces]
    cases file.faces <;> rfl
  rwa [hkept]

/-- SOURCE: renderer/renderer.cc:104-221, resource/model.cc:97-117 — **an element is rotated about
its own origin exactly when this is on an axis through the centre**. Of a model whose elements are
rotated about axes and not rescaled, the vertices that `generate_model_mesh` appends are the
corners of the sides of the boxes, rotated about their own rotation origins, and these origins are
fixed points of the transforms, if and only if each element is rotated by no angle or has `8` for
both coordinates of its origin across the axis. The vertices alone are right if and only if this
holds of the elements that are seen. -/
theorem model_rotated_iff [CharZero K] {glm : Glm K A} {cos sin : A → K}
    (hglm : GlmLaws glm cos sin) (hunit : ∀ a, cos a ^ 2 + sin a ^ 2 = 1)
    (model : List (ModelElement K A)) (hmodel : ∀ e ∈ model, Rotated e) (mesh : ModelMesh K) :
    ∃ added, (generateModelMesh glm model mesh).vertices = mesh.vertices ++ added ∧
      ((ShowsModel cos sin model added ∧ ∀ e ∈ model,
          elementTransform glm e (blockSpace e.rotationOrigin) = blockSpace e.rotationOrigin) ↔
        ∀ e ∈ model, Centred cos e) ∧
      (ShowsModel cos sin model added ↔ ∀ e ∈ model, drawnSides e ≠ [] → Centred cos e) := by
  have hfixed : (∀ e ∈ model, elementTransform glm e (blockSpace e.rotationOrigin) =
      blockSpace e.rotationOrigin) ↔ ∀ e ∈ model, Centred cos e :=
    forall₂_congr fun e he => elementTransform_origin hglm (hunit _) (hmodel e he)
  have hshows := showsModel_iff hglm hunit hmodel
  refine ⟨_, generateModelMesh_vertices glm model mesh, ?_, hshows⟩
  rw [hfixed, hshows]
  exact and_iff_right_of_imp fun h e he _ => h e he

/-! ## Quarter turns -/

/-- The cosine of a number of quarter turns. -/
def quarterCos : Fin 4 → ℚ := ![1, 0, -1, 0]

/-- The sine of a number of quarter turns. -/
def quarterSin : Fin 4 → ℚ := ![0, 1, 0, -1]

/-- The matrix that translates by `t`. -/
def translation (t : Vec3 ℚ) : Matrix (Fin 4) (Fin 4) ℚ :=
  !![1, 0, 0, t.x; 0, 1, 0, t.y; 0, 0, 1, t.z; 0, 0, 0, 1]

/-- The matrix that rotates about `n`. -/
def rotationMatrix (c s : ℚ) (n : Vec3 ℚ) : Matrix (Fin 4) (Fin 4) ℚ :=
  !![c + (1 - c) * n.x * n.x, (1 - c) * n.x * n.y - s * n.z, (1 - c) * n.x * n.z + s * n.y, 0;
    (1 - c) * n.x * n.y + s * n.z, c + (1 - c) * n.y * n.y, (1 - c) * n.y * n.z - s * n.x, 0;
    (1 - c) * n.x * n.z - s * n.y, (1 - c) * n.y * n.z + s * n.x, c + (1 - c) * n.z * n.z, 0;
    0, 0, 0, 1]

/-- `m * glm::vec4(v, 1.f)`, without its last component. -/
def applyMatrix (m : Matrix (Fin 4) (Fin 4) ℚ) (v : Vec3 ℚ) : Vec3 ℚ :=
  let w := m.mulVec ![v.x, v.y, v.z, 1]
  ⟨w 0, w 1, w 2⟩

/-- `glm`, with exact matrices, for quarter turns. -/
def quarterGlm : Glm ℚ (Fin 4) where
  Mat4 := Matrix (Fin 4) (Fin 4) ℚ
  mat4 := 1
  translate m t := m * translation t
  rotate m a n := m * rotationMatrix (quarterCos a) (quarterSin a) n
  transform := applyMatrix
  sec a := 1 / quarterCos a
  zeroAngle := 0
  radians degrees := Fin.ofNat 4 ((degrees / 90).floor % 4).toNat

theorem applyMatrix_mul {m k : Matrix (Fin 4) (Fin 4) ℚ} {v w : Vec3 ℚ}
    (h : k.mulVec ![v.x, v.y, v.z, 1] = ![w.x, w.y, w.z, 1]) :
    applyMatrix (m * k) v = applyMatrix m w := by
  simp only [applyMatrix, ← Matrix.mulVec_mulVec, h]

theorem quarterGlm_laws : GlmLaws quarterGlm quarterCos quarterSin where
  mat4 v := by simp [quarterGlm, applyMatrix]
  translate m t v := by
    refine applyMatrix_mul (w := v + t) ?_
    ext i
    fin_cases i <;> simp [translation, Matrix.mulVec, dotProduct, Fin.sum_univ_four]
  rotate m a n v _ := by
    refine applyMatrix_mul (w := axisRotation (quarterCos a) (quarterSin a) n v) ?_
    ext i
    fin_cases i <;> simp [rotationMatrix, axisRotation, Vec3.scale, Matrix.mulVec, dotProduct,
      Fin.sum_univ_four] <;> ring

theorem quarter_unit (a : Fin 4) : quarterCos a ^ 2 + quarterSin a ^ 2 = 1 := by
  fin_cases a <;> norm_num [quarterCos, quarterSin]

/-- A block that is turned upright by a quarter, in its file. -/
def turnedFile (boxTo origin : Vec3 ℚ) : ElementFile ℚ where
  boxFrom := ⟨0, 0, 0⟩
  boxTo := boxTo
  rotation := some ⟨origin, ['y'], 90, none⟩
  faces := none

/-- This block. -/
def turnedElement (boxTo origin : Vec3 ℚ) : ModelElement ℚ (Fin 4) :=
  { initialElement quarterGlm ⟨0, 0, 0⟩ boxTo with
    rotationOrigin := origin
    rotationAxis := ⟨0, 1, 0⟩
    rotationAngle := 1 }

theorem load_turnedFile (boxTo origin : Vec3 ℚ) :
    loadElement quarterGlm (turnedFile boxTo origin) = some (turnedElement boxTo origin) := by
  have hrange : inRange (⟨0, 0, 0⟩ : Vec3 ℚ) = true := by decide
  have hangle : quarterGlm.radians 90 = 1 := by
    norm_num [quarterGlm]
    rfl
  simp [loadElement, turnedFile, initialElement, hrange, loadRotation, hangle, turnedElement]

theorem rotated_turnedElement (boxTo origin : Vec3 ℚ) : Rotated (turnedElement boxTo origin) where
  axis := by simp [turnedElement, AxisAligned]
  rescale := rfl

/-- SOURCE: renderer/renderer.cc:111-113 — a block that is turned about its corner is drawn
elsewhere, and its corner does not stay. -/
theorem corner_block_misplaced : ∃ e, loadElement quarterGlm (turnedFile ⟨16, 16, 16⟩ ⟨0, 0, 0⟩) =
      some e ∧ Rotated e ∧
    ∃ added, (generateModelMesh quarterGlm [e] ⟨[], []⟩).vertices = added ∧
      ¬ShowsModel quarterCos quarterSin [e] added ∧
      elementTransform quarterGlm e (blockSpace e.rotationOrigin) ≠
        blockSpace e.rotationOrigin := by
  have he := rotated_turnedElement ⟨16, 16, 16⟩ ⟨0, 0, 0⟩
  have hnot : ¬Centred quarterCos (turnedElement ⟨16, 16, 16⟩ ⟨0, 0, 0⟩) := by
    simp [Centred, turnedElement, quarterCos]
  refine ⟨_, load_turnedFile _ _, he, _, generateModelMesh_vertices _ _ _, ?_, ?_⟩
  · rw [List.nil_append, showsModel_iff quarterGlm_laws quarter_unit (by simpa using he)]
    intro h
    exact hnot (h _ List.mem_cons_self (by decide))
  · intro h
    exact hnot ((elementTransform_origin quarterGlm_laws (quarter_unit _) he).mp h)

theorem model_rotated_iff_plate : ∃ e, loadElement quarterGlm (turnedFile ⟨16, 1, 16⟩ ⟨8, 0, 8⟩) =
      some e ∧ Rotated e ∧
    ∃ added, (generateModelMesh quarterGlm [e] ⟨[], []⟩).vertices = added ∧
      ShowsModel quarterCos quarterSin [e] added := by
  have he := rotated_turnedElement ⟨16, 1, 16⟩ ⟨8, 0, 8⟩
  have hcentred : Centred quarterCos (turnedElement ⟨16, 1, 16⟩ ⟨8, 0, 8⟩) := by
    simp [Centred, turnedElement]
  obtain ⟨added, hadded, -, hshows⟩ := model_rotated_iff quarterGlm_laws quarter_unit
    [turnedElement ⟨16, 1, 16⟩ ⟨8, 0, 8⟩] (by simpa using he) ⟨[], []⟩
  refine ⟨_, load_turnedFile _ _, he, added, hadded, hshows.mpr ?_⟩
  intro e hmem _
  rwa [List.mem_singleton.mp hmem]

end Mccpp.Analysis
