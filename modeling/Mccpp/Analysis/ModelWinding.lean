import Mathlib.Algebra.Order.Field.Basic
import Mathlib.Tactic.Linarith
import Mathlib.Tactic.Positivity
import Mccpp.Library.MixedRadix
import Mccpp.Analysis.ModelNormals

/-!
# Triangles of the elements of a model

The two triangles of a side span a positive multiple of its outward normal (`exists_area`), which a
rescaled box keeps (`elementBox_lt`) and a rotation, too. The running index is the number of vertices
before a side, so its indices are those of its own vertices as long as 32 bits hold them.
-/

set_option autoImplicit false

namespace Mccpp.Analysis

open Mccpp.Library Mccpp.Model Mccpp.Interface

variable {K A : Type} [Field K] [LinearOrder K] [IsStrictOrderedRing K] {glm : Glm K A}
  {cos sin : A → K} {e : ModelElement K A}

/-! ## The box -/

/-- `from` is below `to`. -/
def BoxLt (box : Vec3 K × Vec3 K) : Prop :=
  box.1.x < box.2.x ∧ box.1.y < box.2.y ∧ box.1.z < box.2.z

/-- INTERNAL: a component of a scale that is the secant across the axis and `1` along it.
SOURCE: renderer/renderer.cc:115-119 -/
theorem scale_pos {c k n : K} (hc : 0 < c) (hle : c ^ 2 ≤ 1) (hk : k * c = 1) (hn : n * n ≤ 1) :
    0 < (-n + 1) * k + n := by
  have hone : c ≤ 1 := by nlinarith
  have hnone : n ≤ 1 := by nlinarith
  have hpos : 0 < k := by
    by_contra hneg
    nlinarith
  have hsec : 1 ≤ k := by nlinarith
  have hscaled : (-n + 1) * 1 ≤ (-n + 1) * k := mul_le_mul_of_nonneg_left hsec (by linarith)
  linarith

/-- INTERNAL: **a rescaled box is proper as well**.
SOURCE: renderer/renderer.cc:109-123 -/
theorem elementBox_lt (hunit : cos e.rotationAngle ^ 2 + sin e.rotationAngle ^ 2 = 1)
    (hsec : cos e.rotationAngle ≠ 0 → glm.sec e.rotationAngle * cos e.rotationAngle = 1)
    (hn : UnitAxis e) (hbox : ProperBox e) (hrescale : RescaledWithin cos e) :
    BoxLt (elementBox glm e) := by
  have hlt : ∀ {a b k : K}, a < b → 0 < k → (a / 16 - 1 / 2) * k < (b / 16 - 1 / 2) * k := by
    intro a b k hab hk
    exact mul_lt_mul_of_pos_right (by linarith) hk
  by_cases hscaled : e.rotationRescale = true
  · have hcos := hrescale hscaled
    have hle : cos e.rotationAngle ^ 2 ≤ 1 := by nlinarith [sq_nonneg (sin e.rotationAngle)]
    have hsecant := hsec (ne_of_gt hcos)
    have hn' : e.rotationAxis.x * e.rotationAxis.x + e.rotationAxis.y * e.rotationAxis.y +
      e.rotationAxis.z * e.rotationAxis.z = 1 := hn
    have hx := mul_self_nonneg e.rotationAxis.x
    have hy := mul_self_nonneg e.rotationAxis.y
    have hz := mul_self_nonneg e.rotationAxis.z
    unfold elementBox
    rw [if_pos hscaled]
    refine ⟨hlt hbox.x ?_, hlt hbox.y ?_, hlt hbox.z ?_⟩
    · exact scale_pos hcos hle hsecant (by linarith)
    · exact scale_pos hcos hle hsecant (by linarith)
    · exact scale_pos hcos hle hsecant (by linarith)
  · have hone : ∀ {a b : K}, a < b → a / 16 - 1 / 2 < b / 16 - 1 / 2 := by
      intro a b hab
      linarith
    unfold elementBox
    rw [if_neg hscaled]
    exact ⟨hone hbox.x, hone hbox.y, hone hbox.z⟩

/-! ## Two triangles -/

/-- INTERNAL: **the triangles of a side, before they are rotated**.
SOURCE: renderer/renderer.cc:131-218 -/
theorem exists_area {lo hi : Vec3 K} (hlt : BoxLt (lo, hi)) (side : Side) :
    ∃ q₀ q₁ q₂ q₃ area, sideQuad lo hi side = [q₀, q₁, q₂, q₃] ∧ 0 < area ∧
      vectorProduct (q₁.1 + -q₀.1) (q₂.1 + -q₀.1) = (outward side).scale area ∧
      vectorProduct (q₂.1 + -q₃.1) (q₁.1 + -q₃.1) = (outward side).scale area := by
  obtain ⟨hx, hy, hz⟩ := hlt
  have hxy : 0 < (hi.x - lo.x) * (hi.y - lo.y) := mul_pos (sub_pos.mpr hx) (sub_pos.mpr hy)
  have hxz : 0 < (hi.x - lo.x) * (hi.z - lo.z) := mul_pos (sub_pos.mpr hx) (sub_pos.mpr hz)
  have hyz : 0 < (hi.y - lo.y) * (hi.z - lo.z) := mul_pos (sub_pos.mpr hy) (sub_pos.mpr hz)
  cases side with
  | down | up =>
    refine ⟨_, _, _, _, _, rfl, hxz, ?_, ?_⟩ <;>
      ext <;> simp [vectorProduct, outward] <;> ring
  | north | south =>
    refine ⟨_, _, _, _, _, rfl, hxy, ?_, ?_⟩ <;>
      ext <;> simp [vectorProduct, outward] <;> ring
  | east | west =>
    refine ⟨_, _, _, _, _, rfl, hyz, ?_, ?_⟩ <;>
      ext <;> simp [vectorProduct, outward] <;> ring

omit [IsStrictOrderedRing K] in
/-- INTERNAL: corners of a triangle that spans a multiple of a side's direction.
SOURCE: renderer/renderer.cc:124-130 -/
theorem frontFacing (hglm : GlmLaws glm cos sin)
    (hunit : cos e.rotationAngle ^ 2 + sin e.rotationAngle ^ 2 = 1) (hn : UnitAxis e)
    {side : Side} {p q r : ModelVertex K} {a b c : Vec3 K} (hp : p.position = elementTransform glm e a)
    (hq : q.position = elementTransform glm e b) (hr : r.position = elementTransform glm e c)
    {area : K} (hpos : 0 < area)
    (harea : vectorProduct (b + -a) (c + -a) = (outward side).scale area) :
    FrontFacing cos sin (e, side) p q r := by
  have hedge : ∀ {v w : ModelVertex K} {a b : Vec3 K}, v.position = elementTransform glm e a →
      w.position = elementTransform glm e b →
        w.position + -v.position = turn cos sin e (b + -a) := by
    intro v w a b hv hw
    rw [hv, hw, elementTransform_eq_add hglm hn, elementTransform_eq_add hglm hn, turn, turn, turn,
      axisRotation_sub]
    ext <;> simp
  have hwinding : winding p q r = (outwardNormal cos sin (e, side)).scale area := by
    rw [winding, hedge hp hq, hedge hp hr, turn, turn, vectorProduct_rotation hunit hn, harea,
      axisRotation_scale]
    rfl
  refine ⟨?_, area, hpos, hwinding⟩
  intro hzero
  have hlength : scalarProduct (outwardNormal cos sin (e, side)) (outwardNormal cos sin (e, side)) =
      1 := by
    rw [outwardNormal, scalarProduct_rotation hunit hn, outward_unit]
  obtain ⟨hx, hy, hz⟩ := Vec3.ext_iff.mp (hwinding.symm.trans hzero)
  have hne := ne_of_gt hpos
  simp only [Vec3.scale_x, Vec3.scale_y, Vec3.scale_z, mul_eq_zero, or_iff_left hne] at hx hy hz
  simp [scalarProduct, hx, hy, hz] at hlength

/-- INTERNAL: **both triangles of a side face the way it points**.
SOURCE: renderer/renderer.cc:131-218 -/
theorem exists_front (hglm : GlmLaws glm cos sin)
    (hunit : cos e.rotationAngle ^ 2 + sin e.rotationAngle ^ 2 = 1) (hn : UnitAxis e)
    (hlt : BoxLt (elementBox glm e)) (side : Side) :
    ∃ v₀ v₁ v₂ v₃, sideVertices glm e side = [v₀, v₁, v₂, v₃] ∧
      FrontFacing cos sin (e, side) v₀ v₁ v₂ ∧ FrontFacing cos sin (e, side) v₃ v₂ v₁ := by
  obtain ⟨q₀, q₁, q₂, q₃, area, hquad, hpos, hfirst, hsecond⟩ :=
    @exists_area K _ _ _ (elementBox glm e).1 (elementBox glm e).2 hlt side
  have hvertices : (sideVertices glm e side).map ModelVertex.position =
      ((sideQuad (elementBox glm e).1 (elementBox glm e).2 side).map Prod.fst).map
        (elementTransform glm e) := by
    simp only [sideVertices, List.map_map, Function.comp_def]
  obtain ⟨v₀, v₁, v₂, v₃, hfour⟩ := List.length_eq_four.mp (length_sideVertices glm e side)
  simp only [hfour, hquad, List.map_cons, List.map_nil, List.cons.injEq, and_true] at hvertices
  obtain ⟨h₀, h₁, h₂, h₃⟩ := hvertices
  refine ⟨v₀, v₁, v₂, v₃, hfour, ?_, ?_⟩
  · exact frontFacing hglm hunit hn h₀ h₁ h₂ hpos hfirst
  · exact frontFacing hglm hunit hn h₃ h₂ h₁ hpos hsecond

/-! ## Indices -/

omit [LinearOrder K] [IsStrictOrderedRing K] in
theorem length_vertices (glm : Glm K A) (model : List (ModelElement K A)) (mesh : ModelMesh K) :
    (generateModelMesh glm model mesh).vertices.length =
      mesh.vertices.length + 4 * (modelSides model).length := by
  rw [generateModelMesh_eq]
  simp [List.length_flatMap, length_sideVertices, Nat.mul_comm]

omit [LinearOrder K] [IsStrictOrderedRing K] in
/-- INTERNAL: where the vertices of a side are.
SOURCE: renderer/renderer.cc:131-218 -/
theorem getElem?_vertices (glm : Glm K A) (model : List (ModelElement K A)) (mesh : ModelMesh K)
    {i : ℕ} {f : ModelElement K A × Side} (hf : (modelSides model)[i]? = some f) {j : ℕ} (hj : j < 4) :
    (generateModelMesh glm model mesh).vertices[mesh.vertices.length + 4 * i + j]? =
      (sideVertices glm f.1 f.2)[j]? := by
  have hfour : ∀ f : ModelElement K A × Side, (sideVertices glm f.1 f.2).length = 4 :=
    fun f => length_sideVertices glm f.1 f.2
  have hdiv : (4 * i + j) / 4 = i := by omega
  have hmod : (4 * i + j) % 4 = j := by omega
  rw [generateModelMesh_eq, Nat.add_assoc, List.getElem?_append_right (Nat.le_add_right _ _),
    Nat.add_sub_cancel_left, getElem?_flatMap hfour (by decide), hdiv, hmod, hf, Option.bind_some]

omit [LinearOrder K] [IsStrictOrderedRing K] in
/-- INTERNAL: where the indices of a side are.
SOURCE: renderer/renderer.cc:131-218 -/
theorem take_drop_indicies (glm : Glm K A) (model : List (ModelElement K A)) (mesh : ModelMesh K)
    {i : ℕ} (hi : i < (modelSides model).length) :
    ((generateModelMesh glm model mesh).indicies.drop (mesh.indicies.length + 6 * i)).take 6 =
      sideIndices (mesh.vertices.length + 4 * i) := by
  have hsix : ∀ start, (sideIndices start).length = 6 := fun start => rfl
  have hrow := take_drop_flatMap (f := fun i => sideIndices (mesh.vertices.length + 4 * i))
    (List.getElem?_range hi)
  have hstart : (((List.range (modelSides model).length).take i).map fun i =>
      (sideIndices (mesh.vertices.length + 4 * i)).length).sum = 6 * i := by
    simp [hsix, Nat.min_eq_left (Nat.le_of_lt hi), Nat.mul_comm]
  rw [hstart, hsix] at hrow
  rw [generateModelMesh_eq, List.drop_length_add_append, hrow]

/-- INTERNAL: indices that 32 bits hold are not cut.
SOURCE: renderer/renderer.cc:137-142 -/
theorem toNat_sideIndex {start j : ℕ} (hle : start + 4 ≤ 2 ^ 32) (hj : j < 4) :
    (BitVec.ofNat 32 (start + j)).toNat = start + j := by
  rw [BitVec.toNat_ofNat]
  exact Nat.mod_eq_of_lt (by omega)

/-- INTERNAL: **the indices of a side are those of its vertices**. -/
theorem mem_sideIndices_iff {start : ℕ} (hle : start + 4 ≤ 2 ^ 32) (i : ℕ) :
    i ∈ (sideIndices start).map BitVec.toNat ↔ start ≤ i ∧ i < start + 4 := by
  simp only [sideIndices, List.map_cons, List.map_nil, toNat_sideIndex hle (by decide : 0 < 4),
    toNat_sideIndex hle (by decide : 1 < 4), toNat_sideIndex hle (by decide : 2 < 4),
    toNat_sideIndex hle (by decide : 3 < 4), List.mem_cons, List.not_mem_nil, or_false]
  omega

/-- INTERNAL: **a side that is drawn**, as long as 32 bits hold its indices.
SOURCE: renderer/renderer.cc:131-218 -/
theorem drawnSide (hglm : GlmLaws glm cos sin) (hunit : ∀ a, cos a ^ 2 + sin a ^ 2 = 1)
    (model : List (ModelElement K A)) (mesh : ModelMesh K) {i : ℕ} {f : ModelElement K A × Side}
    (hf : (modelSides model)[i]? = some f) (hn : UnitAxis f.1) (hlt : BoxLt (elementBox glm f.1))
    (hle : mesh.vertices.length + 4 * i + 4 ≤ 2 ^ 32) :
    DrawnSide cos sin f (generateModelMesh glm model mesh).vertices (mesh.vertices.length + 4 * i)
      (((generateModelMesh glm model mesh).indicies.drop (mesh.indicies.length + 6 * i)).take 6) := by
  obtain ⟨v₀, v₁, v₂, v₃, hfour, hfirst, hsecond⟩ := exists_front hglm (hunit _) hn hlt f.2
  have hi : i < (modelSides model).length := (List.getElem?_eq_some_iff.mp hf).1
  have hvertex : ∀ {j : ℕ} {v : ModelVertex K}, [v₀, v₁, v₂, v₃][j]? = some v → j < 4 →
      (generateModelMesh glm model mesh).vertices[
        (BitVec.ofNat 32 (mesh.vertices.length + 4 * i + j)).toNat]? = some v := by
    intro j v hv hj
    rw [toNat_sideIndex hle hj, getElem?_vertices glm model mesh hf hj, hfour, hv]
  rw [take_drop_indicies glm model mesh hi]
  refine ⟨rfl, mem_sideIndices_iff hle, ?_, ?_⟩
  · exact ⟨_, _, _, v₀, v₁, v₂, rfl, hvertex rfl (by decide), hvertex rfl (by decide),
      hvertex rfl (by decide), hfirst⟩
  · exact ⟨_, _, _, v₃, v₂, v₁, rfl, hvertex rfl (by decide), hvertex rfl (by decide),
      hvertex rfl (by decide), hsecond⟩

/-! ## Models -/

/-- SOURCE: renderer/renderer.cc:100-222 — **what is drawn of a model**. For elements whose `from` is
below their `to`, rotated about unit vectors, and rescaled only where they are rotated by less than a
quarter turn, `generate_model_mesh` keeps the vertices and the indices that are there. Every side that
is drawn has four vertices and six indices of its own behind them, and the indices make two triangles
that are not degenerate and face the way the side points, as long as the indices of all vertices are
held by 32 bits. -/
theorem model_drawn (hglm : GlmLaws glm cos sin) (hunit : ∀ a, cos a ^ 2 + sin a ^ 2 = 1)
    (hsec : ∀ a, cos a ≠ 0 → glm.sec a * cos a = 1) (model : List (ModelElement K A))
    (haxis : ∀ e ∈ model, UnitAxis e) (hbox : ∀ e ∈ model, ProperBox e)
    (hrescale : ∀ e ∈ model, RescaledWithin cos e) (mesh : ModelMesh K)
    (hlength : (generateModelMesh glm model mesh).vertices.length ≤ 2 ^ 32) :
    DrawnModel cos sin model mesh (generateModelMesh glm model mesh) := by
  have hfour := length_vertices glm model mesh
  have hsix : (generateModelMesh glm model mesh).indicies.length =
      mesh.indicies.length + 6 * (modelSides model).length := by
    rw [generateModelMesh_eq]
    simp [List.length_flatMap, sideIndices, Nat.mul_comm]
  refine ⟨?_, ?_, hfour, hsix, ?_⟩
  · rw [generateModelMesh_eq]
    exact List.prefix_append _ _
  · rw [generateModelMesh_eq]
    exact List.prefix_append _ _
  · intro i f hf
    have hi : i < (modelSides model).length := (List.getElem?_eq_some_iff.mp hf).1
    obtain ⟨e, he, hside⟩ := List.mem_flatMap.mp (List.mem_of_getElem? hf)
    obtain ⟨side, -, rfl⟩ := List.mem_map.mp hside
    have hlt := elementBox_lt (hunit _) (hsec _) (haxis e he) (hbox e he) (hrescale e he)
    exact drawnSide hglm hunit model mesh hf (haxis e he) hlt (by omega)

theorem quarter_sec (a : Fin 4) (h : quarterCos a ≠ 0) : quarterGlm.sec a * quarterCos a = 1 :=
  one_div_mul_cancel h

theorem properBox_turnedElement {boxTo : Vec3 ℚ} (origin : Vec3 ℚ) (hx : 0 < boxTo.x)
    (hy : 0 < boxTo.y) (hz : 0 < boxTo.z) : ProperBox (turnedElement boxTo origin) where
  x := hx
  y := hy
  z := hz

theorem rescaledWithin_turnedElement (boxTo origin : Vec3 ℚ) :
    RescaledWithin quarterCos (turnedElement boxTo origin) := by
  intro h
  rw [(rotated_turnedElement boxTo origin).rescale] at h
  cases h

theorem model_drawn_plate : ∃ e, loadElement quarterGlm (turnedFile ⟨16, 1, 16⟩ ⟨8, 0, 8⟩) = some e ∧
    DrawnModel quarterCos quarterSin [e] ⟨[], []⟩ (generateModelMesh quarterGlm [e] ⟨[], []⟩) := by
  have haxis := unitAxis_turnedElement ⟨16, 1, 16⟩ ⟨8, 0, 8⟩
  have hbox : ProperBox (turnedElement ⟨16, 1, 16⟩ ⟨8, 0, 8⟩) :=
    properBox_turnedElement _ (by norm_num) (by norm_num) (by norm_num)
  have hrescale := rescaledWithin_turnedElement ⟨16, 1, 16⟩ ⟨8, 0, 8⟩
  refine ⟨_, load_turnedFile _ _, ?_⟩
  apply model_drawn quarterGlm_laws quarter_unit quarter_sec
  · simpa using haxis
  · simpa using hbox
  · simpa using hrescale
  · rw [length_vertices]
    decide

omit [IsStrictOrderedRing K] in
/-- INTERNAL: the first index behind `2 ^ 32` vertices is that of the first vertex.
SOURCE: renderer/renderer.cc:137-142 -/
theorem not_drawnModel_of_full (glm : Glm K A) (model : List (ModelElement K A)) (mesh : ModelMesh K)
    (hfull : mesh.vertices.length = 2 ^ 32) {f : ModelElement K A × Side}
    (hf : (modelSides model)[0]? = some f) :
    ¬DrawnModel cos sin model mesh (generateModelMesh glm model mesh) := by
  intro h
  have hside := h.side 0 f hf
  rw [take_drop_indicies glm model mesh (List.getElem?_eq_some_iff.mp hf).1, hfull] at hside
  have hfirst : 0 ∈ (sideIndices (2 ^ 32 + 4 * 0)).map BitVec.toNat := by decide
  have hstart := ((hside.own 0).mp hfirst).1
  omega

/-- As many vertices as there are indices of them. -/
def fullMesh : ModelMesh ℚ :=
  ⟨List.replicate (2 ^ 32) ⟨⟨0, 0, 0⟩, ⟨0, 0, 0⟩, ⟨0, 0, 0⟩, ⟨0, 0⟩⟩, []⟩

/-- SOURCE: renderer/renderer.cc:137-142 — an element behind `2 ^ 32` vertices: its indices are those of
the first vertices. -/
theorem full_mesh_overdrawn : ∃ e, loadElement quarterGlm (turnedFile ⟨16, 1, 16⟩ ⟨8, 0, 8⟩) = some e ∧
    UnitAxis e ∧ ProperBox e ∧ RescaledWithin quarterCos e ∧
    ¬DrawnModel quarterCos quarterSin [e] fullMesh (generateModelMesh quarterGlm [e] fullMesh) := by
  have hbox : ProperBox (turnedElement ⟨16, 1, 16⟩ ⟨8, 0, 8⟩) :=
    properBox_turnedElement _ (by norm_num) (by norm_num) (by norm_num)
  have hdrawn : (modelSides [turnedElement ⟨16, 1, 16⟩ ⟨8, 0, 8⟩])[0]? =
      some (turnedElement ⟨16, 1, 16⟩ ⟨8, 0, 8⟩, Side.down) := by
    rfl
  refine ⟨_, load_turnedFile _ _, unitAxis_turnedElement _ _, hbox, rescaledWithin_turnedElement _ _, ?_⟩
  apply not_drawnModel_of_full _ _ _ _ hdrawn
  exact List.length_replicate

end Mccpp.Analysis
