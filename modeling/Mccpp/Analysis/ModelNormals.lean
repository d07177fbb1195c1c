import Mccpp.Analysis.RotatedBox

/-!
# Normals of the elements of a model

A normal goes through the same transform as a point, which also moves it by what the rotation does
to its own centre (`elementTransform_eq_add`). So the normals of an element are right exactly when
that centre is on the axis through `0`, or the rotation is by no angle.
-/

set_option autoImplicit false

namespace Mccpp.Analysis

open Mccpp.Model Mccpp.Interface

variable {K A : Type} [Field K] {glm : Glm K A} {cos sin : A → K} {e : ModelElement K A}

/-- How far a rotation about the rotation origin moves what it should only turn. -/
def moved (cos sin : A → K) (e : ModelElement K A) : Vec3 K :=
  rotOrigin e + -turn cos sin e (rotOrigin e)

/-- INTERNAL: **a direction is moved as a point is**.
SOURCE: renderer/renderer.cc:124-130 -/
theorem elementTransform_eq_add (hglm : GlmLaws glm cos sin) (hn : UnitAxis e) (p : Vec3 K) :
    elementTransform glm e p = turn cos sin e p + moved cos sin e := by
  have hturn := axisRotation_sub (c := cos e.rotationAngle) (s := sin e.rotationAngle)
    (n := e.rotationAxis) p (rotOrigin e)
  rw [elementTransform_eq_turn hglm hn, turn, hturn, moved, turn, turn]
  ext <;> simp <;> ring

/-- INTERNAL: nothing is moved when the rotation origin is on the axis through the centre.
SOURCE: renderer/renderer.cc:111-113 -/
theorem moved_eq_zero_iff [CharZero K] (hunit : cos e.rotationAngle ^ 2 + sin e.rotationAngle ^ 2 = 1)
    (hn : UnitAxis e) : moved cos sin e = ⟨0, 0, 0⟩ ↔ OriginOnAxis cos e := by
  have horigin : rotOrigin e = (fromCentre e).scale (1 / 8) := by
    ext <;> simp [rotOrigin, fromCentre] <;> ring
  have hkept : turn cos sin e (rotOrigin e) = rotOrigin e ↔
      turn cos sin e (fromCentre e) = fromCentre e := by
    rw [horigin, turn, axisRotation_scale]
    simp [Vec3.ext_iff, turn]
  rw [moved, add_neg_eq_zero_iff, hkept]
  exact rotation_eq_self_iff hunit hn _

/-! ## One side -/

/-- INTERNAL: a side is flat.
SOURCE: renderer/renderer.cc:131-218 -/
theorem exists_height (lo hi : Vec3 K) (side : Side) :
    ∃ height, ∀ corner ∈ sideQuad lo hi side, scalarProduct (outward side) corner.1 = height := by
  cases side with
  | down => exact ⟨-lo.y, by simp [sideQuad, outward, scalarProduct]⟩
  | up => exact ⟨hi.y, by simp [sideQuad, outward, scalarProduct]⟩
  | north => exact ⟨-lo.z, by simp [sideQuad, outward, scalarProduct]⟩
  | south => exact ⟨hi.z, by simp [sideQuad, outward, scalarProduct]⟩
  | east => exact ⟨hi.x, by simp [sideQuad, outward, scalarProduct]⟩
  | west => exact ⟨-lo.x, by simp [sideQuad, outward, scalarProduct]⟩

theorem sideNormal_eq (side : Side) : (sideNormal side : Vec3 K) = outward side := by
  cases side <;> rfl

theorem outward_unit (side : Side) : scalarProduct (outward side : Vec3 K) (outward side) = 1 := by
  cases side <;> simp [outward, scalarProduct]

/-- INTERNAL: a vertex of a side. -/
theorem exists_corner_of_mem (hglm : GlmLaws glm cos sin) (hn : UnitAxis e) {side : Side}
    {v : ModelVertex K} (hv : v ∈ sideVertices glm e side) :
    v.normal = outwardNormal cos sin (e, side) + moved cos sin e ∧
      ∃ corner ∈ sideQuad (elementBox glm e).1 (elementBox glm e).2 side,
        v.position = turn cos sin e corner.1 + moved cos sin e := by
  obtain ⟨corner, hcorner, rfl⟩ := List.mem_map.mp hv
  refine ⟨?_, corner, hcorner, elementTransform_eq_add hglm hn corner.1⟩
  show elementTransform glm e (sideNormal side) = _
  rw [elementTransform_eq_add hglm hn, sideNormal_eq]
  rfl

/-- INTERNAL: **a side is lit exactly when the rotation origin is on the axis through the centre**.
SOURCE: renderer/renderer.cc:131-218 -/
theorem litSide_iff [CharZero K] (hglm : GlmLaws glm cos sin)
    (hunit : cos e.rotationAngle ^ 2 + sin e.rotationAngle ^ 2 = 1) (hn : UnitAxis e)
    (side : Side) : LitSide cos sin (e, side) (sideVertices glm e side) ↔ OriginOnAxis cos e := by
  rw [← moved_eq_zero_iff hunit hn]
  constructor
  · intro h
    have hne : sideVertices glm e side ≠ [] := by
      intro hnil
      have hfour := h.four
      rw [hnil] at hfour
      cases hfour
    obtain ⟨v, hv⟩ := List.exists_mem_of_ne_nil _ hne
    have hnormal := (exists_corner_of_mem hglm hn hv).1
    rw [h.rotated v hv] at hnormal
    simpa [Vec3.ext_iff] using hnormal
  · intro hmoved
    have hnormal : ∀ v ∈ sideVertices glm e side, v.normal = outwardNormal cos sin (e, side) := by
      intro v hv
      rw [(exists_corner_of_mem hglm hn hv).1, hmoved]
      ext <;> simp
    refine ⟨length_sideVertices glm e side, hnormal, ?_, ?_⟩
    · intro v hv
      rw [hnormal v hv, outwardNormal, scalarProduct_rotation hunit hn, outward_unit]
    · intro v hv p hp q hq
      obtain ⟨-, cornerP, hcornerP, hpositionP⟩ := exists_corner_of_mem hglm hn hp
      obtain ⟨-, cornerQ, hcornerQ, hpositionQ⟩ := exists_corner_of_mem hglm hn hq
      obtain ⟨height, hheight⟩ := exists_height (elementBox glm e).1 (elementBox glm e).2 side
      have hedge : p.position + -q.position = turn cos sin e (cornerP.1 + -cornerQ.1) := by
        rw [hpositionP, hpositionQ, turn, turn, turn, axisRotation_sub]
        ext <;> simp
      have hflat := (hheight cornerP hcornerP).trans (hheight cornerQ hcornerQ).symm
      rw [hnormal v hv, hedge, outwardNormal, turn, scalarProduct_rotation hunit hn]
      simp only [scalarProduct, Vec3.x_add, Vec3.y_add, Vec3.z_add, Vec3.x_neg, Vec3.y_neg,
        Vec3.z_neg] at hflat ⊢
      linear_combination hflat

/-! ## Other origins -/

/-- The element with another rotation origin. -/
def withOrigin (e : ModelElement K A) (origin : Vec3 K) : ModelElement K A :=
  { e with rotationOrigin := origin }

/-- INTERNAL: all vertices of a side have one normal. -/
theorem normals_eq_iff (hglm : GlmLaws glm cos sin) (hn : UnitAxis e) (origin : Vec3 K)
    (side : Side) :
    (sideVertices glm (withOrigin e origin) side).map ModelVertex.normal =
        (sideVertices glm e side).map ModelVertex.normal ↔
      moved cos sin (withOrigin e origin) = moved cos sin e := by
  have hnormals : ∀ e : ModelElement K A, UnitAxis e →
      (sideVertices glm e side).map ModelVertex.normal =
        List.replicate 4 (outwardNormal cos sin (e, side) + moved cos sin e) := by
    intro e hn
    rw [List.eq_replicate_iff]
    refine ⟨by rw [List.length_map, length_sideVertices], ?_⟩
    intro normal hnormal
    obtain ⟨v, hv, rfl⟩ := List.mem_map.mp hnormal
    exact (exists_corner_of_mem hglm hn hv).1
  have hsame : outwardNormal cos sin (withOrigin e origin, side) = outwardNormal cos sin (e, side) :=
    rfl
  have hn' : UnitAxis (withOrigin e origin) := hn
  rw [hnormals e hn, hnormals (withOrigin e origin) hn', hsame, List.replicate_right_inj (by decide)]
  simp [Vec3.ext_iff]

/-- INTERNAL: an axis is not along two axes of coordinates. -/
theorem not_all_along {n : Vec3 K} : ¬∀ v : Vec3 K, v = n.scale (scalarProduct n v) := by
  intro h
  obtain ⟨hx, -, -⟩ := Vec3.ext_iff.mp (h ⟨1, 0, 0⟩)
  obtain ⟨hxy, hy, -⟩ := Vec3.ext_iff.mp (h ⟨0, 1, 0⟩)
  simp [scalarProduct] at hx hxy hy
  rcases hxy with hzero | hzero
  · simp [hzero] at hx
  · simp [hzero] at hy

/-- INTERNAL: **normals that are the same for every origin** are those of elements that are not
turned. -/
theorem normals_independent_iff [CharZero K] (hglm : GlmLaws glm cos sin)
    (hunit : cos e.rotationAngle ^ 2 + sin e.rotationAngle ^ 2 = 1) (hn : UnitAxis e)
    (side : Side) :
    (∀ origin, (sideVertices glm (withOrigin e origin) side).map ModelVertex.normal =
        (sideVertices glm e side).map ModelVertex.normal) ↔ cos e.rotationAngle = 1 := by
  simp only [normals_eq_iff hglm hn]
  have hzero : ∀ origin, moved cos sin (withOrigin e origin) = ⟨0, 0, 0⟩ ↔
      OriginOnAxis cos (withOrigin e origin) := by
    intro origin
    have hn' : UnitAxis (withOrigin e origin) := hn
    exact moved_eq_zero_iff hunit hn'
  constructor
  · intro h
    have hcentre : moved cos sin (withOrigin e ⟨8, 8, 8⟩) = ⟨0, 0, 0⟩ := by
      rw [hzero]
      right
      ext <;> simp [fromCentre, withOrigin, scalarProduct]
    by_contra hturned
    apply @not_all_along K _ e.rotationAxis
    intro v
    have hkept := (hzero (v + ⟨8, 8, 8⟩)).mp ((h _).trans ((h _).symm.trans hcentre))
    have hfrom : fromCentre (withOrigin e (v + ⟨8, 8, 8⟩)) = v := by
      ext <;> simp [fromCentre, withOrigin]
    rw [OriginOnAxis, hfrom] at hkept
    exact hkept.resolve_left hturned
  · intro hc origin
    have hhere : OriginOnAxis cos (withOrigin e origin) := Or.inl hc
    have hthere : OriginOnAxis cos e := Or.inl hc
    rw [(hzero origin).mpr hhere, (moved_eq_zero_iff hunit hn).mpr hthere]

/-! ## Models -/

/-- SOURCE: renderer/renderer.cc:104-221 — **when the normals of a model are right**. The vertices that
`generate_model_mesh` appends for elements that are rotated about unit vectors, rescaled or not, have
the outward normals of their sides, rotated with the element, of length one and across the quads, if
and only if each element that is seen is rotated by no angle or has its rotation origin on the axis
through the centre of the block. The normals of an element are the same for every rotation origin if
and only if it is rotated by no angle. -/
theorem model_lit_iff [CharZero K] (hglm : GlmLaws glm cos sin) (hunit : ∀ a, cos a ^ 2 + sin a ^ 2 = 1)
    (model : List (ModelElement K A)) (hmodel : ∀ e ∈ model, UnitAxis e) (mesh : ModelMesh K) :
    (∃ added, (generateModelMesh glm model mesh).vertices = mesh.vertices ++ added ∧
      (LitModel cos sin model added ↔ ∀ e ∈ model, drawnSides e ≠ [] → OriginOnAxis cos e)) ∧
    ∀ e ∈ model, ∀ side,
      (∀ origin, (sideVertices glm { e with rotationOrigin := origin } side).map ModelVertex.normal =
        (sideVertices glm e side).map ModelVertex.normal) ↔ cos e.rotationAngle = 1 := by
  constructor
  · refine ⟨_, generateModelMesh_vertices glm model mesh, ?_⟩
    have hside : ∀ f ∈ modelSides model,
        (LitSide cos sin f (sideVertices glm f.1 f.2) ↔ OriginOnAxis cos f.1) := by
      intro f hf
      obtain ⟨e, he, hf⟩ := List.mem_flatMap.mp hf
      obtain ⟨side, -, rfl⟩ := List.mem_map.mp hf
      exact litSide_iff hglm (hunit _) (hmodel e he) side
    rw [← forall_modelSides_iff, ← forall₂_congr hside]
    exact exists_quads_iff fun _ _ hquad => hquad.four
  · intro e he side
    exact normals_independent_iff hglm (hunit _) (hmodel e he) side

theorem unitAxis_turnedElement (boxTo origin : Vec3 ℚ) : UnitAxis (turnedElement boxTo origin) :=
  unit_of_axisAligned (rotated_turnedElement boxTo origin).axis

theorem model_lit_iff_plate : ∃ e, loadElement quarterGlm (turnedFile ⟨16, 1, 16⟩ ⟨8, 0, 8⟩) =
      some e ∧
    ∃ added, (generateModelMesh quarterGlm [e] ⟨[], []⟩).vertices = added ∧
      LitModel quarterCos quarterSin [e] added := by
  have he := unitAxis_turnedElement ⟨16, 1, 16⟩ ⟨8, 0, 8⟩
  have hon : OriginOnAxis quarterCos (turnedElement ⟨16, 1, 16⟩ ⟨8, 0, 8⟩) := by
    right
    ext <;> simp [fromCentre, turnedElement, scalarProduct]
  obtain ⟨⟨added, hadded, hlit⟩, -⟩ := model_lit_iff quarterGlm_laws quarter_unit
    [turnedElement ⟨16, 1, 16⟩ ⟨8, 0, 8⟩] (by simpa using he) ⟨[], []⟩
  refine ⟨_, load_turnedFile _ _, added, hadded, hlit.mpr ?_⟩
  intro e hmem _
  rwa [List.mem_singleton.mp hmem]

/-- SOURCE: renderer/renderer.cc:127-133 — the normal of the top of a block that is turned about its
corner: it has been moved with the vertices. -/
theorem corner_block_dark : ∃ e, loadElement quarterGlm (turnedFile ⟨16, 16, 16⟩ ⟨0, 0, 0⟩) =
      some e ∧ UnitAxis e ∧
    (∀ v ∈ sideVertices quarterGlm e .up, v.normal = ⟨0, 1, -2⟩) ∧
    outwardNormal quarterCos quarterSin (e, .up) = ⟨0, 1, 0⟩ ∧
    ∃ added, (generateModelMesh quarterGlm [e] ⟨[], []⟩).vertices = added ∧
      ¬LitModel quarterCos quarterSin [e] added := by
  have he := unitAxis_turnedElement ⟨16, 16, 16⟩ ⟨0, 0, 0⟩
  have hnormal : outwardNormal quarterCos quarterSin (turnedElement ⟨16, 16, 16⟩ ⟨0, 0, 0⟩, .up) =
      ⟨0, 1, 0⟩ := by
    ext <;> simp [outwardNormal, axisRotation, outward, turnedElement, quarterCos, quarterSin]
  have hmoved : moved quarterCos quarterSin (turnedElement ⟨16, 16, 16⟩ ⟨0, 0, 0⟩) = ⟨0, 0, -2⟩ := by
    ext <;> norm_num [moved, rotOrigin, turn, axisRotation, turnedElement, quarterCos, quarterSin]
  have htop : ∀ v ∈ sideVertices quarterGlm (turnedElement ⟨16, 16, 16⟩ ⟨0, 0, 0⟩) .up,
      v.normal = ⟨0, 1, -2⟩ := by
    intro v hv
    rw [(exists_corner_of_mem quarterGlm_laws he hv).1, hnormal, hmoved]
    ext <;> simp
  refine ⟨_, load_turnedFile _ _, he, htop, hnormal, _, generateModelMesh_vertices _ _ _, ?_⟩
  rw [List.nil_append]
  intro hlit
  have hall := (exists_quads_iff fun _ _ hquad => hquad.four).mp hlit
  have hdrawn : (turnedElement ⟨16, 16, 16⟩ ⟨0, 0, 0⟩, Side.up) ∈
      modelSides [turnedElement ⟨16, 16, 16⟩ ⟨0, 0, 0⟩] :=
    List.mem_flatMap.mpr ⟨_, List.mem_singleton_self _, List.mem_map_of_mem (by decide)⟩
  have hup := hall _ hdrawn
  obtain ⟨v, hv⟩ := List.exists_mem_of_length_pos (by rw [hup.four]; decide)
  have hwrong := (htop v hv).symm.trans ((hup.rotated v hv).trans hnormal)
  simp at hwrong

end Mccpp.Analysis
