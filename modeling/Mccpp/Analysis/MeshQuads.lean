import Mathlib.Data.List.Induction
import Mathlib.Tactic.LinearCombination
import Mccpp.Interface.CubeFaces
import Mccpp.Library.MixedRadix
import Mccpp.Analysis.ChunkMesh

/-!
# The quads of the mesh of a chunk

The shown faces are the exposed ones, each of them once. Drawing them appends, for each, the same
four vertices and six indices whatever was drawn before (`drawn_eq`), so that the `k`-th quad is
that of the `k`-th face. What is left is one square: its corners are `p0`, `p1`, `-p0` and `-p1`
away from its middle, these are the ends of its diagonals, and one of them cuts it into the two
triangles.
-/

set_option autoImplicit false

namespace Mccpp.Analysis

open Mccpp.Library Mccpp.Model Mccpp.Interface

/-! ## Exposed faces -/

theorem isAirAtPos_eq_false {c : Chunk} {p : Vec3 ℤ} : c.isAirAtPos p = false ↔ Solid c p := by
  rw [← mem_solidBlocks]
  simp [solidBlocks, mem_blockPositions, Solid, Inside]

theorem isAirAtPos_eq_true {c : Chunk} {p : Vec3 ℤ} : c.isAirAtPos p = true ↔ ¬Solid c p := by
  rw [← isAirAtPos_eq_false, Bool.not_eq_false]

/-- INTERNAL: the faces of a block are in all directions.
SOURCE: world/chunk.cc:150-157 -/
theorem mem_faceNormals {d : Vec3 ℤ} : d ∈ faceNormals ↔ IsDirection d := by
  constructor
  · intro h
    have hall : ∀ n ∈ faceNormals, |n.x| + |n.y| + |n.z| = 1 := by decide
    exact hall d h
  · intro h
    obtain ⟨x, y, z⟩ := d
    unfold IsDirection at h
    simp only [faceNormals, List.mem_cons, List.not_mem_nil, or_false, Vec3.mk.injEq]
    dsimp only at h
    rcases abs_cases x with ⟨hx, _⟩ | ⟨hx, _⟩ <;> rcases abs_cases y with ⟨hy, _⟩ | ⟨hy, _⟩ <;>
      rcases abs_cases z with ⟨hz, _⟩ | ⟨hz, _⟩ <;> omega

/-- INTERNAL: **the shown faces are the exposed faces**.
SOURCE: world/chunk.cc:161-174 -/
theorem mem_shownFaces {c : Chunk} {f : Face} : f ∈ shownFaces c ↔ Exposed c f := by
  have hat : ∀ p, f ∈ shownFacesAt c p ↔ f.1 = p ∧ (c.blockAt p.x p.y p.z).isAir = false ∧
      f.2 ∈ faceNormals ∧ c.isAirAtPos (p + f.2) = true := by
    intro p
    unfold shownFacesAt
    cases (c.blockAt p.x p.y p.z).isAir with
    | true => simp
    | false =>
      obtain ⟨b, d⟩ := f
      simp only [Bool.false_eq_true, if_false, List.mem_map, List.mem_filter, Prod.mk.injEq]
      constructor
      · rintro ⟨n, ⟨hn, hair⟩, rfl, rfl⟩
        exact ⟨rfl, trivial, hn, hair⟩
      · rintro ⟨rfl, -, hd, hair⟩
        exact ⟨d, ⟨hd, hair⟩, rfl, rfl⟩
  simp only [shownFaces, List.mem_flatMap, hat, mem_blockPositions, mem_faceNormals,
    isAirAtPos_eq_true]
  constructor
  · rintro ⟨p, hinside, rfl, hsolid, hdirection, hopen⟩
    exact ⟨⟨hinside, hsolid⟩, hdirection, hopen⟩
  · rintro ⟨⟨hinside, hsolid⟩, hdirection, hopen⟩
    exact ⟨f.1, hinside, rfl, hsolid, hdirection, hopen⟩

/-- INTERNAL: no face is shown twice. -/
theorem nodup_shownFaces (c : Chunk) : (shownFaces c).Nodup := by
  have hnormals : faceNormals.Nodup := by decide
  have hplace : ∀ p, ∀ f ∈ shownFacesAt c p, f.1 = p := by
    intro p f hf
    unfold shownFacesAt at hf
    split at hf
    · cases hf
    · obtain ⟨n, -, rfl⟩ := List.mem_map.mp hf
      rfl
  refine List.nodup_flatMap.mpr ⟨?_, nodup_blockPositions.imp ?_⟩
  · intro p _
    unfold shownFacesAt
    split
    · exact List.nodup_nil
    · exact (hnormals.filter _).map fun n n' h => congrArg Prod.snd h
  · intro p q hne f hf hf'
    exact hne ((hplace p f hf).symm.trans (hplace q f hf'))

/-! ## What is appended -/

/-- The indices of the `k`-th face. -/
def faceIndicies (k : ℕ) : List (BitVec 32) :=
  [BitVec.ofNat 32 (4 * k + 0), BitVec.ofNat 32 (4 * k + 1), BitVec.ofNat 32 (4 * k + 3),
    BitVec.ofNat 32 (4 * k + 1), BitVec.ofNat 32 (4 * k + 2), BitVec.ofNat 32 (4 * k + 3)]

/-- INTERNAL: the indices of a face are those of its own vertices, unless they wrap. -/
theorem toNat_faceIndicies {k : ℕ} {i : BitVec 32} (hi : i ∈ faceIndicies k)
    (hk : 4 * k + 4 ≤ 2 ^ 32) : 4 * k ≤ i.toNat ∧ i.toNat < 4 * k + 4 := by
  simp only [faceIndicies, List.mem_cons, List.not_mem_nil, or_false] at hi
  rcases hi with rfl | rfl | rfl | rfl | rfl | rfl <;> rw [BitVec.toNat_ofNat] <;> omega

theorem length_flatMap_const {α β : Type} (l : List α) (f : α → List β) (n : ℕ)
    (h : ∀ a, (f a).length = n) : (l.flatMap f).length = n * l.length := by
  induction l with
  | nil => rfl
  | cons a l ih =>
    rw [List.flatMap_cons, List.length_append, ih, h, List.length_cons, Nat.mul_add, Nat.mul_one,
      Nat.add_comm]

theorem length_faceVertices (faces : List Face) :
    (faces.flatMap faceVertices).length = 4 * faces.length :=
  length_flatMap_const faces faceVertices 4 fun _ => rfl

theorem length_faceIndicies (ks : List ℕ) : (ks.flatMap faceIndicies).length = 6 * ks.length :=
  length_flatMap_const ks faceIndicies 6 fun _ => rfl

/-- INTERNAL: **the mesh that faces are drawn to**, by induction on the last face.
SOURCE: world/chunk.cc:105-145 -/
theorem drawn_eq (faces : List Face) (haxis : ∀ f ∈ faces, isAxis f.2 = true) :
    faces.foldlM drawFace ⟨[], []⟩ =
      some ⟨faces.flatMap faceVertices, (List.range faces.length).flatMap faceIndicies⟩ := by
  induction faces using List.reverseRecOn with
  | nil => rfl
  | append_singleton faces f ih =>
    have hbefore := ih fun g hg => haxis g (by simp [hg])
    have hlast : isAxis f.2 = true := haxis f (by simp)
    rw [List.foldlM_append, hbefore, Option.bind_eq_bind, Option.bind_some, List.foldlM_cons]
    simp only [drawFace, generateFace, hlast, if_true, List.foldlM_nil, length_faceVertices]
    rw [List.flatMap_append, List.length_append, List.length_singleton, List.range_succ,
      List.flatMap_append]
    rfl

/-- INTERNAL: the vertices of the `k`-th quad. -/
theorem quadVertices_eq {faces : List Face} {k : ℕ} {f : Face} (h : faces[k]? = some f)
    (indicies : List (BitVec 32)) :
    quadVertices ⟨faces.flatMap faceVertices, indicies⟩ k = faceVertices f := by
  have hk : k < faces.length := (List.getElem?_eq_some_iff.mp h).1
  have hblock := take_drop_flatMap (f := faceVertices) h
  have hsum : ((faces.take k).map fun g => (faceVertices g).length).sum = 4 * k := by
    rw [← List.length_flatMap, length_faceVertices, List.length_take_of_le hk.le]
  rw [hsum] at hblock
  exact hblock

/-- INTERNAL: the indices of the `k`-th quad. -/
theorem quadIndicies_eq {n k : ℕ} (hk : k < n) (vertices : List Vertex) :
    quadIndicies ⟨vertices, (List.range n).flatMap faceIndicies⟩ k = faceIndicies k := by
  have hblock := take_drop_flatMap (f := faceIndicies) (List.getElem?_range hk)
  have hsum : (((List.range n).take k).map fun j => (faceIndicies j).length).sum = 6 * k := by
    rw [← List.length_flatMap, length_faceIndicies, List.length_take_of_le (by simp [hk.le])]
  rw [hsum] at hblock
  exact hblock

/-! ## One square -/

section Square

variable (b d p q : Vec3 ℚ)

@[simp] theorem Vec3.x_sub : (p - q).x = p.x - q.x := rfl
@[simp] theorem Vec3.y_sub : (p - q).y = p.y - q.y := rfl
@[simp] theorem Vec3.z_sub : (p - q).z = p.z - q.z := rfl
@[simp] theorem Vec3.x_smul (r : ℚ) : (r • p).x = p.x * r := rfl
@[simp] theorem Vec3.y_smul (r : ℚ) : (r • p).y = p.y * r := rfl
@[simp] theorem Vec3.z_smul (r : ℚ) : (r • p).z = p.z * r := rfl

end Square

/-- The corners of the face in a direction, from the centre of the block, twice as long. -/
def squareCorners (d : Vec3 ℤ) : List (Vec3 ℤ) :=
  [d + faceP0 d, d + faceP1 d, d + -faceP0 d, d + -faceP1 d]

/-- INTERNAL: these are the corners of the cube that are in the direction.
SOURCE: world/chunk.cc:84-97 -/
theorem mem_squareCorners {d w : Vec3 ℤ} (hd : d ∈ faceNormals) :
    w ∈ squareCorners d ↔
      (|w.x| = 1 ∧ |w.y| = 1 ∧ |w.z| = 1) ∧ w.x * d.x + w.y * d.y + w.z * d.z = 1 := by
  have hsigns : ∀ d ∈ faceNormals, ∀ x ∈ [(1 : ℤ), -1], ∀ y ∈ [(1 : ℤ), -1], ∀ z ∈ [(1 : ℤ), -1],
      x * d.x + y * d.y + z * d.z = 1 → (⟨x, y, z⟩ : Vec3 ℤ) ∈ squareCorners d := by decide
  have hcorners : ∀ d ∈ faceNormals, ∀ w ∈ squareCorners d, (|w.x| = 1 ∧ |w.y| = 1 ∧ |w.z| = 1) ∧
      w.x * d.x + w.y * d.y + w.z * d.z = 1 := by decide
  have hsign : ∀ x : ℤ, |x| = 1 → x ∈ [(1 : ℤ), -1] := by
    intro x hx
    simpa using (abs_eq (by decide)).mp hx
  constructor
  · exact hcorners d hd w
  · rintro ⟨⟨hx, hy, hz⟩, hdot⟩
    exact hsigns d hd w.x (hsign _ hx) w.y (hsign _ hy) w.z (hsign _ hz) hdot

/-- INTERNAL: half a unit away is half an integer away. -/
theorem abs_eq_half {r : ℚ} : |r| = 1 / 2 ↔ ∃ w : ℤ, |w| = 1 ∧ r = w * (1 / 2) := by
  constructor
  · intro h
    rcases (abs_eq (by norm_num)).mp h with rfl | rfl
    · exact ⟨1, by decide, by norm_num⟩
    · exact ⟨-1, by decide, by norm_num⟩
  · rintro ⟨w, hw, rfl⟩
    have habs : |(w : ℚ)| = 1 := by exact_mod_cast hw
    rw [abs_mul, habs, one_mul, abs_of_pos (by norm_num)]

/-- INTERNAL: **the corners of the square are the corners of the face**. -/
theorem cubeFaceCorners_eq (b : Vec3 ℤ) {d : Vec3 ℤ} (hd : d ∈ faceNormals) :
    cubeFaceCorners b d = {p | ∃ w ∈ squareCorners d, p = halfway b w} := by
  ext p
  simp only [cubeFaceCorners, Set.mem_ofPred_eq, mem_squareCorners hd]
  constructor
  · rintro ⟨hdot, hx, hy, hz⟩
    obtain ⟨x, hx, hpx⟩ := abs_eq_half.mp hx
    obtain ⟨y, hy, hpy⟩ := abs_eq_half.mp hy
    obtain ⟨z, hz, hpz⟩ := abs_eq_half.mp hz
    refine ⟨⟨x, y, z⟩, ⟨⟨hx, hy, hz⟩, ?_⟩, ?_⟩
    · rw [dot, hpx, hpy, hpz] at hdot
      have hscaled : ((x * d.x + y * d.y + z * d.z : ℤ) : ℚ) = 1 := by
        push_cast
        simp only [Vec3.toVec3] at hdot
        linarith
      exact_mod_cast hscaled
    · simp only [Vec3.x_sub, Vec3.y_sub, Vec3.z_sub] at hpx hpy hpz
      ext
      · exact eq_add_of_sub_eq' hpx
      · exact eq_add_of_sub_eq' hpy
      · exact eq_add_of_sub_eq' hpz
  · rintro ⟨w, ⟨⟨hx, hy, hz⟩, hdot⟩, rfl⟩
    have hback : halfway b w - b.toVec3 = w.toVec3.scale (1 / 2) := by
      simp [halfway]
    rw [hback]
    refine ⟨?_, abs_eq_half.mpr ⟨w.x, hx, rfl⟩, abs_eq_half.mpr ⟨w.y, hy, rfl⟩,
      abs_eq_half.mpr ⟨w.z, hz, rfl⟩⟩
    have hcast : ((w.x * d.x + w.y * d.y + w.z * d.z : ℤ) : ℚ) = 1 := by exact_mod_cast hdot
    push_cast at hcast
    simp only [dot, Vec3.scale, Vec3.toVec3]
    linarith

/-- One coordinate of a direction and of the diagonals across it. -/
def IsCoordinate (d u v : ℤ) : Prop :=
  (d = 1 ∨ d = -1) ∧ u = 0 ∧ v = 0 ∨ d = 0 ∧ (u = 1 ∨ u = -1) ∧ v = -1

instance (d u v : ℤ) : Decidable (IsCoordinate d u v) :=
  inferInstanceAs (Decidable (_ ∨ _))

/-- A direction `d` with the diagonals `u` and `v` of its face, twice as long: coordinate by
coordinate, orthogonal, and enough to take any vector apart. -/
structure IsFrame (d u v : Vec3 ℤ) : Prop where
  coordinates : IsCoordinate d.x u.x v.x ∧ IsCoordinate d.y u.y v.y ∧ IsCoordinate d.z u.z v.z
  unit : d.x * d.x + d.y * d.y + d.z * d.z = 1
  across : d.x * u.x + d.y * u.y + d.z * u.z = 0 ∧ d.x * v.x + d.y * v.y + d.z * v.z = 0
  sum : |u.x + v.x| + |u.y + v.y| + |u.z + v.z| = 2
  difference : |u.x - v.x| + |u.y - v.y| + |u.z - v.z| = 2
  squares : 2 * (d.x * d.x) + u.x * u.x + v.x * v.x = 2 ∧
    2 * (d.y * d.y) + u.y * u.y + v.y * v.y = 2 ∧ 2 * (d.z * d.z) + u.z * u.z + v.z * v.z = 2
  products : 2 * (d.x * d.y) + u.x * u.y + v.x * v.y = 0 ∧
    2 * (d.x * d.z) + u.x * u.z + v.x * v.z = 0 ∧ 2 * (d.y * d.z) + u.y * u.z + v.y * v.z = 0

/-- INTERNAL: the corners `p0` and `p1` are the ends of the diagonals.
SOURCE: world/chunk.cc:84-90 -/
theorem isFrame_of_face {d : Vec3 ℤ} (hd : d ∈ faceNormals) :
    IsFrame d (faceP0 d) (faceP1 d) := by
  simp only [faceNormals, List.mem_cons, List.not_mem_nil, or_false] at hd
  rcases hd with rfl | rfl | rfl | rfl | rfl | rfl <;>
    exact ⟨by decide, by decide, by decide, by decide, by decide, by decide, by decide⟩

/-- INTERNAL: a coordinate of a point of the square. -/
theorem abs_coordinate_le {d u v : ℤ} (h : IsCoordinate d u v) {s t : ℚ} (hsum : |s + t| ≤ 1)
    (hdifference : |s - t| ≤ 1) : |d * (1 / 2) + u * (1 / 2) * s + v * (1 / 2) * t| ≤ 1 / 2 := by
  rw [abs_le] at hsum hdifference ⊢
  rcases h with ⟨rfl | rfl, rfl, rfl⟩ | ⟨rfl, rfl | rfl, rfl⟩ <;> push_cast <;>
    constructor <;> linarith

/-- INTERNAL: the inner product with a vector of size two, for a point of the cube. -/
theorem abs_inner_le {x y z : ℚ} {k l m : ℤ} (hx : |x| ≤ 1 / 2) (hy : |y| ≤ 1 / 2)
    (hz : |z| ≤ 1 / 2) (hsize : |k| + |l| + |m| = 2) : |x * k + y * l + z * m| ≤ 1 := by
  have hcast : |(k : ℚ)| + |(l : ℚ)| + |(m : ℚ)| = 2 := by exact_mod_cast hsize
  have hbound : ∀ (r : ℚ) (n : ℤ), |r| ≤ 1 / 2 → |r * n| ≤ 1 / 2 * |(n : ℚ)| := by
    intro r n hr
    rw [abs_mul]
    exact mul_le_mul_of_nonneg_right hr (abs_nonneg _)
  calc |x * k + y * l + z * m| ≤ |x * k| + |y * l| + |z * m| := abs_add_three _ _ _
    _ ≤ 1 / 2 * |(k : ℚ)| + 1 / 2 * |(l : ℚ)| + 1 / 2 * |(m : ℚ)| :=
        add_le_add (add_le_add (hbound x k hx) (hbound y l hy)) (hbound z m hz)
    _ = 1 := by linarith

/-- INTERNAL: from the centre of the block, the points of a face by their place along its
diagonals. -/
theorem square_iff {d u v : Vec3 ℤ} (h : IsFrame d u v) (q : Vec3 ℚ) :
    (dot q d.toVec3 = 1 / 2 ∧ |q.x| ≤ 1 / 2 ∧ |q.y| ≤ 1 / 2 ∧ |q.z| ≤ 1 / 2) ↔
      ∃ s t : ℚ, (|s + t| ≤ 1 ∧ |s - t| ≤ 1) ∧
        q = d.toVec3.scale (1 / 2) + s • u.toVec3.scale (1 / 2) +
          t • v.toVec3.scale (1 / 2) := by
  have hcast : ∀ {a b : ℤ}, a = b → (a : ℚ) = b := fun h => by rw [h]
  constructor
  · rintro ⟨hdot, hx, hy, hz⟩
    refine ⟨dot q u.toVec3, dot q v.toVec3, ⟨?_, ?_⟩, ?_⟩
    · have hsum := abs_inner_le hx hy hz h.sum
      push_cast at hsum
      convert hsum using 2
      simp only [dot, Vec3.toVec3]
      ring
    · have hdifference := abs_inner_le hx hy hz h.difference
      push_cast at hdifference
      convert hdifference using 2
      simp only [dot, Vec3.toVec3]
      ring
    · obtain ⟨hxx, hyy, hzz⟩ := h.squares
      obtain ⟨hxy, hxz, hyz⟩ := h.products
      replace hxx := hcast hxx
      replace hyy := hcast hyy
      replace hzz := hcast hzz
      replace hxy := hcast hxy
      replace hxz := hcast hxz
      replace hyz := hcast hyz
      push_cast at hxx hyy hzz hxy hxz hyz
      simp only [dot, Vec3.toVec3] at hdot
      ext <;> simp only [dot, Vec3.toVec3, Vec3.scale, Vec3.x_add, Vec3.y_add, Vec3.z_add,
        Vec3.x_smul, Vec3.y_smul, Vec3.z_smul]
      · linear_combination (d.x : ℚ) * hdot - q.x / 2 * hxx - q.y / 2 * hxy - q.z / 2 * hxz
      · linear_combination (d.y : ℚ) * hdot - q.x / 2 * hxy - q.y / 2 * hyy - q.z / 2 * hyz
      · linear_combination (d.z : ℚ) * hdot - q.x / 2 * hxz - q.y / 2 * hyz - q.z / 2 * hzz
  · rintro ⟨s, t, ⟨hsum, hdifference⟩, rfl⟩
    obtain ⟨hx, hy, hz⟩ := h.coordinates
    refine ⟨?_, abs_coordinate_le hx hsum hdifference, abs_coordinate_le hy hsum hdifference,
      abs_coordinate_le hz hsum hdifference⟩
    have hunit := hcast h.unit
    have hu := hcast h.across.1
    have hv := hcast h.across.2
    push_cast at hunit hu hv
    simp only [dot, Vec3.toVec3, Vec3.scale, Vec3.x_add, Vec3.y_add, Vec3.z_add, Vec3.x_smul,
      Vec3.y_smul, Vec3.z_smul]
    linear_combination 1 / 2 * hunit + s / 2 * hu + t / 2 * hv

/-- INTERNAL: the points of a face, by its diagonals. -/
theorem cubeFace_eq_diamond (b : Vec3 ℤ) {d : Vec3 ℤ} (hd : d ∈ faceNormals) :
    cubeFace b d = diamond ℚ (halfway b d) ((faceP0 d).toVec3.scale (1 / 2))
      ((faceP1 d).toVec3.scale (1 / 2)) := by
  ext p
  have hsquare := square_iff (isFrame_of_face hd) (p - b.toVec3)
  simp only [cubeFace, diamond, Set.mem_ofPred_eq, hsquare, abs_add_abs_le_iff]
  refine exists_congr fun s => exists_congr fun t => and_congr_right fun _ => ?_
  rw [sub_eq_iff_eq_add', halfway, add_assoc, add_assoc, add_assoc]

theorem halfway_corner (b d p : Vec3 ℤ) :
    halfway b (d + p) = halfway b d + p.toVec3.scale (1 / 2) := by
  ext <;> simp [halfway, Vec3.toVec3, Vec3.scale] <;> ring

theorem scale_toVec3_neg (p : Vec3 ℤ) (r : ℚ) : (-p).toVec3.scale r = -p.toVec3.scale r := by
  ext <;> simp [Vec3.toVec3, Vec3.scale]

/-- INTERNAL: **the two triangles of a face cover it**.
SOURCE: world/chunk.cc:105-111 -/
theorem hull_faceTriangles {f : Face} (hd : f.2 ∈ faceNormals) :
    ∃ t₁ t₂, faceTriangles f = [t₁, t₂] ∧ t₁.hull ∪ t₂.hull = cubeFace f.1 f.2 := by
  obtain ⟨b, d⟩ := f
  refine ⟨_, _, rfl, ?_⟩
  simp only [Triangle.hull, faceCorner_eq, halfway_corner, scale_toVec3_neg]
  simp only [← sub_eq_add_neg]
  rw [triangleHull_union, cubeFace_eq_diamond b hd]

/-- INTERNAL: half the cube around a point does not depend on the point. -/
theorem halfway_sub (b v w : Vec3 ℤ) :
    halfway b v - halfway b w = (v + -w).toVec3.scale (1 / 2) := by
  ext <;> simp [halfway, Vec3.toVec3, Vec3.scale] <;> ring

/-- INTERNAL: which way round three corners go, in integers. -/
theorem counterClockwise_halfway {b d u v w : Vec3 ℤ}
    (h : 0 < (ivec3Cross (v + -u) (w + -u)).x * d.x + (ivec3Cross (v + -u) (w + -u)).y * d.y +
      (ivec3Cross (v + -u) (w + -u)).z * d.z) :
    CounterClockwise d (halfway b u) (halfway b v) (halfway b w) := by
  have hcast : (0 : ℚ) < ((ivec3Cross (v + -u) (w + -u)).x * d.x +
      (ivec3Cross (v + -u) (w + -u)).y * d.y + (ivec3Cross (v + -u) (w + -u)).z * d.z : ℤ) := by
    exact_mod_cast h
  unfold CounterClockwise
  rw [halfway_sub, halfway_sub]
  simp only [ivec3Cross] at hcast
  push_cast at hcast
  simp only [dot, cross, Vec3.scale, Vec3.toVec3]
  linarith

/-- INTERNAL: **the corners are wound counter-clockwise**, and so are the triangles.
SOURCE: world/chunk.cc:89-111 -/
theorem wound_square (b : Vec3 ℤ) {d : Vec3 ℤ} (hd : d ∈ faceNormals) :
    ∀ c ∈ [(d + faceP0 d, d + faceP1 d, d + -faceP0 d),
        (d + faceP1 d, d + -faceP0 d, d + -faceP1 d),
        (d + -faceP0 d, d + -faceP1 d, d + faceP0 d),
        (d + -faceP1 d, d + faceP0 d, d + faceP1 d),
        (d + faceP0 d, d + faceP1 d, d + -faceP1 d)],
      CounterClockwise d (halfway b c.1) (halfway b c.2.1) (halfway b c.2.2) := by
  have hall : ∀ d ∈ faceNormals, ∀ c ∈ [(d + faceP0 d, d + faceP1 d, d + -faceP0 d),
        (d + faceP1 d, d + -faceP0 d, d + -faceP1 d),
        (d + -faceP0 d, d + -faceP1 d, d + faceP0 d),
        (d + -faceP1 d, d + faceP0 d, d + faceP1 d),
        (d + faceP0 d, d + faceP1 d, d + -faceP1 d)],
      0 < (ivec3Cross (c.2.1 + -c.1) (c.2.2 + -c.1)).x * d.x +
        (ivec3Cross (c.2.1 + -c.1) (c.2.2 + -c.1)).y * d.y +
        (ivec3Cross (c.2.1 + -c.1) (c.2.2 + -c.1)).z * d.z := by decide
  intro c hc
  exact counterClockwise_halfway (hall d hd c hc)

/-! ## The mesh -/

/-- INTERNAL: the indices of the `k`-th quad stand for its own vertices. -/
theorem triangles_faceIndicies {vertices : List Vertex} {k : ℕ} {f : Face}
    (h : (vertices.drop (4 * k)).take 4 = faceVertices f) (hk : 4 * k + 4 ≤ 2 ^ 32) :
    triangles vertices (faceIndicies k) = some (faceTriangles f) := by
  have hcorner : ∀ j v, (faceVertices f)[j]? = some v → j < 4 →
      cornerAt vertices (BitVec.ofNat 32 (4 * k + j)) = some v.position := by
    intro j v hv hj
    have hnat : (BitVec.ofNat 32 (4 * k + j)).toNat = 4 * k + j := by
      rw [BitVec.toNat_ofNat, Nat.mod_eq_of_lt (by omega)]
    rw [← h, List.getElem?_take_of_lt hj, List.getElem?_drop] at hv
    simp [cornerAt, hnat, hv]
  simp only [faceIndicies, triangles]
  rw [hcorner 0 _ rfl (by omega), hcorner 1 _ rfl (by omega), hcorner 2 _ rfl (by omega),
    hcorner 3 _ rfl (by omega)]
  rfl

/-- INTERNAL: **a quad that is drawn for a face shows it**. -/
theorem showsFace {m : Mesh} {k : ℕ} {f : Face} (hd : f.2 ∈ faceNormals)
    (hvertices : quadVertices m k = faceVertices f) (hindicies : quadIndicies m k = faceIndicies k)
    (hk : 4 * k + 4 ≤ 2 ^ 32) : ∃ v₀ v₁ v₂ v₃ t₁ t₂, ShowsFace m k f v₀ v₁ v₂ v₃ t₁ t₂ := by
  obtain ⟨b, d⟩ := f
  obtain ⟨t₁, t₂, htriangles, hcover⟩ := hull_faceTriangles (f := (b, d)) hd
  have hposition : ∀ p uv, (faceVertex b.toVec3 d p uv).position = halfway b (d + p) :=
    fun p _ => faceCorner_eq b d p
  have hwound := wound_square b hd
  simp only [List.forall_mem_cons, List.not_mem_nil, false_implies, implies_true,
    and_true] at hwound
  obtain ⟨h₀, h₁, h₂, h₃, h₄⟩ := hwound
  refine ⟨_, _, _, _, t₁, t₂, hvertices, ?_, ?_, ⟨?_, ?_, ?_, ?_⟩, ?_, ?_, hcover, ?_⟩
  · rw [cubeFaceCorners_eq b hd]
    ext p
    simp [hposition, squareCorners]
  · rw [hvertices]
    simp [faceVertices, faceVertex]
  · simpa only [hposition] using h₀
  · simpa only [hposition] using h₁
  · simpa only [hposition] using h₂
  · simpa only [hposition] using h₃
  · rw [hindicies]
    exact fun i hi => toNat_faceIndicies hi hk
  · rw [hindicies, ← htriangles]
    exact triangles_faceIndicies hvertices hk
  · simp only [faceTriangles, faceCorner_eq, List.cons.injEq, and_true] at htriangles
    obtain ⟨rfl, rfl⟩ := htriangles
    exact ⟨h₄, h₁⟩

/-- SOURCE: world/chunk.cc:79-179 — **the mesh of every chunk is its exposed faces**: it is one
quad for each face between a solid block and air or the outside of the chunk, and nothing else.
The four vertices of a quad are the corners of this face of the unit cube around the block, and go
round counter-clockwise when seen from outside; its six indices stand for these vertices, and form
two triangles that cover the face. So there are four vertices for every six indices, and each index
stands for a vertex. -/
theorem chunk_mesh_quads (c : Chunk) : ∃ m, c.generateVertices = some m ∧
    (∃ faces : List Face, faces.Nodup ∧ (∀ f, f ∈ faces ↔ Exposed c f) ∧ MadeOf m faces) ∧
    (∀ i ∈ m.indicies, i.toNat < m.vertices.length) ∧
    6 * m.vertices.length = 4 * m.indicies.length := by
  have hfew := length_shownFaces_le c
  have haxis : ∀ f ∈ shownFaces c, isAxis f.2 = true := fun f => isAxis_of_mem_shownFaces
  have hvertices := length_faceVertices (shownFaces c)
  have hindicies := length_faceIndicies (List.range (shownFaces c).length)
  rw [List.length_range] at hindicies
  refine ⟨_, (generateVertices_eq c).trans (drawn_eq (shownFaces c) haxis),
    ⟨shownFaces c, nodup_shownFaces c, fun f => mem_shownFaces, hvertices, hindicies, ?_⟩, ?_, ?_⟩
  · intro k f hf
    have hk : k < (shownFaces c).length := (List.getElem?_eq_some_iff.mp hf).1
    have hd : f.2 ∈ faceNormals :=
      mem_faceNormals.mpr (mem_shownFaces.mp (List.mem_of_getElem? hf)).2.1
    exact showsFace hd (quadVertices_eq hf _) (quadIndicies_eq hk _) (by omega)
  · intro i hi
    obtain ⟨k, hk, hi⟩ := List.mem_flatMap.mp hi
    rw [List.mem_range] at hk
    have hbound := toNat_faceIndicies hi (by omega)
    dsimp only
    omega
  · dsimp only
    omega

end Mccpp.Analysis
