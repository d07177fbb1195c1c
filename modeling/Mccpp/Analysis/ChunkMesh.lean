import Mccpp.Interface.Surface

/-!
# The mesh of a chunk is a closed surface

`generate_vertices` draws the shown faces, one after another (`generateVertices_eq`), and each
face adds two triangles, whose edges are its four sides and both directions of its diagonal. A
face seen from the block on its other side has the same corners in the opposite order, and the
six faces of a block are closed, so the faces between blocks and air are closed.
-/

set_option autoImplicit false

namespace Mccpp.Analysis

open Mccpp.Library Mccpp.Model Mccpp.Interface

/-! ## Which faces are drawn -/

/-- One face is drawn. -/
def drawFace (m : Mesh) (f : Face) : Option Mesh := generateFace m f.1.toVec3 f.2

theorem foldlM_flatMap {α β γ : Type} (f : α → List β) (g : γ → β → Option γ) (l : List α)
    (c : γ) : (l.flatMap f).foldlM g c = l.foldlM (fun c a => (f a).foldlM g c) c := by
  induction l generalizing c with
  | nil => rfl
  | cons a l ih =>
    rw [List.flatMap_cons, List.foldlM_append, List.foldlM_cons]
    exact bind_congr ih

/-- INTERNAL: a block draws the faces it shows.
SOURCE: world/chunk.cc:164-174 -/
theorem generateBlock_eq (c : Chunk) (m : Mesh) (position : Vec3 ℤ) :
    c.generateBlock m position = (shownFacesAt c position).foldlM drawFace m := by
  unfold Chunk.generateBlock shownFacesAt
  split
  · rfl
  · rw [List.foldlM_map, List.foldlM_filter]
    rfl

/-- INTERNAL: **the three loops draw the shown faces**.
SOURCE: world/chunk.cc:148-179 -/
theorem generateVertices_eq (c : Chunk) :
    c.generateVertices = (shownFaces c).foldlM drawFace ⟨[], []⟩ := by
  unfold Chunk.generateVertices shownFaces blockPositions
  simp only [foldlM_flatMap, List.foldlM_map, generateBlock_eq]

/-! ## What a face adds -/

/-- A corner of a face, by the vector from the middle of the face, twice as long. -/
def faceCorner (f : Face) (p : Vec3 ℤ) : Vec3 ℚ :=
  f.1.toVec3 + f.2.toVec3.scale (1 / 2) + p.toVec3.scale (1 / 2)

/-- The two triangles of a face. -/
def faceTriangles (f : Face) : List Triangle :=
  [(faceCorner f (faceP0 f.2), faceCorner f (faceP1 f.2), faceCorner f (-faceP1 f.2)),
    (faceCorner f (faceP1 f.2), faceCorner f (-faceP0 f.2), faceCorner f (-faceP1 f.2))]

/-- The mesh draws exactly these faces, four vertices each, also when vertices follow. -/
structure Draws (m : Mesh) (faces : List Face) : Prop where
  vertices : m.vertices.length = 4 * faces.length
  triangles : ∀ more, triangles (m.vertices ++ more) m.indicies =
    some (faces.flatMap faceTriangles)

theorem triangles_append {vertices : List Vertex} {indicies : List (BitVec 32)}
    {ts : List Triangle} (h : triangles vertices indicies = some ts) (more : List (BitVec 32)) :
    triangles vertices (indicies ++ more) = (triangles vertices more).map (ts ++ ·) := by
  induction indicies using triangles.induct generalizing ts with
  | case1 =>
    cases h
    simp
  | case2 i => cases h
  | case3 i j => cases h
  | case4 i j k indicies ih =>
    simp only [triangles, Option.bind_eq_bind, Option.bind_eq_some_iff] at h
    obtain ⟨a, ha, b, hb, c, hc, rest, hrest, hts⟩ := h
    cases hts
    simp only [List.cons_append, triangles, ha, hb, hc, ih hrest, Option.bind_eq_bind,
      Option.bind_some]
    cases triangles vertices more with
    | none => rfl
    | some us => rfl

/-- INTERNAL: an index into the vertices of the face that is being drawn. -/
theorem cornerAt_append (before face more : List Vertex) {k : ℕ} {v : Vertex}
    (hk : face[k]? = some v) (hindex : before.length + k < 2 ^ 32) :
    cornerAt (before ++ face ++ more) (BitVec.ofNat 32 (before.length + k)) = some v.position := by
  have hbound : k < face.length := (List.getElem?_eq_some_iff.mp hk).1
  have hnat : (BitVec.ofNat 32 (before.length + k)).toNat = before.length + k := by
    rw [BitVec.toNat_ofNat, Nat.mod_eq_of_lt hindex]
  unfold cornerAt
  rw [hnat, List.append_assoc, List.getElem?_append_right (by omega), Nat.add_sub_cancel_left,
    List.getElem?_append_left hbound, hk]
  rfl

/-- The vertices of a face. -/
def faceVertices (f : Face) : List Vertex :=
  [faceVertex f.1.toVec3 f.2 (faceP0 f.2) (faceUv f.2).1,
    faceVertex f.1.toVec3 f.2 (faceP1 f.2) (faceUv f.2).2.1,
    faceVertex f.1.toVec3 f.2 (-faceP0 f.2) (faceUv f.2).2.2.1,
    faceVertex f.1.toVec3 f.2 (-faceP1 f.2) (faceUv f.2).2.2.2]

/-- INTERNAL: **one face** is drawn as its two triangles, as long as the index type lasts.
SOURCE: world/chunk.cc:89-146 -/
theorem draws_generateFace {m : Mesh} {faces : List Face} (h : Draws m faces) (f : Face)
    (haxis : isAxis f.2 = true) (hindex : 4 * (faces.length + 1) ≤ 2 ^ 32) :
    ∃ m', drawFace m f = some m' ∧ Draws m' (faces ++ [f]) := by
  have hcount := h.vertices
  refine ⟨_, by unfold drawFace generateFace; rw [if_pos haxis], ?_, fun more => ?_⟩
  · simp only [List.length_append, List.length_cons, List.length_nil]
    omega
  · have hold := h.triangles (faceVertices f ++ more)
    rw [← List.append_assoc] at hold
    have hcorner := fun k v hk =>
      cornerAt_append m.vertices (faceVertices f) more (k := k) (v := v) hk
    show triangles (m.vertices ++ faceVertices f ++ more) _ = _
    rw [triangles_append hold, List.flatMap_append]
    simp only [triangles]
    rw [hcorner 0 _ rfl (by omega), hcorner 1 _ rfl (by omega), hcorner 2 _ rfl (by omega),
      hcorner 3 _ rfl (by omega)]
    rfl

theorem draws_foldlM (more : List Face) {m : Mesh} {faces : List Face} (h : Draws m faces)
    (haxis : ∀ f ∈ more, isAxis f.2 = true)
    (hindex : 4 * (faces.length + more.length) ≤ 2 ^ 32) :
    ∃ m', more.foldlM drawFace m = some m' ∧ Draws m' (faces ++ more) := by
  induction more generalizing m faces with
  | nil => exact ⟨m, rfl, by rwa [List.append_nil]⟩
  | cons f more ih =>
    rw [List.length_cons] at hindex
    obtain ⟨m₁, hm₁, h₁⟩ := draws_generateFace h f (haxis f (by simp)) (by omega)
    obtain ⟨m₂, hm₂, h₂⟩ := ih h₁ (fun g hg => haxis g (by simp [hg])) (by
      rw [List.length_append, List.length_singleton]
      omega)
    refine ⟨m₂, ?_, by rwa [List.append_assoc] at h₂⟩
    rw [List.foldlM_cons, hm₁]
    exact hm₂

theorem length_flatMap_le {α β : Type} (l : List α) (f : α → List β) (n : ℕ)
    (h : ∀ a, (f a).length ≤ n) : (l.flatMap f).length ≤ l.length * n := by
  induction l with
  | nil => exact Nat.zero_le _
  | cons a l ih =>
    have ha := h a
    rw [List.flatMap_cons, List.length_append, List.length_cons, Nat.add_mul]
    omega

theorem length_shownFacesAt (c : Chunk) (position : Vec3 ℤ) :
    (shownFacesAt c position).length ≤ 6 := by
  unfold shownFacesAt
  split
  · exact Nat.zero_le _
  · rw [List.length_map]
    exact List.length_filter_le _ _

theorem isAxis_of_mem_shownFaces {c : Chunk} {f : Face} (h : f ∈ shownFaces c) :
    isAxis f.2 = true := by
  have haxes : ∀ n ∈ faceNormals, isAxis n = true := by decide
  unfold shownFaces at h
  obtain ⟨position, _, hf⟩ := List.mem_flatMap.mp h
  unfold shownFacesAt at hf
  split at hf
  · cases hf
  · obtain ⟨n, hn, rfl⟩ := List.mem_map.mp hf
    exact haxes n (List.mem_filter.mp hn).1

/-- INTERNAL: the faces are few. -/
theorem length_shownFaces_le (c : Chunk) : (shownFaces c).length ≤ 24576 := by
  have hpositions : blockPositions.length ≤ (List.range 16).length * ((List.range 16).length * 16) :=
    length_flatMap_le _ _ _ fun z => length_flatMap_le _ _ 16 fun x => by
      rw [List.length_map, List.length_range]
  rw [List.length_range] at hpositions
  have hcount : (shownFaces c).length ≤ blockPositions.length * 6 :=
    length_flatMap_le _ _ 6 (length_shownFacesAt c)
  omega

/-- INTERNAL: the mesh of a chunk draws the shown faces; there are at most `24576`, so the
indices do not wrap.
SOURCE: world/chunk.cc:148-179 -/
theorem draws_generateVertices (c : Chunk) :
    ∃ m, c.generateVertices = some m ∧ Draws m (shownFaces c) := by
  have hempty : Draws ⟨[], []⟩ [] := ⟨rfl, fun _ => rfl⟩
  have hcount := length_shownFaces_le c
  have hindex : 4 * (([] : List Face).length + (shownFaces c).length) ≤ 2 ^ 32 := by
    rw [List.length_nil]
    omega
  obtain ⟨m, hm, hdraws⟩ :=
    draws_foldlM (shownFaces c) hempty (fun f hf => isAxis_of_mem_shownFaces hf) hindex
  rw [List.nil_append] at hdraws
  rw [generateVertices_eq]
  exact ⟨m, hm, hdraws⟩

/-! ## Vectors -/

section Vectors

variable {α : Type}

@[simp] theorem Vec3.x_add [Add α] (a b : Vec3 α) : (a + b).x = a.x + b.x := rfl
@[simp] theorem Vec3.y_add [Add α] (a b : Vec3 α) : (a + b).y = a.y + b.y := rfl
@[simp] theorem Vec3.z_add [Add α] (a b : Vec3 α) : (a + b).z = a.z + b.z := rfl
@[simp] theorem Vec3.x_neg [Neg α] (a : Vec3 α) : (-a).x = -a.x := rfl
@[simp] theorem Vec3.y_neg [Neg α] (a : Vec3 α) : (-a).y = -a.y := rfl
@[simp] theorem Vec3.z_neg [Neg α] (a : Vec3 α) : (-a).z = -a.z := rfl

end Vectors

instance : Zero (Vec3 ℤ) := ⟨⟨0, 0, 0⟩⟩

theorem Vec3.zero_eq : (0 : Vec3 ℤ) = ⟨0, 0, 0⟩ := rfl

instance : AddCommGroup (Vec3 ℤ) where
  add_assoc a b c := by ext <;> simp [add_assoc]
  zero_add a := by ext <;> simp [Vec3.zero_eq]
  add_zero a := by ext <;> simp [Vec3.zero_eq]
  add_comm a b := by ext <;> simp [add_comm]
  neg_add_cancel a := by ext <;> simp [Vec3.zero_eq]
  nsmul := nsmulRec
  zsmul := zsmulRec

theorem ivec3Cross_neg (n a : Vec3 ℤ) : ivec3Cross (-n) a = -ivec3Cross n a := by
  ext <;> simp only [ivec3Cross, Vec3.x_neg, Vec3.y_neg, Vec3.z_neg] <;> ring

theorem faceP0_neg (n : Vec3 ℤ) : faceP0 (-n) = -faceP0 n := by
  unfold faceP0
  simp only [ivec3Cross_neg, neg_add]

/-- INTERNAL: seen from the other side, the second corner is the same. -/
theorem faceP1_neg (n : Vec3 ℤ) : faceP1 (-n) = faceP1 n := by
  unfold faceP1
  rw [faceP0_neg, ivec3Cross_neg]
  ext <;> simp only [ivec3Cross, Vec3.x_neg, Vec3.y_neg, Vec3.z_neg] <;> ring

/-! ## The sides of a face -/

/-- The point half of `v` away from the middle of the block at `position`. -/
def halfway (position v : Vec3 ℤ) : Vec3 ℚ := position.toVec3 + v.toVec3.scale (1 / 2)

theorem faceCorner_eq (position n p : Vec3 ℤ) :
    faceCorner (position, n) p = halfway position (n + p) := by
  ext <;> simp [faceCorner, halfway, Vec3.toVec3, Vec3.scale] <;> ring

/-- INTERNAL: the same corner seen from the block on the other side. -/
theorem halfway_add (position n p : Vec3 ℤ) :
    halfway (position + n) (-n + p) = halfway position (n + p) := by
  ext <;> simp [halfway, Vec3.toVec3, Vec3.scale] <;> ring

/-- The four sides of a face, in the direction it is wound. -/
def sides (f : Face) : List (Vec3 ℚ × Vec3 ℚ) :=
  [(faceCorner f (faceP0 f.2), faceCorner f (faceP1 f.2)),
    (faceCorner f (faceP1 f.2), faceCorner f (-faceP0 f.2)),
    (faceCorner f (-faceP0 f.2), faceCorner f (-faceP1 f.2)),
    (faceCorner f (-faceP1 f.2), faceCorner f (faceP0 f.2))]

/-- INTERNAL: the diagonal of a face is gone along once in each direction. -/
theorem flow_faceTriangles (f : Face) (a b : Vec3 ℚ) :
    flow ((faceTriangles f).flatMap Triangle.edges) a b = flow (sides f) a b := by
  have hdiagonal := flow_swap (faceCorner f (faceP1 f.2)) (faceCorner f (-faceP1 f.2)) a b
  simp only [faceTriangles, Triangle.edges, sides, List.flatMap_cons, List.flatMap_nil,
    List.cons_append, List.nil_append]
  simp only [flow_cons_cons, hdiagonal]
  ring

/-- INTERNAL: **a face seen from the block on its other side** has its sides reversed. -/
theorem flow_sides_back (position n : Vec3 ℤ) (a b : Vec3 ℚ) :
    flow (sides (position + n, -n)) a b = -flow (sides (position, n)) a b := by
  simp only [sides, faceCorner_eq, faceP0_neg, faceP1_neg, neg_neg, halfway_add, flow_cons_cons]
  rw [flow_swap (halfway position (n + faceP1 n)) (halfway position (n + -faceP0 n)),
    flow_swap (halfway position (n + faceP0 n)) (halfway position (n + faceP1 n)),
    flow_swap (halfway position (n + -faceP1 n)) (halfway position (n + faceP0 n)),
    flow_swap (halfway position (n + -faceP0 n)) (halfway position (n + -faceP1 n))]
  ring

/-- The directions of the faces of a block. -/
def directions : Finset (Vec3 ℤ) := faceNormals.toFinset

/-- INTERNAL: the corners of the six faces, in the order they are wound. -/
theorem corners_of_faces :
    faceNormals.map (fun n => [n + faceP0 n, n + faceP1 n, n + -faceP0 n, n + -faceP1 n]) =
      [[⟨1, -1, 1⟩, ⟨1, -1, -1⟩, ⟨1, 1, -1⟩, ⟨1, 1, 1⟩],
        [⟨-1, 1, -1⟩, ⟨-1, -1, -1⟩, ⟨-1, -1, 1⟩, ⟨-1, 1, 1⟩],
        [⟨1, 1, -1⟩, ⟨-1, 1, -1⟩, ⟨-1, 1, 1⟩, ⟨1, 1, 1⟩],
        [⟨-1, -1, 1⟩, ⟨-1, -1, -1⟩, ⟨1, -1, -1⟩, ⟨1, -1, 1⟩],
        [⟨-1, 1, 1⟩, ⟨-1, -1, 1⟩, ⟨1, -1, 1⟩, ⟨1, 1, 1⟩],
        [⟨1, -1, -1⟩, ⟨-1, -1, -1⟩, ⟨-1, 1, -1⟩, ⟨1, 1, -1⟩]] := by
  decide

/-- INTERNAL: **the six faces of one block are closed**. -/
theorem flow_cell (position : Vec3 ℤ) (a b : Vec3 ℚ) :
    ∑ n ∈ directions, flow (sides (position, n)) a b = 0 := by
  have hcorners := corners_of_faces
  have hnodup : faceNormals.Nodup := by decide
  have hback : ∀ v w, flow [(halfway position w, halfway position v)] a b =
      -flow [(halfway position v, halfway position w)] a b := fun v w => flow_swap _ _ a b
  have hsum := List.sum_toFinset (fun n => flow (sides (position, n)) a b) hnodup
  unfold directions
  rw [hsum]
  simp only [faceNormals, List.map_cons, List.map_nil, List.cons.injEq, and_true] at hcorners
  simp only [faceNormals, List.map_cons, List.map_nil, List.sum_cons, List.sum_nil, sides,
    faceCorner_eq, hcorners, flow_cons_cons]
  -- each of the twelve edges of the block is a side of two faces, once in each direction
  rw [hback ⟨-1, 1, 1⟩ ⟨-1, 1, -1⟩, hback ⟨1, 1, -1⟩ ⟨1, 1, 1⟩, hback ⟨-1, -1, -1⟩ ⟨-1, -1, 1⟩,
    hback ⟨1, -1, 1⟩ ⟨1, -1, -1⟩, hback ⟨-1, -1, 1⟩ ⟨-1, 1, 1⟩, hback ⟨1, -1, 1⟩ ⟨-1, -1, 1⟩,
    hback ⟨1, 1, 1⟩ ⟨1, -1, 1⟩, hback ⟨-1, 1, 1⟩ ⟨1, 1, 1⟩, hback ⟨-1, -1, -1⟩ ⟨1, -1, -1⟩,
    hback ⟨-1, 1, -1⟩ ⟨-1, -1, -1⟩, hback ⟨1, 1, -1⟩ ⟨-1, 1, -1⟩, hback ⟨1, -1, -1⟩ ⟨1, 1, -1⟩]
  ring

/-! ## The surface -/

/-- The solid blocks of a chunk. -/
def solidBlocks (c : Chunk) : Finset (Vec3 ℤ) :=
  blockPositions.toFinset.filter fun position =>
    (c.blockAt position.x position.y position.z).isAir = false

theorem mem_blockPositions (p : Vec3 ℤ) :
    p ∈ blockPositions ↔
      (0 ≤ p.x ∧ p.x < 16) ∧ (0 ≤ p.y ∧ p.y < 16) ∧ 0 ≤ p.z ∧ p.z < 16 := by
  simp only [blockPositions, List.mem_flatMap, List.mem_map, List.mem_range]
  constructor
  · rintro ⟨z, hz, x, hx, y, hy, rfl⟩
    dsimp only
    omega
  · rintro ⟨⟨hx, hx'⟩, ⟨hy, hy'⟩, hz, hz'⟩
    refine ⟨p.z.toNat, by omega, p.x.toNat, by omega, p.y.toNat, by omega, ?_⟩
    rw [Int.toNat_of_nonneg hx, Int.toNat_of_nonneg hy, Int.toNat_of_nonneg hz]

theorem nodup_blockPositions : blockPositions.Nodup := by
  have hrow : ∀ z x : ℕ, ((List.range 16).map fun (y : ℕ) => (⟨x, y, z⟩ : Vec3 ℤ)).Nodup := by
    intro z x
    refine List.nodup_range.map fun y y' h => ?_
    simpa using congrArg Vec3.y h
  have hplane : ∀ z : ℕ, ((List.range 16).flatMap fun (x : ℕ) =>
      (List.range 16).map fun (y : ℕ) => (⟨x, y, z⟩ : Vec3 ℤ)).Nodup := by
    intro z
    refine List.nodup_flatMap.mpr ⟨fun x _ => hrow z x, List.nodup_range.imp fun hne => ?_⟩
    intro p hp hp'
    obtain ⟨y, _, rfl⟩ := List.mem_map.mp hp
    obtain ⟨y', _, heq⟩ := List.mem_map.mp hp'
    have hx := congrArg Vec3.x heq
    dsimp only at hx
    omega
  refine List.nodup_flatMap.mpr ⟨fun z _ => hplane z, List.nodup_range.imp fun hne => ?_⟩
  intro p hp hp'
  obtain ⟨x, _, hp⟩ := List.mem_flatMap.mp hp
  obtain ⟨x', _, hp'⟩ := List.mem_flatMap.mp hp'
  obtain ⟨y, _, rfl⟩ := List.mem_map.mp hp
  obtain ⟨y', _, heq⟩ := List.mem_map.mp hp'
  have hz := congrArg Vec3.z heq
  dsimp only at hz
  omega

/-- INTERNAL: outside the chunk, and where there is air inside it, there is no solid block.
SOURCE: world/chunk.cc:7-13 -/
theorem mem_solidBlocks (c : Chunk) (p : Vec3 ℤ) :
    p ∈ solidBlocks c ↔ c.isAirAtPos p = false := by
  have hinside := mem_blockPositions p
  simp only [solidBlocks, Finset.mem_filter, List.mem_toFinset]
  unfold Chunk.isAirAtPos Chunk.isAirAt
  split
  · rename_i hout
    simp only [hinside]
    constructor
    · intro h
      omega
    · intro h
      cases h
  · rename_i hin
    simp only [hinside]
    constructor
    · intro h
      exact h.2
    · intro h
      exact ⟨by omega, h⟩

/-- INTERNAL: the flow of the faces that one block shows. -/
theorem flow_shownFacesAt (c : Chunk) (p : Vec3 ℤ) (a b : Vec3 ℚ) :
    flow ((shownFacesAt c p).flatMap fun f => (faceTriangles f).flatMap Triangle.edges) a b =
      if (c.blockAt p.x p.y p.z).isAir = false then
        ∑ n ∈ directions.filter (fun n => p + n ∉ solidBlocks c), flow (sides (p, n)) a b
      else 0 := by
  have hair : ∀ n, p + n ∉ solidBlocks c ↔ c.isAirAtPos (p + n) = true := by
    intro n
    rw [mem_solidBlocks, Bool.not_eq_false]
  have hnodup : faceNormals.Nodup := by decide
  unfold shownFacesAt
  cases (c.blockAt p.x p.y p.z).isAir with
  | true => simp [flow_nil]
  | false =>
    have hsum := List.sum_toFinset (fun n => flow (sides (p, n)) a b)
      (hnodup.filter fun n => c.isAirAtPos (p + n))
    rw [List.toFinset_filter] at hsum
    rw [if_neg Bool.false_ne_true, if_pos rfl, flow_flatMap, List.map_map]
    simp only [Function.comp_def, flow_faceTriangles, hair, directions]
    exact hsum.symm

/-- INTERNAL: the flow of the shown faces, as a sum over solid blocks and directions. -/
theorem flow_shownFaces (c : Chunk) (a b : Vec3 ℚ) :
    flow ((shownFaces c).flatMap fun f => (faceTriangles f).flatMap Triangle.edges) a b =
      ∑ p ∈ solidBlocks c, ∑ n ∈ directions.filter (fun n => p + n ∉ solidBlocks c),
        flow (sides (p, n)) a b := by
  have hsum := List.sum_toFinset (fun p =>
    flow ((shownFacesAt c p).flatMap fun f => (faceTriangles f).flatMap Triangle.edges) a b)
    nodup_blockPositions
  unfold shownFaces
  rw [List.flatMap_assoc, flow_flatMap, ← hsum]
  simp only [flow_shownFacesAt]
  rw [← Finset.sum_filter]
  rfl

/-- SOURCE: world/chunk.cc:79-179 — **the mesh of every chunk is a closed surface**: whatever
blocks are solid, the triangles that `generate_vertices` draws go along every directed edge as
often as along the same edge reversed. -/
theorem chunk_mesh_closed (c : Chunk) : ∃ m, c.generateVertices = some m ∧ ClosedSurface m := by
  obtain ⟨m, hm, hdraws⟩ := draws_generateVertices c
  have htriangles := hdraws.triangles []
  rw [List.append_nil] at htriangles
  have hclosed : Closed (((shownFaces c).flatMap faceTriangles).flatMap Triangle.edges) := by
    refine closed_of_flow fun a b => ?_
    rw [List.flatMap_assoc, flow_shownFaces]
    exact sum_boundary_eq_zero (solidBlocks c) directions (by decide) (by decide)
      (fun p n => flow (sides (p, n)) a b) (fun p n _ => flow_sides_back p n a b)
      (fun p => flow_cell p a b)
  exact ⟨m, hm, _, htriangles, hclosed⟩

end Mccpp.Analysis
