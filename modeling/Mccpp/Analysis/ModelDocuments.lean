import Mathlib.Data.Rat.Floor
import Mccpp.Analysis.RotatedBox
import Mccpp.Interface.ModelDocument
import Mccpp.Library.Fallible
import Mccpp.Model.Assets

/-!
# What a model file can give

`load_data` takes the elements of a document apart member by member, and stops at the first that is not as it
has to be. What comes through is well formed, and every well-formed model comes through from a document of its
own. What is drawn of its elements is what the renderer is said to get from the members of such a file.
-/

set_option autoImplicit false

namespace Mccpp.Analysis

open Mccpp.Library Mccpp.Model Mccpp.Interface

variable {K A : Type}

/-! ## Objects -/

@[simp]
theorem find_record_nil (name : String) : (record [] : Json K).find name = none := rfl

/-- INTERNAL: one member after another. -/
@[simp]
theorem find_record_cons (name other : String) (value : Option (Json K))
    (rest : List (String × Option (Json K))) :
    (record ((other, value) :: rest)).find name =
      if name = other then value.or ((record rest).find name) else (record rest).find name := by
  cases value with
  | none => simp [record, Json.find]
  | some value =>
    simp only [record, Json.find, List.filterMap_cons, Option.map_some, List.lookup_cons]
    by_cases hname : name = other
    · simp [hname]
    · have htext : (name.toList == other.toList) = false :=
        beq_false_of_ne fun heq => hname (String.toList_inj.mp heq)
      rw [htext, if_neg hname]

@[simp]
theorem assertObject_record (members : List (String × Option (Json K))) :
    (record members).assertObject = some () := rfl

/-! ## Faces -/

@[simp]
theorem decodeVec3_vectorDocument (v : Vec3 K) : decodeVec3 (vectorDocument v) = some v := rfl

theorem decodeCullface_text {cullface : ModelCullface} (hgiven : cullface ≠ .always) :
    decodeCullface (((cullfaceText cullface).map fun text => Json.string text.toList).getD .null : Json K) =
      some cullface := by
  cases cullface with
  | always => exact absurd rfl hgiven
  | never => rfl
  | down | up | north | south | west | east => simp [cullfaceText, decodeCullface, Json.getString, cullfaceOf]

theorem cullfaceOf_ne (value : List Char) : cullfaceOf value ≠ .always := by
  unfold cullfaceOf
  split_ifs <;> exact nofun

section

variable [Field K] [LinearOrder K] [FloorRing K]

theorem isInt_of_getInt (json : Json K) {n : ℤ} (h : json.getInt = some n) : IsInt n := by
  cases json with
  | number value =>
    obtain rfl := Option.some.inj h
    refine ⟨?_, ?_⟩
    · exact le_trans (by norm_num) (Int.le_bmod (by norm_num))
    · exact lt_of_lt_of_le (Int.bmod_lt (by norm_num)) (by norm_num)
  | boolean value =>
    obtain rfl := Option.some.inj h
    cases value <;> exact ⟨by norm_num, by norm_num⟩
  | null | string _ | array _ | object _ => cases h

theorem isInt_of_decodeInt {default n : ℤ} (hdefault : IsInt default) {json : Json K}
    (h : decodeInt default json = some n) : IsInt n := by
  cases json with
  | null => exact Option.some.inj h ▸ hdefault
  | number value => exact isInt_of_getInt (K := K) (.number value) h
  | boolean value => exact isInt_of_getInt (K := K) (.boolean value) h
  | string _ | array _ | object _ => cases h

/-- INTERNAL: **a face that is read** is one that can be given.
SOURCE: resource/model.cc:23-58 -/
theorem givenFace_of_decodeFace {json : Json K} {face : FaceData K} (h : decodeFace json = some face) :
    GivenFace face := by
  simp only [decodeFace, bind, Option.bind_eq_some_iff] at h
  obtain ⟨_, _, uv, _, texture, _, cullface, hcullface, rotation, hrotation, tintindex, htintindex, heq⟩ := h
  obtain rfl := Option.some.inj heq
  refine ⟨?_, isInt_of_decodeInt ⟨by norm_num, by norm_num⟩ hrotation,
    isInt_of_decodeInt ⟨by norm_num, by norm_num⟩ htintindex⟩
  rintro rfl
  cases hjson : json.member "cullface" with
  | null => rw [hjson] at hcullface; cases hcullface
  | string value =>
    rw [hjson] at hcullface
    exact cullfaceOf_ne value (Option.some.inj hcullface)
  | number _ | boolean _ | array _ | object _ => rw [hjson] at hcullface; cases hcullface

variable [IsStrictOrderedRing K]

theorem decodeInt_intCast (default : ℤ) {n : ℤ} (hn : IsInt n) :
    decodeInt default (.number (n : K)) = some n := by
  have hwhole : (if 0 ≤ (n : K) then ⌊(n : K)⌋ else ⌈(n : K)⌉) = n := by
    split_ifs
    · exact Int.floor_intCast n
    · exact Int.ceil_intCast n
  obtain ⟨hlow, hhigh⟩ := hn
  have hkept : Int.bmod n (2 ^ 32) = n := by
    rw [Int.bmod_eq_of_le] <;> omega
  simp only [decodeInt, Json.getInt, hwhole, hkept]

/-- INTERNAL: **a face that can be given** is read from its document. -/
theorem decodeFace_faceDocument {face : FaceData K} (hgiven : GivenFace face) :
    decodeFace (faceDocument face) = some face := by
  have huv : decodeUv ((face.uv.map fun uv =>
      Json.array [.number uv.1, .number uv.2.1, .number uv.2.2.1, .number uv.2.2.2]).getD .null) =
      some face.uv := by
    cases face.uv <;> rfl
  simp only [decodeFace, Json.member, faceDocument, assertObject_record, find_record_cons, find_record_nil]
  simp [huv, decodeCullface_text hgiven.cullface, decodeInt_intCast, hgiven.rotation, hgiven.tintindex, Json.getString]


end

/-! ## Sides -/

section

variable [Field K] [LinearOrder K] [FloorRing K]

/-- What is read of a side. -/
def sideFile (faces : Json K) (side : Side) : Option (FaceData K) := (faces.find side.text).bind decodeFace

/-- What is left out of a file, or what is read of it. -/
def SideRead (faces : Json K) (side : Side) (face : FaceData K) : Prop :=
  faces.find side.text = none ∧ face = missingFace ∨
    faces.find side.text ≠ none ∧ sideFile faces side = some face

/-- INTERNAL: **one side**.
SOURCE: resource/model.cc:127-138 -/
theorem loadSide_eq_some_iff {elem r : ElementData K A} {faces : Json K} {side : Side}
    (hinit : elem.face side = .init) :
    loadSide elem faces side = some r ↔ ∃ face, SideRead faces side face ∧
      r = { elem with face := fun other => if other = side then face else elem.face other } := by
  unfold loadSide SideRead sideFile
  rw [hinit]
  cases hfind : faces.find side.text with
  | none => simp [missingFace, eq_comm (b := r)]
  | some json => simp [Option.bind_eq_some_iff, eq_comm (b := r)]

/-- INTERNAL: the sides one after another, none of them twice. -/
theorem loadSides_eq_some_iff {sides : List Side} (hsides : sides.Nodup) {elem r : ElementData K A}
    (hinit : ∀ side ∈ sides, elem.face side = .init) {faces : Json K} :
    sides.foldlM (fun elem side => loadSide elem faces side) elem = some r ↔
      ∃ face : Side → FaceData K, (∀ side ∈ sides, SideRead faces side (face side)) ∧
        r = { elem with face := fun side => if side ∈ sides then face side else elem.face side } := by
  induction sides generalizing elem with
  | nil =>
    have hany : Nonempty (Side → FaceData K) := ⟨fun _ => .init⟩
    simp [eq_comm (b := r)]
  | cons side sides ih =>
    rw [List.nodup_cons] at hsides
    obtain ⟨hhere, hinit⟩ := List.forall_mem_cons.mp hinit
    simp only [List.foldlM_cons, bind, Option.bind_eq_some_iff, loadSide_eq_some_iff hhere]
    constructor
    · rintro ⟨_, ⟨face, hread, rfl⟩, hrest⟩
      have hlater : ∀ other ∈ sides, (if other = side then face else elem.face other) = .init := by
        intro other hother
        rw [if_neg (ne_of_mem_of_not_mem hother hsides.1)]
        exact hinit other hother
      obtain ⟨others, hothers, rfl⟩ := (ih hsides.2 hlater).mp hrest
      refine ⟨fun other => if other = side then face else others other, ?_, ?_⟩
      · rintro other hother
        rcases List.mem_cons.mp hother with rfl | hother
        · simpa using hread
        · simpa [ne_of_mem_of_not_mem hother hsides.1] using hothers other hother
      · congr 1
        funext other
        by_cases hother : other = side
        · simp [hother, hsides.1]
        · simp [hother]
    · rintro ⟨face, hread, rfl⟩
      obtain ⟨hfirst, hread⟩ := List.forall_mem_cons.mp hread
      refine ⟨_, ⟨face side, hfirst, rfl⟩, ?_⟩
      have hlater : ∀ other ∈ sides, (if other = side then face side else elem.face other) = .init := by
        intro other hother
        rw [if_neg (ne_of_mem_of_not_mem hother hsides.1)]
        exact hinit other hother
      refine (ih hsides.2 hlater).mpr ⟨face, hread, ?_⟩
      congr 1
      funext other
      by_cases hother : other = side
      · simp [hother, hsides.1]
      · simp [hother]

theorem mem_sides (side : Side) : side ∈ [Side.down, .up, .north, .south, .west, .east] := by
  cases side <;> simp

/-- INTERNAL: **the faces of an element**, which has none before. -/
theorem loadFacesData_eq_some_iff {elem r : ElementData K A} (hinit : elem.face = fun _ => .init)
    {faces : Json K} :
    loadFacesData elem faces = some r ↔ faces.isObject = true ∧
      ∃ face : Side → FaceData K, (∀ side, SideRead faces side (face side)) ∧ r = { elem with face := face } := by
  have hsides : [Side.down, .up, .north, .south, .west, .east].Nodup := by decide
  have hfold := @loadSides_eq_some_iff K A _ _ _ _ hsides elem r (fun side _ => congrFun hinit side) faces
  simp only [mem_sides, if_true, forall_const] at hfold
  unfold loadFacesData Json.assertObject
  cases faces.isObject with
  | false => simp
  | true => simpa using hfold

/-! ## Elements -/

variable (glm : Glm K A)

/-- What `load_data` makes of a rotation, if there is one. -/
def TurnedAs (elem turned : ElementData K A) (rotation : Option (RotationFile K)) : Prop :=
  match rotation with
  | none => turned = elem
  | some rotation => ∃ axis, axisOf rotation.axis = some axis ∧ turned = { elem with
      rotationOrigin := rotation.origin
      rotationAxis := axis
      rotationAngle := glm.radians rotation.angle
      rotationRescale := rotation.rescale.getD elem.rotationRescale }

omit [FloorRing K] [LinearOrder K] in
/-- INTERNAL: **what a rotation says**.
SOURCE: resource/model.cc:98-117 -/
theorem turnedAs_of_loadRotationData {elem turned : ElementData K A} {rotation : Json K}
    (h : loadRotationData glm elem rotation = some turned) :
    ∃ file, TurnedAs glm elem turned (some file) := by
  simp only [loadRotationData, bind, Option.bind_eq_some_iff] at h
  obtain ⟨_, _, origin, _, text, _, axis, haxis, degrees, _, rescale, _, heq⟩ := h
  exact ⟨⟨origin, text, degrees, some rescale⟩, axis, haxis, (Option.some.inj heq).symm⟩

/-- What is read of an element, member by member. -/
structure ElementRead (turned : ElementData K A) (rotation : Option (RotationFile K))
    (faces : Option (Json K)) (face : Side → FaceData K) : Prop where
  start : inRange turned.boxFrom = true
  rotation : TurnedAs glm (initialElementData glm turned.boxFrom turned.boxTo) turned rotation
  faces : faces.elim (face = fun _ => .init) fun faces => ∀ side, SideRead faces side (face side)

/-- INTERNAL: **an element that is read**.
SOURCE: resource/model.cc:84-140 -/
theorem elementRead_of_loadElementData {json : Json K} {elem : ElementData K A}
    (h : loadElementData glm json = some elem) :
    ∃ turned rotation faces face shade, ElementRead glm turned rotation faces face ∧
      elem = { turned with shade := shade, face := face } := by
  simp only [loadElementData, bind, Option.bind_eq_some_iff] at h
  obtain ⟨_, _, boxFrom, _, _, hstart, boxTo, _, _, _, turned, hturned, shade, _, hfaces⟩ := h
  have hstart : inRange boxFrom = true := by
    by_contra hout
    simp [guard, hout] at hstart
  have hrotation : ∃ rotation, TurnedAs glm (initialElementData glm boxFrom boxTo) turned rotation := by
    cases hfind : json.find "rotation" with
    | none =>
      rw [hfind] at hturned
      exact ⟨none, (Option.some.inj hturned).symm⟩
    | some rotation =>
      rw [hfind] at hturned
      obtain ⟨file, hfile⟩ := turnedAs_of_loadRotationData glm hturned
      exact ⟨some file, hfile⟩
  obtain ⟨rotation, hrotation⟩ := hrotation
  have hkept : turned.boxFrom = boxFrom ∧ turned.boxTo = boxTo ∧ turned.face = fun _ => .init := by
    cases rotation with
    | none =>
      obtain rfl := hrotation
      exact ⟨rfl, rfl, rfl⟩
    | some rotation =>
      obtain ⟨axis, _, rfl⟩ := hrotation
      exact ⟨rfl, rfl, rfl⟩
  obtain ⟨rfl, rfl, hinit⟩ := hkept
  cases hfind : json.find "faces" with
  | none =>
    rw [hfind] at hfaces
    obtain rfl := Option.some.inj hfaces
    exact ⟨turned, rotation, none, turned.face, shade, ⟨hstart, hrotation, hinit⟩, rfl⟩
  | some faces =>
    rw [hfind] at hfaces
    have hshaded : ({ turned with shade := shade } : ElementData K A).face = fun _ => .init := hinit
    obtain ⟨_, face, hread, rfl⟩ := (loadFacesData_eq_some_iff hshaded).mp hfaces
    exact ⟨turned, rotation, some faces, face, shade, ⟨hstart, hrotation, hread⟩, rfl⟩

variable {turned : ElementData K A} {rotation : Option (RotationFile K)} {faces : Option (Json K)}
  {face : Side → FaceData K}

omit [Field K] [LinearOrder K] [FloorRing K] in
theorem givenFace_init : GivenFace (FaceData.init : FaceData K) :=
  ⟨nofun, ⟨by norm_num [FaceData.init], by norm_num [FaceData.init]⟩,
    ⟨by norm_num [FaceData.init], by norm_num [FaceData.init]⟩⟩

theorem SideRead.wellFormed {faces : Json K} {side : Side} {face : FaceData K} (h : SideRead faces side face) :
    face = missingFace ∨ GivenFace face := by
  rcases h with ⟨_, hmissing⟩ | ⟨_, hread⟩
  · exact Or.inl hmissing
  · obtain ⟨json, _, hdecoded⟩ := Option.bind_eq_some_iff.mp hread
    exact Or.inr (givenFace_of_decodeFace hdecoded)

/-- INTERNAL: an element that is read is well formed. -/
theorem ElementRead.wellFormed (h : ElementRead glm turned rotation faces face) (shade : Bool) :
    WellFormedElement glm { turned with shade := shade, face := face } := by
  refine ⟨h.start, ?_, ?_⟩
  · have hrotation := h.rotation
    cases rotation with
    | none =>
      left
      constructor <;> rw [hrotation] <;> rfl
    | some rotation =>
      obtain ⟨axis, haxis, hturned⟩ := hrotation
      right
      refine ⟨⟨rotation.axis, ?_⟩, ⟨rotation.angle, ?_⟩⟩
      · rw [haxis, hturned]
      · rw [hturned]
  · have hfaces := h.faces
    intro side
    cases faces with
    | none =>
      obtain rfl := hfaces
      exact Or.inr givenFace_init
    | some faces => exact (hfaces side).wellFormed

/-- INTERNAL: what is drawn of a side that is read. -/
theorem SideRead.drawn {faces : Json K} {side : Side} {face : FaceData K} (h : SideRead faces side face) :
    ((sideFile faces side).map FaceData.drawn).getD ⟨.always⟩ = face.drawn := by
  rcases h with ⟨hfind, rfl⟩ | ⟨_, hread⟩
  · rw [sideFile, hfind]
    rfl
  · rw [hread]
    rfl

omit [FloorRing K] [LinearOrder K] in
theorem TurnedAs.sameFace {elem : ElementData K A} (h : TurnedAs glm elem turned rotation) :
    turned.face = elem.face := by
  cases rotation with
  | none => exact congrArg ElementData.face h
  | some rotation =>
    obtain ⟨_, _, rfl⟩ := h
    rfl

omit [FloorRing K] [LinearOrder K] in
theorem loadRotation_eq (elem : ModelElement K A) (rotation : RotationFile K) :
    loadRotation glm elem rotation = (axisOf rotation.axis).map fun axis => { elem with
      rotationOrigin := rotation.origin
      rotationAxis := axis
      rotationAngle := glm.radians rotation.angle
      rotationRescale := rotation.rescale.getD elem.rotationRescale } := by
  unfold loadRotation axisOf
  split_ifs <;> rfl

omit [FloorRing K] [LinearOrder K] in
theorem TurnedAs.drawn {elem : ElementData K A} (h : TurnedAs glm elem turned rotation) :
    rotation.elim (some elem.drawn) (loadRotation glm elem.drawn) = some turned.drawn := by
  cases rotation with
  | none => exact congrArg (fun elem : ElementData K A => some elem.drawn) h.symm
  | some rotation =>
    obtain ⟨axis, haxis, rfl⟩ := h
    rw [Option.elim_some, loadRotation_eq, haxis]
    rfl

/-- INTERNAL: what is drawn of an element that is read, is what the part of `load_data` that is about drawing
makes of its members. -/
theorem ElementRead.drawn (h : ElementRead glm turned rotation faces face) (shade : Bool) :
    loadElement glm ⟨turned.boxFrom, turned.boxTo, rotation,
        faces.map fun faces side => (sideFile faces side).map FaceData.drawn⟩ =
      some ({ turned with shade := shade, face := face } : ElementData K A).drawn := by
  have hstart := h.start
  have hturned := TurnedAs.drawn glm h.rotation
  have hinit := TurnedAs.sameFace glm h.rotation
  have hfaces := h.faces
  have hguard : (guard (inRange turned.boxFrom = true) : Option Unit) = some () := by
    rw [hstart]
    rfl
  calc _ = (guard (inRange turned.boxFrom = true) : Option Unit).bind fun _ =>
        (guard (inRange turned.boxFrom = true) : Option Unit).bind fun _ =>
          (rotation.elim (some (initialElement glm turned.boxFrom turned.boxTo))
            (loadRotation glm (initialElement glm turned.boxFrom turned.boxTo))).bind fun elem =>
            some ((faces.map fun faces side => (sideFile faces side).map FaceData.drawn).elim elem
              (loadFaces elem)) := rfl
    _ = some ((faces.map fun faces side => (sideFile faces side).map FaceData.drawn).elim turned.drawn
          (loadFaces turned.drawn)) := by
        rw [hguard, Option.bind_some, Option.bind_some]
        exact congrArg (Option.bind · _) hturned
    _ = _ := by
      cases faces with
      | none =>
        obtain rfl := hfaces.trans hinit.symm
        rfl
      | some faces =>
        simp only [Option.map_some, Option.elim_some, loadFaces, (hfaces _).drawn]
        rfl

/-! ## Documents -/

variable [IsStrictOrderedRing K]

omit [FloorRing K] [IsStrictOrderedRing K] in
theorem find_facesDocument (face : Side → FaceData K) (side : Side) :
    (facesDocument face).find side.text =
      if face side = missingFace then none else some (faceDocument (face side)) := by
  cases side <;> simp [facesDocument, Side.text]

/-- INTERNAL: the faces are read from their document. -/
theorem sideRead_facesDocument {face : Side → FaceData K}
    (hfaces : ∀ side, face side = missingFace ∨ GivenFace (face side)) (side : Side) :
    SideRead (facesDocument face) side (face side) := by
  have hfind := find_facesDocument face side
  by_cases hmissing : face side = missingFace
  · rw [if_pos hmissing] at hfind
    exact Or.inl ⟨hfind, hmissing⟩
  · rw [if_neg hmissing] at hfind
    refine Or.inr ⟨by rw [hfind]; exact nofun, ?_⟩
    rw [sideFile, hfind]
    exact decodeFace_faceDocument ((hfaces side).resolve_left hmissing)

omit [LinearOrder K] [FloorRing K] [IsStrictOrderedRing K] in
/-- INTERNAL: a rotation is read from its document. -/
theorem loadRotationData_rotationDocument (elem : ElementData K A) {text : List Char}
    (haxis : axisOf text = some turned.rotationAxis) {degrees : K}
    (hangle : turned.rotationAngle = glm.radians degrees) :
    loadRotationData glm elem (rotationDocument turned text degrees) = some { elem with
      rotationOrigin := turned.rotationOrigin
      rotationAxis := turned.rotationAxis
      rotationAngle := turned.rotationAngle
      rotationRescale := turned.rotationRescale } := by
  simp [loadRotationData, rotationDocument, Json.member, Json.getString, Json.getFloat, Json.getBool, haxis, hangle]

/-- INTERNAL: an element is read from its document, where its rotation is. -/
theorem loadElementData_elementDocument {elem : ElementData K A} (h : WellFormedElement glm elem)
    (rotation : Option (Json K))
    (hrotation : (rotation.map (loadRotationData glm (initialElementData glm elem.boxFrom elem.boxTo))).getD
      (some (initialElementData glm elem.boxFrom elem.boxTo)) = some turned)
    (hinit : turned.face = fun _ => .init) :
    loadElementData glm (elementDocument elem rotation) =
      some { turned with shade := elem.shade, face := elem.face } := by
  have hguard : (guard (inRange elem.boxFrom = true) : Option Unit) = some () := by
    rw [h.start]
    rfl
  have hshaded : ({ turned with shade := elem.shade } : ElementData K A).face = fun _ => .init := hinit
  have hfaces : loadFacesData { turned with shade := elem.shade } (facesDocument elem.face) =
      some { turned with shade := elem.shade, face := elem.face } :=
    (loadFacesData_eq_some_iff hshaded).mpr ⟨rfl, elem.face, sideRead_facesDocument h.faces, rfl⟩
  simp only [loadElementData, elementDocument, Json.member, find_record_cons, find_record_nil]
  simp [hguard, hrotation, hfaces, Json.getBool]

/-- INTERNAL: **a well-formed element** is read from a document of it. -/
theorem exists_elementDocument {elem : ElementData K A} (h : WellFormedElement glm elem) :
    ∃ rotation, loadElementData glm (elementDocument elem rotation) = some elem := by
  rcases h.rotation with hplain | hturned
  · refine ⟨none, ?_⟩
    rw [loadElementData_elementDocument glm h none rfl rfl]
    congr 1
    calc _ = { elem with
            rotationOrigin := ⟨0, 0, 0⟩
            rotationAxis := ⟨1, 0, 0⟩
            rotationAngle := glm.zeroAngle
            rotationRescale := false } := rfl
      _ = elem := by rw [← hplain.origin, ← hplain.axis, ← hplain.angle, ← hplain.rescale]
  · obtain ⟨⟨text, haxis⟩, degrees, hangle⟩ := hturned
    refine ⟨some (rotationDocument elem text degrees), ?_⟩
    have hread := loadRotationData_rotationDocument glm
      (initialElementData glm elem.boxFrom elem.boxTo) haxis hangle
    have hwhole := loadElementData_elementDocument glm h (some _) hread rfl
    exact hwhole

/-! ## Models -/

omit [IsStrictOrderedRing K] in
/-- INTERNAL: **a document that is read**.
SOURCE: resource/model.cc:60-162 -/
theorem loadData_cases {json : Json K} {file : ModelFile (ElementData K A)} (h : loadData glm json = some file)
    {elements : List (ElementData K A)} (helements : file.elements = some elements) :
    ∃ items : List (Json K), items.mapM (loadElementData glm) = some elements := by
  simp only [loadData, bind, Option.bind_eq_some_iff] at h
  obtain ⟨_, _, parent, _, _, _, found, hfound, occlusion, _, heq⟩ := h
  obtain rfl := Option.some.inj heq
  obtain rfl : found = some elements := helements
  cases hfind : json.find "elements" with
  | none => rw [hfind] at hfound; cases hfound
  | some value =>
    rw [hfind, Option.map_some, Option.getD_some, Option.map_eq_some_iff] at hfound
    obtain ⟨_, hloaded, heq⟩ := hfound
    obtain rfl := Option.some.inj heq
    cases value with
    | array items => exact ⟨items, hloaded⟩
    | null | boolean _ | number _ | string _ | object _ => cases hloaded

omit [IsStrictOrderedRing K] in
theorem loadData_modelDocument {file : ModelFile (ElementData K A)} {items : List (Json K)}
    (hitems : ∀ elements, file.elements = some elements → items.mapM (loadElementData glm) = some elements) :
    loadData glm (modelDocument file items) = some file := by
  obtain ⟨parent, elements, occlusion⟩ := file
  have hparent : ((parent.map Json.string).map fun value : Json K => value.getString.map some).getD (some none) =
      some parent := by
    cases parent <;> rfl
  have hocclusion :
      ((occlusion.map Json.boolean).map fun value : Json K => value.getBool.map some).getD (some none) =
        some occlusion := by
    cases occlusion <;> rfl
  have helements : ((elements.map fun _ => Json.array items).map fun value : Json K =>
      (loadElements glm value).map some).getD (some none) = some elements := by
    cases elements with
    | none => rfl
    | some elements => exact congrArg (Option.map some) (hitems elements rfl)
  simp only [loadData, modelDocument, find_record_cons, find_record_nil, assertObject_record]
  simp [-Option.map_map, hparent, hocclusion, helements]

end

end Mccpp.Analysis
