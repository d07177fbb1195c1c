import Mccpp.Analysis.Finalize
import Mccpp.Interface.QualifiedName
import Mccpp.Library.Segments
import Mccpp.Model.Texture

/-!
# Identifiers

The constructor of `identifier` makes the object for the name that its text denotes
(`construct_eq_object`), whatever the text, as long as the default name space has no separator. Of such
an object the three views are the text and its two parts, and equal texts are equal names. So a model
is found under every text that denotes its name and under no other (`identifier_views_agree`).
-/

set_option autoImplicit false

namespace Mccpp.Analysis

open Mccpp.Library Mccpp.Model Mccpp.Interface

variable {ε : Type}

/-! ## The object for a name -/

section Objects

variable {q q' : QualifiedName} {defaultNameSpace : List Char} (hdefault : ':' ∉ defaultNameSpace)

@[simp] theorem full_object (q : QualifiedName) : q.object.full = q.text := rfl

@[simp] theorem nameSpace_object (q : QualifiedName) : q.object.nameSpace = q.nameSpace := by
  rw [IdentifierObject.nameSpace, full_object, QualifiedName.text]
  apply List.take_left'
  rfl

@[simp] theorem name_object (q : QualifiedName) : q.object.name = .ok q.name := by
  have hlength : ¬ q.text.length < q.nameSpace.length + 1 := by
    simp [QualifiedName.text]
  rw [IdentifierObject.name, full_object, if_neg (by exact hlength)]
  simp [QualifiedName.object, QualifiedName.text]

/-- INTERNAL: the first separator of the text is the one behind the name space. -/
theorem text_inj : q.text = q'.text ↔ q = q' := by
  rw [QualifiedName.text, QualifiedName.text,
    append_cons_inj q.separator_notMem q'.separator_notMem, QualifiedName.ext_iff]

/-- INTERNAL: `operator==` on objects for names.
SOURCE: src/identifier.hh:43-45. -/
theorem equals_object : q.object.equals q'.object = true ↔ q = q' := by
  rw [IdentifierObject.equals, decide_eq_true_iff, ← text_inj]
  rfl

theorem sameName_object : SameName q.object q'.object ↔ q = q' := by
  rw [QualifiedName.ext_iff]
  constructor
  · rintro ⟨hspace, hname⟩
    exact ⟨by simpa using hspace, by simpa using hname⟩
  · rintro ⟨hspace, hname⟩
    exact ⟨by simpa using hspace, by simpa using hname⟩

/-- INTERNAL: a text with a separator is its name space, the separator, and its name. -/
theorem denoted_of_mem {text : List Char} (hmem : ':' ∈ text) :
    (QualifiedName.denoted defaultNameSpace hdefault text).text = text := by
  obtain ⟨first, rest, rfl, hfirst⟩ := List.eq_append_cons_of_mem hmem
  have hpass : ∀ c ∈ first, decide (c ≠ ':') = true := by
    intro c hc
    exact decide_eq_true (ne_of_mem_of_not_mem hc hfirst)
  have hspace : (first ++ ':' :: rest).takeWhile (· ≠ ':') = first := by
    rw [List.takeWhile_append_of_pos hpass]
    simp
  have hname : (first ++ ':' :: rest).dropWhile (· ≠ ':') = ':' :: rest := by
    rw [List.dropWhile_append_of_pos hpass]
    simp
  rw [QualifiedName.denoted, if_pos hmem, QualifiedName.text]
  simp only [hspace, hname, List.tail_cons]

/-- INTERNAL: the text of a name denotes the name. -/
theorem denoted_text (q : QualifiedName) :
    QualifiedName.denoted defaultNameSpace hdefault q.text = q := by
  have hmem : ':' ∈ q.text := by simp [QualifiedName.text]
  exact text_inj.mp (denoted_of_mem hdefault hmem)

/-- INTERNAL: **the object of a text is the object for the name it denotes**.
SOURCE: src/identifier.hh:27-36. -/
theorem construct_eq_object (text : List Char) :
    IdentifierObject.construct text defaultNameSpace =
      (QualifiedName.denoted defaultNameSpace hdefault text).object := by
  by_cases hmem : ':' ∈ text
  · have htext := denoted_of_mem hdefault hmem
    have hfound := idxOf?_append_cons
      (QualifiedName.denoted defaultNameSpace hdefault text).separator_notMem
      (QualifiedName.denoted defaultNameSpace hdefault text).name
    rw [← QualifiedName.text, htext] at hfound
    rw [IdentifierObject.construct, hfound, QualifiedName.object, htext]
  · rw [IdentifierObject.construct, List.idxOf?_eq_none_iff.mpr hmem, QualifiedName.denoted, if_neg hmem]
    rfl

end Objects

/-! ## The object of a text -/

section Texts

theorem separator_notMem_minecraft : ':' ∉ "minecraft".toList := by decide

/-- The name that a text denotes where `minecraft` is the default name space. -/
abbrev nameOf (text : List Char) : QualifiedName :=
  .denoted "minecraft".toList separator_notMem_minecraft text

theorem ofText_eq_object (text : List Char) : IdentifierObject.ofText text = (nameOf text).object :=
  construct_eq_object separator_notMem_minecraft text

/-- INTERNAL: the key of a text is the identifier that `m_resources` is searched for. -/
theorem toKey_ofText (text : List Char) :
    (IdentifierObject.ofText text).toKey = Identifier.ofText text := by
  by_cases hmem : ':' ∈ text
  · obtain ⟨offset, hfound⟩ := Option.isSome_iff_exists.mp (List.isSome_idxOf?.mpr hmem)
    simp [IdentifierObject.ofText, IdentifierObject.construct, IdentifierObject.toKey, hfound,
      Identifier.ofText, Identifier.construct, hmem]
  · simp [IdentifierObject.ofText, IdentifierObject.construct, IdentifierObject.toKey,
      List.idxOf?_eq_none_iff.mpr hmem, Identifier.ofText, Identifier.construct, hmem]

theorem equals_iff_toKey (id other : IdentifierObject) :
    id.equals other = true ↔ id.toKey = other.toKey := by
  simp [IdentifierObject.equals, IdentifierObject.toKey]

/-- INTERNAL: the place that is stored is where the text has its first separator.
SOURCE: src/identifier.hh:27-36. -/
theorem mSeparatorOffset_toKey (text : List Char) :
    (IdentifierObject.ofText text).toKey.mSeparatorOffset =
      (IdentifierObject.ofText text).mSeparatorOffset := by
  have hplace : (nameOf text).text.idxOf ':' = (nameOf text).nameSpace.length := by
    rw [QualifiedName.text, List.idxOf_append_of_notMem (nameOf text).separator_notMem]
    simp
  rw [ofText_eq_object]
  exact hplace

/-- INTERNAL: so the stored place gives the views that a new search would give.
SOURCE: src/identifier.hh:39-41. -/
theorem views_toKey (text : List Char) :
    (IdentifierObject.ofText text).toKey.nameSpace = (IdentifierObject.ofText text).nameSpace ∧
      (IdentifierObject.ofText text).toKey.name = (IdentifierObject.ofText text).name := by
  constructor
  · rw [Identifier.nameSpace, mSeparatorOffset_toKey]
    rfl
  · rw [Identifier.name, mSeparatorOffset_toKey]
    rfl

end Texts

/-! ## Models by their identifiers -/

section Files

variable {m : ResourceManager ε} {file : ResourceManager.BlockFile ε}

/-- INTERNAL: the model of a file is stored under the identifier of the file.
SOURCE: src/resource/resource.cc:21-29. -/
theorem loadFile_of_model (hfile : IsModelFile file) :
    m.loadFile file = m.store (modelIdentifier file).toKey (.construct file.content) := by
  have hsuffix : ".json".toList.isSuffixOf file.name = true := List.isSuffixOf_iff_suffix.mpr hfile
  rw [ResourceManager.loadFile, if_pos hsuffix, modelIdentifier, toKey_ofText]

/-- INTERNAL: another file is skipped.
SOURCE: src/resource/resource.cc:21-24. -/
theorem loadFile_of_other (hfile : ¬ IsModelFile file) : m.loadFile file = m := by
  have hsuffix : ¬ ".json".toList.isSuffixOf file.name = true :=
    fun h => hfile (List.isSuffixOf_iff_suffix.mp h)
  rw [ResourceManager.loadFile, if_neg hsuffix]

/-- INTERNAL: the parts of the identifier are the name of the directory and that of the file. -/
theorem modelIdentifier_eq_object (hdirectory : ':' ∉ file.nameSpace) :
    modelIdentifier file = QualifiedName.object
      ⟨file.nameSpace, "block/".toList ++ file.name.take (file.name.length - 5), hdirectory⟩ := by
  rw [modelIdentifier, ofText_eq_object]
  exact congrArg QualifiedName.object (denoted_text separator_notMem_minecraft ⟨file.nameSpace, _, hdirectory⟩)

theorem loadFile_isSome (key : Identifier) :
    ((m.loadFile file).mResources key).isSome ↔
      (m.mResources key).isSome ∨ IsModelFile file ∧ (modelIdentifier file).toKey = key := by
  by_cases hfile : IsModelFile file
  · rw [loadFile_of_model hfile, ResourceManager.store]
    by_cases hkey : key = (modelIdentifier file).toKey
    · simp [hkey, hfile]
    · simp [hkey, Ne.symm hkey]
  · rw [loadFile_of_other hfile]
    simp [hfile]

theorem loadFiles_append (files : List (ResourceManager.BlockFile ε))
    (file : ResourceManager.BlockFile ε) :
    ResourceManager.loadFiles (files ++ [file]) = (ResourceManager.loadFiles files).loadFile file := by
  rw [ResourceManager.loadFiles, List.foldl_append]
  rfl

end Files

/-- INTERNAL: there is a model under an identifier if and only if a file of this identifier is loaded.
SOURCE: src/resource/resource.cc:14-33. -/
theorem loadFiles_isSome (files : List (ResourceManager.BlockFile ε)) (key : Identifier) :
    ((ResourceManager.loadFiles files).mResources key).isSome ↔
      ∃ file ∈ files, IsModelFile file ∧ (modelIdentifier file).toKey = key := by
  induction files using List.reverseRecOn with
  | nil => simp [ResourceManager.loadFiles, ResourceManager.init]
  | append_singleton files file ih =>
    rw [loadFiles_append, loadFile_isSome, ih]
    constructor
    · rintro (⟨other, hmem, hother⟩ | hfile)
      · exact ⟨other, by simp [hmem], hother⟩
      · exact ⟨file, by simp, hfile⟩
    · rintro ⟨other, hmem, hother⟩
      rcases List.mem_append.mp hmem with hearlier | hlast
      · exact Or.inl ⟨other, hearlier, hother⟩
      · obtain rfl := List.mem_singleton.mp hlast
        exact Or.inr hother

/-- INTERNAL: the model under an identifier is the one of its last file.
SOURCE: src/resource/resource.cc:14-33. -/
theorem loadFiles_last (front back : List (ResourceManager.BlockFile ε))
    {file : ResourceManager.BlockFile ε} (hfile : IsModelFile file)
    (hlast : ∀ later ∈ back, IsModelFile later → (modelIdentifier later).toKey ≠ (modelIdentifier file).toKey) :
    (ResourceManager.loadFiles (front ++ file :: back)).mResources (modelIdentifier file).toKey =
      some (.construct file.content) := by
  induction back using List.reverseRecOn with
  | nil =>
    rw [loadFiles_append, loadFile_of_model hfile, ResourceManager.store]
    simp
  | append_singleton back later ih =>
    have hbefore := ih fun other hmem => hlast other (by simp [hmem])
    rw [← List.cons_append, ← List.append_assoc, loadFiles_append]
    by_cases hmodel : IsModelFile later
    · have hkey := hlast later (by simp) hmodel
      rw [loadFile_of_model hmodel, ResourceManager.store]
      simp only [if_neg hkey.symm, hbefore]
    · rw [loadFile_of_other hmodel, hbefore]

/-- INTERNAL: a model is found under a text if and only if it is stored under its identifier.
SOURCE: src/resource/resource.hh:101-110. -/
theorem models_ofText (m : ResourceManager ε) (text : List Char) (key : Identifier) :
    m.models (IdentifierObject.ofText text).toKey = .resource key ↔
      (m.mResources key).isSome ∧ key = (IdentifierObject.ofText text).toKey := by
  have hname : (IdentifierObject.ofText text).toKey.empty = false := by
    rw [ofText_eq_object]
    simp [Identifier.empty, IdentifierObject.toKey, QualifiedName.object, QualifiedName.text]
  cases hmodel : m.mResources (IdentifierObject.ofText text).toKey with
  | none =>
    rw [models_of_none hmodel]
    constructor
    · intro h
      cases h
    · rintro ⟨hsome, rfl⟩
      simp [hmodel] at hsome
  | some o =>
    have hstored : (m.mResources (IdentifierObject.ofText text).toKey).isSome := by simp [hmodel]
    rw [models_of_some hname hstored, ModelHandle.resource.injEq]
    constructor
    · rintro rfl
      exact ⟨hstored, rfl⟩
    · rintro ⟨_, hkey⟩
      exact hkey.symm

/-- INTERNAL: the second loop keeps the identifiers that have a model.
SOURCE: src/resource/resource.cc:35-38. -/
theorem load_isSome {files : List (ResourceManager.BlockFile ε)} {fuel : ℕ} {keys : List Identifier}
    {after : ResourceManager ε}
    (hload : ResourceManager.finalizeAll fuel keys (ResourceManager.loadFiles files) = some after)
    (key : Identifier) :
    (after.mResources key).isSome = ((ResourceManager.loadFiles files).mResources key).isSome := by
  have hsentinel : (ResourceManager.loadFiles files).notFoundSentinel.finalized = true := by
    rw [(fresh_loadFiles files).sentinel]
    rfl
  exact (finalizeAll_sameEntries hsentinel hload).keys key

/-! ## The views -/

/-- INTERNAL: identifiers are equal if and only if their parts are.
SOURCE: src/identifier.hh:39-45. -/
theorem equals_ofText (s t : List Char) :
    (IdentifierObject.ofText s).equals (.ofText t) = true ↔ SameName (.ofText s) (.ofText t) := by
  rw [ofText_eq_object, ofText_eq_object, equals_object, sameName_object]

theorem toKey_modelIdentifier (file : ResourceManager.BlockFile ε) (text : List Char) :
    (modelIdentifier file).toKey = (IdentifierObject.ofText text).toKey ↔
      SameName (modelIdentifier file) (.ofText text) := by
  rw [← equals_iff_toKey, modelIdentifier, equals_ofText]

/-- SOURCE: src/identifier.hh:8-50, src/resource/resource.cc:14-39 — **the views of an identifier never
drift apart**. The text of an identifier is its name space, a separator and its name, with no separator
in the name space; it gives the same identifier again; and two identifiers are equal if and only if
name space and name are. So after `load()` the model of a file is found under exactly the texts that
have the name space and the name it was stored with, and it is the one of the last such file. -/
theorem identifier_views_agree :
    (∀ s, ∃ name, (IdentifierObject.ofText s).name = .ok name ∧
      (IdentifierObject.ofText s).full = (IdentifierObject.ofText s).nameSpace ++ ':' :: name ∧
      ':' ∉ (IdentifierObject.ofText s).nameSpace) ∧
    (∀ s, (IdentifierObject.ofText (IdentifierObject.ofText s).full).equals (.ofText s) = true) ∧
    (∀ s t, (IdentifierObject.ofText s).equals (.ofText t) = true ↔
      SameName (.ofText s) (.ofText t)) ∧
    (∀ (files : List (ResourceManager.BlockFile ε)) fuel keys after,
      ResourceManager.finalizeAll fuel keys (ResourceManager.loadFiles files) = some after →
      ∀ file ∈ files, IsModelFile file → ∀ text,
        (after.models (IdentifierObject.ofText text).toKey = .resource (modelIdentifier file).toKey ↔
          SameName (modelIdentifier file) (.ofText text))) ∧
    ∀ (front back : List (ResourceManager.BlockFile ε)) file, IsModelFile file →
      (∀ later ∈ back, IsModelFile later →
        ¬ SameName (modelIdentifier later) (modelIdentifier file)) →
      ∀ text, SameName (modelIdentifier file) (.ofText text) →
        (ResourceManager.loadFiles (front ++ file :: back)).mResources
          (IdentifierObject.ofText text).toKey = some (.construct file.content) := by
  refine ⟨fun s => ?_, fun s => ?_, equals_ofText, ?_, ?_⟩
  · refine ⟨(nameOf s).name, ?_⟩
    rw [ofText_eq_object, nameSpace_object]
    exact ⟨name_object _, rfl, (nameOf s).separator_notMem⟩
  · rw [ofText_eq_object s, full_object, ofText_eq_object, equals_object]
    exact denoted_text separator_notMem_minecraft (nameOf s)
  · intro files fuel keys after hload file hmem hfile text
    have hstored : (after.mResources (modelIdentifier file).toKey).isSome = true := by
      rw [load_isSome hload]
      exact (loadFiles_isSome files _).mpr ⟨file, hmem, hfile, rfl⟩
    rw [models_ofText, ← toKey_modelIdentifier]
    exact and_iff_right hstored
  · intro front back file hfile hlast text hsame
    rw [← (toKey_modelIdentifier file text).mpr hsame]
    apply loadFiles_last front back hfile
    intro later hmem hmodel hkey
    exact hlast later hmem hmodel ((toKey_modelIdentifier later _).mp hkey)

theorem identifier_views_agree_two :
    ∃ after, ResourceManager.finalizeAll 2 [blockA, blockB] (ResourceManager.loadFiles twoFiles) =
        some after ∧
      after.models (IdentifierObject.ofText "minecraft:block/a".toList).toKey = .resource blockA ∧
      after.models (IdentifierObject.ofText "block/a".toList).toKey = .resource blockA ∧
      after.models (IdentifierObject.ofText "other:block/a".toList).toKey ≠ .resource blockA := by
  have hloaded : (ResourceManager.finalizeAll 2 [blockA, blockB]
      (ResourceManager.loadFiles twoFiles)).isSome = true := by decide
  obtain ⟨after, hload⟩ := Option.isSome_iff_exists.mp hloaded
  have hfile : IsModelFile (twoFiles.head (by decide)) := ⟨"a".toList, by decide⟩
  have hfound := identifier_views_agree.2.2.2.1 twoFiles 2 [blockA, blockB] after hload _
    (List.head_mem _) hfile
  refine ⟨after, hload, ?_, ?_, ?_⟩
  · exact (hfound _).mpr ⟨by decide, by decide⟩
  · exact (hfound _).mpr ⟨by decide, by decide⟩
  · intro h
    have hsame := ((hfound _).mp h).nameSpace
    revert hsame
    decide

end Mccpp.Analysis
