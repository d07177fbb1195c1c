import Mccpp.Library.Fallible
import Mccpp.Model.NbtDump
import Mccpp.Analysis.NbtBounds

/-!
# Dumping what is parsed

The switch of `dump_nbt` has a case for every tag there is and each case casts to the type it is for,
so that the dump of a tree is printed to the end (`dumpTag_returns`, by induction on the nesting). The
empty document has no tree, and its root is dereferenced all the same.
-/

set_option autoImplicit false

namespace Mccpp.Analysis

open Mccpp.Library Mccpp.Model Mccpp.Model.PacketM Mccpp.Interface

/-- Where reading the document returns, dumping it reads the same and prints to the end. -/
def DumpsCompletely {σ : Type} (floatText : BitVec 32 → List Byte)
    (doubleText : BitVec 64 → List Byte) (s : σ) (body following : List Byte) : Prop :=
  ∀ file s' n left, (Nbt.nbt s body.length).run (body ++ following) =
      some ((.ok file, s', n), left) →
    ∃ text, (Nbt.dumpNbt floatText doubleText s body.length).run (body ++ following) =
      some ((.ok (.ok text), s', n), left)

section

variable {σ : Type} (floatText : BitVec 32 → List Byte) (doubleText : BitVec 64 → List Byte)

theorem depth_le_depthItems {tag : Tag} {tags : List Tag} (h : tag ∈ tags) :
    depth tag ≤ depthItems tags := by
  induction tags with
  | nil => cases h
  | cons head tags ih =>
    rw [depthItems]
    rcases List.mem_cons.mp h with rfl | h
    · exact le_max_left _ _
    · exact Nat.le_trans (ih h) (le_max_right _ _)

theorem depth_le_depthChildren {child : List Byte × Tag} {children : List (List Byte × Tag)}
    (h : child ∈ children) : depth child.2 ≤ depthChildren children := by
  induction children with
  | nil => cases h
  | cons head children ih =>
    rw [depthChildren]
    rcases List.mem_cons.mp h with rfl | h
    · exact le_max_left _ _
    · exact Nat.le_trans (ih h) (le_max_right _ _)

theorem depth_pos (tag : Tag) : 0 < depth tag := by
  cases tag <;> simp only [depth] <;> omega

/-- INTERNAL: **a tree is dumped to the end**, with a bound that is no less than its depth.
SOURCE: nbt.cc:201-234 -/
theorem dumpTag_returns (fuel : ℕ) (tag : Tag) (indentCount : ℕ) (h : depth tag ≤ fuel) :
    ∃ text, Nbt.dumpTag floatText doubleText fuel tag indentCount = .ok text := by
  induction fuel generalizing tag indentCount with
  | zero =>
    have hpos := depth_pos tag
    omega
  | succ fuel ih =>
    cases tag with
    | byte | short | int | long | float | double | string | intArray | longArray => exact ⟨_, rfl⟩
    | list tags =>
      rw [depth] at h
      obtain ⟨lines, hlines⟩ := mapM_returns (l := tags) (f := fun child => do
          let text ← Nbt.dumpTag floatText doubleText fuel child (indentCount + 1)
          pure (literalBytes (String.ofList (List.replicate ((indentCount + 1) * 2) ' ')) ++ text)) (by
        intro child hmem
        have hdepth := depth_le_depthItems hmem
        obtain ⟨text, htext⟩ := ih child (indentCount + 1) (by omega)
        exact ⟨_, bind_eq_ok_iff.mpr ⟨text, htext, rfl⟩⟩)
      exact ⟨_, bind_eq_ok_iff.mpr ⟨tags, rfl, bind_eq_ok_iff.mpr ⟨lines, hlines, rfl⟩⟩⟩
    | compound children =>
      rw [depth] at h
      obtain ⟨lines, hlines⟩ := mapM_returns (l := children) (f := fun child => do
          let text ← Nbt.dumpTag floatText doubleText fuel child.2 (indentCount + 1)
          pure (literalBytes (String.ofList (List.replicate ((indentCount + 1) * 2) ' ')) ++
            Nbt.quoted child.1 ++ literalBytes " " ++ text)) (by
        intro child hmem
        have hdepth := depth_le_depthChildren hmem
        obtain ⟨text, htext⟩ := ih child.2 (indentCount + 1) (by omega)
        exact ⟨_, bind_eq_ok_iff.mpr ⟨text, htext, rfl⟩⟩)
      exact ⟨_, bind_eq_ok_iff.mpr ⟨children, rfl, bind_eq_ok_iff.mpr ⟨lines, hlines, rfl⟩⟩⟩

/-- INTERNAL: dumping reads what the constructor reads.
SOURCE: nbt.cc:236-239 -/
theorem run_dumpNbt {s s' : σ} {m n : ℕ} {bs left : List Byte} {file : Option Tag}
    (h : (Nbt.nbt s m).run bs = some ((.ok file, s', n), left)) :
    (Nbt.dumpNbt floatText doubleText s m).run bs =
      some ((.ok (Nbt.dumpRoot floatText doubleText (m + 1) file), s', n), left) := by
  show ((Nbt.nbt >>= fun file =>
    pure (Nbt.dumpRoot floatText doubleText (m + 1) file)) s m).run bs = _
  rw [bind_apply, Pull.run_bind, h]
  rfl

/-- INTERNAL: what the constructor returns over a body, with anything behind it, is spelled by the
front of the body. -/
theorem document_of_run {s s' : σ} {n : ℕ} {body following left : List Byte} {file : Option Tag}
    (h : (Nbt.nbt s body.length).run (body ++ following) = some ((.ok file, s', n), left)) :
    ∃ used rest, body = used ++ rest ∧ Document used file := by
  obtain ⟨r, rest, hrun, -⟩ := metered_nbt.run s body
  have hlong := Pull.run_append _ _ following _ _ hrun
  rw [h] at hlong
  cases hlong
  obtain ⟨-, used, hbody, hspells⟩ := (sound_nbt s body _ rest hrun).1 file rfl
  exact ⟨used, rest, hbody, hspells⟩

/-- SOURCE: nbt.cc:189-239; nbt.hh:222-230 — **exactly when a document is dumped**. Whatever is read, the
dump is printed to the end, with no failed cast and without coming to `abort()`, unless the document
is the empty one, a `TAG_END` and no root. -/
theorem dump_completes_iff (s : σ) (body following : List Byte) :
    DumpsCompletely floatText doubleText s body following ↔
      body.head? ≠ some TagType.tagEnd.toByte := by
  constructor
  · intro hdumps hhead
    obtain ⟨rest, rfl⟩ : ∃ rest, body = TagType.tagEnd.toByte :: rest := by
      cases body with
      | nil => cases hhead
      | cons b rest =>
        cases hhead
        exact ⟨rest, rfl⟩
    have hrun := reads_nbt Document.empty s (rest.length + 1) (rest ++ following) (Nat.le_add_left _ _)
    obtain ⟨text, hdump⟩ := hdumps _ _ _ _ hrun
    cases hdump.symm.trans (run_dumpNbt floatText doubleText hrun)
  · intro hhead file s' n left hrun
    have hdump := run_dumpNbt floatText doubleText hrun
    obtain ⟨used, rest, hbody, hdocument⟩ := document_of_run hrun
    cases file with
    | none =>
      cases hdocument
      rw [hbody] at hhead
      exact absurd rfl hhead
    | some root =>
      have hsize := (size_root_le hdocument).2
      have hdepth := depth_le_size root
      have hlength : body.length = used.length + rest.length := by
        rw [hbody, List.length_append]
      obtain ⟨text, htext⟩ := dumpTag_returns floatText doubleText (body.length + 1) root 0 (by omega)
      refine ⟨text, ?_⟩
      rw [hdump, ← htext]
      rfl

end

/-- INTERNAL: the document that is a `TAG_END` is read, and its root is null. -/
theorem dump_of_empty_document :
    ¬∀ body following : List Byte, DumpsCompletely (fun _ => []) (fun _ => []) () body following := by
  intro h
  have hrun : (Nbt.nbt () 1).run [0] = some ((.ok none, (), 0), []) := rfl
  obtain ⟨text, hdump⟩ := h [0] [] none () 0 [] hrun
  have hcrash : (Nbt.dumpNbt (fun _ => []) (fun _ => []) () 1).run [0] =
      some ((.ok (.error .nullDereference), (), 0), []) := rfl
  rw [List.append_nil, List.length_singleton, hcrash] at hdump
  cases hdump

end Mccpp.Analysis
