import Mccpp.Interface.NbtGrammar
import Mccpp.Analysis.ReaderRules
import Mathlib.Data.List.Forall2

/-!
# Named binary tags are decoded exactly

Every spelling of a tree is read back as that tree, and nothing behind it is touched
(`reads_create`, by induction on the spelling, with one more level of recursion allowed than
there are bytes). The standard encoding of an encodable tree is one of its spellings
(`payload_encode`), so the two together are the round trip.
-/

set_option autoImplicit false

namespace Mccpp.Analysis

open Mccpp.Library Mccpp.Model Mccpp.Model.PacketM Mccpp.Interface

variable {σ : Type}

/-! ## Reading a spelling -/

theorem reads_readName (name : List Byte) (h : name.length < 2 ^ 16) :
    Reads (Nbt.readName : PacketM σ (List Byte)) (nameBytes name) name := by
  have hlength : (BitVec.ofNat 16 name.length).toNat = name.length := Nat.mod_eq_of_lt h
  have hread := reads_readIntN (σ := σ) 2 rfl (BitVec.ofNat 16 name.length)
  rw [hlength] at hread
  apply hread.bind
  rw [hlength]
  exact reads_readCharArray name

theorem reads_readI32 (length : BitVec 32) :
    Reads (readI32 : PacketM σ (BitVec 32)) (lengthBytes length) length :=
  reads_readIntN 4 rfl length

/-- INTERNAL: an array whose length is not positive is empty.
SOURCE: nbt.cc:169-187 -/
theorem reads_tagArray_nil (w : ℕ) (length : BitVec 32) (h : length.toInt ≤ 0) :
    Reads (Nbt.tagArray w : PacketM σ (List (BitVec w))) (lengthBytes length) [] := by
  have hnil : Reads (if length.toInt ≤ 0 then pure [] else times length.toNat (readIntN w) :
      PacketM σ (List (BitVec w))) [] [] := by
    rw [if_pos h]
    exact reads_pure []
  rw [← List.append_nil (lengthBytes length)]
  exact (reads_readI32 length).bind hnil

theorem reads_tagArray {w : ℕ} (k : ℕ) (hw : w = 8 * k) (vs : List (BitVec w))
    (h : vs.length < 2 ^ 31) :
    Reads (Nbt.tagArray w : PacketM σ (List (BitVec w)))
      (lengthBytes (BitVec.ofNat 32 vs.length) ++ vs.flatMap fun v => bigEndian k v.toNat) vs := by
  obtain ⟨hnat, hint⟩ := toInt_ofNat_length h
  apply (reads_readI32 (BitVec.ofNat 32 vs.length)).bind
  rw [hint]
  split
  · rename_i hle
    have hnil : vs = [] := List.length_eq_zero_iff.mp (by omega)
    subst hnil
    exact reads_pure []
  · rw [hnat, List.flatMap_def]
    apply Reads.times
    rw [List.forall₂_map_left_iff, List.forall₂_same]
    intro v _
    exact reads_readIntN k hw v

theorem payload_ne_end {type : TagType} {bytes : List Byte} {tag : Tag}
    (h : Payload type bytes tag) : type ≠ .tagEnd := by
  cases h with
  | empty _ _ _ h => cases h <;> simp
  | _ => simp

/-- INTERNAL: an empty list or array is read as such, whatever item type it names.
SOURCE: nbt.cc:138-147, 169-187 -/
theorem reads_emptyContainer {type : TagType} {bytes : List Byte} {tag : Tag}
    (h : EmptyContainer type bytes tag) (fuel : ℕ) :
    Reads (Nbt.create (fuel + 1) (some type) : PacketM σ Tag) bytes tag := by
  cases h with
  | list item length h =>
    rw [← List.append_nil (item :: lengthBytes length)]
    apply (reads_readByte item).bind
    apply (reads_readI32 length).bind
    rw [if_pos h]
    exact reads_pure _
  | intArray length h => exact (reads_tagArray_nil 32 length h).map _
  | longArray length h => exact (reads_tagArray_nil 64 length h).map _

mutual

/-- INTERNAL: **a spelling of a tag is read as that tag**, by `tag::create` with more levels
of recursion than there are bytes.
SOURCE: nbt.cc:26-43, 105-187 -/
theorem reads_create {type : TagType} {bytes : List Byte} {tag : Tag} :
    Payload type bytes tag → ∀ fuel, bytes.length < fuel + 1 →
      Reads (Nbt.create (fuel + 1) (some type) : PacketM σ Tag) bytes tag
  | .byte v, _, _ => (reads_readIntN 1 rfl v).map _
  | .short v, _, _ => (reads_readIntN 2 rfl v).map _
  | .int v, _, _ => (reads_readIntN 4 rfl v).map _
  | .long v, _, _ => (reads_readIntN 8 rfl v).map _
  | .float v, _, _ => (reads_readFloatN 4 rfl v).map _
  | .double v, _, _ => (reads_readFloatN 8 rfl v).map _
  | .string s h, _, _ => (reads_readName s h).map _
  | .empty _ _ _ h, fuel, _ => reads_emptyContainer h fuel
  | .list item length h bytes tags items, fuel, hfuel => by
    simp only [List.cons_append, List.length_cons, List.length_append] at hfuel
    apply (reads_readByte item.toByte).bind
    apply (reads_readI32 length).bind
    rw [if_neg (by omega), TagType.ofByte_toByte]
    exact (reads_items items fuel (by omega)).map _
  | .compound entries children h, fuel, hfuel => by
    simp only [List.length_append, List.length_cons, List.length_nil] at hfuel
    exact (reads_entries h fuel (fuel + 1) (by omega) (by omega)).map _
  | .intArray vs h, _, _ => (reads_tagArray 4 rfl vs h).map _
  | .longArray vs h, _, _ => (reads_tagArray 8 rfl vs h).map _

theorem reads_items {item : TagType} {count : ℕ} {bytes : List Byte} {tags : List Tag} :
    Items item count bytes tags → ∀ fuel, bytes.length < fuel →
      Reads (times count (Nbt.create fuel (some item)) : PacketM σ (List Tag)) bytes tags
  | .nil item, _, _ => reads_pure []
  | .cons item count bytes rest tag tags head tail, fuel, hfuel => by
    rw [List.length_append] at hfuel
    obtain ⟨fuel, rfl⟩ := Nat.exists_eq_succ_of_ne_zero (Nat.ne_of_gt (by omega : 0 < fuel))
    apply (reads_create head fuel (by omega)).bind
    exact (reads_items tail (fuel + 1) (by omega)).map _

theorem reads_entries {bytes : List Byte} {children : List (List Byte × Tag)} :
    Entries bytes children → ∀ fuel rounds, bytes.length < fuel + 1 → bytes.length < rounds →
      Reads (Nbt.compoundLoop (Nbt.create fuel) rounds : PacketM σ _)
        (bytes ++ [TagType.tagEnd.toByte]) children
  | .nil, fuel, rounds, _, hrounds => by
    obtain ⟨rounds, rfl⟩ := Nat.exists_eq_succ_of_ne_zero (Nat.ne_of_gt hrounds)
    exact (reads_readByte TagType.tagEnd.toByte).bind (reads_pure [])
  | .cons type name bytes rest tag children h head tail, fuel, rounds, hfuel, hrounds => by
    simp only [List.cons_append, List.length_cons, List.length_append] at hfuel hrounds
    obtain ⟨rounds, rfl⟩ := Nat.exists_eq_succ_of_ne_zero (Nat.ne_of_gt (by omega : 0 < rounds))
    obtain ⟨fuel, rfl⟩ := Nat.exists_eq_succ_of_ne_zero (Nat.ne_of_gt (by omega : 0 < fuel))
    rw [List.cons_append, List.cons_append, List.cons_append, List.append_assoc,
      List.append_assoc]
    apply (reads_readByte type.toByte).bind
    rw [TagType.ofByte_toByte, if_neg (by simpa using payload_ne_end head)]
    apply (reads_readName name h).bind
    apply (reads_create head fuel (by omega)).bind
    exact (reads_entries tail (fuel + 1) rounds (by omega) (by omega)).map _

end

/-- INTERNAL: a document is read as its root, whose name is dropped.
SOURCE: nbt.cc:189-199 -/
theorem reads_nbt {bytes : List Byte} {root : Option Tag} (h : Document bytes root) :
    Reads (Nbt.nbt : PacketM σ (Option Tag)) bytes root := by
  cases h with
  | empty => exact (reads_readByte TagType.tagEnd.toByte).bind (reads_pure none)
  | root type name bytes tag hname payload =>
    rw [List.cons_append]
    apply (reads_readByte type.toByte).bind
    rw [TagType.ofByte_toByte, if_neg (by simpa using payload_ne_end payload)]
    apply (reads_readName name hname).bind
    apply Reads.remaining_bind
    intro n hn
    exact (reads_create payload n (by omega)).map some

/-! ## The standard encoding is a spelling -/

mutual

/-- INTERNAL: the standard encoding of an encodable tree spells it. -/
theorem payload_encode {tag : Tag} : Encodable tag → Payload tag.type (encode tag) tag
  | .byte v => by rw [encode]; exact .byte v
  | .short v => by rw [encode]; exact .short v
  | .int v => by rw [encode]; exact .int v
  | .long v => by rw [encode]; exact .long v
  | .float v => by rw [encode]; exact .float v
  | .double v => by rw [encode]; exact .double v
  | .string s h => by rw [encode]; exact .string s h
  | .list tags h items => by
    obtain ⟨hnat, hint⟩ := toInt_ofNat_length h
    rw [encode]
    cases tags with
    | nil => exact .empty _ _ _ (.list _ _ (Int.le_refl 0))
    | cons tag tags =>
      have hitems := items_encode items
      rw [← hnat] at hitems
      exact .list _ _ (by rw [hint, List.length_cons]; omega) _ _ hitems
  | .compound children h => by
    obtain ⟨entries, heq, hentries⟩ := entries_encode h
    rw [encode, heq]
    exact .compound entries children hentries
  | .intArray vs h => by rw [encode]; exact .intArray vs h
  | .longArray vs h => by rw [encode]; exact .longArray vs h

theorem items_encode {item : TagType} {tags : List Tag} :
    EncodableItems item tags → Items item tags.length (encodeItems tags) tags
  | .nil item => by rw [encodeItems]; exact .nil item
  | .cons tag tags head tail => by
    rw [encodeItems]
    exact .cons tag.type tags.length _ _ tag tags (payload_encode head) (items_encode tail)

theorem entries_encode {children : List (List Byte × Tag)} :
    EncodableChildren children → ∃ entries,
      encodeChildren children = entries ++ [TagType.tagEnd.toByte] ∧ Entries entries children
  | .nil => ⟨[], by rw [encodeChildren]; rfl, .nil⟩
  | .cons name tag children h head tail => by
    obtain ⟨entries, heq, hentries⟩ := entries_encode tail
    refine ⟨tag.type.toByte :: nameBytes name ++ encode tag ++ entries, ?_, ?_⟩
    · rw [encodeChildren, heq, List.append_assoc _ entries]
    · exact .cons tag.type name (encode tag) entries tag children h (payload_encode head) hentries

end

theorem document_encode (name : List Byte) (hname : name.length < 2 ^ 16) {root : Tag}
    (hroot : Encodable root) : Document (document name root) (some root) :=
  .root root.type name (encode root) root hname (payload_encode hroot)

/-- SOURCE: nbt.cc:26-43, 105-199 — **decoding is exact**. Over the standard encoding of a
named root with any bytes behind it, `nbt::nbt` builds exactly that root, consumes exactly the
encoding and leaves the data it works with alone. A lone `TAG_End` is the empty document, an
empty list or array with any item type is an empty container, and every other spelling of a
document, which may have such containers inside, is read in the same way. -/
theorem nbt_decodes :
    (∀ (name : List Byte) (root : Tag), name.length < 2 ^ 16 → Encodable root →
      ∀ (s : σ) (n : ℕ) (rest : List Byte), (document name root).length ≤ n →
        (Nbt.nbt s n).run (document name root ++ rest) =
          some ((.ok (some root), s, n - (document name root).length), rest)) ∧
    (∀ (s : σ) (n : ℕ) (rest : List Byte),
      (Nbt.nbt s (n + 1)).run (TagType.tagEnd.toByte :: rest) = some ((.ok none, s, n), rest)) ∧
    (∀ (type : TagType) (name bytes : List Byte) (tag : Tag), name.length < 2 ^ 16 →
      EmptyContainer type bytes tag →
      ∀ (s : σ) (n : ℕ) (rest : List Byte), (type.toByte :: nameBytes name ++ bytes).length ≤ n →
        (Nbt.nbt s n).run (type.toByte :: nameBytes name ++ bytes ++ rest) =
          some ((.ok (some tag), s, n - (type.toByte :: nameBytes name ++ bytes).length),
            rest)) ∧
    (∀ (bytes : List Byte) (tree : Option Tag), Document bytes tree →
      ∀ (s : σ) (n : ℕ) (rest : List Byte), bytes.length ≤ n →
        (Nbt.nbt s n).run (bytes ++ rest) = some ((.ok tree, s, n - bytes.length), rest)) := by
  refine ⟨?_, ?_, ?_, fun bytes tree h => reads_nbt h⟩
  · intro name root hname hroot
    exact reads_nbt (document_encode name hname hroot)
  · intro s n rest
    exact reads_nbt Document.empty s (n + 1) rest (Nat.le_add_left 1 n)
  · intro type name bytes tag hname h
    exact reads_nbt (.root type name bytes tag hname (.empty type bytes tag h))

/-- INTERNAL: a compound `""` with two children of one name, the second of them a list of two
compounds, with a byte behind it. -/
theorem nbt_decodes_nested :
    (Nbt.nbt () 40).run
        ([10, 0, 0, 1, 0, 1, 97, 5, 9, 0, 1, 97, 10, 0, 0, 0, 2, 0, 3, 0, 1, 98, 0, 0, 1, 0, 0, 0, 7]
          : List Byte) =
      some ((.ok (some (.compound [([97], .byte 5),
        ([97], .list [.compound [], .compound [([98], .int 256)]])])), (), 12), [7]) := by
  have hroot : Encodable (.compound [([97], .byte 5),
      ([97], .list [.compound [], .compound [([98], .int 256)]])]) := by
    refine .compound _ (.cons _ _ _ (by decide) (.byte 5) (.cons _ _ _ (by decide) ?_ .nil))
    refine .list _ (by decide) (.cons _ _ (.compound _ .nil) ?_)
    exact .cons _ _ (.compound _ (.cons _ _ _ (by decide) (.int 256) .nil)) (.nil _)
  exact nbt_decodes.1 [] _ (by decide) hroot () 40 [7] (by decide)

end Mccpp.Analysis
