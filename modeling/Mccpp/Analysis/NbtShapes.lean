import Mccpp.Interface.NbtShape
import Mccpp.Analysis.NbtBreakdown

/-!
# The shape of what is parsed

A tree that is spelled by bytes has lists of one item type and no more tags and array elements than
there are bytes, since every one of them takes a byte at least (`size_le_length`, by induction on the
spelling).
-/

set_option autoImplicit false

namespace Mccpp.Analysis

open Mccpp.Library Mccpp.Model Mccpp.Model.PacketM Mccpp.Interface

/-! ## Types -/

theorem type_of_payload {type : TagType} {bytes : List Byte} {tag : Tag}
    (h : Payload type bytes tag) : tag.type = type := by
  cases h with
  | empty _ _ _ h => cases h <;> rfl
  | _ => rfl

theorem payload_of_mem_items {item : TagType} {count : ℕ} {bytes : List Byte} {tags : List Tag}
    {tag : Tag} (h : Items item count bytes tags) (hmem : tag ∈ tags) :
    ∃ bytes', Payload item bytes' tag := by
  induction tags generalizing count bytes with
  | nil => cases hmem
  | cons head tags ih =>
    cases h with
    | cons _ count bytes rest _ _ hhead htail =>
      rcases List.mem_cons.mp hmem with rfl | hmem
      · exact ⟨bytes, hhead⟩
      · exact ih htail hmem

theorem payload_of_mem_entries {bytes name : List Byte} {children : List (List Byte × Tag)}
    {tag : Tag} (h : Entries bytes children) (hmem : (name, tag) ∈ children) :
    ∃ type bytes', Payload type bytes' tag := by
  induction children generalizing bytes with
  | nil => cases hmem
  | cons head children ih =>
    cases h with
    | cons type _ bytes rest _ _ _ hhead htail =>
      rcases List.mem_cons.mp hmem with heq | hmem
      · cases heq
        exact ⟨type, bytes, hhead⟩
      · exact ih htail hmem

/-- INTERNAL: the tags of a tree that is spelled are spelled.
SOURCE: nbt.cc:138-167 -/
theorem payload_of_occurs {tag root : Tag} (h : Occurs tag root) :
    ∀ {type : TagType} {bytes : List Byte}, Payload type bytes root →
      ∃ type' bytes', Payload type' bytes' tag := by
  induction h with
  | here => exact fun hpayload => ⟨_, _, hpayload⟩
  | item tags item hmem _ ih =>
    intro type bytes hpayload
    cases hpayload with
    | empty _ _ _ h =>
      cases h
      cases hmem
    | list _ _ _ _ _ items =>
      obtain ⟨bytes', hitem⟩ := payload_of_mem_items items hmem
      exact ih hitem
  | child children name child hmem _ ih =>
    intro type bytes hpayload
    cases hpayload with
    | empty _ _ _ h => cases h
    | compound _ _ h =>
      obtain ⟨type', bytes', hchild⟩ := payload_of_mem_entries h hmem
      exact ih hchild

theorem compatible_iff (tags : List Tag) (type : TagType) :
    Tag.listItemTypeCompatible tags type = true ↔ tags = [] ∨ type = Tag.listItemType tags := by
  cases tags with
  | nil => simp [Tag.listItemTypeCompatible]
  | cons tag tags =>
    simp only [Tag.listItemTypeCompatible, Tag.listItemType, decide_eq_true_eq, reduceCtorEq,
      false_or]
    exact eq_comm

/-- INTERNAL: **a list that is spelled has one item type**.
SOURCE: nbt.cc:138-155 -/
theorem homogeneous_of_payload {type : TagType} {bytes : List Byte} {tags : List Tag}
    (h : Payload type bytes (.list tags)) : Homogeneous tags := by
  refine ⟨?_, compatible_iff tags⟩
  cases h with
  | empty _ _ _ h =>
    cases h
    exact fun tag hmem => (nomatch hmem)
  | list item _ _ _ _ items =>
    have htype : ∀ tag ∈ tags, tag.type = item := by
      intro tag hmem
      obtain ⟨_, hpayload⟩ := payload_of_mem_items items hmem
      exact type_of_payload hpayload
    intro tag hmem
    rw [htype tag hmem]
    cases tags with
    | nil => cases hmem
    | cons head tags => exact (htype head (List.mem_cons_self)).symm

theorem wellFormed_of_payload {type : TagType} {bytes : List Byte} {root : Tag}
    (h : Payload type bytes root) : WellFormed root where
  lists := by
    intro tags hoccurs
    obtain ⟨_, _, hpayload⟩ := payload_of_occurs hoccurs h
    exact homogeneous_of_payload hpayload
  types := by
    intro tag hoccurs
    obtain ⟨_, _, hpayload⟩ := payload_of_occurs hoccurs h
    rw [type_of_payload hpayload]
    exact payload_ne_end hpayload

/-! ## Sizes -/

theorem length_lengthBytes (length : BitVec 32) : (lengthBytes length).length = 4 :=
  length_bigEndian 4 _

theorem length_numbers {w : ℕ} (k : ℕ) (vs : List (BitVec w)) :
    (vs.flatMap fun v => bigEndian k v.toNat).length = k * vs.length := by
  induction vs with
  | nil => rw [List.flatMap_nil, List.length_nil, List.length_nil, Nat.mul_zero]
  | cons v vs ih =>
    rw [List.flatMap_cons, List.length_append, length_bigEndian, ih, List.length_cons]
    ring

theorem size_emptyContainer {type : TagType} {bytes : List Byte} {tag : Tag}
    (h : EmptyContainer type bytes tag) : size tag ≤ bytes.length := by
  cases h with
  | list item length h => simp [size, sizeItems]
  | intArray length h => simp [size, length_lengthBytes]
  | longArray length h => simp [size, length_lengthBytes]

mutual

/-- INTERNAL: **a tag takes a byte, and so does an element of an array**.
SOURCE: nbt.cc:105-187 -/
theorem size_le_length {type : TagType} {bytes : List Byte} {tag : Tag} :
    Payload type bytes tag → size tag ≤ bytes.length
  | .byte v => by simp [size]
  | .short v => by simp [size]
  | .int v => by simp [size]
  | .long v => by simp [size]
  | .float v => by simp [size]
  | .double v => by simp [size]
  | .string s h => by
    simp only [size, nameBytes, List.length_append, length_bigEndian]
    omega
  | .empty _ _ _ h => size_emptyContainer h
  | .list item length h bytes tags items => by
    have hitems := sizeItems_le_length items
    simp only [size, List.cons_append, List.length_cons, List.length_append]
    omega
  | .compound entries children h => by
    have hchildren := sizeChildren_le_length h
    simp only [size, List.length_append, List.length_singleton]
    omega
  | .intArray vs h => by
    simp only [size, List.length_append, length_lengthBytes, length_numbers]
    omega
  | .longArray vs h => by
    simp only [size, List.length_append, length_lengthBytes, length_numbers]
    omega

theorem sizeItems_le_length {item : TagType} {count : ℕ} {bytes : List Byte} {tags : List Tag} :
    Items item count bytes tags → sizeItems tags ≤ bytes.length
  | .nil item => by simp [sizeItems]
  | .cons item count bytes rest tag tags head tail => by
    have hhead := size_le_length head
    have htail := sizeItems_le_length tail
    simp only [sizeItems, List.length_append]
    omega

theorem sizeChildren_le_length {bytes : List Byte} {children : List (List Byte × Tag)} :
    Entries bytes children → sizeChildren children ≤ bytes.length
  | .nil => by simp [sizeChildren]
  | .cons type name bytes rest tag children h head tail => by
    have hhead := size_le_length head
    have htail := sizeChildren_le_length tail
    simp only [sizeChildren, List.cons_append, List.length_cons, List.length_append]
    omega

end

mutual

/-- INTERNAL: each level has a tag of its own. -/
theorem depth_le_size : ∀ tag : Tag, depth tag ≤ size tag
  | .byte _ | .short _ | .int _ | .long _ | .float _ | .double _ | .string _ => by
    simp [depth, size]
  | .list tags => by
    have hitems := depthItems_le_sizeItems tags
    simp only [depth, size]
    omega
  | .compound children => by
    have hchildren := depthChildren_le_sizeChildren children
    simp only [depth, size]
    omega
  | .intArray _ | .longArray _ => by simp [depth, size]

theorem depthItems_le_sizeItems : ∀ tags : List Tag, depthItems tags ≤ sizeItems tags
  | [] => by simp [depthItems, sizeItems]
  | tag :: tags => by
    have hhead := depth_le_size tag
    have htail := depthItems_le_sizeItems tags
    simp only [depthItems, sizeItems]
    omega

theorem depthChildren_le_sizeChildren :
    ∀ children : List (List Byte × Tag), depthChildren children ≤ sizeChildren children
  | [] => by simp [depthChildren, sizeChildren]
  | (name, tag) :: children => by
    have hhead := depth_le_size tag
    have htail := depthChildren_le_sizeChildren children
    simp only [depthChildren, sizeChildren]
    omega

end

end Mccpp.Analysis
