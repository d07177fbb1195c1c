import Mccpp.Model.NbtEvents

/-!
# The shape of a tree of tags

The tags that occur in a tree, how many there are, with the elements of its arrays, and how deep they
lie. While the tree is still read, `counting` counts the tags and the elements begun.
-/

set_option autoImplicit false

namespace Mccpp.Interface

open Mccpp.Model

/-- The tag is the tree, or a tag of an item or of a child. -/
inductive Occurs (tag : Tag) : Tag → Prop
  | here : Occurs tag tag
  | item (tags : List Tag) (item : Tag) (hmem : item ∈ tags) (h : Occurs tag item) :
      Occurs tag (.list tags)
  | child (children : List (List Byte × Tag)) (name : List Byte) (child : Tag)
      (hmem : (name, child) ∈ children) (h : Occurs tag child) : Occurs tag (.compound children)

mutual

/-- The number of tags of a tree and of elements of its arrays. -/
def size : Tag → ℕ
  | .list tags => 1 + sizeItems tags
  | .compound children => 1 + sizeChildren children
  | .intArray vs => 1 + vs.length
  | .longArray vs => 1 + vs.length
  | _ => 1

def sizeItems : List Tag → ℕ
  | [] => 0
  | tag :: tags => size tag + sizeItems tags

def sizeChildren : List (List Byte × Tag) → ℕ
  | [] => 0
  | (_, tag) :: children => size tag + sizeChildren children

end

mutual

/-- The number of tags on the longest way down. -/
def depth : Tag → ℕ
  | .list tags => 1 + depthItems tags
  | .compound children => 1 + depthChildren children
  | _ => 1

def depthItems : List Tag → ℕ
  | [] => 0
  | tag :: tags => max (depth tag) (depthItems tags)

def depthChildren : List (List Byte × Tag) → ℕ
  | [] => 0
  | (_, tag) :: children => max (depth tag) (depthChildren children)

end

/-- The list has items of one type, which is what it says of itself. -/
structure Homogeneous (tags : List Tag) : Prop where
  items : ∀ tag ∈ tags, tag.type = Tag.listItemType tags
  compatible : ∀ type, Tag.listItemTypeCompatible tags type = true ↔
    tags = [] ∨ type = Tag.listItemType tags

/-- Every list of the tree is homogeneous, and no tag is a `TAG_END`. -/
structure WellFormed (root : Tag) : Prop where
  lists : ∀ tags, Occurs (.list tags) root → Homogeneous tags
  types : ∀ tag, Occurs tag root → tag.type ≠ .tagEnd

/-- Counts the tags and elements that are begun. -/
def counting : NbtEvent → PacketM ℕ Unit
  | .tag | .element => do PacketM.set ((← PacketM.get) + 1)
  | .reserve _ => pure ()

end Mccpp.Interface
