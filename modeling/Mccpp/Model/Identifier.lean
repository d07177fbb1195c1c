import Mccpp.Model.Resource
import Mccpp.Model.Vfs

/-!
# Identifiers as objects

`identifier.hh` with both members: the place of the separator is searched in the text that is given,
stored beside it, and set anew where the default name space is put in front. No view searches again.
-/

set_option autoImplicit false

namespace Mccpp.Model

/-- `identifier`, by its members. -/
structure IdentifierObject where
  mData : List Char
  mSeparatorOffset : ℕ
deriving DecidableEq, Repr

namespace IdentifierObject

/-- `identifier()`. -/
def unnamed : IdentifierObject := ⟨[], 0⟩

/-- `identifier(text, default_name_space)`. -/
def construct (text defaultNameSpace : List Char) : IdentifierObject :=
  match text.idxOf? ':' with
  | some offset => ⟨text, offset⟩
  -- `find` returned `npos`
  | none => ⟨defaultNameSpace ++ (":".toList ++ text), defaultNameSpace.length⟩

/-- `identifier(text)`. -/
def ofText (text : List Char) : IdentifierObject := construct text "minecraft".toList

/-- `empty()`. -/
def empty (id : IdentifierObject) : Bool := id.mData.isEmpty

/-- `full()`. -/
def full (id : IdentifierObject) : List Char := id.mData

/-- `name_space()`. -/
def nameSpace (id : IdentifierObject) : List Char := id.full.take id.mSeparatorOffset

/-- `name()`. `substr` throws where its position is behind the end. -/
def name (id : IdentifierObject) : Except VfsFailure (List Char) :=
  if id.full.length < id.mSeparatorOffset + 1 then .error .outOfRange
  else .ok (id.full.drop (id.mSeparatorOffset + 1))

/-- `operator==`. -/
def equals (id other : IdentifierObject) : Bool := id.mData = other.mData

/-- The identifier as a key of `m_resources`, whose keys are compared with `operator==` and hashed by
`full()`. -/
def toKey (id : IdentifierObject) : Identifier := ⟨id.mData⟩

end IdentifierObject

end Mccpp.Model
