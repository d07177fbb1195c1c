import Mathlib.Data.List.TakeWhile
import Mccpp.Model.Identifier

/-!
# Names in name spaces

What an identifier is for: a name in a name space, where the name space has no separator. A text
denotes the name space before its first separator and the name behind it; without a separator it is a
name in the default name space.
-/

set_option autoImplicit false

namespace Mccpp.Interface

open Mccpp.Model

/-- A name in a name space. -/
@[ext] structure QualifiedName where
  nameSpace : List Char
  name : List Char
  separator_notMem : ':' ∉ nameSpace

namespace QualifiedName

/-- The text that is written for the name. -/
def text (q : QualifiedName) : List Char := q.nameSpace ++ ':' :: q.name

/-- The name that a text denotes. -/
def denoted (defaultNameSpace : List Char) (hdefault : ':' ∉ defaultNameSpace) (text : List Char) :
    QualifiedName :=
  if ':' ∈ text then
    { nameSpace := text.takeWhile (· ≠ ':')
      name := (text.dropWhile (· ≠ ':')).tail
      separator_notMem := fun h => by simpa using List.mem_takeWhile_imp h }
  else ⟨defaultNameSpace, text, hdefault⟩

/-- The object for the name, with its separator. -/
def object (q : QualifiedName) : IdentifierObject := ⟨q.text, q.nameSpace.length⟩

end QualifiedName

/-- The two have the same name space and the same name. -/
structure SameName (id other : IdentifierObject) : Prop where
  nameSpace : id.nameSpace = other.nameSpace
  name : id.name = other.name

/-! ## Models by their files -/

section Files

variable {ε : Type}

/-- The file is one that `load()` takes. -/
def IsModelFile (file : ResourceManager.BlockFile ε) : Prop := ".json".toList <:+ file.name

/-- The identifier of the model of a file, `"{}:block/{}"`. -/
def modelIdentifier (file : ResourceManager.BlockFile ε) : IdentifierObject :=
  .ofText (file.nameSpace ++ ':' :: ("block/".toList ++ file.name.take (file.name.length - 5)))

end Files

end Mccpp.Interface
