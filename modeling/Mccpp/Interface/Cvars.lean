import Mccpp.Model.Cvar
import Mccpp.Library.PartialRun

/-!
# Cvars in force

A manager that does its work keeps the cvars in the order of their names, although they are written to where they
are in the set, and sees to it that what there is besides is as their values say.
-/

set_option autoImplicit false

namespace Mccpp.Interface

open Mccpp.Model.Cvars

variable {F S : Type}

/-! ## Any cvars -/

/-- What there is besides, for a name and its value. -/
abbrev CvarMeaning (F S : Type) : Type := List Char → F → S → Prop

/-- What the callback takes is so then, what it does not take changes nothing about it, and nothing changes about
other names. -/
structure Enforces (means : CvarMeaning F S) (c : Cvar F S) : Prop where
  taken : ∀ v s, (c.callback v s).2.2 = true → means c.name (c.callback v s).1 (c.callback v s).2.1
  refused : ∀ v s value, (c.callback v s).2.2 = false → means c.name value s →
    means c.name value (c.callback v s).2.1
  others : ∀ v s name value, name ≠ c.name → means name value s → means name value (c.callback v s).2.1

/-- A cvar that is created enforces its meaning, and its first value is so. -/
def Introduces (means : CvarMeaning F S) (st : State F S) : Event F S → Prop
  | .create c => Enforces means c ∧ means c.name c.value st.rest
  | .frame _ => True

/-- The cvars that are created. -/
def createdBy : List (Event F S) → List (Cvar F S)
  | [] => []
  | .create c :: events => c :: createdBy events
  | .frame _ :: events => createdBy events

/-- All is as the values say. -/
def InForce (means : CvarMeaning F S) (st : State F S) : Prop := ∀ c ∈ st.cvars, means c.name c.value st.rest

/-- The cvar as it is created, but for a value that its callback has taken. -/
structure Descends (first c : Cvar F S) : Prop where
  name : c.name = first.name
  help : c.help = first.help
  callback : c.callback = first.callback
  value : c.value = first.value ∨ ∃ v s, (first.callback v s).2.2 = true ∧ (first.callback v s).1 = c.value

/-! ## Those of the renderer -/

section

variable [BEq F] [NatCast F]

/-- What is used of `==`: no value is two small whole numbers. -/
structure SmallFloats (F : Type) [BEq F] [NatCast F] : Prop where
  self : ∀ n : ℕ, n < 4 → ((n : F) == (n : F)) = true
  unique : ∀ (v : F) (m n : ℕ), m < 4 → n < 4 → (v == (m : F)) = true → (v == (n : F)) = true → m = n

/-- The value is a whole number below this one. -/
def accepts (n : ℕ) (v : F) : Bool := (List.range n).any fun k => v == (k : F)

/-- What a user has set. -/
structure Settings (F : Type) where
  cullFaces : F
  wireframe : F

/-- What is entered into a field counts if it is accepted. -/
def entered (n : ℕ) (current : F) (typed : Option F) : F := (typed.filter (accepts n)).getD current

/-- A user may enter something into the two fields. -/
def Settings.enter (settings : Settings F) (typed : List Char → Option F) : Settings F :=
  ⟨entered 4 settings.cullFaces (typed "r_cull_faces".toList),
    entered 3 settings.wireframe (typed "r_wireframe".toList)⟩

/-- The cvars of the renderer, with these values. -/
def settingsCvars (settings : Settings F) : List (Cvar F Raster) :=
  [{ rCullFaces with value := settings.cullFaces }, { rWireframe with value := settings.wireframe }]

/-- What the renderer starts with. -/
def firstSettings : Settings F := ⟨(1 : ℕ), (0 : ℕ)⟩

/-- Which faces are left out. -/
structure CullsAs (v : F) (r : Raster) : Prop where
  off : r.cullFace = !(v == ((0 : ℕ) : F))
  back : (v == ((1 : ℕ) : F)) = true → r.culledFace = .back
  front : (v == ((2 : ℕ) : F)) = true → r.culledFace = .front
  both : (v == ((3 : ℕ) : F)) = true → r.culledFace = .frontAndBack

/-- How the others are drawn. -/
structure FillsAs (v : F) (r : Raster) : Prop where
  fill : (v == ((0 : ℕ) : F)) = true → r.polygonMode = .fill
  line : (v == ((1 : ℕ) : F)) = true → r.polygonMode = .line
  point : (v == ((2 : ℕ) : F)) = true → r.polygonMode = .point

/-- All is drawn as a user has set it. -/
structure DrawsAs (settings : Settings F) (r : Raster) : Prop where
  culls : CullsAs settings.cullFaces r
  fills : FillsAs settings.wireframe r

/-- What the two names mean. -/
def rasterMeaning : CvarMeaning F Raster := fun name v r =>
  (name = "r_cull_faces".toList → CullsAs v r) ∧ (name = "r_wireframe".toList → FillsAs v r)

end

end Mccpp.Interface
