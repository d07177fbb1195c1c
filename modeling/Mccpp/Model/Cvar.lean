import Mathlib.Data.Char
import Mathlib.Data.List.Lex
import Mathlib.Data.Nat.Cast.Defs

/-!
# Cvars

`cvar.{hh,cc}`, the loop over the cvars of `on_frame()` in `game.cc`, and the two cvars of `renderer/renderer.cc`.
A reference to a cvar is its name, since a `std::set` does not move what is in it. Of floats only `==` and the small
whole numbers are used. The warning about a value that is not taken, and tooltips, are left out.
-/

set_option autoImplicit false

namespace Mccpp.Model.Cvars

variable {F S : Type}

/-- `cvar`. The callback works on what there is besides, may change the value that it is given, and returns whether
it takes it. -/
structure Cvar (F S : Type) where
  name : List Char
  help : List Char
  callback : F → S → F × S × Bool
  value : F

/-- `set_value(new_value)`. -/
def Cvar.setValue (c : Cvar F S) (newValue : F) (s : S) : Cvar F S × S × Bool :=
  match c.callback newValue s with
  | (newValue, s, true) => ({ c with value := newValue }, s, true)
  | (_, s, false) => (c, s, false)

/-- `m_cvars.emplace(name, help, callback, value)` of a `std::set`; `none` if one compares equal. -/
def emplace (c : Cvar F S) : List (Cvar F S) → Option (List (Cvar F S))
  | [] => some [c]
  | other :: rest =>
    if c.name < other.name then some (c :: other :: rest)
    else if other.name < c.name then (emplace c rest).map (other :: ·)
    else none

/-- The manager, and what there is besides. -/
structure State (F S : Type) where
  cvars : List (Cvar F S)
  rest : S

/-- `create(name, value, help, callback)`; `none` is the failed assertion. -/
def State.create (st : State F S) (c : Cvar F S) : Option (State F S) :=
  (emplace c st.cvars).map fun cvars => { st with cvars := cvars }

/-- The loop over the cvars of `on_frame()`, where `typed` is what is entered into the field of a name. -/
def editCvars (typed : List Char → Option F) : List (Cvar F S) → S → List (Cvar F S) × S
  | [], s => ([], s)
  | var :: rest, s =>
    match typed var.name with
    | none =>
      let edited := editCvars typed rest s
      (var :: edited.1, edited.2)
    | some v =>
      let set := var.setValue v s
      let edited := editCvars typed rest set.2.1
      (set.1 :: edited.1, edited.2)

/-- What happens. -/
inductive Event (F S : Type) where
  | create (c : Cvar F S)
  | frame (typed : List Char → Option F)

def step (st : State F S) : Event F S → Option (State F S)
  | .create c => st.create c
  | .frame typed =>
    let edited := editCvars typed st.cvars st.rest
    some ⟨edited.1, edited.2⟩

/-! ## The renderer -/

/-- The argument of `glCullFace`. -/
inductive CulledFace where
  | front | back | frontAndBack
deriving DecidableEq

/-- The argument of `glPolygonMode`. -/
inductive PolygonMode where
  | fill | line | point
deriving DecidableEq

/-- What OpenGL is told about drawing triangles. -/
structure Raster where
  /-- `GL_CULL_FACE`. -/
  cullFace : Bool
  culledFace : CulledFace
  polygonMode : PolygonMode
deriving DecidableEq

/-- A new context. -/
def Raster.context : Raster := ⟨false, .back, .fill⟩

/-- What the constructor of `renderer_impl` does in front of its cvars. -/
def Raster.init (r : Raster) : Raster := { r with cullFace := true, culledFace := .back }

variable [BEq F] [NatCast F]

/-- The callback of `r_cull_faces`. -/
def cullFaces (value : F) (r : Raster) : F × Raster × Bool :=
  if value == (0 : ℕ) then (value, { r with cullFace := false }, true)
  else if value == (1 : ℕ) then (value, { r with cullFace := true, culledFace := .back }, true)
  else if value == (2 : ℕ) then (value, { r with cullFace := true, culledFace := .front }, true)
  else if value == (3 : ℕ) then (value, { r with cullFace := true, culledFace := .frontAndBack }, true)
  else (value, r, false)

/-- The callback of `r_wireframe`. -/
def wireframe (value : F) (r : Raster) : F × Raster × Bool :=
  if value == (0 : ℕ) then (value, { r with polygonMode := .fill }, true)
  else if value == (1 : ℕ) then (value, { r with polygonMode := .line }, true)
  else if value == (2 : ℕ) then (value, { r with polygonMode := .point }, true)
  else (value, r, false)

/-- `r_cull_faces`. -/
def rCullFaces : Cvar F Raster := ⟨"r_cull_faces".toList, [], cullFaces, (1 : ℕ)⟩

/-- `r_wireframe`. -/
def rWireframe : Cvar F Raster := ⟨"r_wireframe".toList, [], wireframe, (0 : ℕ)⟩

/-- What the constructor of `renderer_impl` does, where the application has a new manager. -/
def renderer : Option (State F Raster) :=
  (State.create ⟨[], Raster.context.init⟩ rCullFaces).bind fun st => st.create rWireframe

end Mccpp.Model.Cvars
