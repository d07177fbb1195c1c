import Mathlib.Data.List.Basic
import Mathlib.Data.Nat.Notation
import Mathlib.Logic.Function.Basic

/-!
# Shaders

`renderer/shader.{hh,cc}`. Of GL the model keeps the names of programs and shader objects, what is attached
to what, and which shader objects are to be deleted as soon as they are attached to nothing. What GL and the
resource manager answer is given with each call; a name that is `0` or taken already counts as none. The
texts of shaders, the kinds of their stages and what is logged are left out.
-/

set_option autoImplicit false

namespace Mccpp.Model

/-! ## Objects of GL -/

/-- The objects of a context. -/
structure Gl where
  programs : List ℕ
  shaders : List ℕ
  /-- The shader objects that are to be deleted. -/
  flagged : List ℕ
  /-- Programs, each with a shader object that is attached to it. -/
  attached : List (ℕ × ℕ)
  /-- How many calls GL has refused. -/
  errors : ℕ
deriving DecidableEq, Repr

namespace Gl

/-- A new context. -/
def init : Gl := ⟨[], [], [], [], 0⟩

variable (gl : Gl)

/-- No object has this name. -/
def isFresh (name : ℕ) : Bool := name ≠ 0 && name ∉ gl.programs && name ∉ gl.shaders

/-- `glCreateProgram()`, with the answer of GL. -/
def createProgram (answer : ℕ) : ℕ × Gl :=
  if gl.isFresh answer then (answer, { gl with programs := gl.programs ++ [answer] }) else (0, gl)

/-- `glCreateShader(type)`. -/
def createShader (answer : ℕ) : ℕ × Gl :=
  if gl.isFresh answer then (answer, { gl with shaders := gl.shaders ++ [answer] }) else (0, gl)

/-- What is to be deleted and attached to nothing is deleted. -/
def sweep (shader : ℕ) : Gl :=
  if shader ∈ gl.flagged ∧ shader ∉ gl.attached.map Prod.snd then
    { gl with shaders := gl.shaders.erase shader, flagged := gl.flagged.erase shader }
  else gl

/-- `glDeleteShader(shader)`. The name of a program is refused. -/
def deleteShader (shader : ℕ) : Gl :=
  if shader = 0 then gl
  else if shader ∈ gl.shaders then
    sweep { gl with flagged := if shader ∈ gl.flagged then gl.flagged else gl.flagged ++ [shader] } shader
  else { gl with errors := gl.errors + 1 }

/-- `glAttachShader(program, shader)`. -/
def attachShader (program shader : ℕ) : Gl :=
  if program ∈ gl.programs ∧ shader ∈ gl.shaders ∧ (program, shader) ∉ gl.attached then
    { gl with attached := gl.attached ++ [(program, shader)] }
  else { gl with errors := gl.errors + 1 }

/-- `glDetachShader(program, shader)`. -/
def detachShader (program shader : ℕ) : Gl :=
  if (program, shader) ∈ gl.attached then
    sweep { gl with attached := gl.attached.erase (program, shader) } shader
  else { gl with errors := gl.errors + 1 }

end Gl

/-! ## `shader` -/

/-- What is answered about a stage: whether `get` returns its resource, what `glCreateShader` returns, and the
`GL_COMPILE_STATUS`. -/
structure StageAnswers where
  resource : Bool
  shader : ℕ
  compiles : Bool
deriving DecidableEq, Repr

/-- What is answered in `load`: what `glCreateProgram` returns, all about the stages, and the
`GL_LINK_STATUS`. -/
structure LoadAnswers where
  program : ℕ
  stages : List StageAnswers
  links : Bool
deriving DecidableEq, Repr

/-- `compile_and_attach_shader(program, stage, resource)`. -/
def compileAndAttachShader (gl : Gl) (program : ℕ) (a : StageAnswers) : ℕ × Gl :=
  let (shader, gl) := gl.createShader a.shader
  if shader = 0 then (0, gl)
  else if a.compiles then (shader, (gl.attachShader program shader).deleteShader shader)
  else (0, gl.deleteShader shader)

/-- `for (GLuint shader : objects) glDetachShader(m_id, shader);`. -/
def detachObjects (program : ℕ) (objects : List ℕ) (gl : Gl) : Gl :=
  objects.foldl (fun gl shader => gl.detachShader program shader) gl

/-- How `load` ends. -/
inductive Loaded where
  | returned (success : Bool)
  /-- `get` of a resource threw. -/
  | threw
deriving DecidableEq, Repr

/-- The loop of `load`, with `objects`, and what is behind it. -/
def loadStages (program : ℕ) (links : Bool) : List StageAnswers → List ℕ → Gl → Loaded × Gl
  | [], objects, gl => (.returned links, detachObjects program objects gl)
  | a :: stages, objects, gl =>
    if a.resource then
      let (shader, gl) := compileAndAttachShader gl program a
      if shader = 0 then (.returned false, detachObjects program objects gl)
      else loadStages program links stages (objects ++ [shader]) gl
    else (.threw, gl)

/-- `load(res_mgr, shaders)` of a shader with this `m_id`, which it may change. -/
def loadShader (mId : ℕ) (a : LoadAnswers) (gl : Gl) : Loaded × ℕ × Gl :=
  let (mId, gl) := if mId = 0 then gl.createProgram a.program else (mId, gl)
  if mId = 0 then (.returned false, mId, gl)
  else
    let (loaded, gl) := loadStages mId a.links a.stages [] gl
    (loaded, mId, gl)

/-- `unload()`, and the destructor. -/
def unloadShader (mId : ℕ) (gl : Gl) : ℕ × Gl := if mId = 0 then (mId, gl) else (0, gl.deleteShader mId)

/-! ## Many shaders -/

/-- The shaders of a context, by `m_id`. -/
structure Shaders (I : Type) where
  mId : I → ℕ
  gl : Gl

/-- What is done to one of them. -/
inductive ShaderAction (I : Type) where
  | load (i : I) (a : LoadAnswers)
  | unload (i : I)

namespace Shaders

variable {I : Type} [DecidableEq I]

/-- All of them are new. -/
def init : Shaders I := ⟨fun _ => 0, .init⟩

/-- One action. -/
def act (s : Shaders I) : ShaderAction I → Shaders I
  | .load i a =>
    let (_, mId, gl) := loadShader (s.mId i) a s.gl
    ⟨Function.update s.mId i mId, gl⟩
  | .unload i =>
    let (mId, gl) := unloadShader (s.mId i) s.gl
    ⟨Function.update s.mId i mId, gl⟩

/-- Actions one after another. -/
def acts (s : Shaders I) (actions : List (ShaderAction I)) : Shaders I := actions.foldl act s

end Shaders

end Mccpp.Model
