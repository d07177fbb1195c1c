import Mathlib.Data.List.Nodup
import Mccpp.Model.Shader

/-!
# The objects of shaders

Between two calls of a shader, a context has no shader objects but those that are attached to a program and
to be deleted with it. A program is held by one shader at most; a program that is held by none is lost.
-/

set_option autoImplicit false

namespace Mccpp.Interface

open Mccpp.Model

/-- The context with these programs, in which what is attached is to be deleted, and is all there is. -/
def contextOf (programs : List ℕ) (attached : List (ℕ × ℕ)) (errors : ℕ) : Gl where
  programs := programs
  shaders := attached.map Prod.snd
  flagged := attached.map Prod.snd
  attached := attached
  errors := errors

/-- Names are those of one object, and only programs have something attached. -/
structure NamesApart (programs : List ℕ) (attached : List (ℕ × ℕ)) : Prop where
  noProgram : 0 ∉ programs
  noShader : 0 ∉ attached.map Prod.snd
  nodup : (attached.map Prod.snd).Nodup
  disjoint : ∀ name ∈ programs, name ∉ attached.map Prod.snd
  there : ∀ p ∈ attached, p.1 ∈ programs

section

variable {I : Type}

/-- All resources that a run asks for are returned. -/
def ResourcesThere (actions : List (ShaderAction I)) : Prop :=
  ∀ i a, .load i a ∈ actions → ∀ stage ∈ a.stages, stage.resource = true

variable [DecidableEq I]

/-- How often a shader with a program is unloaded in a run. -/
def unloadings (s : Shaders I) : List (ShaderAction I) → ℕ
  | [] => 0
  | .load i a :: actions => unloadings (s.act (.load i a)) actions
  | .unload i :: actions => (if s.mId i = 0 then 0 else 1) + unloadings (s.act (.unload i)) actions

/-- What holds of shaders and their context. -/
structure ShadersKept (s : Shaders I) : Prop where
  /-- A shader object is attached to one program, is to be deleted, and has a name of its own. -/
  context : ∃ programs attached errors, NamesApart programs attached ∧
    s.gl = contextOf programs attached errors
  /-- A shader has a program that there is, and no other shader has it. -/
  held : ∀ i, s.mId i ≠ 0 → s.mId i ∈ s.gl.programs
  alone : ∀ i j, s.mId i ≠ 0 → s.mId i = s.mId j → i = j

end

end Mccpp.Interface
