import Mccpp.Model.ScopeGuard

/-!
# Scopes that are guarded

What guards are for, told apart by how their scope is left, and what is to hold of a renderer over its life.
-/

set_option autoImplicit false

namespace Mccpp.Interface

open Mccpp.Library Mccpp.Model

/-- Whether a guard is to call back when its scope is left by an exception, or without one. -/
def guardWanted : ScopeGuard → (threw : Bool) → Bool
  | .scopeExit, _ => true
  | .scopeFail, threw => threw
  | .scopeSuccess, threw => !threw

/-- The steps of a renderer in use. -/
def IsFrameStep (step : RendererStep) : Prop := step = .startFrame ∨ step = .endFrame

/-- The constructor throws. -/
def ConstructorThrows (a : GraphicsAnswers) : Bool :=
  a.createWindow || a.createContext || a.loadGl || a.initImguiSdl || a.initImguiGl ||
    (!a.createProgram && a.shaderResources) || a.textureResource

/-- It throws as it asks for a resource, when there is a program already. -/
def ThrowsWithProgram (a : GraphicsAnswers) : Bool :=
  !a.createWindow && !a.createContext && !a.loadGl && !a.initImguiSdl && !a.initImguiGl &&
    !a.createProgram && (a.shaderResources || a.textureResource)

/-- What is left of a renderer: nothing, and every call has had what it needs, but for one where the
constructor throws with a program. -/
structure CleanedUp (a : GraphicsAnswers) (s : Graphics) : Prop where
  nothing : s.window = false ∧ s.context = false ∧ s.imguiSdl = false ∧ s.imguiGl = false ∧
    s.program = false
  faults : s.faults = if ThrowsWithProgram a then 1 else 0

end Mccpp.Interface
