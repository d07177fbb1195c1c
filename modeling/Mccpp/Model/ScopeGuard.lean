import Mccpp.Library.Scopes

/-!
# Scope guards

`utility/scope_guard.hh`, and the constructor and destructor of `renderer_impl` of `renderer/renderer.cc`,
which stand on it. Of SDL, GL and ImGui the model keeps what there is at a time, what a call needs and
whether it fails. Textures, vertex arrays and buffers go with their context, and are left out.
-/

set_option autoImplicit false

namespace Mccpp.Model

open Mccpp.Library

/-! ## Guards -/

/-- `scope_exit`, `scope_fail` and `scope_success`. -/
inductive ScopeGuard where
  | scopeExit
  | scopeFail
  | scopeSuccess
deriving DecidableEq, Repr

/-- The destructor of a guard: whether it calls `m_callback`, by `m_uncaught` and
`std::uncaught_exceptions()`. -/
def ScopeGuard.calls : ScopeGuard → (mUncaught uncaughtExceptions : ℕ) → Bool
  | .scopeExit, _, _ => true
  | .scopeFail, mUncaught, uncaughtExceptions => mUncaught != uncaughtExceptions
  | .scopeSuccess, mUncaught, uncaughtExceptions => mUncaught == uncaughtExceptions

/-! ## The renderer -/

/-- What `renderer_impl` does that needs something of SDL, GL or ImGui, gives or takes it, or can throw. -/
inductive RendererStep where
  | createWindow
  | createContext
  | loadGl
  | setSwapInterval
  | initImguiSdl
  | initImguiGl
  /-- `m_shader.load(..)`. -/
  | loadShader
  /-- `app.resource_manager().get<texture_object>(..)`. -/
  | getTexture
  | setUpGl
  | showWindow
  | startFrame
  | endFrame
  /-- `m_shader.unload()`. -/
  | unloadShader
  | shutdownImguiGl
  | shutdownImguiSdl
  | deleteContext
  | destroyWindow
deriving DecidableEq, Repr

/-- What there is, `m_id` of the shader among it, and how many calls have not had what they need. -/
structure Graphics where
  window : Bool
  context : Bool
  imguiSdl : Bool
  imguiGl : Bool
  program : Bool
  faults : ℕ
deriving DecidableEq, Repr

namespace Graphics

/-- Nothing. -/
def none : Graphics := ⟨false, false, false, false, false, 0⟩

/-- What a step needs. -/
def has (s : Graphics) : RendererStep → Bool
  | .createWindow => !s.window
  | .createContext => s.window && !s.context
  | .loadGl | .setSwapInterval | .loadShader | .setUpGl => s.context
  | .initImguiSdl => s.window && s.context && !s.imguiSdl
  | .initImguiGl => s.context && s.imguiSdl && !s.imguiGl
  | .getTexture => true
  | .showWindow => s.window
  | .startFrame | .endFrame => s.window && s.context && s.imguiSdl && s.imguiGl
  -- `if (m_id) glDeleteShader(m_id);`
  | .unloadShader => !s.program || s.context
  | .shutdownImguiGl => s.context && s.imguiGl
  | .shutdownImguiSdl => s.window && s.imguiSdl && !s.imguiGl
  | .deleteContext => s.context && !s.imguiSdl && !s.imguiGl
  | .destroyWindow => s.window && !s.context

/-- What there is behind a step that does not fail. -/
def after (s : Graphics) : RendererStep → Graphics
  | .createWindow => { s with window := true }
  | .createContext => { s with context := true }
  | .initImguiSdl => { s with imguiSdl := true }
  | .initImguiGl => { s with imguiGl := true }
  | .loadShader => { s with program := true }
  | .unloadShader => { s with program := false }
  | .shutdownImguiGl => { s with imguiGl := false }
  | .shutdownImguiSdl => { s with imguiSdl := false }
  | .deleteContext => { s with context := false }
  | .destroyWindow => { s with window := false }
  | _ => s

end Graphics

/-- Which steps fail: the first five of these throw where they do, and the constructor throws where asking
for a resource does. `glCreateProgram()` may fail alone. -/
structure GraphicsAnswers where
  createWindow : Bool
  createContext : Bool
  loadGl : Bool
  initImguiSdl : Bool
  initImguiGl : Bool
  createProgram : Bool
  shaderResources : Bool
  textureResource : Bool

namespace GraphicsAnswers

/-- The step throws. -/
def throws (a : GraphicsAnswers) : RendererStep → Bool
  | .createWindow => a.createWindow
  | .createContext => a.createContext
  | .loadGl => a.loadGl
  | .initImguiSdl => a.initImguiSdl
  | .initImguiGl => a.initImguiGl
  -- without a program, `load` returns before it asks for a resource
  | .loadShader => !a.createProgram && a.shaderResources
  | .getTexture => a.textureResource
  | _ => false

/-- A step, and whether it throws. Behind `loadShader` there is a program, unless none could be created. -/
def perform (a : GraphicsAnswers) (step : RendererStep) (s : Graphics) : Graphics × Bool :=
  let s := { s with faults := if s.has step then s.faults else s.faults + 1 }
  if step = .loadShader then (if a.createProgram then s else s.after step, a.throws step)
  else if a.throws step then (s, true)
  else (s.after step, false)

end GraphicsAnswers

/-- Code of these steps. -/
abbrev RendererCode : Type := Scoped ScopeGuard RendererStep

/-- `renderer_impl::renderer_impl(app)`. What is behind its members counts as a guard: where it throws, the
destructor of `m_shader` is run behind its body. -/
def rendererConstructor : RendererCode :=
  .guarded .scopeFail (.act .unloadShader .done) <|
  .act .createWindow <|
  .guarded .scopeFail (.act .destroyWindow .done) <|
  .act .createContext <|
  .guarded .scopeFail (.act .deleteContext .done) <|
  .act .loadGl <|
  .act .setSwapInterval <|
  .act .initImguiSdl <|
  .guarded .scopeFail (.act .shutdownImguiSdl .done) <|
  .act .initImguiGl <|
  .guarded .scopeFail (.act .shutdownImguiGl .done) <|
  .act .loadShader <|
  .act .getTexture <|
  .act .setUpGl <|
  .act .showWindow .done

/-- `renderer_impl::~renderer_impl()`, and that of `m_shader`. -/
def rendererDestructor : RendererCode :=
  .act .unloadShader <|
  .act .shutdownImguiGl <|
  .act .shutdownImguiSdl <|
  .act .deleteContext <|
  .act .destroyWindow <|
  .act .unloadShader .done

/-- A renderer is constructed, and where that does not throw, used and destructed whatever happens. -/
def rendererLifetime (use : RendererCode) : RendererCode :=
  .call rendererConstructor (.guarded .scopeExit rendererDestructor use)

end Mccpp.Model
