import Mccpp.Interface.ScopeGuard

/-!
# Scope guards do what they are for

The guards only count exceptions, and that is enough wherever they stand, also in callbacks and handlers that
run while another exception is in flight (`guards_follow_scopes`). The constructor of the renderer stands on
them: where it throws, it takes back what it has done, in the other order, and its destructor does the same
later. The program alone is taken back by a member, which is destructed behind the guards
(`renderer_cleans_up`).
-/

set_option autoImplicit false

namespace Mccpp.Analysis

open Mccpp.Library Mccpp.Model Mccpp.Interface

/-! ## Guards -/

/-- INTERNAL: as many exceptions as before.
SOURCE: utility/scope_guard.hh:23-26, 42-46, 63-67 -/
theorem calls_none (g : ScopeGuard) (n : ℕ) : g.calls n n = guardWanted g false := by
  cases g <;> simp [ScopeGuard.calls, guardWanted]

/-- INTERNAL: one exception more. -/
theorem calls_one (g : ScopeGuard) (n : ℕ) : g.calls n (n + 1) = guardWanted g true := by
  cases g <;> simp [ScopeGuard.calls, guardWanted]

/-- SOURCE: utility/scope_guard.hh:10-73 — **guards follow their scopes**. In all code, with guards anywhere in
its functions, handlers and callbacks, from any number of exceptions that are in flight already, a
`scope_exit` calls back whenever its scope is left, a `scope_fail` just when an exception leaves it, and a
`scope_success` just when none does: the code ends as it is meant to, or in `std::terminate()` where a
callback is meant to throw, with one exception more in flight if it throws and as many as before if not. -/
theorem guards_follow_scopes {A σ : Type} (perform : A → σ → σ × Bool) (code : Scoped ScopeGuard A) (n : ℕ)
    (s : σ) : code.run perform ScopeGuard.calls n s =
      (code.mean perform guardWanted s).map (Scoped.counted n) :=
  Scoped.run_eq_mean calls_none calls_one code n s

/-! ## The renderer -/

/-- What there is behind the constructor. -/
def constructed (a : GraphicsAnswers) : Graphics :=
  { window := true, context := true, imguiSdl := true, imguiGl := true, program := !a.createProgram, faults := 0 }

/-- What there is where it has thrown. -/
def unwound (a : GraphicsAnswers) : Graphics :=
  { Graphics.none with faults := if ThrowsWithProgram a then 1 else 0 }

/-- INTERNAL: **the constructor**, by what fails first.
SOURCE: renderer/renderer.cc:227-342 -/
theorem mean_constructor (a : GraphicsAnswers) :
    rendererConstructor.mean a.perform guardWanted Graphics.none =
      some (if ConstructorThrows a then (.threw, unwound a) else (.normal, constructed a)) := by
  obtain ⟨createWindow, createContext, loadGl, initImguiSdl, initImguiGl, createProgram, shaderResources,
    textureResource⟩ := a
  cases createWindow with
  | true => rfl
  | false =>
    cases createContext with
    | true => rfl
    | false =>
      cases loadGl with
      | true => rfl
      | false =>
        cases initImguiSdl with
        | true => rfl
        | false =>
          cases initImguiGl with
          | true => rfl
          | false => cases createProgram <;> cases shaderResources <;> cases textureResource <;> rfl

/-- INTERNAL: **the destructor**.
SOURCE: renderer/renderer.cc:344-351, renderer/shader.cc:10-12 -/
theorem mean_destructor (a : GraphicsAnswers) :
    rendererDestructor.mean a.perform guardWanted (constructed a) = some (.normal, Graphics.none) := by
  obtain ⟨_, _, _, _, _, createProgram, _, _⟩ := a
  cases createProgram <;> rfl

/-- INTERNAL: a frame leaves what there is. -/
theorem perform_frame (a : GraphicsAnswers) {step : RendererStep} (hstep : IsFrameStep step) :
    (a.perform step (constructed a)).1 = constructed a := by
  rcases hstep with rfl | rfl <;> rfl

/-- INTERNAL: a whole life, as it is meant. -/
theorem mean_lifetime (a : GraphicsAnswers) {use : RendererCode} (huse : use.Uses IsFrameStep) :
    (rendererLifetime use).mean a.perform guardWanted Graphics.none =
      if ConstructorThrows a then some (.threw, unwound a)
      else (use.mean a.perform guardWanted (constructed a)).map fun r => (r.1, Graphics.none) := by
  rw [rendererLifetime, Scoped.mean, mean_constructor]
  cases hthrows : ConstructorThrows a with
  | true => rfl
  | false =>
    simp only [Bool.false_eq_true, if_false, Option.bind_some, reduceCtorEq, Scoped.mean]
    cases hused : use.mean a.perform guardWanted (constructed a) with
    | none => rfl
    | some r =>
      have hframe : ∀ step, IsFrameStep step → ∀ s, s = constructed a → (a.perform step s).1 = constructed a := by
        rintro step hstep s rfl
        exact perform_frame a hstep
      have hkept : r.2 = constructed a := Scoped.mean_keeps (I := fun s => s = constructed a) hframe huse rfl hused
      simp only [Option.bind_some, guardWanted, if_true, Option.map_some]
      rw [hkept, mean_destructor]
      rfl

end Mccpp.Analysis
