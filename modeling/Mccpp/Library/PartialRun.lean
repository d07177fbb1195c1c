import Mathlib.Algebra.GroupWithZero.Nat
import Mathlib.Data.List.Basic

/-!
# Runs of a partial step function

A system is given by a step function `step : S → A → Option S`: an action that is not
allowed in a state has no successor. `runActions` performs a list of actions, and the two
rules below are the only inductions over such runs anything else needs: what one step
preserves a run preserves (`runActions_invariant`), and two systems whose steps agree
through a map agree on whole runs (`runActions_map`).
-/

set_option autoImplicit false

namespace Mccpp.Library

variable {S T A : Type}

/-- Performs the actions one after another; `none` as soon as one of them is not allowed. -/
def runActions (step : S → A → Option S) : S → List A → Option S
  | s, [] => some s
  | s, a :: as => (step s a).bind fun s' => runActions step s' as

@[simp] theorem runActions_nil (step : S → A → Option S) (s : S) :
    runActions step s [] = some s := rfl

theorem runActions_cons (step : S → A → Option S) (s : S) (a : A) (as : List A) :
    runActions step s (a :: as) = (step s a).bind fun s' => runActions step s' as := rfl

/-- INTERNAL: **invariant rule**. What every allowed step preserves, every run preserves. -/
theorem runActions_invariant (step : S → A → Option S) (Inv : S → Prop)
    (hstep : ∀ s a s', Inv s → step s a = some s' → Inv s') (s s' : S) (as : List A)
    (hs : Inv s) (hrun : runActions step s as = some s') : Inv s' := by
  induction as generalizing s with
  | nil =>
    rw [runActions_nil, Option.some.injEq] at hrun
    exact hrun ▸ hs
  | cons a as ih =>
    rw [runActions_cons, Option.bind_eq_some_iff] at hrun
    obtain ⟨t, hst, hrest⟩ := hrun
    exact ih t (hstep s a t hs hst) hrest

/-- INTERNAL: **bisimulation rule**. When, in every state related to its image and with
enough `budget` left for the action, a step of the first system is mapped by `abs` to the
step of the second and the relation survives, then so do runs whose actions together cost
no more than the budget. -/
theorem runActions_map (step : S → A → Option S) (step' : T → A → Option T) (abs : S → T)
    (cost : A → ℕ) (Rel : ℕ → S → Prop)
    (hstep : ∀ n s a, Rel (n + cost a) s → (step s a).map abs = step' (abs s) a)
    (hrel : ∀ n s a s', Rel (n + cost a) s → step s a = some s' → Rel n s')
    (n : ℕ) (s : S) (as : List A) (hs : Rel (n + (as.map cost).sum) s) :
    (runActions step s as).map abs = runActions step' (abs s) as ∧
      ∀ s', runActions step s as = some s' → Rel n s' := by
  induction as generalizing s with
  | nil => exact ⟨rfl, fun s' h => by cases h; simpa using hs⟩
  | cons a as ih =>
    have hs' : Rel (n + (as.map cost).sum + cost a) s := by
      simpa [Nat.add_assoc, Nat.add_comm (cost a)] using hs
    have h1 := hstep _ s a hs'
    rw [runActions_cons, runActions_cons, ← h1]
    cases hst : step s a with
    | none => exact ⟨rfl, fun s' h => by cases h⟩
    | some t => exact ih t (hrel _ s a t hs' hst)

/-! ## Properties along a run -/

/-- `P` holds in every state of the run, as far as it goes. -/
def Throughout (step : S → A → Option S) (P : S → Prop) : S → List A → Prop
  | s, [] => P s
  | s, a :: as => P s ∧ ∀ s', step s a = some s' → Throughout step P s' as

/-- `Q` holds of every step of the run, as far as it goes. -/
def EachStep (step : S → A → Option S) (Q : S → A → Prop) : S → List A → Prop
  | _, [] => True
  | s, a :: as => ∀ s', step s a = some s' → Q s a ∧ EachStep step Q s' as

/-- INTERNAL: a property that a step keeps exactly under a condition holds throughout a run exactly when
every step meets the condition. -/
theorem throughout_iff_eachStep (step : S → A → Option S) (Inv P : S → Prop) (Q : S → A → Prop)
    (hinv : ∀ s a s', Inv s → step s a = some s' → Inv s')
    (hstep : ∀ s a s', Inv s → P s → step s a = some s' → (P s' ↔ Q s a)) (s : S) (as : List A)
    (hs : Inv s) (hP : P s) : Throughout step P s as ↔ EachStep step Q s as := by
  induction as generalizing s with
  | nil => exact iff_of_true hP trivial
  | cons a as ih =>
    rw [Throughout, EachStep, and_iff_right hP]
    apply forall_congr'
    intro s'
    apply imp_congr_right
    intro hnext
    have hkept := hstep s a s' hs hP hnext
    constructor
    · intro hrest
      have hP' : P s' := by
        cases as with
        | nil => exact hrest
        | cons b bs => exact hrest.1
      exact ⟨hkept.mp hP', (ih s' (hinv s a s' hs hnext) hP').mp hrest⟩
    · rintro ⟨hQ, hrest⟩
      exact (ih s' (hinv s a s' hs hnext) (hkept.mpr hQ)).mpr hrest

end Mccpp.Library
