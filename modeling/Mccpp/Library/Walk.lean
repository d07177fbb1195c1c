import Mathlib.Logic.Relation

/-!
# Walks

A loop moves a state along a relation `R`. A walk from `s` to `t` is such a sequence of moves of
which each starts at a state with the property `P`. Where the relation leaves no choice and `t`
has nowhere to go, a walk from `s` to `t` meets every state that can be reached from `s` at all
(`Walk.all_reached`), so that one walk says both how the loop ends and what holds on the way.
-/

set_option autoImplicit false

namespace Mccpp.Library

variable {S : Type} {R : S → S → Prop} {P : S → Prop}

/-- Moves along `R` from states with the property `P`. -/
inductive Walk (R : S → S → Prop) (P : S → Prop) : S → S → Prop where
  | stay (s : S) : Walk R P s s
  | move {s u t : S} (holds : P s) (moves : R s u) (rest : Walk R P u t) : Walk R P s t

/-- INTERNAL: walks are put together. -/
theorem Walk.trans {s u t : S} (hfirst : Walk R P s u) (hrest : Walk R P u t) : Walk R P s t := by
  induction hfirst with
  | stay s => exact hrest
  | move holds moves _ ih => exact .move holds moves (ih hrest)

/-- INTERNAL: **a walk to the end meets every state**. Without choice, what is reached from the
start of a walk to a last state is the last state or lies on the walk. -/
theorem Walk.all_reached {s t : S} (hwalk : Walk R P s t)
    (hunique : ∀ a b c, R a b → R a c → b = c) (hlast : ∀ u, ¬R t u) {u : S}
    (hreached : Relation.ReflTransGen R s u) : P u ∨ u = t := by
  induction hwalk with
  | stay s =>
    rcases Relation.ReflTransGen.cases_head hreached with heq | ⟨v, hmove, _⟩
    · exact Or.inr heq.symm
    · exact absurd hmove (hlast v)
  | move holds moves rest ih =>
    rcases Relation.ReflTransGen.cases_head hreached with heq | ⟨v, hmove, hthen⟩
    · subst heq
      exact Or.inl holds
    · rw [hunique _ _ _ hmove moves] at hthen
      exact ih hlast hthen

end Mccpp.Library
