import Mccpp.Library.Pull

/-!
# Programs in lockstep

Two programs that pull the same symbols at the same time and differ in their results alone, by a
relation between the results. A run of one is a run of the other.
-/

set_option autoImplicit false

namespace Mccpp.Library

namespace Pull

variable {ι α β γ δ : Type}

/-- The programs pull alike, and where one ends the other does, in related results. -/
inductive Lockstep (R : α → β → Prop) : Pull ι α → Pull ι β → Prop
  | done {a : α} {b : β} (h : R a b) : Lockstep R (.done a) (.done b)
  | pull {k : ι → Pull ι α} {k' : ι → Pull ι β} (h : ∀ x, Lockstep R (k x) (k' x)) :
      Lockstep R (.pull k) (.pull k')

/-- INTERNAL: **sequencing**. -/
theorem Lockstep.bind {R : α → β → Prop} {S : γ → δ → Prop} {t : Pull ι α} {u : Pull ι β}
    {f : α → Pull ι γ} {g : β → Pull ι δ} (h : Lockstep R t u)
    (hfg : ∀ a b, R a b → Lockstep S (f a) (g b)) : Lockstep S (t.bind f) (u.bind g) := by
  induction h with
  | done h => exact hfg _ _ h
  | pull _ ih => exact .pull ih

theorem Lockstep.symm {R : α → β → Prop} {t : Pull ι α} {u : Pull ι β} (h : Lockstep R t u) :
    Lockstep (fun b a => R a b) u t := by
  induction h with
  | done h => exact .done h
  | pull _ ih => exact .pull ih

/-- INTERNAL: **a run of one is a run of the other**. -/
theorem Lockstep.run {R : α → β → Prop} {t : Pull ι α} {u : Pull ι β} (h : Lockstep R t u)
    {xs rest : List ι} {a : α} (hrun : t.run xs = some (a, rest)) :
    ∃ b, u.run xs = some (b, rest) ∧ R a b := by
  induction h generalizing xs with
  | done h =>
    cases hrun
    exact ⟨_, rfl, h⟩
  | pull _ ih =>
    cases xs with
    | nil => cases hrun
    | cons x xs => exact ih x hrun

end Pull

end Mccpp.Library
