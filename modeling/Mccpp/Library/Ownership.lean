import Mathlib.Order.Basic

/-!
# Exclusive ownership

Holders hold places, of which some are live. Ownership is exclusive when every place that is held is
live and has one holder only. It is kept when holders hand places over to each other
(`Exclusive.handOver`), and when one of them acquires a place that was not live (`Exclusive.acquire`).
-/

set_option autoImplicit false

namespace Mccpp.Library

variable {H P : Type} {live live' : P → Prop} {holds holds' : H → P → Prop}

/-- What is held is live, and held by one holder only. -/
structure Exclusive (live : P → Prop) (holds : H → P → Prop) : Prop where
  live_of_holds : ∀ h p, holds h p → live p
  unique : ∀ h h' p, holds h p → holds h' p → h = h'

/-- INTERNAL: **places are handed over**. Each is held by nobody but the holder that `heir` names for the
one that held it. -/
theorem Exclusive.handOver (hexclusive : Exclusive live holds) (heir : H → P → H)
    (hfrom : ∀ h p, holds' h p → ∃ k, holds k p ∧ heir k p = h)
    (hlive : ∀ h p, holds' h p → live' p) : Exclusive live' holds' where
  live_of_holds := hlive
  unique h h' p hh hh' := by
    obtain ⟨k, hk, rfl⟩ := hfrom h p hh
    obtain ⟨k', hk', rfl⟩ := hfrom h' p hh'
    rw [hexclusive.unique k k' p hk hk']

/-- INTERNAL: **a new place is acquired**. -/
theorem Exclusive.acquire (hexclusive : Exclusive live holds) {g : H} {new : P} (hnew : ¬ live new)
    (hfrom : ∀ h p, holds' h p → holds h p ∨ h = g ∧ p = new)
    (hlive : ∀ h p, holds' h p → live' p) : Exclusive live' holds' where
  live_of_holds := hlive
  unique h h' p hh hh' := by
    rcases hfrom h p hh with hold | ⟨rfl, rfl⟩
    · rcases hfrom h' p hh' with hold' | ⟨rfl, rfl⟩
      · exact hexclusive.unique h h' p hold hold'
      · exact absurd (hexclusive.live_of_holds h p hold) hnew
    · rcases hfrom h' p hh' with hold' | ⟨rfl, _⟩
      · exact absurd (hexclusive.live_of_holds h' p hold') hnew
      · rfl

end Mccpp.Library
