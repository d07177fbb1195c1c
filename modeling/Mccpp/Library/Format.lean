import Mathlib.Data.List.Forall2

/-!
# Formats

A `Format ι ε α` says which strings of symbols spell which values and which strings a reader
cannot get through, without saying how they are read. `Spells us a`: the string `us`, and no
more of the input than that, is the value `a`. `Breaks bs e`: a reader that is given `bs` and
nothing behind it breaks down in the way `e`, for instance because `bs` ends inside a field.
An input that neither starts with a value nor breaks a reader is refused by it.

Formats are put together as readers are (`bind`, `times`), so that a format can be written
down beside a reader and compared with it step by step.
-/

set_option autoImplicit false

namespace Mccpp.Library

/-- What a string of symbols can be to a reader of values of type `α`. -/
structure Format (ι ε α : Type) where
  Spells : List ι → α → Prop
  Breaks : List ι → ε → Prop

namespace Format

variable {ι ε α β : Type}

/-- A format is contained in another when all it says holds of the other. -/
structure Within (F G : Format ι ε α) : Prop where
  spells : ∀ bs a, F.Spells bs a → G.Spells bs a
  breaks : ∀ bs e, F.Breaks bs e → G.Breaks bs e

/-- A value that takes no symbols. -/
def pure (a : α) : Format ι ε α where
  Spells bs b := bs = [] ∧ b = a
  Breaks _ _ := False

/-- No value at all: every input is refused. -/
def refuse : Format ι ε α where
  Spells _ _ := False
  Breaks _ _ := False

/-- No value at all: every input breaks the reader. -/
def breakdown (e : ε) : Format ι ε α where
  Spells _ _ := False
  Breaks _ e' := e' = e

/-- One symbol; an empty input breaks the reader. -/
def symbol (cut : ε) : Format ι ε ι where
  Spells bs x := bs = [x]
  Breaks bs e := e = cut ∧ bs = []

/-- A string of `k` symbols; an input that is shorter breaks the reader. -/
def symbols (cut : ε) (k : ℕ) : Format ι ε (List ι) where
  Spells bs a := a = bs ∧ bs.length = k
  Breaks bs e := e = cut ∧ bs.length < k

/-- The same strings under other values. -/
def map (f : α → β) (F : Format ι ε α) : Format ι ε β where
  Spells bs b := ∃ a, F.Spells bs a ∧ f a = b
  Breaks := F.Breaks

/-- The same strings for the same values, and nothing breaks a reader. -/
def unbroken {ε' : Type} (F : Format ι ε α) : Format ι ε' α where
  Spells := F.Spells
  Breaks _ _ := False

/-- A value, and behind it another whose format it selects. -/
def bind (F : Format ι ε α) (G : α → Format ι ε β) : Format ι ε β where
  Spells bs b := ∃ us vs a, bs = us ++ vs ∧ F.Spells us a ∧ (G a).Spells vs b
  Breaks bs e := F.Breaks bs e ∨ ∃ us vs a, bs = us ++ vs ∧ F.Spells us a ∧ (G a).Breaks vs e

/-- `n` values. -/
def times : ℕ → Format ι ε α → Format ι ε (List α)
  | 0, _ => pure []
  | n + 1, F => F.bind fun a => (times n F).map (a :: ·)

/-- INTERNAL: `n` values are `n` strings, one behind the other. -/
theorem times_spells (n : ℕ) (F : Format ι ε α) (bs : List ι) (as : List α) :
    (times n F).Spells bs as ↔
      ∃ bss : List (List ι), bs = bss.flatten ∧ List.Forall₂ F.Spells bss as ∧ as.length = n := by
  induction n generalizing bs as with
  | zero =>
    constructor
    · rintro ⟨rfl, rfl⟩
      exact ⟨[], rfl, .nil, rfl⟩
    · rintro ⟨bss, rfl, hforall, hlen⟩
      obtain rfl := List.length_eq_zero_iff.mp hlen
      cases hforall
      exact ⟨rfl, rfl⟩
  | succ n ih =>
    constructor
    · rintro ⟨us, vs, a, rfl, hhead, as, htail, rfl⟩
      obtain ⟨bss, rfl, hforall, rfl⟩ := (ih vs as).mp htail
      exact ⟨us :: bss, rfl, .cons hhead hforall, rfl⟩
    · rintro ⟨bss, rfl, hforall, hlen⟩
      cases hforall with
      | nil => cases hlen
      | @cons us a bss as hhead htail =>
        refine ⟨us, bss.flatten, a, rfl, hhead, as, ?_, rfl⟩
        exact (ih _ _).mpr ⟨bss, rfl, htail, Nat.succ.inj hlen⟩

/-- INTERNAL: `n` values break a reader behind fewer than `n` of them. -/
theorem times_breaks (n : ℕ) (F : Format ι ε α) (bs : List ι) (e : ε) :
    (times n F).Breaks bs e ↔
      ∃ us vs as m, bs = us ++ vs ∧ m < n ∧ (times m F).Spells us as ∧ F.Breaks vs e := by
  induction n generalizing bs with
  | zero =>
    constructor
    · exact False.elim
    · rintro ⟨_, _, _, m, _, hm, _⟩
      omega
  | succ n ih =>
    constructor
    · rintro (hbreak | ⟨us, vs, a, rfl, hhead, htail⟩)
      · exact ⟨[], bs, [], 0, rfl, Nat.succ_pos n, ⟨rfl, rfl⟩, hbreak⟩
      · obtain ⟨us', vs', as, m, rfl, hm, hspell, hbreak⟩ := (ih vs).mp htail
        refine ⟨us ++ us', vs', a :: as, m + 1, (List.append_assoc _ _ _).symm,
          Nat.succ_lt_succ hm, ?_, hbreak⟩
        exact ⟨us, us', a, rfl, hhead, as, hspell, rfl⟩
    · rintro ⟨us, vs, as, m, rfl, hm, hspell, hbreak⟩
      cases m with
      | zero =>
        obtain ⟨rfl, rfl⟩ := hspell
        exact Or.inl hbreak
      | succ m =>
        obtain ⟨us, us', a, rfl, hhead, as, hspell, rfl⟩ := hspell
        refine Or.inr ⟨us, us' ++ vs, a, List.append_assoc _ _ _, hhead, ?_⟩
        exact (ih _).mpr ⟨us', vs, as, m, rfl, Nat.lt_of_succ_lt_succ hm, hspell, hbreak⟩

end Format

end Mccpp.Library
