import Mathlib.Data.Nat.Notation
import Mathlib.Tactic.SplitIfs

/-!
# Scopes and guards

Code that throws, catches and returns, with guards that call something back when the scope they stand in is
left. A guard cannot see how that happens: all it knows is how many exceptions were in flight when it was
made, and how many are now. `run` is the code with this count, `mean` is what is meant by it, where every
guard is told how its scope is left. They agree when a guard that sees one exception more does what it is
to do for an exception, and one that sees as many what it is to do for none (`run_eq_mean`).

Callbacks are code of the same kind; one that throws ends everything. What all actions of some code keep,
the code keeps (`mean_keeps`).
-/

set_option autoImplicit false

namespace Mccpp.Library

/-- How code is left. -/
inductive Leaving where
  | normal
  | returned
  | threw
deriving DecidableEq, Repr

/-- Code of actions `A` with guards of the kinds `G`. -/
inductive Scoped (G A : Type) where
  | done
  | act (a : A) (rest : Scoped G A)
  /-- The guard stands to the end of the scope. -/
  | guarded (g : G) (callback rest : Scoped G A)
  /-- A function is called, with a scope of its own. -/
  | call (body rest : Scoped G A)
  /-- What `body` throws is caught by `handler`. -/
  | attempt (body handler rest : Scoped G A)
  | leave
  | throw

namespace Scoped

variable {G A σ : Type}

section

variable (perform : A → σ → σ × Bool)

/-- The code with `n` exceptions in flight; `perform` says whether an action throws, and `runs` whether a
guard calls back, by the numbers of exceptions in flight when it was made and now. -/
def run (runs : G → ℕ → ℕ → Bool) : Scoped G A → ℕ → σ → Option (Leaving × ℕ × σ)
  | done, n, s => some (.normal, n, s)
  | act a rest, n, s =>
    if (perform a s).2 then some (.threw, n + 1, (perform a s).1) else run runs rest n (perform a s).1
  | guarded g callback rest, n, s =>
    (run runs rest n s).bind fun r =>
      if runs g n r.2.1 then
        (run runs callback r.2.1 r.2.2).bind fun called =>
          if called.1 = .threw then none else some (r.1, called.2)
      else some r
  | call body rest, n, s =>
    (run runs body n s).bind fun r => if r.1 = .threw then some r else run runs rest r.2.1 r.2.2
  | attempt body handler rest, n, s =>
    (run runs body n s).bind fun r =>
      match r.1 with
      | .normal => run runs rest r.2.1 r.2.2
      | .returned => some r
      | .threw =>
        (run runs handler (r.2.1 - 1) r.2.2).bind fun r =>
          if r.1 = .normal then run runs rest r.2.1 r.2.2 else some r
  | leave, n, s => some (.returned, n, s)
  | throw, n, s => some (.threw, n + 1, s)

/-- The code as it is meant; `wanted` says whether a guard calls back when an exception leaves its scope, and
when none does. -/
def mean (wanted : G → Bool → Bool) : Scoped G A → σ → Option (Leaving × σ)
  | done, s => some (.normal, s)
  | act a rest, s => if (perform a s).2 then some (.threw, (perform a s).1) else mean wanted rest (perform a s).1
  | guarded g callback rest, s =>
    (mean wanted rest s).bind fun r =>
      if wanted g (r.1 = .threw) then
        (mean wanted callback r.2).bind fun called =>
          if called.1 = .threw then none else some (r.1, called.2)
      else some r
  | call body rest, s => (mean wanted body s).bind fun r => if r.1 = .threw then some r else mean wanted rest r.2
  | attempt body handler rest, s =>
    (mean wanted body s).bind fun r =>
      match r.1 with
      | .normal => mean wanted rest r.2
      | .returned => some r
      | .threw =>
        (mean wanted handler r.2).bind fun r => if r.1 = .normal then mean wanted rest r.2 else some r
  | leave, s => some (.returned, s)
  | throw, s => some (.threw, s)

end

/-- The exceptions that are in flight where code is left. -/
def inFlight (n : ℕ) : Leaving → ℕ
  | .threw => n + 1
  | _ => n

/-- What `mean` says, with the count. -/
def counted (n : ℕ) (r : Leaving × σ) : Leaving × ℕ × σ := (r.1, inFlight n r.1, r.2)

variable {perform : A → σ → σ × Bool} {runs : G → ℕ → ℕ → Bool} {wanted : G → Bool → Bool}

/-- INTERNAL: a guard sees from the count how its scope is left. -/
theorem runs_inFlight (hnone : ∀ g n, runs g n n = wanted g false) (hone : ∀ g n, runs g n (n + 1) = wanted g true)
    (g : G) (n : ℕ) (left : Leaving) : runs g n (inFlight n left) = wanted g (left = .threw) := by
  cases left with
  | normal => exact hnone g n
  | returned => exact hnone g n
  | threw => exact hone g n

/-- INTERNAL: **counting is enough**, by induction on the code: callbacks and handlers start with another
count than the guards around them, and leave it as it was unless they throw. -/
theorem run_eq_mean (hnone : ∀ g n, runs g n n = wanted g false)
    (hone : ∀ g n, runs g n (n + 1) = wanted g true) (c : Scoped G A) (n : ℕ) (s : σ) :
    c.run perform runs n s = (c.mean perform wanted s).map (counted n) := by
  induction c generalizing n s with
  | done => rfl
  | leave => rfl
  | throw => rfl
  | act a rest ih =>
    rw [run, mean]
    split_ifs with hthrows
    · rfl
    · exact ih n _
  | guarded g callback rest ihcallback ih =>
    rw [run, mean, ih]
    cases hrest : rest.mean perform wanted s with
    | none => rfl
    | some r =>
      obtain ⟨left, s⟩ := r
      simp only [Option.map_some, Option.bind_some, counted, runs_inFlight hnone hone]
      split_ifs with hruns
      · rw [ihcallback]
        cases hcallback : callback.mean perform wanted s with
        | none => rfl
        | some called =>
          obtain ⟨how, s⟩ := called
          cases how <;> rfl
      · rfl
  | call body rest ihbody ih =>
    rw [run, mean, ihbody]
    cases hbody : body.mean perform wanted s with
    | none => rfl
    | some r =>
      obtain ⟨left, s⟩ := r
      cases left with
      | normal => exact ih n s
      | returned => exact ih n s
      | threw => rfl
  | attempt body handler rest ihbody ihhandler ih =>
    rw [run, mean, ihbody]
    cases hbody : body.mean perform wanted s with
    | none => rfl
    | some r =>
      obtain ⟨left, s⟩ := r
      cases left with
      | normal => exact ih n s
      | returned => rfl
      | threw =>
        -- the handler is entered with the exception out of flight
        simp only [Option.map_some, Option.bind_some, counted, inFlight, Nat.add_sub_cancel, ihhandler]
        cases hhandler : handler.mean perform wanted s with
        | none => rfl
        | some r =>
          obtain ⟨left, s⟩ := r
          cases left with
          | normal => exact ih n s
          | returned => rfl
          | threw => rfl

/-- All actions are such. -/
def Uses (p : A → Prop) : Scoped G A → Prop
  | done | leave | throw => True
  | act a rest => p a ∧ Uses p rest
  | guarded _ callback rest => Uses p callback ∧ Uses p rest
  | call body rest => Uses p body ∧ Uses p rest
  | attempt body handler rest => Uses p body ∧ Uses p handler ∧ Uses p rest

/-- INTERNAL: **the invariant rule**, by induction on the code. -/
theorem mean_keeps {p : A → Prop} {I : σ → Prop} (hkeeps : ∀ a, p a → ∀ s, I s → I (perform a s).1)
    {c : Scoped G A} (huses : c.Uses p) {s : σ} (hs : I s) {r : Leaving × σ}
    (hmean : c.mean perform wanted s = some r) : I r.2 := by
  induction c generalizing s r with
  | done =>
    obtain rfl := Option.some.inj hmean
    exact hs
  | leave =>
    obtain rfl := Option.some.inj hmean
    exact hs
  | throw =>
    obtain rfl := Option.some.inj hmean
    exact hs
  | act a rest ih =>
    obtain ⟨ha, hrest⟩ := huses
    rw [mean] at hmean
    split_ifs at hmean with hthrows
    · obtain rfl := Option.some.inj hmean
      exact hkeeps a ha s hs
    · exact ih hrest (hkeeps a ha s hs) hmean
  | guarded g callback rest ihcallback ih =>
    obtain ⟨hcallback, hrest⟩ := huses
    obtain ⟨inner, hinner, hmean⟩ := Option.bind_eq_some_iff.mp hmean
    have hkept := ih hrest hs hinner
    split_ifs at hmean
    · obtain ⟨called, hcalled, hmean⟩ := Option.bind_eq_some_iff.mp hmean
      split_ifs at hmean
      have hlast : I called.2 := ihcallback hcallback hkept hcalled
      obtain rfl := Option.some.inj hmean
      exact hlast
    · obtain rfl := Option.some.inj hmean
      exact hkept
  | call body rest ihbody ih =>
    obtain ⟨hbody, hrest⟩ := huses
    obtain ⟨inner, hinner, hmean⟩ := Option.bind_eq_some_iff.mp hmean
    have hkept := ihbody hbody hs hinner
    split_ifs at hmean
    · obtain rfl := Option.some.inj hmean
      exact hkept
    · exact ih hrest hkept hmean
  | attempt body handler rest ihbody ihhandler ih =>
    obtain ⟨hbody, hhandler, hrest⟩ := huses
    obtain ⟨⟨left, s'⟩, hinner, hmean⟩ := Option.bind_eq_some_iff.mp hmean
    have hkept := ihbody hbody hs hinner
    cases left with
    | normal => exact ih hrest hkept hmean
    | returned =>
      obtain rfl := Option.some.inj hmean
      exact hkept
    | threw =>
      obtain ⟨caught, hcaught, hmean⟩ := Option.bind_eq_some_iff.mp hmean
      have hkept := ihhandler hhandler hkept hcaught
      split_ifs at hmean
      · exact ih hrest hkept hmean
      · obtain rfl := Option.some.inj hmean
        exact hkept

end Scoped

end Mccpp.Library
