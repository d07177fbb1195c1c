import Mathlib.Data.Set.Finite.Basic
import Mathlib.Data.Fintype.Order
import Mccpp.Library.PartialRun
import Mccpp.Library.Reachability
import Mccpp.Model.Loading

/-!
# Loading as a depth-first search

The resources and their dependencies form a graph, which loading searches depth first: what is
loaded is finished, what is on the list is in progress. `Begins` are the calls that a program makes
that gets one resource after another, the calls of the constructors included; `DepthFirst` is what
such a call does.
-/

set_option autoImplicit false

namespace Mccpp.Interface

open Mccpp.Library Mccpp.Model.Loading

variable {τ ε : Type}

/-- The second is a dependency of the first. -/
def Needs (constructors : StorageKey τ → Constructor τ ε) (key dep : StorageKey τ) : Prop :=
  dep ∈ (constructors key).dependencies

/-- The resources that are loaded. -/
def loaded (m : Manager τ) : Set (StorageKey τ) := {key | m.mResources key ≠ none}

/-- A resource that is not loaded, and one of its dependencies. -/
def Pending (constructors : StorageKey τ → Constructor τ ε) (m : Manager τ) :
    StorageKey τ → StorageKey τ → Prop := Outside (Needs constructors) (loaded m)

/-- The resources with dependencies. -/
def dependent (constructors : StorageKey τ → Constructor τ ε) : Set (StorageKey τ) :=
  {key | (constructors key).dependencies ≠ []}

/-- The keys of the calls that are running. -/
def inProgressKeys (m : Manager τ) : List (StorageKey τ) := m.mInitList.map InitItem.key

/-- The calls of `get` in the runs of a program that gets resources again and again, whether the
calls throw or not, with the `fuel` they are made with: the calls of the program, and those of the
constructors that these run. -/
inductive Begins [DecidableEq τ] (constructors : StorageKey τ → Constructor τ ε) (depth : ℕ) :
    ℕ → Manager τ → StorageKey τ → Prop where
  | outer (calls : List (StorageKey τ)) (m : Manager τ) (key : StorageKey τ) :
      runActions (topLevel constructors depth) .init calls = some m →
      Begins constructors depth depth m key
  | inner (fuel : ℕ) (m m' : Manager τ) (key dep : StorageKey τ)
      (before after : List (StorageKey τ)) (handles : List (Option ℕ)) :
      Begins constructors depth (fuel + 1) m key →
      m.mResources key = none → m.inProgress key = false →
      (constructors key).dependencies = before ++ dep :: after →
      getDependencies (get constructors fuel) before (m.emplaceFront key).2 =
        some (.returned handles, m') →
      Begins constructors depth fuel m' dep

/-- What a call of `get` for `key` does to the manager `m`. -/
structure DepthFirst (constructors : StorageKey τ → Constructor τ ε) (m : Manager τ)
    (key : StorageKey τ) (outcome : Outcome ε (Option ℕ)) (m' : Manager τ) : Prop where
  /-- The list of resources in progress is what it was. -/
  initList : m'.mInitList = m.mInitList
  /-- No two resources that were ever made have the same key. -/
  constructedOnce : (m'.objects.map Resource.key).Nodup
  /-- No pointer that was handed out changes. -/
  kept : ∀ k res, m.mResources k = some res → m'.mResources k = some res
  /-- What is loaded is returned. -/
  same : ∀ res, m.mResources key = some res → outcome = .returned (some res) ∧ m' = m
  /-- What is returned is a resource of this key, which is loaded from now on. -/
  found : ∀ p, outcome = .returned p → ∃ res, p = some res ∧ m'.mResources key = some res ∧
    (m'.objects[res]?).map Resource.key = some key
  /-- The assertion holds. -/
  asserted : outcome ≠ .assertionFailed
  /-- A cycle is only detected where there is one. -/
  cycleAhead : outcome = .thrown resourceCycleDetected → CycleAhead (Pending constructors m) key
  /-- Where there is one, the call throws. -/
  cycleThrows : CycleAhead (Pending constructors m) key → ∃ e, outcome = .thrown e
  /-- Where no constructor on the way throws an exception of its own, exactly the cycles are
  detected. -/
  cycleDetected : (∀ k, Relation.ReflTransGen (Pending constructors m) key k →
      (constructors k).failure = none) →
    (outcome = .thrown resourceCycleDetected ↔ CycleAhead (Pending constructors m) key)
  /-- An exception of a constructor is that of a resource on the way. -/
  failed : ∀ e, outcome = .thrown (.ownException e) →
    ∃ k, Relation.ReflTransGen (Pending constructors m) key k ∧ (constructors k).failure = some e

end Mccpp.Interface
