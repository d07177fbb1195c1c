import Mccpp.Model.Coroutine

/-!
# The frames of calls

The frames of a task are a stack of calls: each frame awaits the one that it has called, whose promise
resumes it, down to the root. There are no other frames (`Stacked`), and `Implements` says of the tasks
as a whole that they are where the calls are.
-/

set_option autoImplicit false

namespace Mccpp.Interface

open Mccpp.Library Mccpp.Model

variable {σ S V E C L H : Type}

/-- The frames of the callers of `child`, whose promise resumes `link`. The handles are those of the
callers, the root is `0`, and a frame is older than what it has called. -/
inductive Chain (frames : ℕ → Option (Frame S V E)) :
    ℕ → Option ℕ → List (Caller S V E) → List ℕ → Prop where
  | root : Chain frames 0 none [] []
  | caller (child parent : ℕ) (caller : Caller S V E) (link : Option ℕ)
      (callers : List (Caller S V E)) (handles : List ℕ) (hlt : parent < child)
      (hframe : frames parent = some ⟨.awaiting child caller.next, caller.isVoid, link, none, none⟩)
      (hchain : Chain frames parent link callers handles) :
      Chain frames child (some parent) (caller :: callers) (parent :: handles)

/-- The frame `h` is in this place, its callers have theirs, and there are no others. -/
def Stacked (m : Tasks σ S V E) (h : ℕ) (place : Place S V E) (isVoid : Bool)
    (callers : List (Caller S V E)) : Prop :=
  ∃ link handles, m.frames h = some ⟨place, isVoid, link, none, none⟩ ∧
    Chain m.frames h link callers handles ∧ h < m.free ∧
    ∀ i, (m.frames i).isSome → i ∈ h :: handles

/-- **The tasks are the calls**: what runs is the innermost call, what waits has its handle with the
buffer, and behind the end of all calls the root has their result. -/
def Implements (code : Code σ S V E C L H) (m : Tasks σ S V E) (calls : Calls σ S V E) : Prop :=
  m.data = calls.data ∧
    match calls.control with
    | .running isVoid s callers =>
      m.mResume = none ∧ ∃ h, m.control = some (h, s) ∧ Stacked m h .running isVoid callers
    | .waiting isVoid s callers =>
      m.control = none ∧ ∃ h, m.mResume = some h ∧ Stacked m h (.suspended s) isVoid callers
    | .ended result =>
      m.control = none ∧ m.mResume = none ∧ 0 < m.free ∧
        m.awaitResume (H := H) code 0 = .ok result ∧ ∀ i, (m.frames i).isSome → i = 0

/-- The tasks are the calls, or both were stopped by the code. -/
def ImplementsOrStopped (code : Code σ S V E C L H) :
    Except (TaskHalt H) (Tasks σ S V E) → Except H (Calls σ S V E) → Prop
  | .ok m, .ok calls => Implements code m calls
  | .error e, .error h => e = .own h
  | .ok _, .error _ | .error _, .ok _ => False

end Mccpp.Interface
