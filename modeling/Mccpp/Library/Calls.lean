import Mccpp.Library.PartialRun

/-!
# Calls that wait

Code that calls other code, returns or throws, and waits for things that happen outside, with data that
all of it shares. `Calls` is its meaning as a stack of calls: whoever has called is put away until the
call has returned or thrown, and where the innermost call waits, all of them do.

A call of the kind that returns nothing has the value `nothing`, whatever it returns.
-/

set_option autoImplicit false

namespace Mccpp.Library

/-- What code does next: it returns, throws, calls other code and goes on with how that ended, or it
goes on once it need not wait for `l` any more. -/
inductive Turn (S V E C L : Type) where
  | returns (v : V)
  | throws (e : E)
  | calls (c : C) (next : Except E V → S)
  | waits (l : L) (next : S)

/-- The same, where the states are those of a part of the code. -/
def Turn.map {S T V E C L : Type} (f : S → T) : Turn S V E C L → Turn T V E C L
  | .returns v => .returns v
  | .throws e => .throws e
  | .calls c next => .calls c fun result => f (next result)
  | .waits l next => .waits l (f next)

/-- Code whose calls have the states `S`: what a call does in a state, which may also stop everything,
and what it does to the data to wait. -/
structure Code (σ S V E C L H : Type) where
  start : C → S
  /-- The calls that return nothing. -/
  isVoid : C → Bool
  nothing : V
  turn : S → σ → Except H (Turn S V E C L × σ)
  /-- There is no need to wait. -/
  ready : L → σ → Bool
  suspend : L → σ → Except H σ

/-- Someone who has called: whether it returns nothing itself, and how it goes on. -/
structure Caller (S V E : Type) where
  isVoid : Bool
  next : Except E V → S

/-- Where the calls are. -/
inductive Control (S V E : Type) where
  | running (isVoid : Bool) (s : S) (callers : List (Caller S V E))
  | waiting (isVoid : Bool) (s : S) (callers : List (Caller S V E))
  | ended (result : Except E V)

/-- The calls in progress, and the data. -/
structure Calls (σ S V E : Type) where
  control : Control S V E
  data : σ

/-- A turn of whoever is running, or something outside that changes the data and ends the waiting. -/
inductive CallAction (σ : Type) where
  | turn
  | deliver (change : σ → σ)

namespace Calls

variable {σ S V E C L H : Type} (code : Code σ S V E C L H)

/-- The call `c` is all there is. -/
def launch (c : C) (data : σ) : Calls σ S V E := ⟨.running (code.isVoid c) (code.start c) [], data⟩

/-- The value of a call. -/
def valueOf (isVoid : Bool) (v : V) : V := if isVoid then code.nothing else v

/-- A call has ended in this way. -/
def back (data : σ) (result : Except E V) : List (Caller S V E) → Calls σ S V E
  | [] => ⟨.ended result, data⟩
  | caller :: callers => ⟨.running caller.isVoid (caller.next result) callers, data⟩

/-- What whoever is running does. -/
def step (calls : Calls σ S V E) : Except H (Calls σ S V E) :=
  match calls.control with
  | .waiting _ _ _ | .ended _ => .ok calls
  | .running isVoid s callers =>
    match code.turn s calls.data with
    | .error h => .error h
    | .ok (.returns v, data) => .ok (back data (.ok (valueOf code isVoid v)) callers)
    | .ok (.throws e, data) => .ok (back data (.error e) callers)
    | .ok (.calls c next, data) =>
      .ok ⟨.running (code.isVoid c) (code.start c) (⟨isVoid, next⟩ :: callers), data⟩
    | .ok (.waits l next, data) =>
      if code.ready l data then .ok ⟨.running isVoid next callers, data⟩
      else (code.suspend l data).map fun data => ⟨.waiting isVoid next callers, data⟩

/-- The change that ends the waiting. -/
def deliver (change : σ → σ) (calls : Calls σ S V E) : Option (Calls σ S V E) :=
  match calls.control with
  | .waiting isVoid s callers => some ⟨.running isVoid s callers, change calls.data⟩
  | .running _ _ _ | .ended _ => none

/-- One action; there is none once everything has stopped. -/
def act : Except H (Calls σ S V E) → CallAction σ → Option (Except H (Calls σ S V E))
  | .error _, _ => none
  | .ok calls, .turn => some (calls.step code)
  | .ok calls, .deliver change => (calls.deliver change).map .ok

/-- `n` turns. -/
def turns : ℕ → Calls σ S V E → Except H (Calls σ S V E)
  | 0, calls => .ok calls
  | n + 1, calls => (calls.step code).bind fun calls => turns n calls

/-! ## Single turns -/

section Turns

variable {isVoid : Bool} {s : S} {callers : List (Caller S V E)} {data data' : σ}

theorem step_error {h : H} (hturn : code.turn s data = .error h) :
    step code ⟨.running isVoid s callers, data⟩ = .error h := by
  unfold step
  dsimp only
  rw [hturn]

theorem step_returns {v : V} (h : code.turn s data = .ok (.returns v, data')) :
    step code ⟨.running isVoid s callers, data⟩ =
      .ok (back data' (.ok (valueOf code isVoid v)) callers) := by
  unfold step
  dsimp only
  rw [h]

theorem step_throws {e : E} (h : code.turn s data = .ok (.throws e, data')) :
    step code ⟨.running isVoid s callers, data⟩ = .ok (back data' (.error e) callers) := by
  unfold step
  dsimp only
  rw [h]

theorem step_calls {c : C} {next : Except E V → S} (h : code.turn s data = .ok (.calls c next, data')) :
    step code ⟨.running isVoid s callers, data⟩ =
      .ok ⟨.running (code.isVoid c) (code.start c) (⟨isVoid, next⟩ :: callers), data'⟩ := by
  unfold step
  dsimp only
  rw [h]

theorem step_waits {l : L} {next : S} (h : code.turn s data = .ok (.waits l next, data')) :
    step code ⟨.running isVoid s callers, data⟩ =
      if code.ready l data' then .ok ⟨.running isVoid next callers, data'⟩
      else (code.suspend l data').map fun data => ⟨.waiting isVoid next callers, data⟩ := by
  unfold step
  dsimp only
  rw [h]

end Turns

end Calls

end Mccpp.Library
