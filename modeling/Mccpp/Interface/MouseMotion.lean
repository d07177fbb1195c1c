import Mccpp.Interface.InputFrames

/-!
# Motion of the mouse

The two inputs of an axis balance its motion in a frame when at most one of them is not zero, none is
negative, and their difference is the sum of what the events of the frame say.
-/

set_option autoImplicit false

namespace Mccpp.Interface

open Mccpp.Model

/-- The managers before the first frame: made, and with inputs bound. -/
inductive Configured : InputManager → Prop where
  | create : Configured .create
  | mouseX {m : InputManager} (neg pos : Option InputRef) (h : Configured m) :
      Configured (m.bindMouseX neg pos)
  | mouseY {m : InputManager} (neg pos : Option InputRef) (h : Configured m) :
      Configured (m.bindMouseY neg pos)
  | keyboard {m m' : InputManager} {code : ℕ} {ref : Option InputRef} (h : Configured m)
      (hbind : m.bindKeyboard code ref = .ok m') : Configured m'

/-- The inputs of the mouse. -/
structure MouseInputs where
  xn : InputRef
  xp : InputRef
  yn : InputRef
  yp : InputRef

/-- All of them. -/
def MouseInputs.all (r : MouseInputs) : List InputRef := [r.xn, r.xp, r.yn, r.yp]

/-- They are bound, are four, and no key is bound to one of them. -/
structure MouseBound (m : InputManager) (r : MouseInputs) : Prop where
  xn : m.mouseXN = some r.xn
  xp : m.mouseXP = some r.xp
  yn : m.mouseYN = some r.yn
  yp : m.mouseYP = some r.yp
  distinct : r.all.Nodup
  noKey : ∀ code < InputManager.numScancodes, ∀ ref ∈ r.all, m.keyboard code ≠ some ref

/-! ## Frames -/

/-- A frame with the events that it handles. -/
def runFrame (m : InputManager) (events : List SdlEvent) : Except Failure InputManager := do
  let m ← events.foldlM InputManager.handleEvent m.preEvents
  .ok m.postEvents

/-- Frames one after another, with the state at the end of each; a failed assert ends the run. -/
def runFrames : List (List SdlEvent) → InputManager → Except Failure (List InputManager)
  | [], _ => .ok []
  | events :: frames, m => do
    let m ← runFrame m events
    let ends ← runFrames frames m
    .ok (m :: ends)

/-- `xrel` of a motion. -/
def xrelOf : SdlEvent → ℚ
  | .mouseMotion xrel _ => xrel
  | _ => 0

/-- `yrel` of a motion. -/
def yrelOf : SdlEvent → ℚ
  | .mouseMotion _ yrel => yrel
  | _ => 0

/-- The sum of `xrel`. -/
def xMotion (events : List SdlEvent) : ℚ := (events.map xrelOf).sum

/-- The sum of `yrel`. -/
def yMotion (events : List SdlEvent) : ℚ := (events.map yrelOf).sum

/-- Every key has a scancode that a keyboard can have. -/
def ScancodesFit (events : List SdlEvent) : Prop :=
  ∀ down scancode isRepeat, .key down scancode isRepeat ∈ events →
    scancode < InputManager.numScancodes

/-! ## Balance -/

/-- The values of the two inputs of an axis say how it moved. -/
structure AxisBalanced (neg pos motion : ℚ) : Prop where
  one : neg = 0 ∨ pos = 0
  nonneg : 0 ≤ neg ∧ 0 ≤ pos
  balance : pos - neg = motion

/-- The inputs at the end of a frame say how the mouse has moved in it. -/
structure FrameBalanced (r : MouseInputs) (events : List SdlEvent) (m : InputManager) : Prop where
  x : AxisBalanced (m.inputs r.xn).raw (m.inputs r.xp).raw (xMotion events)
  y : AxisBalanced (m.inputs r.yn).raw (m.inputs r.yp).raw (-yMotion events)

/-- The inputs at the ends of all frames say together how the mouse has moved in them. -/
structure RunBalanced (r : MouseInputs) (frames : List (List SdlEvent)) (ends : List InputManager) :
    Prop where
  frame : List.Forall₂ (FrameBalanced r) frames ends
  x : (ends.map fun m => (m.inputs r.xp).raw - (m.inputs r.xn).raw).sum = (frames.map xMotion).sum
  y : (ends.map fun m => (m.inputs r.yp).raw - (m.inputs r.yn).raw).sum =
    -(frames.map yMotion).sum

end Mccpp.Interface
