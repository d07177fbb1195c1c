import Mccpp.Model.Input

/-!
# Frames of input

A run is a list of frames, and each frame the actions `pre_events`, the events that are polled, and
`post_events`. A moment of a run is the state at the end of the frame before and the state now. An
input tracks its value when it shows at every moment how it has changed since the frame before
(`Tracks`), and is kept by an action that leaves its value as it was in that frame (`Keeps`).
-/

set_option autoImplicit false

namespace Mccpp.Interface

open Mccpp.Model

/-! ## The manager alone -/

/-- What is done to the manager. -/
inductive InputAction where
  | preEvents
  | event (event : SdlEvent)
  | postEvents
deriving DecidableEq

/-- The actions of a frame. -/
def inputFrame (events : List SdlEvent) : List InputAction :=
  .preEvents :: events.map .event ++ [.postEvents]

/-- The state at the end of the frame before, and the state now. -/
structure Moment where
  previous : InputManager
  now : InputManager

/-- One action. -/
def Moment.act (m : Moment) : InputAction → Except Failure Moment
  | .preEvents => .ok ⟨m.now, m.now.preEvents⟩
  | .event event => do
    let now ← m.now.handleEvent event
    .ok ⟨m.previous, now⟩
  | .postEvents => .ok ⟨m.previous, m.now.postEvents⟩

/-- Actions one after another; a failed assert ends the run. -/
def Moment.acts : List InputAction → Moment → Except Failure Moment
  | [], m => .ok m
  | action :: actions, m => do
    let m ← m.act action
    Moment.acts actions m

/-- What an input shows when it had the value `previous` at the end of the frame before. -/
structure Tracks (previous : ℚ) (i : Input) : Prop where
  rawOld : i.rawOld = previous
  old : i.old = Input.clamp i.rawOld (-1) 1
  delta : i.delta = Input.clamp i.raw (-1) 1 - Input.clamp previous (-1) 1
  down : i.down = true ↔ previous < 1 / 2 ∧ 1 / 2 ≤ i.raw
  up : i.up = true ↔ 1 / 2 ≤ previous ∧ i.raw < 1 / 2

/-- The value that the motion of the mouse gives an input, if it is bound to an axis. -/
def mouseValue (m : InputManager) (ref : InputRef) : Option ℚ :=
  if m.mouseYP = some ref then some (max m.mouseYAccumulation 0)
  else if m.mouseYN = some ref then some (max (-m.mouseYAccumulation) 0)
  else if m.mouseXP = some ref then some (max m.mouseXAccumulation 0)
  else if m.mouseXN = some ref then some (max (-m.mouseXAccumulation) 0)
  else none

/-- The action leaves the input as it was: a frame behind one with motion of the mouse finds an
input of an axis at `0`, and a key or the motion of the mouse gives it the value it had. -/
def Keeps (ref : InputRef) (m : Moment) : InputAction → Prop
  | .preEvents => m.now.movedMouse = true → (mouseValue m.now ref).isSome → (m.now.inputs ref).raw = 0
  | .event (.key down scancode isRepeat) =>
    scancode < InputManager.numScancodes → isRepeat = false → m.now.keyboard scancode = some ref →
      Input.clamp (m.now.inputs ref).rawOld (-1) 1 = if down then 1 else 0
  | .event _ => True
  | .postEvents => m.now.movedMouse = true → ∀ value, mouseValue m.now ref = some value →
      Input.clamp (m.now.inputs ref).rawOld (-1) 1 = Input.clamp value (-1) 1

/-! ## The application -/

/-- What is done to the application. -/
inductive AppAction where
  | preEvents
  | poll (wantCaptureKeyboard : Bool) (event : SdlEvent)
  | afterPoll

/-- The actions of a frame, with the value of the flag at each event. -/
def appFrame (polled : List (Bool × SdlEvent)) : List AppAction :=
  .preEvents :: polled.map (fun p => .poll p.1 p.2) ++ [.afterPoll]

/-- Actions one after another; a failed assert ends the run. -/
def appActs (unlockCursor : InputRef) : List AppAction → App → Except Failure App
  | [], app => .ok app
  | .preEvents :: actions, app =>
    appActs unlockCursor actions { app with inputManager := app.inputManager.preEvents }
  | .poll wantCaptureKeyboard event :: actions, app => do
    let app ← app.pollEvent wantCaptureKeyboard event
    appActs unlockCursor actions app
  | .afterPoll :: actions, app => appActs unlockCursor actions (app.afterPoll unlockCursor)

/-- Only events of keys are polled. -/
def KeysOnly (actions : List AppAction) : Prop :=
  ∀ flag event, .poll flag event ∈ actions → ∃ down scancode isRepeat, event = .key down scancode isRepeat

end Mccpp.Interface
