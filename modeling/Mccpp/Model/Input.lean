import Mathlib.Algebra.Order.Ring.Rat
import Mathlib.Logic.Function.Basic
import Mccpp.Model.PacketReader

/-!
# Input

`input/input.{hh,cc}`, and the part of `application.cc` that polls the events of a frame. The values
of an input are exact numbers. A reference to an input is its name in `m_inputs`, where an input
that is not there yet is as a new one. The mouse buttons can be bound and are read by nothing.
-/

set_option autoImplicit false

namespace Mccpp.Model

/-- `input`. -/
structure Input where
  raw : ℚ
  rawOld : ℚ
deriving DecidableEq

namespace Input

/-- `clamp(value, min, max)`. -/
def clamp (value min max : ℚ) : ℚ := if value < min then min else if value > max then max else value

variable (i : Input)

def rawDelta : ℚ := i.raw - i.rawOld

def value : ℚ := clamp i.raw (-1) 1
def old : ℚ := clamp i.raw (-1) 1
def delta : ℚ := i.value - i.old

def pressed : Bool := i.raw ≥ 1 / 2
def wasPressed : Bool := i.rawOld ≥ 1 / 2
def down : Bool := !i.wasPressed && i.pressed
def up : Bool := i.wasPressed && !i.pressed

end Input

/-- `input_ref`. -/
abbrev InputRef : Type := List Char

/-- `SDL_Event`, as far as it is looked at. -/
inductive SdlEvent where
  | quit
  | windowClose
  /-- `SDL_KEYDOWN` or `SDL_KEYUP`. -/
  | key (down : Bool) (scancode : ℕ) (isRepeat : Bool)
  | mouseMotion (xrel yrel : ℤ)
  | other
deriving DecidableEq

/-- `manager_impl`. -/
structure InputManager where
  inputs : InputRef → Input
  movedMouse : Bool
  mouseXAccumulation : ℚ
  mouseYAccumulation : ℚ
  mouseXN : Option InputRef
  mouseXP : Option InputRef
  mouseYN : Option InputRef
  mouseYP : Option InputRef
  keyboard : ℕ → Option InputRef

namespace InputManager

/-- `SDL_NUM_SCANCODES`. -/
def numScancodes : ℕ := 512

/-- `manager::create(app)`. -/
def create : InputManager where
  inputs := fun _ => ⟨0, 0⟩
  movedMouse := false
  mouseXAccumulation := 0
  mouseYAccumulation := 0
  mouseXN := none
  mouseXP := none
  mouseYN := none
  mouseYP := none
  keyboard := fun _ => none

/-- `bind_mouse_x(neg, pos)`. -/
def bindMouseX (m : InputManager) (neg pos : Option InputRef) : InputManager :=
  { m with mouseXN := neg, mouseXP := pos }

/-- `bind_mouse_y(neg, pos)`. -/
def bindMouseY (m : InputManager) (neg pos : Option InputRef) : InputManager :=
  { m with mouseYN := neg, mouseYP := pos }

/-- `bind_keyboard(code, ref)`. -/
def bindKeyboard (m : InputManager) (code : ℕ) (ref : Option InputRef) :
    Except Failure InputManager :=
  if code < numScancodes then .ok { m with keyboard := Function.update m.keyboard code ref }
  else .error (.assertFailed "code < SDL_NUM_SCANCODES")

/-- `if (ref) ref->m_raw = value;`. -/
def setRaw (m : InputManager) (ref : Option InputRef) (value : ℚ) : InputManager :=
  match ref with
  | none => m
  | some ref =>
    { m with inputs := Function.update m.inputs ref { m.inputs ref with raw := value } }

/-- `pre_events()`. -/
def preEvents (m : InputManager) : InputManager :=
  let m :=
    if m.movedMouse then
      let m := m.setRaw m.mouseXN 0
      let m := m.setRaw m.mouseXP 0
      let m := m.setRaw m.mouseYN 0
      let m := m.setRaw m.mouseYP 0
      { m with mouseXAccumulation := 0, mouseYAccumulation := 0 }
    else m
  { m with
    movedMouse := false
    inputs := fun ref => { m.inputs ref with rawOld := (m.inputs ref).raw } }

/-- `post_events()`. -/
def postEvents (m : InputManager) : InputManager :=
  if m.movedMouse then
    let x := m.mouseXAccumulation
    let y := m.mouseYAccumulation
    let m := m.setRaw m.mouseXN (if x < 0 then -x else 0)
    let m := m.setRaw m.mouseXP (if x > 0 then x else 0)
    let m := m.setRaw m.mouseYN (if y < 0 then -y else 0)
    m.setRaw m.mouseYP (if y > 0 then y else 0)
  else m

/-- `handle_event(event)`. -/
def handleEvent (m : InputManager) : SdlEvent → Except Failure InputManager
  | .mouseMotion xrel yrel =>
    .ok { m with
      movedMouse := true
      mouseXAccumulation := m.mouseXAccumulation + xrel
      mouseYAccumulation := m.mouseYAccumulation - yrel }
  | .key down scancode isRepeat =>
    if scancode < numScancodes then
      if isRepeat then .ok m
      else .ok (m.setRaw (m.keyboard scancode) (if down then 1 else 0))
    else .error (.assertFailed "event.key.keysym.scancode < SDL_NUM_SCANCODES")
  | _ => .ok m

end InputManager

/-! ## Polling -/

/-- What a frame changes of `application_impl` before it is drawn. -/
structure App where
  inputManager : InputManager
  captureMouse : Bool
  shouldExit : Bool

namespace App

/-- The body of the loop of `poll_events(app)`, where `io.WantCaptureKeyboard` is as given. -/
def pollEvent (app : App) (wantCaptureKeyboard : Bool) (event : SdlEvent) : Except Failure App :=
  match event with
  | .quit | .windowClose => .ok { app with shouldExit := true }
  | .key .. =>
    if wantCaptureKeyboard then .ok app
    else do
      let inputManager ← app.inputManager.handleEvent event
      .ok { app with inputManager := inputManager }
  | .mouseMotion .. =>
    if app.captureMouse then do
      let inputManager ← app.inputManager.handleEvent event
      .ok { app with inputManager := inputManager }
    else .ok app
  | .other => .ok app

/-- What `main` does behind `poll_events(app)`. -/
def afterPoll (unlockCursor : InputRef) (app : App) : App :=
  let inputManager := app.inputManager.postEvents
  { app with
    inputManager := inputManager
    captureMouse :=
      if (inputManager.inputs unlockCursor).down then !app.captureMouse else app.captureMouse }

end App

end Mccpp.Model
