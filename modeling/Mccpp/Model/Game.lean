import Mathlib.Algebra.Order.Floor.Defs
import Mccpp.Model.Input
import Mccpp.Model.ModelMesh

/-!
# The game

`game.cc`, the camera of `renderer/renderer.{hh,cc}`, and what `main` of `application.cc` does about them
before and in its loop. Numbers are exact, of any ordered field; what is used of `<cmath>` and of `glm` is
a parameter. What the user edits in the windows of `ImGui` comes with each frame. What these windows
show, and the cvars among it, are left out.
-/

set_option autoImplicit false

namespace Mccpp.Model

/-! The numerals of the game are those of any field. -/

theorem atLeastTwo_two : Nat.AtLeastTwo 2 := ⟨Nat.le_refl 2⟩

theorem atLeastTwo_twenty : Nat.AtLeastTwo 20 := ⟨by decide⟩

theorem atLeastTwo_thirtySix : Nat.AtLeastTwo 36 := ⟨by decide⟩

theorem atLeastTwo_hundred : Nat.AtLeastTwo 100 := ⟨by decide⟩

theorem atLeastTwo_halfTurn : Nat.AtLeastTwo 180 := ⟨by decide⟩

attribute [local instance] atLeastTwo_two atLeastTwo_twenty atLeastTwo_thirtySix atLeastTwo_hundred
  atLeastTwo_halfTurn

/-! ## The camera -/

/-- `struct camera`. -/
structure Camera (K : Type) where
  position : Vec3 K
  rotation : Vec3 K

/-- What `on_frame()` uses of `<cmath>` and `glm` for numbers. -/
structure CameraMath (K : Type) where
  /-- `glm::pi<float>()`. -/
  pi : K
  cos : K → K
  sin : K → K
  inversesqrt : K → K

section

variable {K : Type} [Field K]

/-- `V` of `end_frame()`. -/
def viewMatrix (glm : Glm K K) (camera : Camera K) : glm.Mat4 :=
  let v := glm.mat4
  let v := glm.rotate v (-camera.rotation.y) ⟨1, 0, 0⟩
  let v := glm.rotate v camera.rotation.x ⟨0, 1, 0⟩
  let v := glm.rotate v camera.rotation.z ⟨0, 0, 1⟩
  glm.translate v
    ⟨camera.position.x * -1, camera.position.y * -1, camera.position.z * -1⟩

end

/-! ## Inputs -/

/-- `m_input` of `game_impl`. -/
structure GameInput where
  lookXN : InputRef
  lookXP : InputRef
  lookYN : InputRef
  lookYP : InputRef
  moveXN : InputRef
  moveXP : InputRef
  moveYN : InputRef
  moveYP : InputRef
  jump : InputRef
  sneak : InputRef

/-- `m_input` as it is initialised. -/
def gameInput : GameInput where
  lookXN := "look.x-".toList
  lookXP := "look.x+".toList
  lookYN := "look.y-".toList
  lookYP := "look.y+".toList
  moveXN := "move.x-".toList
  moveXP := "move.x+".toList
  moveYN := "move.y-".toList
  moveYP := "move.y+".toList
  jump := "jump".toList
  sneak := "sneak".toList

/-- `unlock_cursor` of `main`. -/
def unlockCursor : InputRef := "unlock_cursor".toList

/-! The constants of `SDL_Scancode`. -/

def scancodeA : ℕ := 4
def scancodeD : ℕ := 7
def scancodeS : ℕ := 22
def scancodeW : ℕ := 26
def scancodeSpace : ℕ := 44
def scancodeLshift : ℕ := 225
def scancodeLalt : ℕ := 226

/-- What the constructor of `game_impl` binds. -/
def bindGame (m : InputManager) : Except Failure InputManager := do
  let m := m.bindMouseX (some gameInput.lookXN) (some gameInput.lookXP)
  let m := m.bindMouseY (some gameInput.lookYN) (some gameInput.lookYP)
  let m ← m.bindKeyboard scancodeA (some gameInput.moveXN)
  let m ← m.bindKeyboard scancodeD (some gameInput.moveXP)
  let m ← m.bindKeyboard scancodeW (some gameInput.moveYN)
  let m ← m.bindKeyboard scancodeS (some gameInput.moveYP)
  let m ← m.bindKeyboard scancodeSpace (some gameInput.jump)
  m.bindKeyboard scancodeLshift (some gameInput.sneak)

/-! ## A frame of the game -/

/-- What a frame meets: the events that are polled, each with `io.WantCaptureKeyboard`; what is typed
into the two fields of the camera, the rotation in degrees; and the seconds from the end of the frame
before to its own end. -/
structure GameFrame (K : Type) where
  polled : List (Bool × SdlEvent)
  editedPosition : Option (Vec3 K)
  editedRotation : Option (Vec3 K)
  seconds : K

section OnFrame

variable {K : Type} [Field K] [LinearOrder K] (g : CameraMath K) (m : InputManager)

/-- `glm::mod(x, y)`. -/
def glmMod [FloorRing K] (x y : K) : K := x - y * (⌊x / y⌋ : ℤ)

/-- What `on_frame()` does to `look`. -/
def moveLook [FloorRing K] (frameTime : K) (look : Vec3 K) : Vec3 K :=
  let x := look.x + 36 / 100 *
    (((m.inputs gameInput.lookXP).raw : K) - ((m.inputs gameInput.lookXN).raw : K)) * frameTime
  let y := look.y + 36 / 100 *
    (((m.inputs gameInput.lookYP).raw : K) - ((m.inputs gameInput.lookYN).raw : K)) * frameTime
  let x := glmMod x (2 * g.pi)
  let y := if y > 1 / 2 * g.pi then 1 / 2 * g.pi else y
  let y := if y < -(1 / 2) * g.pi then -(1 / 2) * g.pi else y
  ⟨x, y, look.z⟩

/-- `move_input`. -/
def moveInput : K × K :=
  (((m.inputs gameInput.moveXP).value : K) - ((m.inputs gameInput.moveXN).value : K),
    ((m.inputs gameInput.moveYP).value : K) - ((m.inputs gameInput.moveYN).value : K))

/-- `move` before its length is looked at. -/
def turnedMove (yaw : K) (input : K × K) : K × K :=
  (input.2 * g.cos (-yaw) + input.1 * g.sin yaw, input.2 * g.sin (-yaw) + input.1 * g.cos yaw)

/-- `if (glm::dot(move, move) > 1) move = glm::normalize(move);`. -/
def shortened (move : K × K) : K × K :=
  let dot := move.1 * move.1 + move.2 * move.2
  if dot > 1 then (move.1 * g.inversesqrt dot, move.2 * g.inversesqrt dot) else move

/-- `fly`. -/
def fly : K :=
  let fly := 0
  let fly := if (m.inputs gameInput.jump).pressed then fly + 1 else fly
  if (m.inputs gameInput.sneak).pressed then fly - 1 else fly

/-- What `on_frame()` does to the position of the camera. -/
def movePosition (frameTime yaw : K) (position : Vec3 K) : Vec3 K :=
  let move := shortened g (turnedMove g yaw (moveInput m))
  { x := position.x + 20 * move.2 * frameTime
    y := position.y + 20 * fly m * frameTime
    z := position.z + 20 * move.1 * frameTime }

/-- `game_impl`, with the camera of the renderer. -/
structure Game (K : Type) where
  camera : Camera K
  frameTime : K

/-- `on_frame()`. -/
def Game.onFrame [FloorRing K] (game : Game K) (frame : GameFrame K) : Game K :=
  let look := moveLook g m game.frameTime game.camera.rotation
  let position := movePosition g m game.frameTime look.x game.camera.position
  let position := frame.editedPosition.getD position
  let look := frame.editedRotation.elim look fun degrees => degrees.map fun d => d / 180 * g.pi
  { camera := ⟨position, look⟩, frameTime := frame.seconds }

end OnFrame

/-! ## The loop -/

/-- `poll_events(app)`. -/
def App.pollEvents (app : App) (polled : List (Bool × SdlEvent)) : Except Failure App :=
  polled.foldlM (fun app p => app.pollEvent p.1 p.2) app

/-- `application_impl`, as far as its frames go. -/
structure Running (K : Type) where
  app : App
  game : Game K
  frameCount : BitVec 32

section MainLoop

variable {K : Type} [Field K] [LinearOrder K] [FloorRing K] (g : CameraMath K)

/-- What `main` does before its loop. -/
def Running.start : Except Failure (Running K) := do
  let inputManager ← bindGame InputManager.create
  let inputManager ← inputManager.bindKeyboard scancodeLalt (some unlockCursor)
  .ok {
    app := { inputManager := inputManager, captureMouse := false, shouldExit := false }
    game := { camera := ⟨⟨0, 0, 0⟩, ⟨0, 0, 0⟩⟩, frameTime := 0 }
    frameCount := 0 }

/-- The body of the loop of `main`. -/
def Running.frame (r : Running K) (frame : GameFrame K) : Except Failure (Running K) := do
  let app := { r.app with inputManager := r.app.inputManager.preEvents }
  let app ← app.pollEvents frame.polled
  let app := app.afterPoll unlockCursor
  .ok {
    app := app
    game := r.game.onFrame g app.inputManager frame
    frameCount := r.frameCount + 1 }

/-- The loop of `main`, over frames that meet these, with what is there at the end of each. -/
def Running.loop : List (GameFrame K) → Running K → Except Failure (List (Running K))
  | [], _ => .ok []
  | frame :: frames, r =>
    if r.app.shouldExit then .ok []
    else do
      let r ← r.frame g frame
      let ends ← Running.loop frames r
      .ok (r :: ends)

end MainLoop

end Mccpp.Model
