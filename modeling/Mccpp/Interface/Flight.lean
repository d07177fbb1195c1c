import Mathlib.Algebra.Ring.Periodic
import Mathlib.Algebra.Order.Field.Basic
import Mccpp.Model.Game
import Mccpp.Interface.MouseMotion
import Mccpp.Interface.RotatedBox

/-!
# Flights

The game as the user takes it: there are keys that are held and a mouse that turns, and a camera that flies
where the keys point to in what it shows. A flight knows nothing of inputs, of bindings or of full turns.
-/

set_option autoImplicit false

namespace Mccpp.Interface

open Mccpp.Model

attribute [local instance] atLeastTwo_two atLeastTwo_twenty atLeastTwo_thirtySix atLeastTwo_hundred
  atLeastTwo_halfTurn

/-! ## What holds of the numbers -/

/-- What is used of cosine, sine and square root. -/
structure CameraLaws {K : Type} [Field K] [LinearOrder K] (g : CameraMath K) : Prop where
  piPos : 0 < g.pi
  unit : ∀ a, g.cos a ^ 2 + g.sin a ^ 2 = 1
  cosZero : g.cos 0 = 1
  cosNeg : ∀ a, g.cos (-a) = g.cos a
  sinNeg : ∀ a, g.sin (-a) = -g.sin a
  cosTurn : Function.Periodic g.cos (2 * g.pi)
  sinTurn : Function.Periodic g.sin (2 * g.pi)
  inversesqrt : ∀ a, 0 < a → 0 < g.inversesqrt a ∧ g.inversesqrt a ^ 2 * a = 1

/-! ## Keys -/

/-- The keys that are held behind an event; the user interface may keep one for itself. -/
def press (held : ℕ → Bool) : Bool × SdlEvent → ℕ → Bool
  | (false, .key down scancode false) => Function.update held scancode down
  | _ => held

/-- The keys that are held at the end of a frame. -/
def heldAfter (held : ℕ → Bool) (polled : List (Bool × SdlEvent)) : ℕ → Bool := polled.foldl press held

section Velocity

variable {K : Type} [Field K]

/-- `1`, `-1`, or `0` when both keys are held or none is. -/
def axis (held : ℕ → Bool) (pos neg : ℕ) : K :=
  (if held pos then 1 else 0) - (if held neg then 1 else 0)

/-- The velocity that the keys ask for, to the right, up and back. It is level, and the same along an axis
and between two. -/
def keyVelocity [DecidableEq K] (g : CameraMath K) (held : ℕ → Bool) : Vec3 K :=
  let right : K := axis held scancodeD scancodeA
  let up : K := axis held scancodeSpace scancodeLshift
  let back : K := axis held scancodeS scancodeW
  let share : K := if right ≠ 0 ∧ back ≠ 0 then g.inversesqrt 2 else 1
  Vec3.scale ⟨right * share, up, back * share⟩ 20

/-- From what is level before the camera to the world. -/
def ahead (g : CameraMath K) (yaw : K) (v : Vec3 K) : Vec3 K :=
  axisRotation (g.cos yaw) (-g.sin yaw) ⟨0, 1, 0⟩ v

end Velocity

/-! ## Flights -/

/-- Where the camera is, and what moves it. -/
structure Flight (K : Type) where
  held : ℕ → Bool
  captured : Bool
  /-- How far it has turned to the right, all turns included. -/
  yaw : K
  pitch : K
  roll : K
  position : Vec3 K
  /-- How long the frame before took. -/
  seconds : K

namespace Flight

variable {K : Type} [Field K]

/-- No key is held, and the mouse is free. -/
def start : Flight K where
  held := fun _ => false
  captured := false
  yaw := 0
  pitch := 0
  roll := 0
  position := ⟨0, 0, 0⟩
  seconds := 0

/-- How the mouse has moved, to the right and up, where it is the game's. -/
def motion (s : Flight K) (polled : List (Bool × SdlEvent)) : K × K :=
  if s.captured then (xMotion (polled.map Prod.snd), -yMotion (polled.map Prod.snd)) else (0, 0)

/-- A frame: the mouse turns the camera, no further up or down than straight, the keys that are held at its
end move it, and what is edited replaces that. -/
def frame [LinearOrder K] (g : CameraMath K) (s : Flight K) (f : GameFrame K) : Flight K :=
  let held := heldAfter s.held f.polled
  let yaw := s.yaw + 36 / 100 * (s.motion f.polled).1 * s.seconds
  let pitch := max (-(g.pi / 2)) (min (g.pi / 2) (s.pitch + 36 / 100 * (s.motion f.polled).2 * s.seconds))
  let position := s.position + (ahead g yaw (keyVelocity g held)).scale s.seconds
  let angle (edited : Vec3 K → K) (unedited : K) : K :=
    f.editedRotation.elim unedited fun degrees => edited degrees / 180 * g.pi
  { held := held
    captured := s.captured ^^ (held scancodeLalt && !s.held scancodeLalt)
    yaw := angle Vec3.x yaw
    pitch := angle Vec3.y pitch
    roll := angle Vec3.z s.roll
    position := f.editedPosition.getD position
    seconds := f.seconds }

/-- Frames one after another, with the flight at the end of each. -/
def frames [LinearOrder K] (g : CameraMath K) : List (GameFrame K) → Flight K → List (Flight K)
  | [], _ => []
  | f :: fs, s => s.frame g f :: frames g fs (s.frame g f)

/-- Where a point of the world is seen: to the right, up and back of the camera. -/
def sees (g : CameraMath K) (s : Flight K) (p : Vec3 K) : Vec3 K :=
  axisRotation (g.cos (-s.pitch)) (g.sin (-s.pitch)) ⟨1, 0, 0⟩
    (axisRotation (g.cos s.yaw) (g.sin s.yaw) ⟨0, 1, 0⟩
      (axisRotation (g.cos s.roll) (g.sin s.roll) ⟨0, 0, 1⟩ (p + -s.position)))

end Flight

/-! ## Frames that are run -/

/-- The user asks in this frame for the end. -/
def Quits {K : Type} (f : GameFrame K) : Bool :=
  f.polled.any fun p => p.2 = .quit || p.2 = .windowClose

/-- The frames up to the one in which the user asks for the end. -/
def untilQuit {K : Type} : List (GameFrame K) → List (GameFrame K)
  | [] => []
  | f :: fs => f :: if Quits f then [] else untilQuit fs

/-- The camera that is drawn is that of the flight: it is where the flight is, shows what the flight shows,
and its turn is wrapped, unless the user has just edited it. -/
structure ShowsFlight {K : Type} [Field K] [LinearOrder K] (glm : Glm K K) (g : CameraMath K) (f : GameFrame K)
    (r : Running K) (s : Flight K) : Prop where
  view : ∀ p, glm.transform (viewMatrix glm r.game.camera) p = s.sees g p
  position : r.game.camera.position = s.position
  captured : r.app.captureMouse = s.captured
  wrapped : f.editedRotation = none →
    0 ≤ r.game.camera.rotation.x ∧ r.game.camera.rotation.x < 2 * g.pi ∧
      -(g.pi / 2) ≤ r.game.camera.rotation.y ∧ r.game.camera.rotation.y ≤ g.pi / 2

/-- A frame moves the camera as its keys say in what it shows: with its new look, every point is seen
further to the left, down or ahead by what the keys have asked for in this time, which is level when the
camera is. It is nowhere faster than one key makes it. -/
structure MovesAsSeen {K : Type} [Field K] [LinearOrder K] (glm : Glm K K) (g : CameraMath K) (held : ℕ → Bool)
    (r r' : Running K) : Prop where
  seen : ∀ p, glm.transform (viewMatrix glm ⟨r.game.camera.position, r'.game.camera.rotation⟩) p =
    glm.transform (viewMatrix glm r'.game.camera) p +
      axisRotation (g.cos (-r'.game.camera.rotation.y)) (g.sin (-r'.game.camera.rotation.y)) ⟨1, 0, 0⟩
        ((keyVelocity g held).scale r.game.frameTime)
  level : (r'.game.camera.position.x - r.game.camera.position.x) ^ 2 +
    (r'.game.camera.position.z - r.game.camera.position.z) ^ 2 ≤ (20 * r.game.frameTime) ^ 2
  upright : (r'.game.camera.position.y - r.game.camera.position.y) ^ 2 ≤ (20 * r.game.frameTime) ^ 2

end Mccpp.Interface
