import Mathlib.Algebra.Order.Floor.Ring
import Mathlib.Analysis.SpecialFunctions.Trigonometric.Basic
import Mathlib.Data.Rat.Cast.CharZero
import Mathlib.Tactic.FieldSimp
import Mathlib.Tactic.LinearCombination
import Mccpp.Interface.Flight
import Mccpp.Analysis.MouseMotion
import Mccpp.Analysis.RotatedBox

/-!
# The game is a flight

Within a frame the inputs of the keys say which keys are held, in the frame before and now, and the
accumulators how the mouse has moved (`Polling`). So at the end of a frame the camera is that of a flight,
but for full turns (`Flies`), which no cosine and no sine tells apart.
-/

set_option autoImplicit false

namespace Mccpp.Analysis

open Mccpp.Library Mccpp.Model Mccpp.Interface

attribute [local instance] atLeastTwo_two atLeastTwo_twenty atLeastTwo_thirtySix atLeastTwo_hundred
  atLeastTwo_halfTurn

/-! ## Bindings -/

/-- The inputs of the mouse. -/
def gameMouse : MouseInputs :=
  ⟨gameInput.lookXN, gameInput.lookXP, gameInput.lookYN, gameInput.lookYP⟩

/-- The keys and their inputs. -/
def gameKeys : List (ℕ × InputRef) :=
  [(scancodeA, gameInput.moveXN), (scancodeD, gameInput.moveXP), (scancodeW, gameInput.moveYN),
    (scancodeS, gameInput.moveYP), (scancodeSpace, gameInput.jump), (scancodeLshift, gameInput.sneak),
    (scancodeLalt, unlockCursor)]

/-- What is bound to the keys. -/
def KeysBound (m : InputManager) : Prop :=
  ∀ code ref, m.keyboard code = some ref ↔ (code, ref) ∈ gameKeys

/-- INTERNAL: no input has two keys. -/
theorem key_unique {a b : ℕ} {ref : InputRef} (ha : (a, ref) ∈ gameKeys) (hb : (b, ref) ∈ gameKeys) :
    a = b := by
  have hall : ∀ p ∈ gameKeys, ∀ q ∈ gameKeys, p.2 = q.2 → p.1 = q.1 := by decide
  exact hall _ ha _ hb rfl

/-- INTERNAL: no input has a key and is of the mouse. -/
theorem not_mouse_of_key {code : ℕ} {ref : InputRef} (h : (code, ref) ∈ gameKeys) :
    ref ∉ gameMouse.all := by
  have hall : ∀ p ∈ gameKeys, p.2 ∉ gameMouse.all := by decide
  exact hall _ h

theorem mouseValue_eq_none {m : InputManager} (hbound : MouseBound m gameMouse) {ref : InputRef}
    (href : ref ∉ gameMouse.all) : mouseValue m ref = none := by
  simp only [MouseInputs.all, List.mem_cons, List.not_mem_nil, or_false, not_or] at href
  obtain ⟨hxn, hxp, hyn, hyp⟩ := href
  simp [mouseValue, hbound.xn, hbound.xp, hbound.yn, hbound.yp, Ne.symm hxn, Ne.symm hxp, Ne.symm hyn,
    Ne.symm hyp]

/-- What the input of a key says. -/
def keyValue (held : Bool) : ℚ := if held then 1 else 0

theorem value_of_raw {i : Input} {held : Bool} (h : i.raw = keyValue held) : i.value = keyValue held := by
  rw [Input.value, h]
  exact clamp_key held

theorem half_le_keyValue (held : Bool) : (keyValue held ≥ 1 / 2) ↔ held = true := by
  cases held <;> norm_num [keyValue]

theorem pressed_of_raw {i : Input} {held : Bool} (h : i.raw = keyValue held) : i.pressed = held := by
  rw [Input.pressed, h, Bool.eq_iff_iff, decide_eq_true_iff]
  exact half_le_keyValue held

theorem wasPressed_of_rawOld {i : Input} {held : Bool} (h : i.rawOld = keyValue held) :
    i.wasPressed = held := by
  rw [Input.wasPressed, h, Bool.eq_iff_iff, decide_eq_true_iff]
  exact half_le_keyValue held

/-! ## Within a frame -/

/-- What the inputs say between two events: `before` are the keys that were held at the end of the frame
before, `held` those that are now, and the mouse has moved by `x` and `y`. -/
structure Polling (app : App) (before held : ℕ → Bool) (captured : Bool) (x y : ℚ) : Prop where
  collects : Collects app.inputManager gameMouse x y
  keys : KeysBound app.inputManager
  raw : ∀ code ref, (code, ref) ∈ gameKeys → (app.inputManager.inputs ref).raw = keyValue (held code)
  rawOld : ∀ code ref, (code, ref) ∈ gameKeys →
    (app.inputManager.inputs ref).rawOld = keyValue (before code)
  captured : app.captureMouse = captured

@[simp] theorem xrelOf_key (down isRepeat : Bool) (scancode : ℕ) :
    xrelOf (.key down scancode isRepeat) = 0 := rfl

@[simp] theorem yrelOf_key (down isRepeat : Bool) (scancode : ℕ) :
    yrelOf (.key down scancode isRepeat) = 0 := rfl

/-- INTERNAL: a key that the manager is handed. -/
theorem Polling.key {app : App} {before held : ℕ → Bool} {captured : Bool} {x y : ℚ}
    (h : Polling app before held captured x y) {m : InputManager} {down isRepeat : Bool} {scancode : ℕ}
    (hevent : app.inputManager.handleEvent (.key down scancode isRepeat) = .ok m) :
    Polling { app with inputManager := m } before (press held (false, .key down scancode isRepeat))
      captured x y := by
  have hcollects := h.collects.handleEvent hevent
  rw [xrelOf_key, yrelOf_key, add_zero, sub_zero] at hcollects
  refine ⟨hcollects, ?_, ?_, ?_, h.captured⟩
  · intro code ref
    obtain ⟨-, -, hkeyboard, -⟩ := handleEvent_key hevent ref
    rw [hkeyboard]
    exact h.keys code ref
  · intro code ref hkey
    obtain ⟨-, -, -, hinputs⟩ := handleEvent_key hevent ref
    rw [hinputs]
    by_cases hhit : isRepeat = false ∧ app.inputManager.keyboard scancode = some ref
    · obtain rfl := key_unique hkey ((h.keys scancode ref).mp hhit.2)
      rw [if_pos hhit, hhit.1, press, Function.update_self]
      rfl
    · rw [if_neg hhit, h.raw code ref hkey]
      cases isRepeat with
      | true => rfl
      | false =>
        have hother : code ≠ scancode := by
          rintro rfl
          exact hhit ⟨rfl, (h.keys code ref).mpr hkey⟩
        rw [press, Function.update_of_ne hother]
  · intro code ref hkey
    obtain ⟨-, -, -, hinputs⟩ := handleEvent_key hevent ref
    rw [hinputs]
    split_ifs <;> exact h.rawOld code ref hkey

/-- INTERNAL: an event changes nothing that a frame is about, or what the flight says.
SOURCE: application.cc:102-135, input/input.cc:102-124 -/
theorem Polling.pollEvent {app app' : App} {before held : ℕ → Bool} {captured : Bool} {x y : ℚ}
    (h : Polling app before held captured x y) {wantCaptureKeyboard : Bool} {event : SdlEvent}
    (hpoll : app.pollEvent wantCaptureKeyboard event = .ok app') :
    Polling app' before (press held (wantCaptureKeyboard, event)) captured
      (x + if captured then xrelOf event else 0) (y - if captured then yrelOf event else 0) := by
  have hkept : ∀ shouldExit : Bool, Polling { app with shouldExit := shouldExit } before held captured
      (x + if captured then 0 else 0) (y - if captured then 0 else 0) := by
    intro shouldExit
    rw [ite_self, add_zero, sub_zero]
    exact ⟨h.collects, h.keys, h.raw, h.rawOld, h.captured⟩
  cases event with
  | quit =>
    obtain rfl := Except.ok.inj hpoll
    cases wantCaptureKeyboard <;> exact hkept true
  | windowClose =>
    obtain rfl := Except.ok.inj hpoll
    cases wantCaptureKeyboard <;> exact hkept true
  | other =>
    obtain rfl := Except.ok.inj hpoll
    cases wantCaptureKeyboard <;> exact hkept _
  | key down scancode isRepeat =>
    rw [App.pollEvent] at hpoll
    cases wantCaptureKeyboard with
    | true =>
      obtain rfl := Except.ok.inj hpoll
      exact hkept _
    | false =>
      obtain ⟨m, hevent, hpoll⟩ := bind_eq_ok_iff.mp hpoll
      obtain rfl := Except.ok.inj hpoll
      rw [xrelOf_key, yrelOf_key, ite_self, add_zero, sub_zero]
      exact h.key hevent
  | mouseMotion xrel yrel =>
    have hpress : press held (wantCaptureKeyboard, .mouseMotion xrel yrel) = held := by
      cases wantCaptureKeyboard <;> rfl
    rw [hpress]
    rw [App.pollEvent] at hpoll
    cases captured with
    | false =>
      rw [if_neg (by simp [h.captured])] at hpoll
      obtain rfl := Except.ok.inj hpoll
      exact hkept _
    | true =>
      rw [if_pos h.captured] at hpoll
      obtain ⟨m, hevent, hpoll⟩ := bind_eq_ok_iff.mp hpoll
      obtain rfl := Except.ok.inj hpoll
      have hcollects := h.collects.handleEvent hevent
      obtain rfl := Except.ok.inj hevent
      exact ⟨hcollects, h.keys, h.raw, h.rawOld, h.captured⟩

/-- INTERNAL: all events of a frame, by induction on them. -/
theorem Polling.pollEvents {polled : List (Bool × SdlEvent)} {app app' : App} {before held : ℕ → Bool}
    {captured : Bool} {x y : ℚ} (h : Polling app before held captured x y)
    (hpoll : app.pollEvents polled = .ok app') :
    Polling app' before (heldAfter held polled) captured
      (x + if captured then xMotion (polled.map Prod.snd) else 0)
      (y - if captured then yMotion (polled.map Prod.snd) else 0) := by
  induction polled generalizing app held x y with
  | nil =>
    obtain rfl := Except.ok.inj hpoll
    simpa [xMotion, yMotion, heldAfter] using h
  | cons p polled ih =>
    obtain ⟨next, hfirst, hrest⟩ := foldlM_cons_eq_ok_iff.mp hpoll
    have hend := ih (h.pollEvent hfirst) hrest
    cases captured with
    | false => simpa [heldAfter] using hend
    | true => simpa [heldAfter, xMotion, yMotion, add_assoc, sub_sub] using hend

/-- INTERNAL: an event asks for the exit, or says nothing of it.
SOURCE: application.cc:107-118 -/
theorem shouldExit_pollEvent {app app' : App} {flag : Bool} {event : SdlEvent}
    (hpoll : app.pollEvent flag event = .ok app') :
    app'.shouldExit = (app.shouldExit || (event = .quit || event = .windowClose : Bool)) := by
  cases event with
  | quit =>
    obtain rfl := Except.ok.inj hpoll
    simp
  | windowClose =>
    obtain rfl := Except.ok.inj hpoll
    simp
  | other =>
    obtain rfl := Except.ok.inj hpoll
    simp
  | key down scancode isRepeat =>
    rw [App.pollEvent] at hpoll
    split_ifs at hpoll
    · obtain rfl := Except.ok.inj hpoll
      simp
    · obtain ⟨m, _, hpoll⟩ := bind_eq_ok_iff.mp hpoll
      obtain rfl := Except.ok.inj hpoll
      simp
  | mouseMotion xrel yrel =>
    rw [App.pollEvent] at hpoll
    split_ifs at hpoll
    · obtain ⟨m, _, hpoll⟩ := bind_eq_ok_iff.mp hpoll
      obtain rfl := Except.ok.inj hpoll
      simp
    · obtain rfl := Except.ok.inj hpoll
      simp

/-- INTERNAL: so an exit that is asked for is not taken back. -/
theorem shouldExit_pollEvents {polled : List (Bool × SdlEvent)} {app app' : App}
    (hpoll : app.pollEvents polled = .ok app') :
    app'.shouldExit = (app.shouldExit || polled.any fun p => p.2 = .quit || p.2 = .windowClose) := by
  induction polled generalizing app with
  | nil =>
    obtain rfl := Except.ok.inj hpoll
    simp
  | cons p polled ih =>
    obtain ⟨next, hfirst, hrest⟩ := foldlM_cons_eq_ok_iff.mp hpoll
    rw [ih hrest, shouldExit_pollEvent hfirst, List.any_cons, Bool.or_assoc]

/-! ## From one frame to the next -/

/-- What the inputs say at the end of a frame. -/
structure Between (app : App) (held : ℕ → Bool) (captured : Bool) : Prop where
  rest : AtRest app.inputManager gameMouse
  keys : KeysBound app.inputManager
  raw : ∀ code ref, (code, ref) ∈ gameKeys → (app.inputManager.inputs ref).raw = keyValue (held code)
  captured : app.captureMouse = captured

/-- INTERNAL: a frame begins.
SOURCE: input/input.cc:60-83 -/
theorem Between.preEvents {app : App} {held : ℕ → Bool} {captured : Bool} (h : Between app held captured) :
    Polling { app with inputManager := app.inputManager.preEvents } held held captured 0 0 := by
  obtain ⟨-, hkeyboard⟩ := preEvents_bindings app.inputManager
  have hinputs : ∀ code ref, (code, ref) ∈ gameKeys → app.inputManager.preEvents.inputs ref =
      ⟨keyValue (held code), keyValue (held code)⟩ := by
    intro code ref hkey
    rw [preEvents_inputs, mouseValue_eq_none h.rest.bound (not_mouse_of_key hkey), if_neg (by simp),
      h.raw code ref hkey]
  refine ⟨h.rest.preEvents, ?_, ?_, ?_, h.captured⟩
  · intro code ref
    rw [hkeyboard]
    exact h.keys code ref
  · intro code ref hkey
    rw [hinputs code ref hkey]
  · intro code ref hkey
    rw [hinputs code ref hkey]

/-- INTERNAL: a frame ends, where the key of the mouse may have gone down.
SOURCE: input/input.cc:85-100, application.cc:199-203 -/
theorem Polling.afterPoll {app : App} {before held : ℕ → Bool} {captured : Bool} {x y : ℚ}
    (h : Polling app before held captured x y) :
    Between (app.afterPoll unlockCursor) held (captured ^^ (held scancodeLalt && !before scancodeLalt)) ∧
      AxisBalanced ((app.afterPoll unlockCursor).inputManager.inputs gameInput.lookXN).raw
        ((app.afterPoll unlockCursor).inputManager.inputs gameInput.lookXP).raw x ∧
      AxisBalanced ((app.afterPoll unlockCursor).inputManager.inputs gameInput.lookYN).raw
        ((app.afterPoll unlockCursor).inputManager.inputs gameInput.lookYP).raw y := by
  obtain ⟨hrest, hx, hy⟩ := h.collects.postEvents
  obtain ⟨-, hkeyboard⟩ := postEvents_bindings app.inputManager
  have hinputs : ∀ code ref, (code, ref) ∈ gameKeys →
      (app.inputManager.postEvents.inputs ref).raw = keyValue (held code) ∧
        (app.inputManager.postEvents.inputs ref).rawOld = keyValue (before code) := by
    intro code ref hkey
    rw [postEvents_inputs, mouseValue_eq_none h.collects.bound (not_mouse_of_key hkey)]
    split_ifs
    · exact ⟨h.raw code ref hkey, h.rawOld code ref hkey⟩
    · exact ⟨h.raw code ref hkey, h.rawOld code ref hkey⟩
  have hunlock : (scancodeLalt, unlockCursor) ∈ gameKeys := by simp [gameKeys]
  refine ⟨⟨hrest, ?_, fun code ref hkey => (hinputs code ref hkey).1, ?_⟩, hx, hy⟩
  · intro code ref
    show app.inputManager.postEvents.keyboard code = some ref ↔ _
    rw [hkeyboard]
    exact h.keys code ref
  · have hdown : (app.inputManager.postEvents.inputs unlockCursor).down =
        (held scancodeLalt && !before scancodeLalt) := by
      obtain ⟨hraw, hrawOld⟩ := hinputs scancodeLalt unlockCursor hunlock
      rw [Input.down, pressed_of_raw hraw, wasPressed_of_rawOld hrawOld, Bool.and_comm]
    show (if (app.inputManager.postEvents.inputs unlockCursor).down = true then !app.captureMouse
      else app.captureMouse) = _
    rw [hdown, h.captured]
    cases held scancodeLalt && !before scancodeLalt <;> cases captured <;> rfl

/-! ## Numbers -/

section Numbers

variable {K : Type} [Field K] [LinearOrder K] [IsStrictOrderedRing K] {g : CameraMath K}

/-- INTERNAL: a full turn is taken off as often as it fits. -/
theorem glmMod_bounds [FloorRing K] {x y : K} (hy : 0 < y) : 0 ≤ glmMod x y ∧ glmMod x y < y := by
  have hbelow : (⌊x / y⌋ : K) * y ≤ x := (le_div_iff₀ hy).mp (Int.floor_le (x / y))
  have habove : x < ((⌊x / y⌋ : K) + 1) * y := (div_lt_iff₀ hy).mp (Int.lt_floor_add_one (x / y))
  rw [glmMod]
  constructor
  · linarith
  · linarith

/-- INTERNAL: what `look` is clamped to. -/
theorem clamp_eq {bound y : K} (hbound : 0 ≤ bound) :
    (if (if y > bound then bound else y) < -bound then -bound else if y > bound then bound else y) =
      max (-bound) (min bound y) := by
  rcases lt_or_ge bound y with habove | hbelow
  · rw [if_pos habove, min_eq_left habove.le, max_eq_right (by linarith), if_neg (by linarith)]
  · rw [if_neg (not_lt.mpr hbelow), min_eq_right hbelow]
    rcases lt_or_ge y (-bound) with hunder | hover
    · rw [if_pos hunder, max_eq_left hunder.le]
    · rw [if_neg (not_lt.mpr hover), max_eq_right hover]

theorem axis_cases (held : ℕ → Bool) (pos neg : ℕ) :
    axis held pos neg = (0 : K) ∨ axis held pos neg = (1 : K) ∨ axis held pos neg = (-1 : K) := by
  cases hpos : held pos <;> cases hneg : held neg <;> simp [axis, hpos, hneg]

omit [LinearOrder K] [IsStrictOrderedRing K] in
theorem cast_keyValue [CharZero K] (held : Bool) : (keyValue held : K) = if held then 1 else 0 := by
  cases held <;> simp [keyValue]

/-- INTERNAL: the two inputs of an axis of keys.
SOURCE: game.cc:98-101 -/
theorem moveInput_eq {m : InputManager} {held : ℕ → Bool}
    (hraw : ∀ code ref, (code, ref) ∈ gameKeys → (m.inputs ref).raw = keyValue (held code)) :
    moveInput m = ((axis held scancodeD scancodeA, axis held scancodeS scancodeW) : K × K) := by
  have hvalue : ∀ code ref, (code, ref) ∈ gameKeys →
      ((m.inputs ref).value : K) = if held code then 1 else 0 := by
    intro code ref hkey
    rw [value_of_raw (hraw code ref hkey), cast_keyValue]
  rw [moveInput, hvalue scancodeD gameInput.moveXP (by simp [gameKeys]),
    hvalue scancodeA gameInput.moveXN (by simp [gameKeys]),
    hvalue scancodeS gameInput.moveYP (by simp [gameKeys]),
    hvalue scancodeW gameInput.moveYN (by simp [gameKeys])]
  rfl

omit [LinearOrder K] [IsStrictOrderedRing K] in
/-- INTERNAL: the two keys that fly.
SOURCE: game.cc:114-118 -/
theorem fly_eq {m : InputManager} {held : ℕ → Bool}
    (hraw : ∀ code ref, (code, ref) ∈ gameKeys → (m.inputs ref).raw = keyValue (held code)) :
    fly m = (axis held scancodeSpace scancodeLshift : K) := by
  have hjump := pressed_of_raw (hraw scancodeSpace gameInput.jump (by simp [gameKeys]))
  have hsneak := pressed_of_raw (hraw scancodeLshift gameInput.sneak (by simp [gameKeys]))
  rw [fly, hjump, hsneak, axis]
  cases held scancodeSpace <;> cases held scancodeLshift <;> simp

/-- INTERNAL: turning keeps the length.
SOURCE: game.cc:103-106 -/
theorem dot_turnedMove (hg : CameraLaws g) (yaw : K) (input : K × K) :
    (turnedMove g yaw input).1 * (turnedMove g yaw input).1 +
      (turnedMove g yaw input).2 * (turnedMove g yaw input).2 =
        input.1 * input.1 + input.2 * input.2 := by
  have hunit := hg.unit yaw
  simp only [turnedMove, hg.cosNeg, hg.sinNeg]
  linear_combination (input.1 * input.1 + input.2 * input.2) * hunit

/-- What a move is shortened by: a key for each of two axes would be faster than one. -/
def share (g : CameraMath K) (input : K × K) : K :=
  if input.1 ≠ 0 ∧ input.2 ≠ 0 then g.inversesqrt 2 else 1

/-- INTERNAL: **only a move along both axes is shortened**.
SOURCE: game.cc:103-110 -/
theorem shortened_turnedMove (hg : CameraLaws g) (yaw : K) {right back : K}
    (hright : right = 0 ∨ right = 1 ∨ right = -1) (hback : back = 0 ∨ back = 1 ∨ back = -1) :
    shortened g (turnedMove g yaw (right, back)) =
      turnedMove g yaw (right * share g (right, back), back * share g (right, back)) := by
  have hdot := dot_turnedMove hg yaw (right, back)
  rw [shortened, hdot, share]
  by_cases hboth : right ≠ 0 ∧ back ≠ 0
  · have hright' : right * right = 1 := by
      rcases hright with h | rfl | rfl
      · exact absurd h hboth.1
      · norm_num
      · norm_num
    have hback' : back * back = 1 := by
      rcases hback with h | rfl | rfl
      · exact absurd h hboth.2
      · norm_num
      · norm_num
    rw [hright', hback', if_pos (by norm_num), if_pos hboth, one_add_one_eq_two]
    simp only [turnedMove, Prod.mk.injEq]
    constructor
    · ring
    · ring
  · have hle : right * right + back * back ≤ 1 := by
      rcases not_and_or.mp hboth with hzero | hzero
      · rw [not_not.mp hzero]
        rcases hback with rfl | rfl | rfl <;> norm_num
      · rw [not_not.mp hzero]
        rcases hright with rfl | rfl | rfl <;> norm_num
    rw [if_neg (not_lt.mpr hle), if_neg hboth, mul_one, mul_one]

omit [LinearOrder K] [IsStrictOrderedRing K] in
/-- INTERNAL: what is level before the camera, in the world. -/
theorem ahead_eq (g : CameraMath K) (yaw : K) (v : Vec3 K) :
    ahead g yaw v = ⟨v.x * g.cos yaw - v.z * g.sin yaw, v.y, v.z * g.cos yaw + v.x * g.sin yaw⟩ := by
  ext <;> simp only [ahead, axisRotation, Vec3.x_add, Vec3.y_add, Vec3.z_add, Vec3.scale_x,
    Vec3.scale_y, Vec3.scale_z] <;> ring

/-- INTERNAL: **the camera moves ahead**.
SOURCE: game.cc:98-119 -/
theorem movePosition_eq (hg : CameraLaws g) {m : InputManager} {held : ℕ → Bool}
    (hraw : ∀ code ref, (code, ref) ∈ gameKeys → (m.inputs ref).raw = keyValue (held code))
    (frameTime yaw : K) (position : Vec3 K) :
    movePosition g m frameTime yaw position =
      position + (ahead g yaw (keyVelocity g held)).scale frameTime := by
  have hmove := shortened_turnedMove hg yaw (axis_cases held scancodeD scancodeA)
    (axis_cases held scancodeS scancodeW)
  rw [movePosition, moveInput_eq hraw, fly_eq hraw, hmove, ahead_eq]
  simp only [turnedMove, hg.cosNeg, hg.sinNeg, keyVelocity, share]
  ext <;> simp only [Vec3.x_add, Vec3.y_add, Vec3.z_add, Vec3.scale_x, Vec3.scale_y, Vec3.scale_z] <;> ring

/-- INTERNAL: **the mouse turns the camera**.
SOURCE: game.cc:89-96 -/
theorem moveLook_eq [FloorRing K] (hg : CameraLaws g) {m : InputManager} {x y : ℚ}
    (hx : AxisBalanced (m.inputs gameInput.lookXN).raw (m.inputs gameInput.lookXP).raw x)
    (hy : AxisBalanced (m.inputs gameInput.lookYN).raw (m.inputs gameInput.lookYP).raw y)
    (frameTime : K) (look : Vec3 K) :
    moveLook g m frameTime look =
      ⟨glmMod (look.x + 36 / 100 * (x : K) * frameTime) (2 * g.pi),
        max (-(g.pi / 2)) (min (g.pi / 2) (look.y + 36 / 100 * (y : K) * frameTime)), look.z⟩ := by
  have hhalf : (1 / 2 : K) * g.pi = g.pi / 2 := by ring
  have hnonneg : 0 ≤ g.pi / 2 := (half_pos hg.piPos).le
  rw [moveLook, ← Rat.cast_sub, ← Rat.cast_sub, hx.balance, hy.balance, neg_mul, hhalf, ← clamp_eq hnonneg]

end Numbers

/-! ## One frame -/

section OneFrame

variable {K : Type} [Field K] [LinearOrder K] [IsStrictOrderedRing K] {g : CameraMath K}

/-- The game is the flight, but for full turns. -/
structure Flies (g : CameraMath K) (r : Running K) (s : Flight K) : Prop where
  between : Between r.app s.held s.captured
  turns : ∃ n : ℤ, r.game.camera.rotation.x = s.yaw + n * (2 * g.pi)
  pitch : r.game.camera.rotation.y = s.pitch
  roll : r.game.camera.rotation.z = s.roll
  position : r.game.camera.position = s.position
  seconds : r.game.frameTime = s.seconds

omit [IsStrictOrderedRing K] in
/-- INTERNAL: no cosine and no sine sees a full turn. -/
theorem cos_of_turns (hg : CameraLaws g) {a b : K} (h : ∃ n : ℤ, a = b + n * (2 * g.pi)) :
    g.cos a = g.cos b ∧ g.sin a = g.sin b := by
  obtain ⟨n, rfl⟩ := h
  exact ⟨hg.cosTurn.int_mul n b, hg.sinTurn.int_mul n b⟩

omit [LinearOrder K] [IsStrictOrderedRing K] in
theorem fst_motion (s : Flight K) (polled : List (Bool × SdlEvent)) :
    (s.motion polled).1 =
      ((0 + if s.captured then xMotion (polled.map Prod.snd) else 0 : ℚ) : K) := by
  rw [Flight.motion, zero_add]
  cases s.captured <;> simp

omit [LinearOrder K] [IsStrictOrderedRing K] in
theorem snd_motion (s : Flight K) (polled : List (Bool × SdlEvent)) :
    (s.motion polled).2 =
      ((0 - if s.captured then yMotion (polled.map Prod.snd) else 0 : ℚ) : K) := by
  rw [Flight.motion, zero_sub]
  cases s.captured <;> simp

omit [IsStrictOrderedRing K] in
/-- INTERNAL: taking off full turns leaves what is left of full turns. -/
theorem turns_glmMod [FloorRing K] {a b : K} (h : ∃ n : ℤ, a = b + n * (2 * g.pi)) (d : K) :
    ∃ n : ℤ, glmMod (a + d) (2 * g.pi) = b + d + n * (2 * g.pi) := by
  obtain ⟨n, rfl⟩ := h
  refine ⟨n - ⌊(b + n * (2 * g.pi) + d) / (2 * g.pi)⌋, ?_⟩
  rw [glmMod, Int.cast_sub]
  ring

/-- INTERNAL: **a frame of the game is one of the flight**.
SOURCE: application.cc:193-219, game.cc:81-176 -/
theorem Flies.frame [FloorRing K] (hg : CameraLaws g) {r r' : Running K} {s : Flight K} (h : Flies g r s)
    {f : GameFrame K} (hframe : r.frame g f = .ok r') : Flies g r' (s.frame g f) := by
  obtain ⟨app, hpoll, hframe⟩ := bind_eq_ok_iff.mp hframe
  obtain rfl := Except.ok.inj hframe
  obtain ⟨hbetween, hx, hy⟩ := (h.between.preEvents.pollEvents hpoll).afterPoll
  have hlook := moveLook_eq hg hx hy r.game.frameTime r.game.camera.rotation
  rw [← fst_motion, ← snd_motion, h.seconds, h.pitch, h.roll] at hlook
  have hturns := turns_glmMod h.turns (36 / 100 * (s.motion f.polled).1 * s.seconds)
  obtain ⟨hcos, hsin⟩ := cos_of_turns hg hturns
  have hposition := movePosition_eq hg hbetween.raw s.seconds
    (glmMod (r.game.camera.rotation.x + 36 / 100 * (s.motion f.polled).1 * s.seconds) (2 * g.pi))
    s.position
  rw [ahead, hcos, hsin, ← ahead] at hposition
  have hcamera : (r.game.onFrame g (app.afterPoll unlockCursor).inputManager f).camera =
      ⟨f.editedPosition.getD (s.position + (ahead g
          (s.yaw + 36 / 100 * (s.motion f.polled).1 * s.seconds)
          (keyVelocity g (heldAfter s.held f.polled))).scale s.seconds),
        f.editedRotation.elim
          ⟨glmMod (r.game.camera.rotation.x + 36 / 100 * (s.motion f.polled).1 * s.seconds) (2 * g.pi),
            max (-(g.pi / 2)) (min (g.pi / 2)
              (s.pitch + 36 / 100 * (s.motion f.polled).2 * s.seconds)), s.roll⟩
          fun degrees => degrees.map fun d => d / 180 * g.pi⟩ := by
    rw [Game.onFrame, h.seconds, hlook, h.position, hposition]
  constructor
  · exact hbetween
  · simp only [hcamera]
    cases hedit : f.editedRotation with
    | none =>
      simp only [Flight.frame, hedit, Option.elim_none]
      exact hturns
    | some degrees =>
      refine ⟨0, ?_⟩
      simp [Flight.frame, hedit]
  · simp only [hcamera]
    cases hedit : f.editedRotation <;> simp [Flight.frame, hedit]
  · simp only [hcamera]
    cases hedit : f.editedRotation <;> simp [Flight.frame, hedit]
  · simp only [hcamera]
    rfl
  · rfl

omit [LinearOrder K] [IsStrictOrderedRing K] in
/-- INTERNAL: what the matrix of a camera shows.
SOURCE: renderer/renderer.cc:370-374 -/
theorem transform_viewMatrix {glm : Glm K K} (hglm : GlmLaws glm g.cos g.sin) (camera : Camera K)
    (p : Vec3 K) : glm.transform (viewMatrix glm camera) p =
      axisRotation (g.cos (-camera.rotation.y)) (g.sin (-camera.rotation.y)) ⟨1, 0, 0⟩
        (axisRotation (g.cos camera.rotation.x) (g.sin camera.rotation.x) ⟨0, 1, 0⟩
          (axisRotation (g.cos camera.rotation.z) (g.sin camera.rotation.z) ⟨0, 0, 1⟩
            (p + -camera.position))) := by
  rw [viewMatrix, hglm.translate, hglm.rotate _ _ _ _ (by simp), hglm.rotate _ _ _ _ (by simp),
    hglm.rotate _ _ _ _ (by simp), hglm.mat4]
  congr 4
  ext <;> simp

omit [IsStrictOrderedRing K] in
/-- INTERNAL: what is drawn of a game that is a flight. -/
theorem Flies.view (hg : CameraLaws g) {glm : Glm K K} (hglm : GlmLaws glm g.cos g.sin) {r : Running K}
    {s : Flight K} (h : Flies g r s) (p : Vec3 K) :
    glm.transform (viewMatrix glm r.game.camera) p = s.sees g p := by
  obtain ⟨hcos, hsin⟩ := cos_of_turns hg h.turns
  rw [transform_viewMatrix hglm, h.pitch, h.roll, h.position, hcos, hsin]
  rfl

/-- INTERNAL: whatever was there before, a look that is not edited is wrapped.
SOURCE: game.cc:92-96 -/
theorem wrapped_frame [FloorRing K] (hg : CameraLaws g) {r r' : Running K} {f : GameFrame K}
    (hframe : r.frame g f = .ok r') (hunedited : f.editedRotation = none) :
    0 ≤ r'.game.camera.rotation.x ∧ r'.game.camera.rotation.x < 2 * g.pi ∧
      -(g.pi / 2) ≤ r'.game.camera.rotation.y ∧ r'.game.camera.rotation.y ≤ g.pi / 2 := by
  obtain ⟨app, _, hframe⟩ := bind_eq_ok_iff.mp hframe
  obtain rfl := Except.ok.inj hframe
  have hhalf : (1 / 2 : K) * g.pi = g.pi / 2 := by ring
  have hnonneg : 0 ≤ g.pi / 2 := (half_pos hg.piPos).le
  have hturn : (0 : K) < 2 * g.pi := by linarith [hg.piPos]
  simp only [Game.onFrame, hunedited, Option.elim_none, moveLook, neg_mul, hhalf, clamp_eq hnonneg]
  obtain ⟨hfrom, hbelow⟩ := glmMod_bounds (x := r.game.camera.rotation.x + 36 / 100 *
    (((app.afterPoll unlockCursor).inputManager.inputs gameInput.lookXP).raw -
      ((app.afterPoll unlockCursor).inputManager.inputs gameInput.lookXN).raw : K) * r.game.frameTime) hturn
  exact ⟨hfrom, hbelow, le_max_left _ _, max_le (by linarith) (min_le_left _ _)⟩

end OneFrame

/-! ## The loop -/

section Loop

variable {K : Type} [Field K] [LinearOrder K] [IsStrictOrderedRing K] [FloorRing K] {g : CameraMath K}

omit [LinearOrder K] [IsStrictOrderedRing K] [FloorRing K] in
/-- INTERNAL: what `main` has bound before its loop.
SOURCE: game.cc:66-79, application.cc:183-185 -/
theorem exists_start : ∃ r : Running K, Running.start = .ok r ∧ KeysBound r.app.inputManager ∧
    r.app.inputManager = { InputManager.create with
      mouseXN := some gameMouse.xn
      mouseXP := some gameMouse.xp
      mouseYN := some gameMouse.yn
      mouseYP := some gameMouse.yp
      keyboard := r.app.inputManager.keyboard } ∧
    r.app.captureMouse = false ∧ r.app.shouldExit = false ∧ r.frameCount = 0 ∧
      r.game = ⟨⟨⟨0, 0, 0⟩, ⟨0, 0, 0⟩⟩, 0⟩ := by
  refine ⟨_, rfl, ?_, rfl, rfl, rfl, rfl, rfl⟩
  intro code ref
  simp only [gameKeys, List.mem_cons, Prod.mk.injEq, List.not_mem_nil, or_false]
  show Function.update (Function.update (Function.update (Function.update (Function.update (Function.update
    (Function.update (fun _ => none) scancodeA (some gameInput.moveXN)) scancodeD (some gameInput.moveXP))
    scancodeW (some gameInput.moveYN)) scancodeS (some gameInput.moveYP)) scancodeSpace
    (some gameInput.jump)) scancodeLshift (some gameInput.sneak)) scancodeLalt (some unlockCursor) code =
      some ref ↔ _
  simp only [Function.update_apply]
  split_ifs with h1 h2 h3 h4 h5 h6 h7 <;>
    simp_all [scancodeA, scancodeD, scancodeW, scancodeS, scancodeSpace, scancodeLshift, scancodeLalt, eq_comm]

omit [LinearOrder K] [IsStrictOrderedRing K] [FloorRing K] in
/-- INTERNAL: before the first frame the game is the flight that begins. -/
theorem flies_start {r : Running K} (hstart : Running.start = .ok r) :
    Flies g r .start ∧ r.app.shouldExit = false := by
  obtain ⟨start, hstart', hkeys, hmanager, hcaptured, hexit, -, hgame⟩ := exists_start (K := K)
  rw [hstart', Except.ok.injEq] at hstart
  subst hstart
  refine ⟨⟨⟨⟨?_, ?_⟩, hkeys, ?_, hcaptured⟩, ⟨0, ?_⟩, ?_, ?_, ?_, ?_⟩, hexit⟩
  · refine ⟨by rw [hmanager], by rw [hmanager], by rw [hmanager], by rw [hmanager], by decide, ?_⟩
    intro code _ ref href hkey
    exact not_mouse_of_key ((hkeys code ref).mp hkey) href
  · rw [hmanager]
    exact fun _ => ⟨rfl, rfl, fun _ _ => rfl⟩
  · rw [hmanager]
    exact fun _ _ _ => rfl
  · rw [hgame]
    simp [Flight.start]
  · rw [hgame]
    rfl
  · rw [hgame]
    rfl
  · rw [hgame]
    rfl
  · rw [hgame]
    rfl

/-- INTERNAL: **the loop**, by induction on its frames, which end where the exit is asked for.
SOURCE: application.cc:193-219 -/
theorem Flies.loop (hg : CameraLaws g) {glm : Glm K K} (hglm : GlmLaws glm g.cos g.sin)
    {frames : List (GameFrame K)} {r : Running K} {s : Flight K} {ends : List (Running K)}
    (h : Flies g r s) (hexit : r.app.shouldExit = false) (hloop : Running.loop g frames r = .ok ends) :
    List.Forall₂ (fun p r => ShowsFlight glm g p.1 r p.2)
      ((untilQuit frames).zip (Flight.frames g (untilQuit frames) s)) ends := by
  induction frames generalizing r s ends with
  | nil =>
    obtain rfl := Except.ok.inj hloop
    exact .nil
  | cons f fs ih =>
    rw [Running.loop, if_neg (by simp [hexit]), bind_eq_ok_iff] at hloop
    obtain ⟨next, hframe, hloop⟩ := hloop
    obtain ⟨rest, hrest, hends⟩ := bind_eq_ok_iff.mp hloop
    obtain rfl := Except.ok.inj hends
    have hnext := h.frame hg hframe
    have hdraws : ShowsFlight glm g f next (s.frame g f) :=
      ⟨hnext.view hg hglm, hnext.position, hnext.between.captured, wrapped_frame hg hframe⟩
    have hquits : next.app.shouldExit = Quits f := by
      obtain ⟨app, hpoll, hframe⟩ := bind_eq_ok_iff.mp hframe
      obtain rfl := Except.ok.inj hframe
      have hexits := shouldExit_pollEvents hpoll
      rw [hexit, Bool.false_or] at hexits
      exact hexits
    rw [untilQuit, Flight.frames, List.zip_cons_cons]
    refine .cons hdraws ?_
    cases hquit : Quits f with
    | true =>
      have hnone : rest = [] := by
        cases fs with
        | nil => exact (Except.ok.inj hrest).symm
        | cons f' fs =>
          rw [Running.loop, if_pos (hquits.trans hquit)] at hrest
          exact (Except.ok.inj hrest).symm
      rw [if_pos rfl, hnone]
      exact .nil
    | false =>
      rw [if_neg (by simp)]
      exact ih hnext (hquits.trans hquit) hrest

/-- INTERNAL: the assertion about keys holds of every key that there is.
SOURCE: application.cc:119-129, input/input.cc:111 -/
theorem exists_pollEvents {polled : List (Bool × SdlEvent)} (hfit : ScancodesFit (polled.map Prod.snd))
    (app : App) : ∃ app', app.pollEvents polled = .ok app' := by
  induction polled generalizing app with
  | nil => exact ⟨app, rfl⟩
  | cons p polled ih =>
    obtain ⟨next, hnext⟩ : ∃ next, app.pollEvent p.1 p.2 = .ok next := by
      have hcode : ∀ down scancode isRepeat, p.2 = .key down scancode isRepeat →
          scancode < InputManager.numScancodes :=
        fun down scancode isRepeat heq => hfit down scancode isRepeat (heq ▸ List.mem_cons_self)
      obtain ⟨m, hm⟩ := exists_handleEvent app.inputManager hcode
      unfold App.pollEvent
      split
      · exact ⟨_, rfl⟩
      · exact ⟨_, rfl⟩
      · split_ifs
        · exact ⟨_, rfl⟩
        · exact ⟨_, bind_eq_ok_iff.mpr ⟨m, hm, rfl⟩⟩
      · split_ifs
        · exact ⟨_, bind_eq_ok_iff.mpr ⟨m, hm, rfl⟩⟩
        · exact ⟨_, rfl⟩
      · exact ⟨_, rfl⟩
    obtain ⟨app', hrest⟩ := ih (fun down scancode isRepeat hmem =>
      hfit down scancode isRepeat (List.mem_cons_of_mem _ hmem)) next
    exact ⟨app', foldlM_cons_eq_ok_iff.mpr ⟨next, hnext, hrest⟩⟩

omit [IsStrictOrderedRing K] in
theorem exists_loop {frames : List (GameFrame K)}
    (hfit : ∀ f ∈ frames, ScancodesFit (f.polled.map Prod.snd)) (r : Running K) :
    ∃ ends, Running.loop g frames r = .ok ends := by
  induction frames generalizing r with
  | nil => exact ⟨[], rfl⟩
  | cons f fs ih =>
    rw [Running.loop]
    split_ifs
    · exact ⟨[], rfl⟩
    · obtain ⟨app, happ⟩ := exists_pollEvents (hfit f List.mem_cons_self)
        { r.app with inputManager := r.app.inputManager.preEvents }
      obtain ⟨ends, hends⟩ := ih (fun other hother => hfit other (List.mem_cons_of_mem f hother))
        { app := app.afterPoll unlockCursor
          game := r.game.onFrame g (app.afterPoll unlockCursor).inputManager f
          frameCount := r.frameCount + 1 }
      exact ⟨_, bind_eq_ok_iff.mpr ⟨_, bind_eq_ok_iff.mpr ⟨app, happ, rfl⟩,
        bind_eq_ok_iff.mpr ⟨ends, hends, rfl⟩⟩⟩

/-- The functions of the reals. -/
noncomputable def realMath : CameraMath ℝ where
  pi := Real.pi
  cos := Real.cos
  sin := Real.sin
  inversesqrt a := (√a)⁻¹

theorem realMath_laws : CameraLaws realMath where
  piPos := Real.pi_pos
  unit := Real.cos_sq_add_sin_sq
  cosZero := Real.cos_zero
  cosNeg := Real.cos_neg
  sinNeg := Real.sin_neg
  cosTurn := Real.cos_periodic
  sinTurn := Real.sin_periodic
  inversesqrt a ha := by
    have hroot : 0 < √a := Real.sqrt_pos.mpr ha
    refine ⟨inv_pos.mpr hroot, ?_⟩
    show (√a)⁻¹ ^ 2 * a = 1
    rw [inv_pow, Real.sq_sqrt ha.le, inv_mul_cancel₀ ha.ne']

/-- `glm` over the reals, with a matrix as what it does to a point. -/
noncomputable def realGlm : Glm ℝ ℝ where
  Mat4 := Vec3 ℝ → Vec3 ℝ
  mat4 := id
  translate m t := fun v => m (v + t)
  rotate m a n := fun v => m (axisRotation (Real.cos a) (Real.sin a) n v)
  transform m := m
  sec a := 1 / Real.cos a
  zeroAngle := 0
  radians degrees := degrees / 180 * Real.pi

theorem realGlm_laws : GlmLaws realGlm realMath.cos realMath.sin where
  mat4 _ := rfl
  translate _ _ _ := rfl
  rotate _ _ _ _ _ := rfl

/-- The mouse is captured and a key for ahead goes down; then the mouse moves to the right. -/
def twoFrames : List (GameFrame ℝ) :=
  [⟨[(false, .key true scancodeLalt false), (false, .key true scancodeW false)], none, none, 1⟩,
    ⟨[(false, .mouseMotion 10 0)], none, none, 1⟩]

theorem scancodesFit_twoFrames : ∀ f ∈ twoFrames, ScancodesFit (f.polled.map Prod.snd) := by
  simp only [twoFrames, List.forall_mem_cons, List.map_cons, List.map_nil, ScancodesFit]
  simp [scancodeLalt, scancodeW, InputManager.numScancodes]

omit [LinearOrder K] [IsStrictOrderedRing K] [FloorRing K] in
/-- INTERNAL: what is ahead is seen ahead.
SOURCE: game.cc:103-106, renderer/renderer.cc:372 -/
theorem axisRotation_ahead (hunit : ∀ a, g.cos a ^ 2 + g.sin a ^ 2 = 1) (yaw : K) (v : Vec3 K) :
    axisRotation (g.cos yaw) (g.sin yaw) ⟨0, 1, 0⟩ (ahead g yaw v) = v := by
  have hone := hunit yaw
  rw [ahead_eq]
  ext <;> simp only [axisRotation, Vec3.x_add, Vec3.y_add, Vec3.z_add, Vec3.scale_x, Vec3.scale_y,
    Vec3.scale_z]
  · linear_combination v.x * hone
  · ring
  · linear_combination v.z * hone

omit [LinearOrder K] [IsStrictOrderedRing K] [FloorRing K] in
theorem axisRotation_add (c s : K) (n v w : Vec3 K) :
    axisRotation c s n (v + w) = axisRotation c s n v + axisRotation c s n w := by
  ext <;> simp only [axisRotation, Vec3.x_add, Vec3.y_add, Vec3.z_add, Vec3.scale_x, Vec3.scale_y,
    Vec3.scale_z] <;> ring

omit [LinearOrder K] [IsStrictOrderedRing K] [FloorRing K] in
theorem axisRotation_none (n v : Vec3 K) : axisRotation 1 0 n v = v := by
  ext <;> simp [axisRotation]

omit [LinearOrder K] [IsStrictOrderedRing K] [FloorRing K] in
/-- INTERNAL: turning ahead keeps the speed. -/
theorem sq_ahead (hunit : ∀ a, g.cos a ^ 2 + g.sin a ^ 2 = 1) (yaw : K) (v : Vec3 K) :
    (ahead g yaw v).x ^ 2 + (ahead g yaw v).z ^ 2 = v.x ^ 2 + v.z ^ 2 := by
  rw [ahead_eq]
  linear_combination (v.x ^ 2 + v.z ^ 2) * hunit yaw

omit [FloorRing K] in
/-- INTERNAL: **one key for each of two axes is as fast as one key**.
SOURCE: game.cc:108-110 -/
theorem keyVelocity_le (hg : CameraLaws g) (held : ℕ → Bool) :
    (keyVelocity g held).x ^ 2 + (keyVelocity g held).z ^ 2 ≤ 20 ^ 2 ∧ (keyVelocity g held).y ^ 2 ≤ 20 ^ 2 := by
  have hsquare : ∀ pos neg, axis held pos neg ^ 2 = (0 : K) ∨ axis held pos neg ^ 2 = (1 : K) := by
    intro pos neg
    rcases axis_cases (K := K) held pos neg with h | h | h <;> rw [h] <;> norm_num
  obtain ⟨-, hroot⟩ := hg.inversesqrt 2 two_pos
  simp only [keyVelocity, Vec3.scale_x, Vec3.scale_y, Vec3.scale_z, mul_pow]
  constructor
  · split_ifs with hboth
    · obtain ⟨hright, hback⟩ := hboth
      rw [(hsquare scancodeD scancodeA).resolve_left (pow_ne_zero 2 hright),
        (hsquare scancodeS scancodeW).resolve_left (pow_ne_zero 2 hback)]
      linarith
    · rcases not_and_or.mp hboth with hzero | hzero
      · rw [not_not.mp hzero]
        rcases hsquare scancodeS scancodeW with h | h <;> rw [h] <;> norm_num
      · rw [not_not.mp hzero]
        rcases hsquare scancodeD scancodeA with h | h <;> rw [h] <;> norm_num
  · rcases hsquare scancodeSpace scancodeLshift with h | h <;> rw [h] <;> norm_num

/-- INTERNAL: frames in which the look is not edited, by induction on them. -/
theorem Flies.frames (hg : CameraLaws g) {before : List (GameFrame K)} {r r' : Running K} {s : Flight K}
    (h : Flies g r s) (hroll : s.roll = 0) (hbefore : before.foldlM (Running.frame g) r = .ok r')
    (hlook : ∀ e ∈ before, e.editedRotation = none) :
    ∃ s', Flies g r' s' ∧ s'.roll = 0 ∧ s'.held = heldAfter s.held (before.flatMap GameFrame.polled) := by
  induction before generalizing r s with
  | nil =>
    obtain rfl := Except.ok.inj hbefore
    exact ⟨s, h, hroll, rfl⟩
  | cons f fs ih =>
    obtain ⟨next, hframe, hrest⟩ := foldlM_cons_eq_ok_iff.mp hbefore
    have hunedited := hlook f List.mem_cons_self
    have hlevel : (s.frame g f).roll = 0 := by
      simp [Flight.frame, hunedited, hroll]
    obtain ⟨s', hflies, hroll', hheld⟩ := ih (h.frame hg hframe) hlevel hrest
      fun e he => hlook e (List.mem_cons_of_mem f he)
    refine ⟨s', hflies, hroll', ?_⟩
    rw [hheld, List.flatMap_cons]
    exact List.foldl_append.symm

end Loop

end Mccpp.Analysis
