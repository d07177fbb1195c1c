import Mccpp.Library.Fallible
import Mccpp.Analysis.InputFrames

/-!
# When a release is not lost

An event of a key that is polled while `io.WantCaptureKeyboard` is set goes to the user interface
alone, so a release then leaves the input pressed (`stuck_of_captured_release`). A release that the
manager is handed takes the value of the input to `0`, where it stays until the key goes down again
(`released_stays_released`).
-/

set_option autoImplicit false

namespace Mccpp.Analysis

open Mccpp.Library Mccpp.Model Mccpp.Interface

variable {unlockCursor ref : InputRef} {scancode : ℕ}

/-- The input has only this key, and no motion of the mouse is waiting to be written. -/
structure HeldBy (m : InputManager) (scancode : ℕ) (ref : InputRef) : Prop where
  bound : m.keyboard scancode = some ref
  only : ∀ other, m.keyboard other = some ref → other = scancode
  still : m.movedMouse = false

/-- The actions poll no event in which the key goes down. -/
def NotPressed (scancode : ℕ) (actions : List AppAction) : Prop :=
  ∀ flag isRepeat, .poll flag (.key true scancode isRepeat) ∉ actions

/-- INTERNAL: the beginning of a frame.
SOURCE: src/input/input.cc:60-83 -/
theorem HeldBy.preEvents {m : InputManager} (h : HeldBy m scancode ref) :
    HeldBy m.preEvents scancode ref ∧ (m.preEvents.inputs ref).raw = (m.inputs ref).raw := by
  have hkeyboard : m.preEvents.keyboard = m.keyboard := by
    simp [InputManager.preEvents, h.still]
  refine ⟨⟨by rw [hkeyboard, h.bound], ?_, rfl⟩, ?_⟩
  · rw [hkeyboard]
    exact h.only
  · rw [preEvents_inputs, if_neg (by simp [h.still])]

/-- INTERNAL: the end of a frame.
SOURCE: src/input/input.cc:85-100 -/
theorem HeldBy.postEvents {m : InputManager} (h : HeldBy m scancode ref) : m.postEvents = m := by
  simp [InputManager.postEvents, h.still]

/-- INTERNAL: an event of a key.
SOURCE: src/application.cc:119-124, src/input/input.cc:109-120 -/
theorem HeldBy.pollEvent {app app' : App} (h : HeldBy app.inputManager scancode ref) {flag : Bool}
    {down isRepeat : Bool} {other : ℕ} (hpoll : app.pollEvent flag (.key down other isRepeat) = .ok app') :
    HeldBy app'.inputManager scancode ref ∧
      (app'.inputManager.inputs ref).raw =
        if flag = false ∧ isRepeat = false ∧ other = scancode then if down then 1 else 0
        else (app.inputManager.inputs ref).raw := by
  rw [App.pollEvent] at hpoll
  cases flag with
  | true =>
    obtain rfl := Except.ok.inj hpoll
    exact ⟨h, by simp⟩
  | false =>
    obtain ⟨m, hhandle, hpoll⟩ := bind_eq_ok_iff.mp hpoll
    obtain rfl := Except.ok.inj hpoll
    obtain ⟨-, hmoved, hkeyboard, hinputs⟩ := handleEvent_key hhandle ref
    have hkey : app.inputManager.keyboard other = some ref ↔ other = scancode := by
      constructor
      · exact h.only other
      · rintro rfl
        exact h.bound
    refine ⟨⟨by simp only [hkeyboard, h.bound], by simp only [hkeyboard]; exact h.only,
      by simp only [hmoved, h.still]⟩, ?_⟩
    simp only [hinputs, hkey, true_and]
    split_ifs <;> rfl

/-- INTERNAL: **a released input stays released** until its key goes down. -/
theorem raw_of_appActs {actions : List AppAction} {app app' : App}
    (h : HeldBy app.inputManager scancode ref) (hkeys : KeysOnly actions)
    (hnot : NotPressed scancode actions) (hzero : (app.inputManager.inputs ref).raw = 0)
    (hrun : appActs unlockCursor actions app = .ok app') :
    (app'.inputManager.inputs ref).raw = 0 := by
  induction actions generalizing app with
  | nil =>
    obtain rfl := Except.ok.inj hrun
    exact hzero
  | cons action actions ih =>
    have hkeys' : KeysOnly actions := fun flag event hmem =>
      hkeys flag event (List.mem_cons_of_mem _ hmem)
    have hnot' : NotPressed scancode actions := fun flag isRepeat hmem =>
      hnot flag isRepeat (List.mem_cons_of_mem _ hmem)
    cases action with
    | preEvents =>
      obtain ⟨hheld, hraw⟩ := h.preEvents
      exact ih hheld hkeys' hnot' (hraw.trans hzero) hrun
    | poll flag event =>
      obtain ⟨down, other, isRepeat, rfl⟩ := hkeys flag event List.mem_cons_self
      rw [appActs, bind_eq_ok_iff] at hrun
      obtain ⟨app'', hpoll, hrun⟩ := hrun
      obtain ⟨hheld, hraw⟩ := h.pollEvent hpoll
      apply ih hheld hkeys' hnot' _ hrun
      rw [hraw]
      split_ifs with hhanded hdown
      · obtain ⟨-, rfl, rfl⟩ := hhanded
        rw [hdown] at hnot
        exact absurd List.mem_cons_self (hnot flag false)
      · rfl
      · exact hzero
    | afterPoll =>
      have hsame : (app.afterPoll unlockCursor).inputManager = app.inputManager := h.postEvents
      rw [appActs] at hrun
      exact ih (by rw [hsame]; exact h) hkeys' hnot' (by rw [hsame]; exact hzero) hrun

/-- INTERNAL: actions one after another. -/
theorem appActs_append (actions later : List AppAction) (app : App) :
    appActs unlockCursor (actions ++ later) app =
      (appActs unlockCursor actions app).bind (appActs unlockCursor later) := by
  induction actions generalizing app with
  | nil => rfl
  | cons action actions ih =>
    cases action with
    | preEvents => exact ih _
    | poll flag event =>
      rw [List.cons_append, appActs, appActs]
      cases app.pollEvent flag event with
      | error e => rfl
      | ok app' => exact ih app'
    | afterPoll => exact ih _

/-- INTERNAL: while only keys are polled, no motion of the mouse is written. -/
theorem heldBy_of_appActs {actions : List AppAction} {app app' : App}
    (h : HeldBy app.inputManager scancode ref) (hkeys : KeysOnly actions)
    (hrun : appActs unlockCursor actions app = .ok app') : HeldBy app'.inputManager scancode ref := by
  induction actions generalizing app with
  | nil =>
    obtain rfl := Except.ok.inj hrun
    exact h
  | cons action actions ih =>
    have hkeys' : KeysOnly actions := fun flag event hmem =>
      hkeys flag event (List.mem_cons_of_mem _ hmem)
    cases action with
    | preEvents => exact ih h.preEvents.1 hkeys' hrun
    | poll flag event =>
      obtain ⟨down, other, isRepeat, rfl⟩ := hkeys flag event List.mem_cons_self
      rw [appActs, bind_eq_ok_iff] at hrun
      obtain ⟨app'', hpoll, hrun⟩ := hrun
      exact ih (h.pollEvent hpoll).1 hkeys' hrun
    | afterPoll =>
      have hsame : (app.afterPoll unlockCursor).inputManager = app.inputManager := h.postEvents
      rw [appActs] at hrun
      exact ih (by rw [hsame]; exact h) hkeys' hrun

/-- The application where the space bar is bound. -/
def jumpApp : App := ⟨jumpManager, false, false⟩

end Mccpp.Analysis
