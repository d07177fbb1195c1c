import Mathlib.Data.List.Induction
import Mathlib.Tactic.Linarith
import Mccpp.Library.Fallible
import Mccpp.Interface.InputFrames

/-!
# When an input shows how it has changed

`old()` clamps the value of the input now instead of the one in the frame before, so `delta()` is
always `0` (`delta_eq_zero`), and `pre_events` takes back the motion of the mouse before it keeps
the value of the frame before (`preEvents_inputs`). So an input tracks its value throughout a run
exactly as long as no action changes it (`frames_track_iff`).
-/

set_option autoImplicit false

namespace Mccpp.Analysis

open Mccpp.Library Mccpp.Model Mccpp.Interface

/-! ## What an action does to an input -/

@[simp] theorem setRaw_inputs (m : InputManager) (r : Option InputRef) (value : ℚ) (ref : InputRef) :
    (m.setRaw r value).inputs ref =
      if r = some ref then { m.inputs ref with raw := value } else m.inputs ref := by
  cases r with
  | none => simp [InputManager.setRaw]
  | some r =>
    by_cases hr : r = ref
    · simp [InputManager.setRaw, hr]
    · simp [InputManager.setRaw, hr, Function.update_of_ne (Ne.symm hr)]

@[simp] theorem setRaw_movedMouse (m : InputManager) (r : Option InputRef) (value : ℚ) :
    (m.setRaw r value).movedMouse = m.movedMouse := by
  cases r <;> rfl

@[simp] theorem setRaw_keyboard (m : InputManager) (r : Option InputRef) (value : ℚ) :
    (m.setRaw r value).keyboard = m.keyboard := by
  cases r <;> rfl

@[simp] theorem setRaw_axes (m : InputManager) (r : Option InputRef) (value : ℚ) :
    (m.setRaw r value).mouseXN = m.mouseXN ∧ (m.setRaw r value).mouseXP = m.mouseXP ∧
      (m.setRaw r value).mouseYN = m.mouseYN ∧ (m.setRaw r value).mouseYP = m.mouseYP := by
  cases r <;> exact ⟨rfl, rfl, rfl, rfl⟩

/-- INTERNAL: the value of a frame is that at the end of the frame before, but for the motion of the
mouse.
SOURCE: src/input/input.cc:60-83 -/
theorem preEvents_inputs (m : InputManager) (ref : InputRef) :
    m.preEvents.inputs ref =
      if m.movedMouse = true ∧ (mouseValue m ref).isSome then ⟨0, 0⟩
      else ⟨(m.inputs ref).raw, (m.inputs ref).raw⟩ := by
  by_cases hmoved : m.movedMouse = true
  · simp only [InputManager.preEvents, hmoved, if_true, setRaw_inputs, setRaw_axes, mouseValue,
      true_and]
    split_ifs <;> simp_all
  · simp [InputManager.preEvents, hmoved]

/-- INTERNAL: one side of an axis. -/
theorem ite_eq_max (x : ℚ) : (if x > 0 then x else 0) = max x 0 := by
  split_ifs with hpos
  · exact (max_eq_left hpos.le).symm
  · exact (max_eq_right (not_lt.mp hpos)).symm

/-- INTERNAL: the other side of an axis. -/
theorem ite_neg_eq_max (x : ℚ) : (if x < 0 then -x else 0) = max (-x) 0 := by
  rw [← ite_eq_max]
  split_ifs <;> linarith

/-- INTERNAL: the motion of the mouse is written at the end of a frame.
SOURCE: src/input/input.cc:85-100 -/
theorem postEvents_inputs (m : InputManager) (ref : InputRef) :
    m.postEvents.inputs ref =
      if m.movedMouse = true then
        { m.inputs ref with raw := (mouseValue m ref).getD (m.inputs ref).raw }
      else m.inputs ref := by
  by_cases hmoved : m.movedMouse = true
  · simp only [InputManager.postEvents, hmoved, if_true, setRaw_inputs, setRaw_axes, ite_eq_max,
      ite_neg_eq_max, mouseValue]
    split_ifs <;> rfl
  · simp [InputManager.postEvents, hmoved]

/-- INTERNAL: a key changes the input that it is bound to.
SOURCE: src/input/input.cc:109-120 -/
theorem handleEvent_key {m m' : InputManager} {down isRepeat : Bool} {scancode : ℕ}
    (h : m.handleEvent (.key down scancode isRepeat) = .ok m') (ref : InputRef) :
    scancode < InputManager.numScancodes ∧ m'.movedMouse = m.movedMouse ∧
      m'.keyboard = m.keyboard ∧ m'.inputs ref =
        if isRepeat = false ∧ m.keyboard scancode = some ref then
          { m.inputs ref with raw := if down then 1 else 0 }
        else m.inputs ref := by
  rw [InputManager.handleEvent] at h
  by_cases hcode : scancode < InputManager.numScancodes
  · rw [if_pos hcode] at h
    cases isRepeat with
    | true =>
      obtain rfl := Except.ok.inj h
      simp [hcode]
    | false =>
      obtain rfl := Except.ok.inj h
      simp [hcode]
  · rw [if_neg hcode] at h
    cases h

/-- INTERNAL: no other event changes an input before the end of the frame.
SOURCE: src/input/input.cc:103-108,121 -/
theorem handleEvent_other {m m' : InputManager} {event : SdlEvent}
    (hother : ∀ down scancode isRepeat, event ≠ .key down scancode isRepeat)
    (h : m.handleEvent event = .ok m') : m'.inputs = m.inputs := by
  cases event with
  | key down scancode isRepeat => exact absurd rfl (hother down scancode isRepeat)
  | _ =>
    obtain rfl := Except.ok.inj h
    rfl

/-! ## What an input shows -/

/-- INTERNAL: the difference to the frame before is never seen.
SOURCE: src/input/input.hh:22-24 -/
theorem delta_eq_zero (i : Input) : i.delta = 0 := by
  simp [Input.delta, Input.value, Input.old]

/-- INTERNAL: **what an input shows is right when it kept its clamped value**.
SOURCE: src/input/input.hh:18-29 -/
theorem tracks_iff {previous : ℚ} {i : Input} : Tracks previous i ↔
    i.rawOld = previous ∧ Input.clamp i.raw (-1) 1 = Input.clamp i.rawOld (-1) 1 := by
  constructor
  · intro h
    exact ⟨h.rawOld, h.old⟩
  · rintro ⟨rfl, hclamp⟩
    refine ⟨rfl, hclamp, ?_, ?_, ?_⟩
    · rw [delta_eq_zero, hclamp, sub_self]
    · simp [Input.down, Input.wasPressed, Input.pressed]
    · simp [Input.up, Input.wasPressed, Input.pressed]

/-- INTERNAL: a key gives values within the range. -/
theorem clamp_key (down : Bool) : Input.clamp (if down then 1 else 0) (-1) 1 = if down then 1 else 0 := by
  cases down <;> norm_num [Input.clamp]

/-! ## One action -/

/-- INTERNAL: **at the beginning of a frame**.
SOURCE: src/input/input.cc:60-83 -/
theorem tracks_preEvents (m : Moment) (ref : InputRef) :
    Tracks (m.now.inputs ref).raw (m.now.preEvents.inputs ref) ↔ Keeps ref m .preEvents := by
  rw [tracks_iff, preEvents_inputs, Keeps]
  split_ifs with haxis
  · simp [haxis, eq_comm]
  · simp only [true_and, true_iff]
    exact fun hmoved hbound => absurd ⟨hmoved, hbound⟩ haxis

/-- INTERNAL: **behind its beginning**.
SOURCE: src/input/input.cc:85-124 -/
theorem tracks_act {m m' : Moment} {action : InputAction} (hinside : action ≠ .preEvents)
    (h : m.act action = .ok m') {ref : InputRef}
    (htracks : Tracks (m.previous.inputs ref).raw (m.now.inputs ref)) :
    Tracks (m'.previous.inputs ref).raw (m'.now.inputs ref) ↔ Keeps ref m action := by
  obtain ⟨hrawOld, hclamp⟩ := tracks_iff.mp htracks
  cases action with
  | preEvents => exact absurd rfl hinside
  | event event =>
    rw [Moment.act] at h
    obtain ⟨now, hnow, h⟩ := bind_eq_ok_iff.mp h
    obtain rfl := Except.ok.inj h
    rw [tracks_iff]
    cases event with
    | key down scancode isRepeat =>
      obtain ⟨hcode, -, -, hinputs⟩ := handleEvent_key hnow ref
      by_cases hbound : isRepeat = false ∧ m.now.keyboard scancode = some ref
      · rw [if_pos hbound] at hinputs
        simp only [hinputs, Keeps, clamp_key, hrawOld, hcode, hbound, true_and, forall_const]
        exact eq_comm
      · rw [if_neg hbound] at hinputs
        simp only [hinputs, Keeps, hrawOld, hclamp, and_self, true_iff]
        exact fun _ hrepeat hkey => absurd ⟨hrepeat, hkey⟩ hbound
    | _ =>
      have hinputs := handleEvent_other (by simp) hnow
      simp only [hinputs, hrawOld, hclamp, Keeps, and_self]
  | postEvents =>
    obtain rfl := Except.ok.inj h
    rw [tracks_iff, postEvents_inputs, Keeps]
    split_ifs with hmoved
    · cases hvalue : mouseValue m.now ref with
      | none => simp [hrawOld, hclamp]
      | some value => simp [hrawOld, hmoved, eq_comm]
    · simp [hrawOld, hclamp, hmoved]

/-! ## A run -/

/-- INTERNAL: one more action. -/
theorem acts_append (actions : List InputAction) (action : InputAction) (m : Moment) :
    Moment.acts (actions ++ [action]) m = (Moment.acts actions m).bind fun m => m.act action := by
  induction actions generalizing m with
  | nil =>
    show (m.act action >>= fun m => .ok m) = m.act action
    cases m.act action <;> rfl
  | cons first actions ih =>
    rw [List.cons_append, Moment.acts, Moment.acts]
    cases m.act first with
    | error e => rfl
    | ok m' => exact ih m'

/-- INTERNAL: a run begins with a frame. -/
theorem first_action {frames : List (List SdlEvent)} {action : InputAction}
    (h : [action] <+: frames.flatMap inputFrame) : action = .preEvents := by
  cases frames with
  | nil => simp at h
  | cons events frames =>
    rw [List.flatMap_cons, inputFrame, List.cons_append, List.cons_append,
      List.cons_prefix_cons] at h
    exact h.1

/-- INTERNAL: an action that ends the run keeps every input. -/
theorem keeps_of_error {m : Moment} {action : InputAction} {e : Failure}
    (h : m.act action = .error e) (ref : InputRef) : Keeps ref m action := by
  cases action with
  | preEvents => cases h
  | postEvents => cases h
  | event event =>
    cases event with
    | key down scancode isRepeat =>
      intro hcode
      rw [Moment.act, InputManager.handleEvent, if_pos hcode] at h
      split_ifs at h <;> cases h
    | _ => trivial

/-- SOURCE: src/input/input.cc:60-124, src/input/input.hh:14-41 — **an input shows throughout a run
how it has changed since the frame before if and only if no action of the run changes it**. -/
theorem frames_track_iff (m : InputManager) (ref : InputRef) (frames : List (List SdlEvent)) :
    (∀ actions moment, actions ≠ [] → actions <+: frames.flatMap inputFrame →
      Moment.acts actions ⟨m, m⟩ = .ok moment →
        Tracks (moment.previous.inputs ref).raw (moment.now.inputs ref)) ↔
    ∀ actions action moment, actions ++ [action] <+: frames.flatMap inputFrame →
      Moment.acts actions ⟨m, m⟩ = .ok moment → Keeps ref moment action := by
  constructor
  · intro htracks actions action moment hprefix hreached
    have hnext := acts_append actions action ⟨m, m⟩
    rw [hreached, Except.bind] at hnext
    cases hact : moment.act action with
    | error e => exact keeps_of_error hact ref
    | ok moment' =>
      rw [hact] at hnext
      have hafter := htracks _ _ (by simp) hprefix hnext
      by_cases hbegins : action = .preEvents
      · subst hbegins
        obtain rfl := Except.ok.inj hact
        exact (tracks_preEvents moment ref).mp hafter
      · have hinside : actions ≠ [] := by
          rintro rfl
          exact hbegins (first_action hprefix)
        have hbefore := htracks _ _ hinside ((List.prefix_append _ _).trans hprefix) hreached
        exact (tracks_act hbegins hact hbefore).mp hafter
  · intro hkeeps actions
    induction actions using List.reverseRecOn with
    | nil => exact fun _ hnonempty => absurd rfl hnonempty
    | append_singleton actions action ih =>
      intro moment' _ hprefix hreached'
      rw [acts_append] at hreached'
      obtain ⟨moment, hreached, hact⟩ := bind_eq_ok_iff.mp hreached'
      have hkept := hkeeps actions action moment hprefix hreached
      by_cases hbegins : action = .preEvents
      · subst hbegins
        obtain rfl := Except.ok.inj hact
        exact (tracks_preEvents moment ref).mpr hkept
      · have hinside : actions ≠ [] := by
          rintro rfl
          exact hbegins (first_action hprefix)
        have hbefore := ih moment hinside ((List.prefix_append _ _).trans hprefix) hreached
        exact (tracks_act hbegins hact hbefore).mpr hkept

/-- A manager where the space bar is bound. -/
def jumpManager : InputManager :=
  { InputManager.create with keyboard := Function.update (fun _ => none) 44 (some "jump".toList) }

/-- SOURCE: src/input/input.hh:23-24 — the space bar goes down, and `delta()` stays at `0`. -/
theorem not_tracks_of_key_down :
    InputManager.create.bindKeyboard 44 (some "jump".toList) = .ok jumpManager ∧
    ∃ moment, [.preEvents, .event (.key true 44 false)] <+: inputFrame [.key true 44 false] ∧
      Moment.acts [.preEvents, .event (.key true 44 false)] ⟨jumpManager, jumpManager⟩ =
        .ok moment ∧
      ¬ Tracks (moment.previous.inputs "jump".toList).raw (moment.now.inputs "jump".toList) := by
  refine ⟨rfl, _, ⟨[.postEvents], rfl⟩, rfl, ?_⟩
  intro htracks
  have hdelta := htracks.delta
  rw [delta_eq_zero] at hdelta
  have hone : (0 : ℚ) = Input.clamp 1 (-1) 1 - Input.clamp 0 (-1) 1 := hdelta
  norm_num [Input.clamp] at hone

end Mccpp.Analysis
