import Mccpp.Library.Fallible
import Mccpp.Interface.MouseMotion
import Mccpp.Analysis.InputFrames

/-!
# Motion of the mouse is conserved

Between frames a manager either remembers that the mouse has moved, and `pre_events` clears what is
left of it, or there is nothing left (`AtRest`). Within a frame the accumulators are the sums of the
motions so far, and the inputs of the mouse are zero until `post_events` writes them (`Collects`).
-/

set_option autoImplicit false

namespace Mccpp.Analysis

open Mccpp.Library Mccpp.Model Mccpp.Interface

variable {r : MouseInputs}

/-! ## Bindings -/

/-- INTERNAL: a frame leaves what is bound. -/
theorem mouseBound_of_eq {m m' : InputManager} (hbound : MouseBound m r)
    (haxes : m'.mouseXN = m.mouseXN ∧ m'.mouseXP = m.mouseXP ∧ m'.mouseYN = m.mouseYN ∧
      m'.mouseYP = m.mouseYP) (hkeyboard : m'.keyboard = m.keyboard) : MouseBound m' r where
  xn := haxes.1.trans hbound.xn
  xp := haxes.2.1.trans hbound.xp
  yn := haxes.2.2.1.trans hbound.yn
  yp := haxes.2.2.2.trans hbound.yp
  distinct := hbound.distinct
  noKey := by
    rw [hkeyboard]
    exact hbound.noKey

theorem preEvents_bindings (m : InputManager) :
    (m.preEvents.mouseXN = m.mouseXN ∧ m.preEvents.mouseXP = m.mouseXP ∧
      m.preEvents.mouseYN = m.mouseYN ∧ m.preEvents.mouseYP = m.mouseYP) ∧
      m.preEvents.keyboard = m.keyboard := by
  by_cases hmoved : m.movedMouse = true <;> simp [InputManager.preEvents, hmoved]

theorem postEvents_bindings (m : InputManager) :
    (m.postEvents.mouseXN = m.mouseXN ∧ m.postEvents.mouseXP = m.mouseXP ∧
      m.postEvents.mouseYN = m.mouseYN ∧ m.postEvents.mouseYP = m.mouseYP) ∧
      m.postEvents.keyboard = m.keyboard := by
  by_cases hmoved : m.movedMouse = true <;> simp [InputManager.postEvents, hmoved]

theorem setRaw_accumulations {m : InputManager} {ref : Option InputRef} {value : ℚ} :
    (m.setRaw ref value).mouseXAccumulation = m.mouseXAccumulation ∧
      (m.setRaw ref value).mouseYAccumulation = m.mouseYAccumulation := by
  cases ref <;> exact ⟨rfl, rfl⟩

/-- INTERNAL: what an axis gives each of its inputs. -/
theorem mouseValue_of_bound {m : InputManager} (hbound : MouseBound m r) :
    mouseValue m r.xn = some (max (-m.mouseXAccumulation) 0) ∧
      mouseValue m r.xp = some (max m.mouseXAccumulation 0) ∧
      mouseValue m r.yn = some (max (-m.mouseYAccumulation) 0) ∧
      mouseValue m r.yp = some (max m.mouseYAccumulation 0) := by
  have hdistinct := hbound.distinct
  simp only [MouseInputs.all, List.nodup_cons, List.mem_cons, List.not_mem_nil, or_false, not_or,
    List.nodup_nil, and_true, not_false_eq_true] at hdistinct
  obtain ⟨⟨hxnxp, hxnyn, hxnyp⟩, ⟨hxpyn, hxpyp⟩, hynyp⟩ := hdistinct
  simp [mouseValue, hbound.xn, hbound.xp, hbound.yn, hbound.yp, Ne.symm hxnxp, Ne.symm hxnyn,
    Ne.symm hxnyp, Ne.symm hxpyn, Ne.symm hxpyp, Ne.symm hynyp]

/-! ## Within a frame -/

/-- Between two frames. -/
structure AtRest (m : InputManager) (r : MouseInputs) : Prop where
  bound : MouseBound m r
  still : m.movedMouse = false → m.mouseXAccumulation = 0 ∧ m.mouseYAccumulation = 0 ∧
    ∀ ref ∈ r.all, (m.inputs ref).raw = 0

/-- Within a frame, where the mouse has moved by this. -/
structure Collects (m : InputManager) (r : MouseInputs) (x y : ℚ) : Prop where
  bound : MouseBound m r
  xSum : m.mouseXAccumulation = x
  ySum : m.mouseYAccumulation = y
  still : m.movedMouse = false → x = 0 ∧ y = 0
  zero : ∀ ref ∈ r.all, (m.inputs ref).raw = 0

/-- INTERNAL: **a frame begins without motion**.
SOURCE: src/input/input.cc:60-83 -/
theorem AtRest.preEvents {m : InputManager} (h : AtRest m r) : Collects m.preEvents r 0 0 := by
  obtain ⟨haxes, hkeyboard⟩ := preEvents_bindings m
  obtain ⟨hxn, hxp, hyn, hyp⟩ := mouseValue_of_bound h.bound
  refine ⟨mouseBound_of_eq h.bound haxes hkeyboard, ?_, ?_, fun _ => ⟨rfl, rfl⟩, ?_⟩
  · by_cases hmoved : m.movedMouse = true
    · simp [InputManager.preEvents, hmoved]
    · simpa [InputManager.preEvents, hmoved] using (h.still (by simpa using hmoved)).1
  · by_cases hmoved : m.movedMouse = true
    · simp [InputManager.preEvents, hmoved]
    · simpa [InputManager.preEvents, hmoved] using (h.still (by simpa using hmoved)).2.1
  · intro ref href
    rw [preEvents_inputs]
    by_cases hmoved : m.movedMouse = true
    · have hvalue : (mouseValue m ref).isSome = true := by
        simp only [MouseInputs.all, List.mem_cons, List.not_mem_nil, or_false] at href
        rcases href with rfl | rfl | rfl | rfl
        · simp [hxn]
        · simp [hxp]
        · simp [hyn]
        · simp [hyp]
      rw [if_pos ⟨hmoved, hvalue⟩]
    · rw [if_neg (fun hboth => hmoved hboth.1)]
      exact (h.still (by simpa using hmoved)).2.2 ref href

/-- INTERNAL: **every event adds its motion**.
SOURCE: src/input/input.cc:103-121 -/
theorem Collects.handleEvent {m m' : InputManager} {x y : ℚ} (h : Collects m r x y)
    {event : SdlEvent} (hevent : m.handleEvent event = .ok m') :
    Collects m' r (x + xrelOf event) (y - yrelOf event) := by
  cases event with
  | mouseMotion xrel yrel =>
    obtain rfl := Except.ok.inj hevent
    refine ⟨mouseBound_of_eq h.bound ⟨rfl, rfl, rfl, rfl⟩ rfl, ?_, ?_, ?_, h.zero⟩
    · simp [h.xSum, xrelOf]
    · simp [h.ySum, yrelOf]
    · intro hmoved
      cases hmoved
  | key down scancode isRepeat =>
    simp only [xrelOf, yrelOf, add_zero, sub_zero]
    rw [InputManager.handleEvent] at hevent
    by_cases hcode : scancode < InputManager.numScancodes
    · rw [if_pos hcode] at hevent
      cases isRepeat with
      | true =>
        obtain rfl := Except.ok.inj hevent
        exact h
      | false =>
        obtain rfl := Except.ok.inj hevent
        refine ⟨mouseBound_of_eq h.bound (by simp) (by simp), ?_, ?_, ?_, ?_⟩
        · rw [setRaw_accumulations.1, h.xSum]
        · rw [setRaw_accumulations.2, h.ySum]
        · rw [setRaw_movedMouse]
          exact h.still
        · intro ref href
          rw [setRaw_inputs, if_neg (h.bound.noKey scancode hcode ref href)]
          exact h.zero ref href
    · rw [if_neg hcode] at hevent
      cases hevent
  | _ =>
    obtain rfl := Except.ok.inj hevent
    simpa only [xrelOf, yrelOf, add_zero, sub_zero] using h

/-- INTERNAL: the events of a frame, by induction on them. -/
theorem Collects.handleEvents {events : List SdlEvent} {m m' : InputManager} {x y : ℚ}
    (h : Collects m r x y) (hevents : events.foldlM InputManager.handleEvent m = .ok m') :
    Collects m' r (x + xMotion events) (y - yMotion events) := by
  induction events generalizing m x y with
  | nil =>
    obtain rfl := Except.ok.inj hevents
    simpa [xMotion, yMotion] using h
  | cons event events ih =>
    obtain ⟨next, hfirst, hevents⟩ := foldlM_cons_eq_ok_iff.mp hevents
    have hrest := ih (h.handleEvent hfirst) hevents
    simpa [xMotion, yMotion, add_assoc, sub_sub] using hrest

/-- INTERNAL: the two sides of a motion. -/
theorem axisBalanced_max (motion : ℚ) : AxisBalanced (max (-motion) 0) (max motion 0) motion := by
  rcases le_total 0 motion with h | h
  · rw [max_eq_left h, max_eq_right (neg_nonpos.mpr h)]
    exact ⟨Or.inl rfl, ⟨le_refl 0, h⟩, sub_zero motion⟩
  · rw [max_eq_right h, max_eq_left (neg_nonneg.mpr h)]
    exact ⟨Or.inr rfl, ⟨neg_nonneg.mpr h, le_refl 0⟩, by rw [zero_sub, neg_neg]⟩

/-- INTERNAL: **at the end of a frame the inputs say how the mouse has moved**.
SOURCE: src/input/input.cc:85-100 -/
theorem Collects.postEvents {m : InputManager} {x y : ℚ} (h : Collects m r x y) :
    AtRest m.postEvents r ∧
      AxisBalanced (m.postEvents.inputs r.xn).raw (m.postEvents.inputs r.xp).raw x ∧
      AxisBalanced (m.postEvents.inputs r.yn).raw (m.postEvents.inputs r.yp).raw y := by
  obtain ⟨haxes, hkeyboard⟩ := postEvents_bindings m
  obtain ⟨hxn, hxp, hyn, hyp⟩ := mouseValue_of_bound h.bound
  have hbound := mouseBound_of_eq h.bound haxes hkeyboard
  by_cases hmoved : m.movedMouse = true
  · have hafter : m.postEvents.movedMouse = true := by
      simp [InputManager.postEvents, hmoved]
    refine ⟨⟨hbound, fun hstill => ?_⟩, ?_, ?_⟩
    · rw [hafter] at hstill
      cases hstill
    · simp only [postEvents_inputs, hmoved, if_true, hxn, hxp, Option.getD_some, h.xSum]
      exact axisBalanced_max x
    · simp only [postEvents_inputs, hmoved, if_true, hyn, hyp, Option.getD_some, h.ySum]
      exact axisBalanced_max y
  · have hsame : m.postEvents = m := by simp [InputManager.postEvents, hmoved]
    obtain ⟨hx, hy⟩ := h.still (by simpa using hmoved)
    have hzero : AxisBalanced 0 0 0 := ⟨Or.inl rfl, ⟨le_refl 0, le_refl 0⟩, sub_zero 0⟩
    rw [hsame]
    refine ⟨⟨h.bound, fun _ => ⟨h.xSum.trans hx, h.ySum.trans hy, h.zero⟩⟩, ?_, ?_⟩
    · rw [h.zero r.xn (by simp [MouseInputs.all]), h.zero r.xp (by simp [MouseInputs.all]), hx]
      exact hzero
    · rw [h.zero r.yn (by simp [MouseInputs.all]), h.zero r.yp (by simp [MouseInputs.all]), hy]
      exact hzero

/-! ## Frames -/

/-- INTERNAL: **one frame**.
SOURCE: application.cc:196-201 -/
theorem AtRest.runFrame {m m' : InputManager} (h : AtRest m r) {events : List SdlEvent}
    (hframe : runFrame m events = .ok m') : AtRest m' r ∧ FrameBalanced r events m' := by
  obtain ⟨now, hevents, hframe⟩ := bind_eq_ok_iff.mp hframe
  obtain rfl := Except.ok.inj hframe
  have hcollects := h.preEvents.handleEvents hevents
  rw [zero_add, zero_sub] at hcollects
  obtain ⟨hrest, hx, hy⟩ := hcollects.postEvents
  exact ⟨hrest, hx, hy⟩

/-- INTERNAL: all frames, by induction on them. -/
theorem AtRest.runFrames {frames : List (List SdlEvent)} {m : InputManager} {ends : List InputManager}
    (h : AtRest m r) (hrun : runFrames frames m = .ok ends) : RunBalanced r frames ends := by
  induction frames generalizing m ends with
  | nil =>
    obtain rfl := Except.ok.inj hrun
    exact ⟨.nil, rfl, by simp⟩
  | cons events frames ih =>
    rw [Interface.runFrames, bind_eq_ok_iff] at hrun
    obtain ⟨next, hframe, hrun⟩ := hrun
    obtain ⟨rest, hframes, hrun⟩ := bind_eq_ok_iff.mp hrun
    obtain rfl := Except.ok.inj hrun
    obtain ⟨hrest, hbalanced⟩ := h.runFrame hframe
    obtain ⟨hframe, hx, hy⟩ := ih hrest hframes
    refine ⟨.cons hbalanced hframe, ?_, ?_⟩
    · rw [List.map_cons, List.sum_cons, List.map_cons, List.sum_cons, hx, hbalanced.x.balance]
    · rw [List.map_cons, List.sum_cons, List.map_cons, List.sum_cons, hy, hbalanced.y.balance,
        neg_add]

/-- INTERNAL: before the first frame no input has a value. -/
theorem configured_zero {m : InputManager} (h : Configured m) :
    m.movedMouse = false ∧ m.mouseXAccumulation = 0 ∧ m.mouseYAccumulation = 0 ∧
      ∀ ref, (m.inputs ref).raw = 0 := by
  induction h with
  | create => exact ⟨rfl, rfl, rfl, fun _ => rfl⟩
  | mouseX _ _ _ ih => exact ih
  | mouseY _ _ _ ih => exact ih
  | keyboard _ hbind ih =>
    unfold InputManager.bindKeyboard at hbind
    split_ifs at hbind
    obtain rfl := Except.ok.inj hbind
    exact ih

/-- INTERNAL: an event is handled when its key can exist. -/
theorem exists_handleEvent {event : SdlEvent} (m : InputManager)
    (hfit : ∀ down scancode isRepeat, event = .key down scancode isRepeat →
      scancode < InputManager.numScancodes) : ∃ m', m.handleEvent event = .ok m' := by
  cases event with
  | key down scancode isRepeat =>
    rw [InputManager.handleEvent, if_pos (hfit down scancode isRepeat rfl)]
    cases isRepeat <;> exact ⟨_, rfl⟩
  | _ => exact ⟨_, rfl⟩

theorem exists_runFrame {events : List SdlEvent} (hfit : ScancodesFit events) (m : InputManager) :
    ∃ m', runFrame m events = .ok m' := by
  have hevents : ∀ m : InputManager, ∃ m', events.foldlM InputManager.handleEvent m = .ok m' := by
    induction events with
    | nil => exact fun m => ⟨m, rfl⟩
    | cons event events ih =>
      intro m
      obtain ⟨next, hnext⟩ := exists_handleEvent m fun down scancode isRepeat heq =>
        hfit down scancode isRepeat (heq ▸ List.mem_cons_self)
      obtain ⟨m', hrest⟩ := ih (fun down scancode isRepeat hmem =>
        hfit down scancode isRepeat (List.mem_cons_of_mem event hmem)) next
      exact ⟨m', foldlM_cons_eq_ok_iff.mpr ⟨next, hnext, hrest⟩⟩
  obtain ⟨m', hm'⟩ := hevents m.preEvents
  exact ⟨m'.postEvents, bind_eq_ok_iff.mpr ⟨m', hm', rfl⟩⟩

theorem exists_runFrames {frames : List (List SdlEvent)} (hfit : ∀ events ∈ frames, ScancodesFit events)
    (m : InputManager) : ∃ ends, runFrames frames m = .ok ends := by
  induction frames generalizing m with
  | nil => exact ⟨[], rfl⟩
  | cons events frames ih =>
    obtain ⟨next, hnext⟩ := exists_runFrame (hfit events List.mem_cons_self) m
    obtain ⟨ends, hends⟩ := ih (fun other hother => hfit other (List.mem_cons_of_mem events hother)) next
    refine ⟨next :: ends, ?_⟩
    rw [runFrames, bind_eq_ok_iff]
    exact ⟨next, hnext, bind_eq_ok_iff.mpr ⟨ends, hends, rfl⟩⟩

/-- INTERNAL: what the application keeps of an event that it hands on. -/
theorem inputManager_of_handled {app next : App} {event : SdlEvent}
    (h : (do
      let inputManager ← app.inputManager.handleEvent event
      .ok { app with inputManager := inputManager } : Except Failure App) = .ok next) :
    app.inputManager.handleEvent event = .ok next.inputManager := by
  obtain ⟨now, hevent, h⟩ := bind_eq_ok_iff.mp h
  obtain rfl := Except.ok.inj h
  exact hevent

/-- INTERNAL: **an event that is polled is handed on or left alone**.
SOURCE: application.cc:102-135 -/
theorem handled_or_kept {app next : App} {wantCaptureKeyboard : Bool} {event : SdlEvent}
    (hpoll : app.pollEvent wantCaptureKeyboard event = .ok next) :
    next.inputManager = app.inputManager ∨
      app.inputManager.handleEvent event = .ok next.inputManager := by
  unfold App.pollEvent at hpoll
  split at hpoll
  · obtain rfl := Except.ok.inj hpoll
    exact Or.inl rfl
  · obtain rfl := Except.ok.inj hpoll
    exact Or.inl rfl
  · split_ifs at hpoll
    · obtain rfl := Except.ok.inj hpoll
      exact Or.inl rfl
    · exact Or.inr (inputManager_of_handled hpoll)
  · split_ifs at hpoll
    · exact Or.inr (inputManager_of_handled hpoll)
    · obtain rfl := Except.ok.inj hpoll
      exact Or.inl rfl
  · obtain rfl := Except.ok.inj hpoll
    exact Or.inl rfl

/-- INTERNAL: the application hands on some of the events that it polls.
SOURCE: application.cc:102-135 -/
theorem exists_handled {polled : List (Bool × SdlEvent)} {app app' : App} {unlockCursor : InputRef}
    (hrun : appActs unlockCursor (polled.map (fun p => .poll p.1 p.2) ++ [.afterPoll]) app =
      .ok app') :
    ∃ handled : List SdlEvent, handled.Sublist (polled.map Prod.snd) ∧
      ∃ now, handled.foldlM InputManager.handleEvent app.inputManager = .ok now ∧
        app'.inputManager = now.postEvents := by
  induction polled generalizing app with
  | nil =>
    obtain rfl := Except.ok.inj hrun
    exact ⟨[], .slnil, app.inputManager, rfl, rfl⟩
  | cons first polled ih =>
    obtain ⟨wantCaptureKeyboard, event⟩ := first
    rw [List.map_cons, List.cons_append, appActs, bind_eq_ok_iff] at hrun
    obtain ⟨next, hpoll, hrun⟩ := hrun
    obtain ⟨handled, hsublist, now, hnow, hend⟩ := ih hrun
    rcases handled_or_kept hpoll with hkept | hhandled
    · rw [hkept] at hnow
      exact ⟨handled, hsublist.cons event, now, hnow, hend⟩
    · refine ⟨event :: handled, hsublist.cons_cons event, now, ?_, hend⟩
      exact foldlM_cons_eq_ok_iff.mpr ⟨_, hhandled, hnow⟩

/-- INTERNAL: so a frame of the application is one of its input manager.
SOURCE: application.cc:193-205 -/
theorem runFrame_of_appFrame {polled : List (Bool × SdlEvent)} {app app' : App}
    {unlockCursor : InputRef} (hrun : appActs unlockCursor (appFrame polled) app = .ok app') :
    ∃ handled : List SdlEvent, handled.Sublist (polled.map Prod.snd) ∧
      runFrame app.inputManager handled = .ok app'.inputManager := by
  obtain ⟨handled, hsublist, now, hnow, hend⟩ := exists_handled hrun
  refine ⟨handled, hsublist, ?_⟩
  unfold runFrame
  rw [hend]
  exact bind_eq_ok_iff.mpr ⟨now, hnow, rfl⟩

/-- SOURCE: src/input/input.cc:56-124, application.cc:196-201 — **motion of the mouse is conserved**.
Where four inputs that no key is bound to are bound to the mouse, every run of frames from a manager
that has been set up balances: in every frame at most one input of each axis is not zero, none is
negative, and they say how the mouse has moved in it, so that they do for the whole run. Every run whose
keys have scancodes that a keyboard can have is one. -/
theorem mouse_motion_conserved {m : InputManager} (hconfigured : Configured m)
    (hbound : MouseBound m r) (frames : List (List SdlEvent)) :
    (∀ ends, runFrames frames m = .ok ends → RunBalanced r frames ends) ∧
      ((∀ events ∈ frames, ScancodesFit events) → ∃ ends, runFrames frames m = .ok ends) := by
  obtain ⟨-, hx, hy, hzero⟩ := configured_zero hconfigured
  have hrest : AtRest m r := ⟨hbound, fun _ => ⟨hx, hy, fun ref _ => hzero ref⟩⟩
  exact ⟨fun ends hrun => hrest.runFrames hrun, fun hfit => exists_runFrames hfit m⟩

/-- The four inputs of a mouse. -/
def mouseInputs : MouseInputs :=
  ⟨"left".toList, "right".toList, "up".toList, "down".toList⟩

/-- A manager where they are bound. -/
def mouseManager : InputManager :=
  (InputManager.create.bindMouseX (some mouseInputs.xn) (some mouseInputs.xp)).bindMouseY
    (some mouseInputs.yn) (some mouseInputs.yp)

theorem mouse_motion_conserved_two :
    ∃ ends, runFrames [[.mouseMotion 3 (-2), .mouseMotion (-5) 2], []] mouseManager = .ok ends ∧
      RunBalanced mouseInputs [[.mouseMotion 3 (-2), .mouseMotion (-5) 2], []] ends := by
  have hconfigured : Configured mouseManager := .mouseY _ _ (.mouseX _ _ .create)
  have hbound : MouseBound mouseManager mouseInputs := by
    refine ⟨rfl, rfl, rfl, rfl, by decide, ?_⟩
    intro code _ ref _ hkey
    cases hkey
  obtain ⟨hbalanced, hruns⟩ := mouse_motion_conserved hconfigured hbound
    [[.mouseMotion 3 (-2), .mouseMotion (-5) 2], []]
  obtain ⟨ends, hends⟩ := hruns (by simp [ScancodesFit])
  exact ⟨ends, hends, hbalanced ends hends⟩

end Mccpp.Analysis
