import Mccpp.Interface.CallFrames

/-!
# Tasks are calls

Whatever the coroutines do, their frames are the calls in progress: what a turn does to the calls it
does to the frames (`implements_step`), so no assertion of a task fails in any run, no handle is used
behind its frame, and a coroutine is resumed only where it is suspended (`tasks_implement_calls`).
Destroying the root destroys every frame, once (`destroy_root_frees_all`).
-/

set_option autoImplicit false

namespace Mccpp.Analysis

open Mccpp.Library Mccpp.Model Mccpp.Interface

variable {σ S V E C L H : Type} {code : Code σ S V E C L H}

/-! ## The chain of callers -/

/-- INTERNAL: the chain is that of the frames of the callers alone. -/
theorem chain_congr {frames frames' : ℕ → Option (Frame S V E)} {child : ℕ} {link : Option ℕ}
    {callers : List (Caller S V E)} {handles : List ℕ} (h : Chain frames child link callers handles)
    (hsame : ∀ i < child, frames' i = frames i) : Chain frames' child link callers handles := by
  induction h with
  | root => exact .root
  | caller child parent caller link callers handles hlt hframe _ ih =>
    exact .caller child parent caller link callers handles hlt ((hsame parent hlt).trans hframe)
      (ih fun i hi => hsame i (Nat.lt_trans hi hlt))

/-! ## Resuming -/

/-- INTERNAL: the frame of a task that is done is destroyed.
SOURCE: utility/coro.hh:73-77 -/
theorem destroy_done {m : Tasks σ S V E} {h : ℕ} {f : Frame S V E} (hframe : m.frames h = some f)
    (hdone : f.place = .done) (hlt : h < m.free) : Tasks.destroy (H := H) m.free h m =
      .ok { m with frames := Function.update m.frames h none } := by
  have hstep : ∀ depth, Tasks.destroy (H := H) (depth + 1) h m =
      .ok { m with frames := Function.update m.frames h none } := by
    intro depth
    rw [Tasks.destroy, hframe]
    dsimp only
    rw [hdone]
  obtain ⟨depth, hdepth⟩ := Nat.exists_eq_succ_of_ne_zero (Nat.ne_zero_of_lt hlt)
  exact (congrArg (fun n => Tasks.destroy (H := H) n h m) hdepth).trans (hstep depth)

/-- INTERNAL: resuming a coroutine that waits for no task. -/
theorem resume_suspended (code : Code σ S V E C L H) {m : Tasks σ S V E} {h : ℕ} {f : Frame S V E}
    {s : S}    (hframe : m.frames h = some f) (hplace : f.place = .suspended s) :
    m.resume code (some h) =
      .ok { m.setFrame h { f with place := .running } with control := some (h, s) } := by
  unfold Tasks.resume
  dsimp only
  rw [hframe]
  dsimp only
  rw [hplace]

/-- INTERNAL: resuming a coroutine behind a task that is done: it gets the result, and the frame of the
task is destroyed.
SOURCE: utility/coro.hh:94-101 -/
theorem resume_awaiting {m : Tasks σ S V E} {h child : ℕ} {f g : Frame S V E}
    {next : Except E V → S} {result : Except E V} (hframe : m.frames h = some f)
    (hplace : f.place = .awaiting child next) (hchild : m.frames child = some g)
    (hdone : g.place = .done) (hlt : child < m.free)
    (hresult : m.awaitResume (H := H) code child = .ok result) :
    m.resume code (some h) = .ok { m with
      frames := Function.update (Function.update m.frames child none) h
        (some { f with place := .running })
      control := some (h, next result) } := by
  unfold Tasks.resume
  dsimp only
  rw [hframe]
  dsimp only
  rw [hplace]
  dsimp only [bind, Except.bind]
  rw [hresult]
  dsimp only
  rw [destroy_done hchild hdone hlt]
  rfl

/-! ## One turn -/

/-- INTERNAL: **a coroutine ends** in its final suspend: whoever awaits it goes on with its result, and
its frame is destroyed.
SOURCE: utility/coro.hh:17-23, 89-101 -/
theorem implements_finalSuspend (code : Code σ S V E C L H) {m : Tasks σ S V E} {h : ℕ} {callers : List (Caller S V E)}
    {link : Option ℕ} {handles : List ℕ} {f : Frame S V E} {result : Except E V}
    (hchain : Chain m.frames h link callers handles) (hlt : h < m.free)
    (hlive : ∀ i, (m.frames i).isSome → i ∈ h :: handles) (hresume : m.mResume = none)
    (hlink : f.mResume = link)
    (hresult : ∀ m' : Tasks σ S V E, m'.frames h = some { f with place := .done } →
      m'.awaitResume (H := H) code h = .ok result) :
    ∃ m', m.finalSuspend code h f = .ok m' ∧
      Implements code m' (Calls.back m.data result callers) := by
  obtain ⟨place, isVoid, link', exception, value⟩ := f
  obtain rfl : link' = link := hlink
  generalize hended : (⟨.done, isVoid, link', exception, value⟩ : Frame S V E) = ended
  have hdone : (m.setFrame h ended).frames h = some ended := Function.update_self h _ m.frames
  have hother : ∀ i, i ≠ h → (m.setFrame h ended).frames i = m.frames i :=
    fun i hi => Function.update_of_ne hi _ m.frames
  have hawait := hresult (m.setFrame h ended) (hended ▸ hdone)
  have hfinal : m.finalSuspend code h ⟨place, isVoid, link', exception, value⟩ =
      (m.setFrame h ended).resume code link' := by
    rw [← hended]
    rfl
  rw [hfinal]
  cases hchain with
  | root =>
    refine ⟨_, rfl, rfl, rfl, hresume, hlt, hawait, fun i hi => ?_⟩
    by_contra hne
    have hsome : (m.frames i).isSome := by
      rw [← hother i hne]
      exact hi
    exact hne (List.mem_singleton.mp (hlive i hsome))
  | caller _ parent caller link callers handles hparent hframe hrest =>
    have hne : parent ≠ h := Nat.ne_of_lt hparent
    have hkeep : ∀ i, i ≠ parent → i ≠ h →
        Function.update (Function.update (m.setFrame h ended).frames h none) parent
          (some ⟨.running, caller.isVoid, link, none, none⟩) i = m.frames i := by
      intro i hip hih
      rw [Function.update_of_ne hip, Function.update_of_ne hih, hother i hih]
    refine ⟨_, resume_awaiting ((hother parent hne).trans hframe) rfl hdone (by rw [← hended]) hlt
      hawait, rfl, hresume, parent, rfl, link, handles, Function.update_self parent _ _,
      chain_congr hrest fun i hi => ?_, Nat.lt_trans hparent hlt, fun i hi => ?_⟩
    · exact hkeep i (Nat.ne_of_lt hi) (Nat.ne_of_lt (Nat.lt_trans hi hparent))
    · by_cases hip : i = parent
      · rw [hip]
        exact List.mem_cons_self
      · by_cases hih : i = h
        · subst hih
          dsimp only at hi
          rw [Function.update_of_ne hip, Function.update_self] at hi
          cases hi
        · dsimp only at hi
          rw [hkeep i hip hih] at hi
          rcases List.mem_cons.mp (hlive i hi) with hi | hi
          · exact absurd hi hih
          · exact hi

/-- INTERNAL: **a coroutine awaits a task**: the frame of the task is new, and runs.
SOURCE: utility/coro.hh:51-53, 89-92 -/
theorem implements_awaitTask (code : Code σ S V E C L H) {m : Tasks σ S V E} {h : ℕ} {isVoid : Bool} {callers : List (Caller S V E)}
    (hstacked : Stacked m h .running isVoid callers) (hresume : m.mResume = none) (c : C)
    (next : Except E V → S) {f : Frame S V E} (hf : m.frames h = some f) :
    ∃ m', m.awaitTask code h f c next = .ok m' ∧ Implements code m'
      ⟨.running (code.isVoid c) (code.start c) (⟨isVoid, next⟩ :: callers), m.data⟩ := by
  obtain ⟨link, handles, hframe, hchain, hlt, hlive⟩ := hstacked
  rw [hf, Option.some.injEq] at hframe
  subst hframe
  have hne : m.free ≠ h := Nat.ne_of_gt hlt
  have hcreated : (((m.create code c).2.setFrame h
      ⟨.awaiting m.free next, isVoid, link, none, none⟩).frames m.free) =
        some ⟨.suspended (code.start c), code.isVoid c, none, none, none⟩ := by
    show Function.update (Function.update m.frames m.free _) h _ m.free = _
    rw [Function.update_of_ne hne, Function.update_self]
  have hawait : m.awaitTask code h ⟨.running, isVoid, link, none, none⟩ c next =
      (((m.create code c).2.setFrame h ⟨.awaiting m.free next, isVoid, link, none, none⟩).setFrame m.free
        ⟨.suspended (code.start c), code.isVoid c, some h, none, none⟩).resume code (some m.free) := by
    unfold Tasks.awaitTask
    dsimp only
    have hchild : (m.create code c).1 = m.free := rfl
    rw [hchild, hcreated]
  have hself : ((((m.create code c).2.setFrame h
      ⟨.awaiting m.free next, isVoid, link, none, none⟩).setFrame m.free
        ⟨.suspended (code.start c), code.isVoid c, some h, none, none⟩).frames m.free) =
          some ⟨.suspended (code.start c), code.isVoid c, some h, none, none⟩ :=
    Function.update_self m.free _ _
  have hothers : ∀ i, i ≠ m.free → ∀ f g : Frame S V E, ((((m.create code c).2.setFrame h
      ⟨.awaiting m.free next, isVoid, link, none, none⟩).setFrame m.free f).setFrame m.free g).frames i =
        Function.update m.frames h (some ⟨.awaiting m.free next, isVoid, link, none, none⟩) i := by
    intro i hi f g
    show Function.update (Function.update (Function.update (Function.update m.frames m.free _) h _) _ _)
      _ _ i = _
    rw [Function.update_of_ne hi, Function.update_of_ne hi]
    by_cases hih : i = h
    · rw [hih, Function.update_self, Function.update_self]
    · rw [Function.update_of_ne hih, Function.update_of_ne hi, Function.update_of_ne hih]
  refine ⟨_, hawait.trans (resume_suspended code hself rfl), rfl, hresume, m.free, rfl, some h, h :: handles,
    Function.update_self m.free _ _, ?_, Nat.lt_succ_self m.free, fun i hi => ?_⟩
  · refine .caller m.free h ⟨isVoid, next⟩ link callers handles hlt ?_ (chain_congr hchain ?_)
    · exact (hothers h (Nat.ne_of_lt hlt) _ _).trans (Function.update_self h _ _)
    · intro i hi
      exact (hothers i (Nat.ne_of_lt (Nat.lt_trans hi hlt)) _ _).trans
        (Function.update_of_ne (Nat.ne_of_lt hi) _ _)
  · by_cases hfree : i = m.free
    · rw [hfree]
      exact List.mem_cons_self
    · refine List.mem_cons_of_mem _ ?_
      dsimp only at hi
      rw [hothers i hfree] at hi
      by_cases hih : i = h
      · rw [hih]
        exact List.mem_cons_self
      · rw [Function.update_of_ne hih] at hi
        exact hlive i hi

/-- INTERNAL: the result of a coroutine that has returned.
SOURCE: utility/coro.hh:25-45, 94-101 -/
theorem awaitResume_returned {m : Tasks σ S V E} {h : ℕ} {isVoid : Bool} {link : Option ℕ} {v : V}
    (hframe : m.frames h = some { Tasks.returnValue (⟨.running, isVoid, link, none, none⟩ : Frame S V E) v
      with place := .done }) :
    m.awaitResume (H := H) code h = .ok (.ok (Calls.valueOf code isVoid v)) := by
  unfold Tasks.awaitResume
  rw [hframe]
  cases isVoid with
  | true => rfl
  | false => rfl

theorem awaitResume_thrown {m : Tasks σ S V E} {h : ℕ} {isVoid : Bool} {link : Option ℕ} {e : E}
    (hframe : m.frames h = some { Tasks.unhandledException
      (⟨.running, isVoid, link, none, none⟩ : Frame S V E) e with place := .done }) :
    m.awaitResume (H := H) code h = .ok (.error e) := by
  unfold Tasks.awaitResume
  rw [hframe]
  rfl

/-- INTERNAL: **a coroutine waits**, or goes on at once.
SOURCE: proto/tcp_client.cc:52-55, utility/coro.hh -/
theorem implements_awaitReadable (code : Code σ S V E C L H) {m : Tasks σ S V E} {h : ℕ} {isVoid : Bool}
    {callers : List (Caller S V E)} (hstacked : Stacked m h .running isVoid callers)
    (hresume : m.mResume = none) (l : L) (next : S) {f : Frame S V E} (hf : m.frames h = some f) :
    ImplementsOrStopped code (m.awaitReadable code h f l next)
      (if code.ready l m.data then .ok ⟨.running isVoid next callers, m.data⟩
        else (code.suspend l m.data).map fun data => ⟨.waiting isVoid next callers, data⟩) := by
  obtain ⟨link, handles, hframe, hchain, hlt, hlive⟩ := id hstacked
  rw [hf, Option.some.injEq] at hframe
  subst hframe
  unfold Tasks.awaitReadable
  by_cases hready : code.ready l m.data = true
  · rw [if_pos hready, if_pos hready]
    exact ⟨rfl, hresume, h, rfl, link, handles, hf, hchain, hlt, hlive⟩
  · have hnone : ¬m.mResume.isSome = true := by
      rw [hresume]
      exact Bool.false_ne_true
    rw [if_neg hready, if_neg hready, if_neg hnone]
    cases hsuspend : code.suspend l m.data with
    | error e => exact rfl
    | ok data =>
      refine ⟨rfl, rfl, h, rfl, link, handles, Function.update_self h _ _, chain_congr hchain fun i hi => ?_,
        hlt, fun i hi => ?_⟩
      · exact Function.update_of_ne (Nat.ne_of_lt hi) _ _
      · by_cases hih : i = h
        · rw [hih]
          exact List.mem_cons_self
        · have hother : (m.setFrame h ⟨.suspended next, isVoid, link, none, none⟩).frames i = m.frames i :=
            Function.update_of_ne hih _ _
          dsimp only at hi
          rw [hother] at hi
          exact hlive i hi

/-- INTERNAL: **a turn of the running coroutine** is a turn of the innermost call.
SOURCE: utility/coro.hh -/
theorem implements_step {m : Tasks σ S V E} {calls : Calls σ S V E} (h : Implements code m calls) :
    ImplementsOrStopped code (m.step code) (calls.step code) := by
  obtain ⟨control, data⟩ := calls
  obtain ⟨rfl, himplements⟩ := h
  cases control with
  | waiting isVoid s callers =>
    unfold Tasks.step
    rw [himplements.1]
    exact ⟨rfl, himplements⟩
  | ended result =>
    unfold Tasks.step
    rw [himplements.1]
    exact ⟨rfl, himplements⟩
  | running isVoid s callers =>
    obtain ⟨hresume, h, hcontrol, hstacked⟩ := himplements
    obtain ⟨link, handles, hframe, hchain, hlt, hlive⟩ := id hstacked
    unfold Tasks.step Calls.step
    rw [hcontrol]
    dsimp only
    rw [hframe]
    dsimp only
    cases hturn : code.turn s m.data with
    | error e => exact rfl
    | ok r =>
      obtain ⟨turn, data⟩ := r
      -- the frames are those of `m`, whatever the data
      cases turn with
      | returns v =>
        obtain ⟨m', hm', hback⟩ := implements_finalSuspend code
          (m := { m with control := some (h, s), data := data })
          (f := Tasks.returnValue ⟨.running, isVoid, link, none, none⟩ v) hchain hlt hlive hresume
          (by unfold Tasks.returnValue; split <;> rfl) (fun _ => awaitResume_returned (H := H))
        dsimp only
        rw [hm']
        exact hback
      | throws e =>
        obtain ⟨m', hm', hback⟩ := implements_finalSuspend code
          (m := { m with control := some (h, s), data := data })
          (f := Tasks.unhandledException ⟨.running, isVoid, link, none, none⟩ e) hchain hlt hlive hresume
          rfl (fun _ => awaitResume_thrown (H := H))
        dsimp only
        rw [hm']
        exact hback
      | calls c next =>
        obtain ⟨m', hm', hcalled⟩ := implements_awaitTask code
          (m := { m with control := some (h, s), data := data })
          ⟨link, handles, hframe, hchain, hlt, hlive⟩ hresume c next hframe
        dsimp only
        rw [hm']
        exact hcalled
      | waits l next =>
        exact implements_awaitReadable code
          (m := { m with control := some (h, s), data := data })
          ⟨link, handles, hframe, hchain, hlt, hlive⟩ hresume l next hframe

/-! ## Runs -/

/-- INTERNAL: what ends the waiting.
SOURCE: proto/tcp_client.cc:65-69 -/
theorem implements_deliver {m : Tasks σ S V E} {calls : Calls σ S V E} (h : Implements code m calls)
    (change : σ → σ) :
    (∃ m' calls', m.deliver code change = some (.ok m') ∧ calls.deliver change = some calls' ∧
        Implements code m' calls') ∨
      m.deliver code change = none ∧ calls.deliver change = none := by
  obtain ⟨control, data⟩ := calls
  obtain ⟨rfl, himplements⟩ := h
  unfold Tasks.deliver Calls.deliver
  cases control with
  | running isVoid s callers =>
    obtain ⟨hresume, h, hcontrol, _⟩ := himplements
    rw [hcontrol]
    exact Or.inr ⟨rfl, rfl⟩
  | ended result =>
    obtain ⟨hcontrol, hresume, _⟩ := himplements
    rw [hcontrol, hresume]
    exact Or.inr ⟨rfl, rfl⟩
  | waiting isVoid s callers =>
    obtain ⟨hcontrol, h, hresume, link, handles, hframe, hchain, hlt, hlive⟩ := himplements
    rw [hcontrol, hresume]
    refine Or.inl ⟨_, _, congrArg some (resume_suspended code (m := { m with
      control := none, mResume := none, data := change m.data }) hframe rfl), rfl, rfl, rfl, h, rfl, link,
      handles, Function.update_self h _ _, chain_congr hchain fun i hi => ?_, hlt, fun i hi => ?_⟩
    · exact Function.update_of_ne (Nat.ne_of_lt hi) _ _
    · by_cases hih : i = h
      · rw [hih]
        exact List.mem_cons_self
      · have hother : Function.update m.frames h (some ⟨.running, isVoid, link, none, none⟩) i =
            m.frames i := Function.update_of_ne hih _ _
        have hi' : (Function.update m.frames h (some ⟨.running, isVoid, link, none, none⟩) i).isSome := hi
        rw [hother] at hi'
        exact hlive i hi'

/-- INTERNAL: the root task, behind its first `resume()`.
SOURCE: proto/client.hh:10-12, proto/client.cc:17-21 -/
theorem implements_launch (code : Code σ S V E C L H) (c : C) (data : σ) :
    ∃ m, Tasks.launch code c data = .ok m ∧ Implements code m (Calls.launch code c data) := by
  have hresumed := resume_suspended code (h := 0) (m := (Tasks.create code c
    { frames := fun _ => none, free := 0, control := none, mResume := none, data := data }).2)
    (f := ⟨.suspended (code.start c), code.isVoid c, none, none, none⟩) rfl rfl
  refine ⟨_, hresumed, rfl, rfl, 0, rfl, none, [], rfl, .root, Nat.zero_lt_one,
    fun i hi => ?_⟩
  by_contra hne
  have hi0 : i ≠ 0 := fun h => hne (List.mem_singleton.mpr h)
  have hi' : (Function.update (Function.update (fun _ => none) 0
      (some (⟨.suspended (code.start c), code.isVoid c, none, none, none⟩ : Frame S V E))) 0
        (some ⟨.running, code.isVoid c, none, none, none⟩) i).isSome := hi
  rw [Function.update_of_ne hi0, Function.update_of_ne hi0] at hi'
  cases hi'

/-- INTERNAL: one action. -/
theorem implements_act {x x' : Except (TaskHalt H) (Tasks σ S V E)} {y : Except H (Calls σ S V E)}
    (h : ImplementsOrStopped code x y) {a : CallAction σ} (ha : Tasks.act code x a = some x') :
    ∃ y', Calls.act code y a = some y' ∧ ImplementsOrStopped code x' y' := by
  cases x with
  | error e => cases ha
  | ok m =>
    cases y with
    | error e => exact h.elim
    | ok calls =>
      cases a with
      | turn =>
        cases ha
        exact ⟨_, rfl, implements_step h⟩
      | deliver change =>
        rcases implements_deliver h change with ⟨m', calls', hm, hcalls, hnext⟩ | ⟨hm, _⟩
        · have hx' : x' = .ok m' := by
            have hact : m.deliver code change = some x' := ha
            rw [hm, Option.some.injEq] at hact
            exact hact.symm
          rw [hx']
          exact ⟨.ok calls', by rw [Calls.act, hcalls]; rfl, hnext⟩
        · have hact : m.deliver code change = some x' := ha
          rw [hm] at hact
          cases hact

/-- INTERNAL: **what one action preserves, a run does**, by induction on the actions. -/
theorem implements_run (actions : List (CallAction σ)) {x x' : Except (TaskHalt H) (Tasks σ S V E)}
    {y : Except H (Calls σ S V E)} (h : ImplementsOrStopped code x y)
    (hrun : runActions (Tasks.act code) x actions = some x') :
    ∃ y', runActions (Calls.act code) y actions = some y' ∧ ImplementsOrStopped code x' y' := by
  induction actions generalizing x y with
  | nil =>
    cases hrun
    exact ⟨y, rfl, h⟩
  | cons a actions ih =>
    rw [runActions_cons, Option.bind_eq_some_iff] at hrun
    obtain ⟨x₁, hact, hrest⟩ := hrun
    obtain ⟨y₁, hact', h₁⟩ := implements_act h hact
    obtain ⟨y', hrest', h'⟩ := ih h₁ hrest
    exact ⟨y', by rw [runActions_cons, hact']; exact hrest', h'⟩

/-- INTERNAL: **what one turn preserves, turns do**. -/
theorem implements_turns (n : ℕ) {m : Tasks σ S V E} {calls : Calls σ S V E} (h : Implements code m calls) :
    ImplementsOrStopped code (m.turns code n) (calls.turns code n) := by
  induction n generalizing m calls with
  | zero => exact h
  | succ n ih =>
    have hstep := implements_step h
    rw [Calls.turns, Tasks.turns]
    cases hcalls : calls.step code with
    | error e =>
      cases hm : m.step code with
      | error halt =>
        rw [hcalls, hm] at hstep
        exact hstep
      | ok m₁ =>
        rw [hcalls, hm] at hstep
        exact hstep.elim
    | ok calls₁ =>
      cases hm : m.step code with
      | error halt =>
        rw [hcalls, hm] at hstep
        exact hstep.elim
      | ok m₁ =>
        rw [hcalls, hm] at hstep
        exact ih hstep

/-- INTERNAL: the tasks, where the calls have not been stopped. -/
theorem implements_turns_ok {n : ℕ} {m : Tasks σ S V E} {calls calls' : Calls σ S V E}
    (h : Implements code m calls) (hturns : calls.turns code n = .ok calls') :
    ∃ m', m.turns code n = .ok m' ∧ Implements code m' calls' := by
  have hsame := implements_turns n h
  rw [hturns] at hsame
  cases hm : m.turns code n with
  | error halt =>
    rw [hm] at hsame
    exact hsame.elim
  | ok m' =>
    rw [hm] at hsame
    exact ⟨m', rfl, hsame⟩

theorem turns_idle {m : Tasks σ S V E}
    (hidle : m.control = none) (n : ℕ) : m.turns code n = .ok m := by
  induction n with
  | zero => rfl
  | succ n ih =>
    have hstep : m.step code = .ok m := by
      unfold Tasks.step
      rw [hidle]
    rw [Tasks.turns, hstep]
    exact ih

theorem turns_add (n k : ℕ) {m m' : Tasks σ S V E}
    (h : m.turns code n = .ok m') : m.turns code (n + k) = m'.turns code k := by
  induction n generalizing m with
  | zero =>
    cases h
    rw [Nat.zero_add]
  | succ n ih =>
    rw [Nat.add_right_comm, Tasks.turns]
    rw [Tasks.turns] at h
    cases hstep : m.step code with
    | error e =>
      rw [hstep] at h
      cases h
    | ok m₁ =>
      rw [hstep] at h
      exact ih h

/-- A coroutine that awaits another one, which waits once. -/
def nestedCode : Code Unit ℕ Unit Unit Bool Unit Unit where
  start outer := if outer then 0 else 2
  isVoid _ := true
  nothing := ()
  turn
    | 0, d => .ok (.calls false fun _ => 1, d)
    | 2, d => .ok (.waits () 3, d)
    | _, d => .ok (.returns (), d)
  ready _ _ := false
  suspend _ d := .ok d

theorem length_chain_le {frames : ℕ → Option (Frame S V E)} {child : ℕ} {link : Option ℕ}
    {callers : List (Caller S V E)} {handles : List ℕ} (h : Chain frames child link callers handles) :
    handles.length ≤ child := by
  induction h with
  | root => exact Nat.le_refl 0
  | caller child parent caller link callers handles hlt _ _ ih =>
    rw [List.length_cons]
    omega

/-- The tasks, without these frames. -/
def without (m : Tasks σ S V E) (freed : List ℕ) : Tasks σ S V E :=
  { m with frames := fun i => if i ∈ freed then none else m.frames i }

theorem without_cons (m : Tasks σ S V E) (h : ℕ) (freed : List ℕ) :
    { without m freed with frames := Function.update (without m freed).frames h none } =
      without m (h :: freed) := by
  have hframes : Function.update (without m freed).frames h none = (without m (h :: freed)).frames := by
    funext i
    by_cases hi : i = h
    · rw [hi, Function.update_self]
      exact (if_pos List.mem_cons_self).symm
    · rw [Function.update_of_ne hi]
      simp [without, hi]
  rw [hframes]
  rfl

/-- INTERNAL: **down the chain**: destroying a frame destroys what it awaits, and the root awaits all of
them. The induction goes from the innermost caller to the root.
SOURCE: utility/coro.hh:73-77 -/
theorem destroy_of_chain {m : Tasks σ S V E} {child : ℕ} {link : Option ℕ}
    {callers : List (Caller S V E)} {handles : List ℕ} (hchain : Chain m.frames child link callers handles)
    (depth : ℕ) (freed : List ℕ)
    (hchild : ∀ n, depth ≤ n → Tasks.destroy (H := H) n child m = .ok (without m freed)) :
    ∀ n, depth + handles.length ≤ n → ∃ all, (∀ i, i ∈ all ↔ i ∈ handles ∨ i ∈ freed) ∧
      Tasks.destroy (H := H) n 0 m = .ok (without m all) := by
  induction hchain generalizing depth freed with
  | root =>
    intro n hn
    refine ⟨freed, fun i => ?_, hchild n hn⟩
    simp
  | caller child parent caller link callers handles hlt hframe _ ih =>
    intro n hn
    rw [List.length_cons] at hn
    obtain ⟨all, hall, hdestroy⟩ := ih (depth + 1) (parent :: freed) (fun k hk => by
      obtain ⟨k, rfl⟩ := Nat.exists_eq_succ_of_ne_zero (by omega : k ≠ 0)
      rw [Tasks.destroy, hframe]
      dsimp only [bind, Except.bind]
      rw [hchild k (by omega)]
      exact congrArg Except.ok (without_cons m parent freed)) n (by omega)
    refine ⟨all, fun i => ?_, hdestroy⟩
    rw [hall, List.mem_cons, List.mem_cons]
    tauto

/-- INTERNAL: the frames of an idle state are destroyed with the root. -/
theorem destroy_of_implements {m : Tasks σ S V E} {calls : Calls σ S V E} (h : Implements code m calls)
    (hidle : m.control = none) :
    ∃ m', Tasks.destroy (H := H) m.free 0 m = .ok m' ∧ m'.data = m.data ∧ ∀ i, m'.frames i = none := by
  obtain ⟨control, data⟩ := calls
  obtain ⟨rfl, himplements⟩ := h
  cases control with
  | running isVoid s callers =>
    obtain ⟨_, h, hcontrol, _⟩ := himplements
    rw [hidle] at hcontrol
    cases hcontrol
  | ended result =>
    obtain ⟨_, _, hfree, hresult, hlive⟩ := himplements
    obtain ⟨f, hframe, hdone⟩ : ∃ f, m.frames 0 = some f ∧ f.place = .done := by
      unfold Tasks.awaitResume at hresult
      cases hframe : m.frames 0 with
      | none =>
        rw [hframe] at hresult
        cases hresult
      | some f =>
        rw [hframe] at hresult
        refine ⟨f, rfl, ?_⟩
        dsimp only at hresult
        cases hplace : f.place with
        | done => rfl
        | suspended | awaiting | running =>
          rw [hplace] at hresult
          cases hresult
    refine ⟨_, destroy_done hframe hdone hfree, rfl, fun i => ?_⟩
    by_cases hi : i = 0
    · rw [hi]
      exact Function.update_self 0 _ m.frames
    · have hnone : ¬(m.frames i).isSome := fun hsome => hi (hlive i hsome)
      exact (Function.update_of_ne hi _ m.frames).trans (Option.not_isSome_iff_eq_none.mp hnone)
  | waiting isVoid s callers =>
    obtain ⟨_, h, _, link, handles, hframe, hchain, hlt, hlive⟩ := himplements
    obtain ⟨all, hall, hdestroy⟩ := destroy_of_chain (H := H) hchain 1 [h] (fun n hn => by
      obtain ⟨n, rfl⟩ := Nat.exists_eq_succ_of_ne_zero (by omega : n ≠ 0)
      rw [Tasks.destroy, hframe]
      exact congrArg Except.ok (without_cons m h [])) m.free
        (by have := length_chain_le hchain; omega)
    refine ⟨_, hdestroy, rfl, fun i => ?_⟩
    show (if i ∈ all then none else m.frames i) = none
    by_cases hi : i ∈ all
    · rw [if_pos hi]
    · rw [if_neg hi]
      by_contra hsome
      have hmem := hlive i (Option.isSome_iff_ne_none.mpr hsome)
      rw [List.mem_cons] at hmem
      refine hi ((hall i).mpr ?_)
      rw [List.mem_singleton]
      exact hmem.symm

/-- SOURCE: utility/coro.hh:73-77, proto/client.hh:43 — **the root owns all frames**. In every state of a
run in which no coroutine is running, the destructor of the root task destroys every frame, each of them
once: no frame is leaked, whether the coroutines wait or are done. -/
theorem destroy_root_frees_all (code : Code σ S V E C L H) (c : C) (data : σ)
    (actions : List (CallAction σ)) (m : Tasks σ S V E)
    (hrun : runActions (Tasks.act code) (Tasks.launch code c data) actions = some (.ok m))
    (hidle : m.control = none) :
    ∃ m', Tasks.destroy (H := H) m.free 0 m = .ok m' ∧ ∀ i, m'.frames i = none := by
  obtain ⟨m₀, hlaunch, himplements⟩ := implements_launch code c data
  rw [hlaunch] at hrun
  obtain ⟨y, _, hsame⟩ := implements_run actions (x := .ok m₀) (y := .ok _) himplements hrun
  cases y with
  | error e => exact hsame.elim
  | ok calls =>
    obtain ⟨m', hdestroy, _, hgone⟩ := destroy_of_implements hsame hidle
    exact ⟨m', hdestroy, hgone⟩

theorem destroy_root_frees_all_nested :
    ∃ m, runActions (Tasks.act nestedCode) (Tasks.launch nestedCode true ()) [.turn, .turn] =
        some (.ok m) ∧
      ∃ m', Tasks.destroy (H := Unit) m.free 0 m = .ok m' ∧ ∀ i, m'.frames i = none := by
  obtain ⟨m, hm, hidle⟩ : ∃ m, runActions (Tasks.act nestedCode) (Tasks.launch nestedCode true ())
      [.turn, .turn] = some (.ok m) ∧ m.control = none := ⟨_, rfl, rfl⟩
  exact ⟨m, hm, destroy_root_frees_all nestedCode true () _ m hm hidle⟩

end Mccpp.Analysis
