import Mccpp.Library.Calls

/-!
# Tasks

`utility/coro.hh`: a `task<T>` owns the frame of a coroutine, a frame has the promise, and `co_await` of
a task hands control from frame to frame by the handles in `m_resume`. What is awaited besides tasks
leaves the handle of its coroutine with `buffer::resume_on_readable` of `proto/tcp_client.cc`, which
keeps one.

The frames are kept by their handles, and a frame that has been destroyed is gone: using its handle, or
resuming a coroutine that is not suspended, is undefined behaviour. The bodies of the coroutines are
`Code`, of which a turn goes from one `co_await` to the next.
-/

set_option autoImplicit false

namespace Mccpp.Model

open Mccpp.Library

/-- What stops the process: the code of a coroutine, an `assert`, or undefined behaviour. -/
inductive TaskHalt (H : Type) where
  | own (h : H)
  /-- `assert(m_handle.done())`. -/
  | notDone
  /-- `assert(m_handle.promise().has_result())`. -/
  | noResult
  /-- `assert(!m_resume)` of `buffer::resume_on_readable`. -/
  | resumePending
  | undefined
deriving DecidableEq

/-- Where the coroutine of a frame is. -/
inductive Place (S V E : Type) where
  /-- At its initial suspend, or at `co_await` of something that is no task. -/
  | suspended (s : S)
  /-- At `co_await` of a task: the handle in this task, and what comes behind `await_resume()`. -/
  | awaiting (child : ℕ) (next : Except E V → S)
  | running
  /-- At its final suspend. -/
  | done

/-- A frame, with its promise. -/
structure Frame (S V E : Type) where
  place : Place S V E
  /-- The promise is one of `task<void>`. -/
  isVoid : Bool
  /-- `m_resume`; `none` is `std::noop_coroutine()`. -/
  mResume : Option ℕ
  mException : Option E
  mValue : Option V

/-- The frames, the coroutine that is running (`none`: the code that has resumed one), the buffer's
`m_resume`, and everything else. -/
structure Tasks (σ S V E : Type) where
  frames : ℕ → Option (Frame S V E)
  /-- The next handle that is free. -/
  free : ℕ
  control : Option (ℕ × S)
  mResume : Option ℕ
  data : σ

namespace Tasks

variable {σ S V E C L H : Type} (code : Code σ S V E C L H)

/-- Writes a frame. -/
def setFrame (m : Tasks σ S V E) (h : ℕ) (f : Frame S V E) : Tasks σ S V E :=
  { m with frames := Function.update m.frames h (some f) }

/-- A coroutine is called: `get_return_object()` and `initial_suspend()`. -/
def create (c : C) (m : Tasks σ S V E) : ℕ × Tasks σ S V E :=
  (m.free, { m.setFrame m.free ⟨.suspended (code.start c), code.isVoid c, none, none, none⟩ with
    free := m.free + 1 })

/-- `destroy()` of a handle, for a chain of at most `depth` frames: the task that a frame awaits is a
temporary in it. -/
def destroy : ℕ → ℕ → Tasks σ S V E → Except (TaskHalt H) (Tasks σ S V E)
  | 0, _, _ => .error .undefined
  | depth + 1, h, m =>
    match m.frames h with
    | none => .error .undefined
    | some f =>
      match f.place with
      | .running => .error .undefined
      | .suspended _ | .done => .ok { m with frames := Function.update m.frames h none }
      | .awaiting child _ => do
        let m ← destroy depth child m
        .ok { m with frames := Function.update m.frames h none }

/-- `await_resume()` of the task with this handle. -/
def awaitResume (m : Tasks σ S V E) (h : ℕ) : Except (TaskHalt H) (Except E V) :=
  match m.frames h with
  | none => .error .undefined
  | some f =>
    match f.place with
    | .suspended _ | .awaiting _ _ | .running => .error .notDone
    | .done =>
      match f.mException with
      | some e => .ok (.error e)
      | none =>
        if f.isVoid then .ok (.ok code.nothing)
        else
          match f.mValue with
          | none => .error .noResult
          | some v => .ok (.ok v)

/-- The coroutine with this handle is resumed. Behind a task, its `await_resume()` comes first, and then
the end of the expression destroys the task. -/
def resume (m : Tasks σ S V E) : Option ℕ → Except (TaskHalt H) (Tasks σ S V E)
  | none => .ok { m with control := none }
  | some h =>
    match m.frames h with
    | none => .error .undefined
    | some f =>
      match f.place with
      | .suspended s => .ok { m.setFrame h { f with place := .running } with control := some (h, s) }
      | .awaiting child next => do
        let result ← m.awaitResume code child
        let m ← m.destroy m.free child
        .ok { m.setFrame h { f with place := .running } with control := some (h, next result) }
      | .running | .done => .error .undefined

/-- `return_value(value)`, or `return_void()`. -/
def returnValue (f : Frame S V E) (v : V) : Frame S V E :=
  if f.isVoid then f else { f with mValue := some v }

/-- `unhandled_exception()`. -/
def unhandledException (f : Frame S V E) (e : E) : Frame S V E := { f with mException := some e }

/-- `final_suspend()`: the `task_resumer` goes on with `m_resume`. -/
def finalSuspend (m : Tasks σ S V E) (h : ℕ) (f : Frame S V E) :
    Except (TaskHalt H) (Tasks σ S V E) :=
  (m.setFrame h { f with place := .done }).resume code f.mResume

/-- `co_await` of the task that a call of `c` returns, by the coroutine `h`. -/
def awaitTask (m : Tasks σ S V E) (h : ℕ) (f : Frame S V E) (c : C) (next : Except E V → S) :
    Except (TaskHalt H) (Tasks σ S V E) :=
  let (child, m) := m.create code c
  let m := m.setFrame h { f with place := .awaiting child next }
  -- `await_suspend(resume)`
  match m.frames child with
  | none => .error .undefined
  | some promise => (m.setFrame child { promise with mResume := some h }).resume code (some child)

/-- `co_await` of something that waits by `buffer::resume_on_readable`. -/
def awaitReadable (m : Tasks σ S V E) (h : ℕ) (f : Frame S V E) (l : L) (next : S) :
    Except (TaskHalt H) (Tasks σ S V E) :=
  if code.ready l m.data then .ok { m with control := some (h, next) }
  else if m.mResume.isSome then .error .resumePending
  else
    match code.suspend l m.data with
    | .error e => .error (.own e)
    | .ok data => .ok { m.setFrame h { f with place := .suspended next } with
        control := none
        mResume := some h
        data := data }

/-- The running coroutine goes on, up to its next `co_await` or its end. -/
def step (m : Tasks σ S V E) : Except (TaskHalt H) (Tasks σ S V E) :=
  match m.control with
  | none => .ok m
  | some (h, s) =>
    match m.frames h with
    | none => .error .undefined
    | some f =>
      match code.turn s m.data with
      | .error e => .error (.own e)
      | .ok (.returns v, data) => { m with data := data }.finalSuspend code h (returnValue f v)
      | .ok (.throws e, data) => { m with data := data }.finalSuspend code h (unhandledException f e)
      | .ok (.calls c next, data) => { m with data := data }.awaitTask code h f c next
      | .ok (.waits l next, data) => { m with data := data }.awaitReadable code h f l next

/-- The handle that the buffer keeps is taken out and resumed, behind a change to the data. There is
nothing to resume before a coroutine has suspended. -/
def deliver (change : σ → σ) (m : Tasks σ S V E) :
    Option (Except (TaskHalt H) (Tasks σ S V E)) :=
  match m.control, m.mResume with
  | none, some h => some ({ m with mResume := none, data := change m.data }.resume code (some h))
  | _, _ => none

/-- The root task is made, which has the handle `0`, and resumed. -/
def launch (c : C) (data : σ) : Except (TaskHalt H) (Tasks σ S V E) :=
  let (root, m) := create code c
    { frames := fun _ => none, free := 0, control := none, mResume := none, data := data }
  m.resume code (some root)

/-- One action; there is none once the process has stopped. -/
def act : Except (TaskHalt H) (Tasks σ S V E) → CallAction σ →
    Option (Except (TaskHalt H) (Tasks σ S V E))
  | .error _, _ => none
  | .ok m, .turn => some (m.step code)
  | .ok m, .deliver change => m.deliver code change

/-- `n` turns. -/
def turns : ℕ → Tasks σ S V E → Except (TaskHalt H) (Tasks σ S V E)
  | 0, m => .ok m
  | n + 1, m => (m.step code).bind fun m => turns n m

end Tasks

end Mccpp.Model
