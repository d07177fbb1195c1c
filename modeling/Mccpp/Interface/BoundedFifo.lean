import Mccpp.Model.RingBuffer

/-!
# A bounded first-in first-out queue of bytes

What a ring buffer is for, without positions: a list of at most `N` bytes, written at the
end and erased at the front. The operations are those of `RingBuffer.Op`, each allowed
exactly when the queue has the room or the bytes for it.
-/

set_option autoImplicit false

namespace Mccpp.Interface.BoundedFifo

open Mccpp.Model

/-- One operation on a queue of capacity `N`. -/
def step (N : ℕ) (queue : List Byte) : RingBuffer.Op → Option (List Byte)
  | .write data => if queue.length + data.length ≤ N then some (queue ++ data) else none
  | .front => if queue = [] then none else some queue
  | .erase n => if n ≤ queue.length then some (queue.drop n) else none

/-- INTERNAL: no operation makes the queue longer than its capacity. -/
theorem step_length_le (N : ℕ) (queue : List Byte) (op : RingBuffer.Op) (queue' : List Byte)
    (h : queue.length ≤ N) (hstep : step N queue op = some queue') : queue'.length ≤ N := by
  cases op with
  | write data =>
    simp only [step, Option.ite_none_right_eq_some, Option.some.injEq] at hstep
    obtain ⟨hroom, rfl⟩ := hstep
    simpa using hroom
  | front =>
    simp only [step, Option.ite_none_left_eq_some, Option.some.injEq] at hstep
    exact hstep.2 ▸ h
  | erase n =>
    simp only [step, Option.ite_none_right_eq_some, Option.some.injEq] at hstep
    obtain ⟨-, rfl⟩ := hstep
    simp only [List.length_drop]
    omega

end Mccpp.Interface.BoundedFifo
