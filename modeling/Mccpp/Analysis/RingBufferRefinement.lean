import Mccpp.Library.PartialRun
import Mccpp.Interface.BoundedFifo
import Mathlib.Tactic.Common

/-!
# The ring buffer refines a bounded queue

A buffer `Holds` a queue when its counters have not wrapped and the byte at stream offset
`mRead + i` is the `i`-th byte of the queue. The spans cut the unread bytes at the physical
end of the storage, so `contents` is the queue (`contents_of_holds`); a write touches only
cells whose offset lies behind the unread ones (`cell_fill_of_lt`, `cell_fill_of_ge`), and
an erase moves the front (`holds_erase`). Runs follow from the steps by `runActions_map`.
-/

set_option autoImplicit false

namespace Mccpp.Analysis

open Mccpp.Library Mccpp.Model Mccpp.Interface

variable {N : ℕ} [NeZero N]

/-- The buffer stores `queue`: unwrapped counters, and every unread offset in its cell. -/
structure Holds (rb : RingBuffer N) (queue : List Byte) : Prop where
  written_lt : rb.mWritten < sizeModulus
  written_eq : rb.mWritten = rb.mRead + queue.length
  length_le : queue.length ≤ N
  cell_eq : ∀ i (h : i < queue.length), rb.cell (rb.mRead + i) = queue[i]

/-! ## Cells and offsets -/

/-- INTERNAL: a cell is determined by its index modulo the capacity.
SOURCE: utility/ring_buffer.hh:30-33 -/
theorem cell_mod (rb : RingBuffer N) (i : ℕ) : rb.cell (i % N) = rb.cell i := by
  have hfin : Fin.ofNat N (i % N) = Fin.ofNat N i := Fin.ext (by simp [Fin.ofNat])
  rw [RingBuffer.cell, RingBuffer.cell, hfin]

theorem cell_congr (rb : RingBuffer N) {i j : ℕ} (h : i % N = j % N) : rb.cell i = rb.cell j := by
  rw [← cell_mod rb i, ← cell_mod rb j, h]

theorem cell_store (rb : RingBuffer N) (start : ℕ) (data : List Byte) (i : ℕ) (hi : i < N) :
    (rb.store start data).cell i =
      if start ≤ i then data[i - start]?.getD (rb.cell i) else rb.cell i := by
  have hval : (Fin.ofNat N i).val = i := Nat.mod_eq_of_lt hi
  simp only [RingBuffer.cell, RingBuffer.store, hval]

theorem clamp_eq_min (v h : ℕ) : RingBuffer.clamp v h = min v h := by
  unfold RingBuffer.clamp
  split <;> omega

/-! ## The spans of a buffer that holds a queue -/

section Spans

variable {rb : RingBuffer N} {queue : List Byte}

theorem mod_lt_capacity (i : ℕ) : i % N < N := Nat.mod_lt i (Nat.pos_of_neZero N)

theorem Holds.readable_eq (h : Holds rb queue) : rb.readable = queue.length := by
  have hsub := sizeSub_of_le h.written_lt (b := rb.mRead) (by have := h.written_eq; omega)
  rw [RingBuffer.readable, hsub, h.written_eq]
  omega

theorem Holds.writable_eq (h : Holds rb queue) (hN : N < sizeModulus) :
    rb.writable = N - queue.length := by
  rw [RingBuffer.writable, h.readable_eq]
  exact sizeSub_of_le hN h.length_le

theorem Holds.readFront_eq (h : Holds rb queue) (hN : N < sizeModulus) :
    rb.readFront = ⟨rb.mRead % N, min queue.length (N - rb.mRead % N)⟩ := by
  have hstart := mod_lt_capacity (N := N) rb.mRead
  simp only [RingBuffer.readFront, clamp_eq_min, h.readable_eq, sizeSub_of_le hN (Nat.le_of_lt hstart)]

theorem Holds.readBack_eq (h : Holds rb queue) (hN : N < sizeModulus) :
    rb.readBack = ⟨0, queue.length - min queue.length (N - rb.mRead % N)⟩ := by
  have hstart := mod_lt_capacity (N := N) rb.mRead
  have hlen : queue.length < sizeModulus := by have := h.length_le; omega
  simp only [RingBuffer.readBack, clamp_eq_min, h.readable_eq, sizeSub_of_le hN (Nat.le_of_lt hstart)]
  rw [sizeSub_of_le hlen (Nat.min_le_left _ _)]

theorem Holds.writeFront_eq (h : Holds rb queue) (hN : N < sizeModulus) :
    rb.writeFront = ⟨rb.mWritten % N, min (N - queue.length) (N - rb.mWritten % N)⟩ := by
  have hstart := mod_lt_capacity (N := N) rb.mWritten
  simp only [RingBuffer.writeFront, clamp_eq_min, h.writable_eq hN, sizeSub_of_le hN (Nat.le_of_lt hstart)]

theorem Holds.writeBack_eq (h : Holds rb queue) (hN : N < sizeModulus) :
    rb.writeBack =
      ⟨0, (N - queue.length) - min (N - queue.length) (N - rb.mWritten % N)⟩ := by
  have hstart := mod_lt_capacity (N := N) rb.mWritten
  have hroom : N - queue.length < sizeModulus := by omega
  simp only [RingBuffer.writeBack, clamp_eq_min, h.writable_eq hN, sizeSub_of_le hN (Nat.le_of_lt hstart)]
  rw [sizeSub_of_le hroom (Nat.min_le_left _ _)]

@[simp] theorem length_bytes (rb : RingBuffer N) (s : Span) : (rb.bytes s).length = s.count := by
  simp [RingBuffer.bytes]

theorem getElem_bytes (rb : RingBuffer N) (s : Span) (i : ℕ) (hi : i < (rb.bytes s).length) :
    (rb.bytes s)[i] = rb.cell (s.start + i) := by
  simp [RingBuffer.bytes]

/-- INTERNAL: **reading front and back shows the queue**, however the unread bytes wrap.
SOURCE: utility/ring_buffer.hh:35-47 -/
theorem contents_of_holds (h : Holds rb queue) (hN : N < sizeModulus) :
    rb.contents = queue := by
  have hstart := mod_lt_capacity (N := N) rb.mRead
  have hbound := h.length_le
  unfold RingBuffer.contents
  rw [h.readFront_eq hN, h.readBack_eq hN]
  apply List.ext_getElem
  · simp only [List.length_append, length_bytes]
    omega
  · intro i hi hq
    rw [List.getElem_append]
    split
    · rename_i hfront
      rw [getElem_bytes, ← h.cell_eq i hq]
      apply cell_congr
      simp only [Nat.mod_add_mod]
    · rename_i hback
      simp only [length_bytes] at hback ⊢
      rw [getElem_bytes, ← h.cell_eq i hq]
      apply cell_congr
      have hcut : min queue.length (N - rb.mRead % N) = N - rb.mRead % N := by omega
      have hwrap : rb.mRead % N + i = (i - (N - rb.mRead % N)) + N := by omega
      rw [← Nat.mod_add_mod rb.mRead N i, hwrap, Nat.add_mod_right, hcut, Nat.zero_add]

end Spans

/-! ## Writing -/

/-- INTERNAL: after filling, the cell of offset `mWritten + j` shows the `j`-th byte filled
in, and every later cell is as it was. The two stores split at the physical end exactly
where the offsets wrap.
SOURCE: utility/ring_buffer.hh:49-61 -/
theorem cell_fill {rb : RingBuffer N} {queue : List Byte} (h : Holds rb queue)
    (hN : N < sizeModulus) (data : List Byte) (hdata : queue.length + data.length ≤ N)
    (j : ℕ) (hj : j < N) :
    (rb.fill data).cell (rb.mWritten + j) = data[j]?.getD (rb.cell (rb.mWritten + j)) := by
  have hstart := mod_lt_capacity (N := N) rb.mWritten
  set w := rb.mWritten % N with hw
  set c := min (N - queue.length) (N - w) with hc
  have hfill : rb.fill data = (rb.store w (data.take c)).store 0 (data.drop c) := by
    rw [RingBuffer.fill, h.writeFront_eq hN, h.writeBack_eq hN]
  rw [hfill]
  by_cases hwrap : w + j < N
  · -- the cell lies before the physical end: only the first store reaches it
    have hcell : ∀ b : RingBuffer N, b.cell (rb.mWritten + j) = b.cell (w + j) := fun b =>
      cell_congr b (by rw [hw, Nat.mod_add_mod])
    rw [hcell, hcell, cell_store _ _ _ _ hwrap, cell_store _ _ _ _ hwrap,
      if_pos (Nat.zero_le _), if_pos (Nat.le_add_right w j), Nat.sub_zero,
      Nat.add_sub_cancel_left, List.getElem?_drop, List.getElem?_eq_none (by omega),
      Option.getD_none, List.getElem?_take]
    split
    · rfl
    · rename_i hcj
      rw [Option.getD_none, List.getElem?_eq_none (by omega), Option.getD_none]
  · -- the cell lies past it, at index `w + j - N`, where the second store starts from `0`
    have hlt : w + j - N < N := by omega
    have hcell : ∀ b : RingBuffer N, b.cell (rb.mWritten + j) = b.cell (w + j - N) := fun b =>
      cell_congr b (by
        rw [← Nat.mod_add_mod, ← hw, ← Nat.add_mod_right (w + j - N) N]
        congr 1
        omega)
    rw [hcell, hcell, cell_store _ _ _ _ hlt, cell_store _ _ _ _ hlt, if_pos (Nat.zero_le _),
      if_neg (by omega), Nat.sub_zero, List.getElem?_drop]
    by_cases hjd : j < data.length
    · have hidx : c + (w + j - N) = j := by omega
      rw [hidx]
    · rw [List.getElem?_eq_none (by omega), List.getElem?_eq_none (by omega)]

/-- INTERNAL: filling leaves the cells of the unread bytes alone: their offsets lie below
`mWritten`, less than one round before it.
SOURCE: utility/ring_buffer.hh:49-61 -/
theorem cell_fill_of_unread {rb : RingBuffer N} {queue : List Byte} (h : Holds rb queue)
    (hN : N < sizeModulus) (data : List Byte) (hdata : queue.length + data.length ≤ N)
    (i : ℕ) (hi : i < queue.length) :
    (rb.fill data).cell (rb.mRead + i) = rb.cell (rb.mRead + i) := by
  have hbound := h.length_le
  have hround : ∀ b : RingBuffer N,
      b.cell (rb.mRead + i) = b.cell (rb.mWritten + (N - queue.length + i)) := fun b =>
    cell_congr b (by
      rw [h.written_eq, ← Nat.add_mod_right (rb.mRead + i) N]
      congr 1
      omega)
  rw [hround, hround, cell_fill h hN data hdata _ (by omega), List.getElem?_eq_none (by omega),
    Option.getD_none]

/-- INTERNAL: bytes in the writable spans do not change what is held. -/
theorem holds_fill {rb : RingBuffer N} {queue : List Byte} (h : Holds rb queue)
    (hN : N < sizeModulus) (data : List Byte) (hdata : queue.length + data.length ≤ N) :
    Holds (rb.fill data) queue where
  written_lt := by rw [RingBuffer.mWritten_fill]; exact h.written_lt
  written_eq := by rw [RingBuffer.mWritten_fill, RingBuffer.mRead_fill]; exact h.written_eq
  length_le := h.length_le
  cell_eq i hi := by
    rw [RingBuffer.mRead_fill]
    exact (cell_fill_of_unread h hN data hdata i hi).trans (h.cell_eq i hi)

/-! ## The operations keep the relation -/

theorem holds_init (memory : Fin N → Byte) : Holds (RingBuffer.init memory) [] where
  written_lt := by simp [RingBuffer.init, sizeModulus_eq]
  written_eq := rfl
  length_le := Nat.zero_le N
  cell_eq i hi := absurd hi (Nat.not_lt_zero i)

/-- INTERNAL: a write that fits appends its bytes to the queue, as long as the write counter
does not reach `2 ^ 64`.
SOURCE: utility/ring_buffer.hh:63-66 -/
theorem holds_write {rb : RingBuffer N} {queue : List Byte} (h : Holds rb queue)
    (hN : N < sizeModulus) (data : List Byte) (hdata : queue.length + data.length ≤ N)
    (hcount : rb.mWritten + data.length < sizeModulus) :
    ∃ rb', (rb.fill data).markWrite data.length = some rb' ∧ Holds rb' (queue ++ data) ∧
      rb'.mWritten = rb.mWritten + data.length := by
  have hroom := (holds_fill h hN data hdata).writable_eq hN
  have hbound := h.length_le
  refine ⟨{ rb.fill data with mWritten := rb.mWritten + data.length }, ?_, ?_, rfl⟩
  · rw [RingBuffer.markWrite, if_pos (by omega), RingBuffer.mWritten_fill, sizeAdd_of_lt hcount]
  · refine ⟨hcount, ?_, by simpa using hdata, fun i hi => ?_⟩
    · have := h.written_eq
      simp only [RingBuffer.mRead_fill, List.length_append]
      omega
    · show (rb.fill data).cell (rb.mRead + i) = (queue ++ data)[i]
      rw [List.getElem_append]
      split
      · rename_i hold
        exact (cell_fill_of_unread h hN data hdata i hold).trans (h.cell_eq i hold)
      · rename_i hnew
        have hi' : i - queue.length < data.length := by
          rw [List.length_append] at hi
          omega
        have hoff : rb.mRead + i = rb.mWritten + (i - queue.length) := by
          have := h.written_eq
          omega
        rw [hoff, cell_fill h hN data hdata _ (by omega), List.getElem?_eq_getElem hi',
          Option.getD_some]

/-- INTERNAL: erasing drops bytes from the front of the queue.
SOURCE: utility/ring_buffer.hh:68-71 -/
theorem holds_erase {rb : RingBuffer N} {queue : List Byte} (h : Holds rb queue) (n : ℕ)
    (hn : n ≤ queue.length) :
    ∃ rb', rb.erase n = some rb' ∧ Holds rb' (queue.drop n) ∧ rb'.mWritten = rb.mWritten := by
  have hwritten := h.written_eq
  have hlt := h.written_lt
  refine ⟨{ rb with mRead := rb.mRead + n }, ?_, ?_, rfl⟩
  · rw [RingBuffer.erase, if_pos (by rwa [h.readable_eq]), sizeAdd_of_lt (by omega)]
  · refine ⟨hlt, ?_, ?_, fun i hi => ?_⟩
    · show rb.mWritten = rb.mRead + n + (queue.drop n).length
      rw [List.length_drop]
      omega
    · have := h.length_le
      rw [List.length_drop]
      omega
    · show rb.cell (rb.mRead + n + i) = (queue.drop n)[i]
      rw [List.getElem_drop, Nat.add_assoc]
      exact h.cell_eq (n + i) (by rw [List.length_drop] at hi; omega)

/-- INTERNAL: `front()` is the first byte of the queue; on an empty queue its assert fails.
SOURCE: utility/ring_buffer.hh:30-33 -/
theorem front_of_holds {rb : RingBuffer N} {queue : List Byte} (h : Holds rb queue) :
    rb.front = queue.head? := by
  rw [RingBuffer.front, h.readable_eq, cell_mod]
  cases queue with
  | nil => rfl
  | cons b rest =>
    have hcell := h.cell_eq 0 (Nat.succ_pos _)
    rw [if_pos (by simp), ← Nat.add_zero rb.mRead, hcell]
    rfl

/-! ## Steps and runs -/

/-- INTERNAL: **one operation**, as long as the write counter stays below `2 ^ 64`: the
buffer and the queue allow it together, and what the buffer then shows is the new queue.
SOURCE: utility/ring_buffer.hh:30-71 -/
theorem step_refines {rb : RingBuffer N} {queue : List Byte} (h : Holds rb queue)
    (hN : N < sizeModulus) (op : RingBuffer.Op)
    (hcount : rb.mWritten + op.written < sizeModulus) :
    (rb.step op).map RingBuffer.contents = BoundedFifo.step N queue op ∧
      ∀ rb', rb.step op = some rb' →
        Holds rb' rb'.contents ∧ rb'.mWritten = rb.mWritten + op.written := by
  have hcontents := contents_of_holds h hN
  cases op with
  | write data =>
    simp only [RingBuffer.step, BoundedFifo.step, h.writable_eq hN]
    have hbound := h.length_le
    by_cases hroom : queue.length + data.length ≤ N
    · obtain ⟨rb', hmark, hrb', hwritten⟩ := holds_write h hN data hroom hcount
      have hshow := contents_of_holds hrb' hN
      rw [if_pos (by omega), if_pos hroom, hmark]
      refine ⟨congrArg some hshow, fun t ht => ?_⟩
      cases ht
      exact ⟨by rwa [hshow], hwritten⟩
    · rw [if_neg (by omega), if_neg hroom]
      exact ⟨rfl, fun t ht => by cases ht⟩
  | front =>
    simp only [RingBuffer.step, BoundedFifo.step, front_of_holds h]
    cases queue with
    | nil => exact ⟨rfl, fun t ht => by cases ht⟩
    | cons b rest =>
      refine ⟨by simpa using hcontents, fun t ht => ?_⟩
      cases ht
      exact ⟨by rwa [hcontents], rfl⟩
  | erase n =>
    simp only [RingBuffer.step, BoundedFifo.step]
    by_cases hn : n ≤ queue.length
    · obtain ⟨rb', herase, hrb', hwritten⟩ := holds_erase h n hn
      have hshow := contents_of_holds hrb' hN
      rw [if_pos hn, herase]
      refine ⟨congrArg some hshow, fun t ht => ?_⟩
      cases ht
      exact ⟨by rwa [hshow], hwritten⟩
    · rw [if_neg hn, RingBuffer.erase, h.readable_eq, if_neg hn]
      exact ⟨rfl, fun t ht => by cases ht⟩

/-- What every state of a ring buffer owes its user, beside the queue it stores. -/
structure SpansSound (rb : RingBuffer N) : Prop where
  total : rb.readable + rb.writable = N
  front : rb.front = rb.contents.head?
  read_count : rb.readFront.count + rb.readBack.count = rb.readable
  write_count : rb.writeFront.count + rb.writeBack.count = rb.writable
  in_bounds : ∀ s ∈ [rb.readFront, rb.readBack, rb.writeFront, rb.writeBack],
    s.start + s.count ≤ N
  disjoint : ∀ r ∈ [rb.readFront, rb.readBack], ∀ w ∈ [rb.writeFront, rb.writeBack],
    ∀ i, ¬(r.Contains i ∧ w.Contains i)
  unread_kept : ∀ data : List Byte, data.length ≤ rb.writable →
    (rb.fill data).contents = rb.contents

/-- INTERNAL: the four spans of a buffer that holds a queue tile its storage: the readable
ones are the unread offsets, the writable ones the rest of the round.
SOURCE: utility/ring_buffer.hh:35-61 -/
theorem spansSound_of_holds {rb : RingBuffer N} {queue : List Byte} (h : Holds rb queue)
    (hN : N < sizeModulus) : SpansSound rb := by
  have hcontents := contents_of_holds h hN
  have hbound := h.length_le
  have hread := mod_lt_capacity (N := N) rb.mRead
  have hwrite := mod_lt_capacity (N := N) rb.mWritten
  have hrel : rb.mWritten % N = (rb.mRead % N + queue.length) % N := by
    rw [h.written_eq, Nat.mod_add_mod]
  have hplace : rb.mWritten % N = rb.mRead % N + queue.length ∨
      rb.mWritten % N + N = rb.mRead % N + queue.length := by
    by_cases hwrap : rb.mRead % N + queue.length < N
    · exact Or.inl (by rw [hrel, Nat.mod_eq_of_lt hwrap])
    · have hround : rb.mRead % N + queue.length =
          (rb.mRead % N + queue.length - N) + N := by omega
      have hlast : rb.mRead % N + queue.length - N < N := by omega
      refine Or.inr ?_
      rw [hrel, hround, Nat.add_mod_right, Nat.mod_eq_of_lt hlast]
  constructor
  · rw [h.readable_eq, h.writable_eq hN]
    omega
  · rw [front_of_holds h, hcontents]
  · rw [h.readFront_eq hN, h.readBack_eq hN, h.readable_eq]
    dsimp only
    omega
  · rw [h.writeFront_eq hN, h.writeBack_eq hN, h.writable_eq hN]
    dsimp only
    omega
  · rw [h.readFront_eq hN, h.readBack_eq hN, h.writeFront_eq hN, h.writeBack_eq hN]
    simp only [List.mem_cons, List.not_mem_nil, or_false]
    rintro s (rfl | rfl | rfl | rfl) <;> dsimp only <;> omega
  · rw [h.readFront_eq hN, h.readBack_eq hN, h.writeFront_eq hN, h.writeBack_eq hN]
    simp only [List.mem_cons, List.not_mem_nil, or_false, Span.Contains]
    rintro r (rfl | rfl) w (rfl | rfl) i <;> dsimp only <;> omega
  · intro data hdata
    rw [h.writable_eq hN] at hdata
    rw [hcontents]
    exact contents_of_holds (holds_fill h hN data (by omega)) hN

/-- SOURCE: utility/ring_buffer.hh:9-80 — **the ring buffer is a bounded queue**. Over every
run of writes, looks at the front and erases that puts fewer than `2 ^ 64` bytes in, the
buffer allows exactly the operations a queue of capacity `N` allows, shows exactly its
content, and its spans are sound in every state reached. -/
theorem ring_buffer_refines_queue {N : ℕ} [NeZero N] (hN : N < sizeModulus)
    (memory : Fin N → Byte) (ops : List RingBuffer.Op)
    (hbytes : (ops.map RingBuffer.Op.written).sum < sizeModulus) :
    (runActions RingBuffer.step (RingBuffer.init memory) ops).map RingBuffer.contents =
        runActions (BoundedFifo.step N) [] ops ∧
      ∀ rb, runActions RingBuffer.step (RingBuffer.init memory) ops = some rb →
        SpansSound rb := by
  have hinit := contents_of_holds (holds_init memory) hN
  have hrun := runActions_map RingBuffer.step (BoundedFifo.step N) RingBuffer.contents
    RingBuffer.Op.written (fun n rb => Holds rb rb.contents ∧ rb.mWritten + n < sizeModulus)
    (fun n rb op h => (step_refines h.1 hN op (by omega)).1)
    (fun n rb op rb' h hstep => by
      have hnext := (step_refines h.1 hN op (by omega)).2 rb' hstep
      exact ⟨hnext.1, by omega⟩)
    0 (RingBuffer.init memory) ops
    ⟨by rw [hinit]; exact holds_init memory, by simpa [RingBuffer.init] using hbytes⟩
  rw [hinit] at hrun
  exact ⟨hrun.1, fun rb hrb => spansSound_of_holds (hrun.2 rb hrb).1 hN⟩

/-- INTERNAL: three bytes of storage, written past the physical end: the second write starts
in the last cell and goes on in the first two. -/
theorem ring_buffer_refines_queue_wrapped :
    (runActions RingBuffer.step (RingBuffer.init fun _ : Fin 3 => 0#8)
      [.write [1, 2], .front, .erase 2, .write [3, 4, 5]]).map RingBuffer.contents =
      some [3, 4, 5] :=
  (ring_buffer_refines_queue (N := 3) (by rw [sizeModulus_eq]; decide) (fun _ => 0#8)
    [.write [1, 2], .front, .erase 2, .write [3, 4, 5]]
    (by rw [sizeModulus_eq]; decide)).1.trans (by decide)

end Mccpp.Analysis
