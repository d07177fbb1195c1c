import Mccpp.Analysis.ConnectionFragmentation

/-!
# The receive loop beyond `2 ^ 64` bytes

The counters of the buffer are reduced modulo `2 ^ 64`, its indices modulo the capacity, which
does not divide `2 ^ 64`: `2 ^ 64` is `2` modulo `2097151`. Bytes written across the wrap of
the counters are therefore read back from two cells further down. A server that has sent
`2 ^ 64 - 2` bytes, here as frames of two bytes, shows this with the next four.
-/

set_option autoImplicit false

namespace Mccpp.Analysis

open Mccpp.Library Mccpp.Model Mccpp.Interface

/-- A client that takes no notice of a packet. -/
def ignore : BitVec 32 → PacketM Unit Unit := fun _ => pure ()

/-! ## One frame of two bytes -/

/-- INTERNAL: a packet that is only an id is handed on without a body. -/
theorem gotPacketId_ignore (c : Connection Unit) (packetId : BitVec 32)
    (next : Connection Unit → Except Halt (Connection Unit)) :
    c.gotPacketId ignore packetId 0 next =
      next { c with dispatched := c.dispatched ++ [(packetId, [])] } := by
  have hrun : (ignore packetId c.client 0).runWith popFront c.mBuffer =
      some ((.ok (), c.client, 0), c.mBuffer) := rfl
  unfold Connection.gotPacketId
  rw [hrun, List.take_zero]
  rfl

theorem gotStep_one (c : Connection Unit)
    (next : Connection Unit → BitVec 32 → ℕ → Except Halt (Connection Unit)) :
    Connection.gotStep ignore c next (asyncReadStep 0 0 1) =
      c.gotLength ignore 1 fun c => next c 0 0 := by
  have hstep : asyncReadStep (0 : BitVec 32) 0 1 = .done 1 := by decide
  rw [hstep]
  rfl

theorem gotLength_one {c : Connection Unit} (hreadable : 1 ≤ c.mBuffer.readable)
    (next : Connection Unit → Except Halt (Connection Unit)) :
    c.gotLength ignore 1 next = c.receivePacket ignore 1 next := by
  have hfew : ¬c.mBuffer.readable < 1 := by omega
  unfold Connection.gotLength
  rw [if_neg (by decide), if_neg (by decide), if_neg (by rw [readCapacity_eq]; decide)]
  unfold Connection.recvUntil
  exact if_neg hfew

theorem receivePacket_one {c : Connection Unit} {rb : RingBuffer readCapacity}
    (hid : popFront c.mBuffer = some (0, rb))
    (next : Connection Unit → Except Halt (Connection Unit)) :
    c.receivePacket ignore 1 next =
      next { c with mBuffer := rb, dispatched := c.dispatched ++ [(0, [])] } := by
  have hrun : (PacketM.readVarint c.client 1).runWith popFront c.mBuffer =
      some ((.ok 0, c.client, 0), rb) := by
    obtain ⟨rb', hrun, hrb⟩ := Pull.runWith_of_run popFront
      (fun b bytes => bytes = [0] ∧ b = c.mBuffer ∨ bytes = [] ∧ b = rb) (by
        rintro b x xs (⟨hbytes, rfl⟩ | ⟨hbytes, rfl⟩)
        · cases hbytes
          exact ⟨rb, hid, Or.inr ⟨rfl, rfl⟩⟩
        · cases hbytes)
      (PacketM.readVarint c.client 1) c.mBuffer [0] (.ok 0, c.client, 0) [] (Or.inl ⟨rfl, rfl⟩) rfl
    rcases hrb with ⟨hbytes, _⟩ | ⟨_, rfl⟩
    · cases hbytes
    · exact hrun
  have hgo := gotPacketId_ignore { c with mBuffer := rb } 0 next
  unfold Connection.receivePacket
  rw [hrun]
  exact hgo

/-- INTERNAL: the frame `01 00`, from whatever cells its two bytes are read. -/
theorem gotByte_short_frame {c : Connection Unit} {rb₁ rb₂ : RingBuffer readCapacity}
    (hlength : popFront c.mBuffer = some (1, rb₁)) (hreadable : 1 ≤ rb₁.readable)
    (hid : popFront rb₁ = some (0, rb₂))
    (next : Connection Unit → BitVec 32 → ℕ → Except Halt (Connection Unit)) :
    c.gotByte ignore 0 0 next =
      next { c with mBuffer := rb₂, dispatched := c.dispatched ++ [(0, [])] } 0 0 := by
  have hpacket := receivePacket_one (c := { c with mBuffer := rb₁ }) hid fun c => next c 0 0
  have hread := gotLength_one (c := { c with mBuffer := rb₁ }) hreadable fun c => next c 0 0
  have hstep := gotStep_one { c with mBuffer := rb₁ } next
  rw [gotByte_of_pop hlength, hstep, hread]
  exact hpacket

/-! ## Many frames -/

/-- Waiting for the first byte of a length, with `written` bytes read so far. -/
structure Idle (c : Connection Unit) (written : ℕ) : Prop where
  holds : Holds c.mBuffer []
  written : c.mBuffer.mWritten = written
  resume : c.mResume = some (.readByte 0 0)
  offered : c.offered = some readCapacity
  thrown : c.thrown = none

theorem receive_of_empty {c : Connection Unit} (h : c.mBuffer.readable = 0)
    (hsized : Sized c.mBuffer) (hresume : c.mResume = none) (fuel : ℕ) :
    Connection.receive ignore (fuel + 1) c 0 0 =
      .ok { c with mResume := some (.readByte 0 0), offered := some readCapacity } := by
  have hoffered := offered_of_sized hsized readCapacity_lt
  rw [h, Nat.sub_zero] at hoffered
  unfold Connection.receive
  rw [if_neg (by omega)]
  unfold Connection.resumeOnReadable
  rw [hresume, hoffered]
  rfl

theorem receive_of_readable {c : Connection Unit} (h : 1 ≤ c.mBuffer.readable) (fuel : ℕ) :
    Connection.receive ignore (fuel + 1) c 0 0 =
      c.gotByte ignore 0 0 (Connection.receive ignore fuel) := by
  rw [Connection.receive, if_pos h]

theorem sized_of_holds {rb : RingBuffer readCapacity} {queue : List Byte} (h : Holds rb queue) :
    Sized rb := by
  have hwritten := h.written_eq
  have hlt := h.written_lt
  refine ⟨by omega, h.written_lt, ?_⟩
  rw [h.readable_eq]
  exact h.length_le

/-- INTERNAL: below the wrap, a frame `01 00` is one packet `0` without a body. -/
theorem complete_of_idle {c : Connection Unit} {written : ℕ} (h : Idle c written)
    (hcount : written + 2 < sizeModulus) :
    ∃ d, c.complete ignore [1, 0] = .ok (d, none) ∧ Idle d (written + 2) ∧
      d.dispatched = c.dispatched ++ [(0, [])] := by
  have hcapacity : 2 ≤ readCapacity := by rw [readCapacity_eq]; decide
  obtain ⟨rb, hmark, hrb, hwritten⟩ := holds_write h.holds readCapacity_lt [1, 0]
    (by simpa using hcapacity) (by rw [h.written]; exact hcount)
  obtain ⟨rb₁, hpop₁, hrb₁, hwritten₁⟩ := popFront_of_holds hrb
  obtain ⟨rb₂, hpop₂, hrb₂, hwritten₂⟩ := popFront_of_holds hrb₁
  have hread : 1 ≤ rb₁.readable := by
    rw [hrb₁.readable_eq]
    decide
  have hframe := gotByte_short_frame
    (c := { c with mBuffer := rb, offered := none, mResume := none }) hpop₁ hread hpop₂
    (Connection.receive ignore (rb.readable + 1))
  rw [receive_of_empty hrb₂.readable_eq (sized_of_holds hrb₂) rfl] at hframe
  have hcomplete := complete_of_resume hmark h.resume hframe
  dsimp only at hcomplete
  rw [h.thrown] at hcomplete
  refine ⟨_, hcomplete, ⟨hrb₂, ?_, rfl, rfl, rfl⟩, rfl⟩
  show rb₂.mWritten = written + 2
  rw [hwritten₂, hwritten₁, hwritten, h.written]
  rfl

theorem idle_start (memory : Fin readCapacity → Byte) :
    ∃ c, Connection.start ignore memory () = .ok c ∧ Idle c 0 ∧ c.dispatched = [] :=
  ⟨_, receive_of_empty (readable_init memory) (sized_init memory) rfl 0,
    ⟨holds_init memory, rfl, rfl, rfl, rfl⟩, rfl⟩

/-- INTERNAL: any number of frames, up to the wrap. -/
theorem run_of_idle (memory : Fin readCapacity → Byte) (j : ℕ) (hj : 2 * j < sizeModulus) :
    ∃ c e, Connection.Run ignore memory () (List.replicate j [1, 0]) c e ∧ Idle c (2 * j) ∧
      c.dispatched = List.replicate j (0, []) := by
  induction j with
  | zero =>
    obtain ⟨c, hc, hidle, hdispatched⟩ := idle_start memory
    exact ⟨c, none, .start c hc, hidle, hdispatched⟩
  | succ j ih =>
    obtain ⟨c, e, run, hidle, hdispatched⟩ := ih (by omega)
    obtain ⟨d, hd, hidle', hdispatched'⟩ := complete_of_idle hidle (by omega)
    have hcapacity : 2 ≤ readCapacity := by rw [readCapacity_eq]; decide
    refine ⟨d, none, ?_, hidle', ?_⟩
    · rw [List.replicate_succ']
      exact .complete _ _ c d e none run ⟨by simp, readCapacity, hidle.offered, hcapacity⟩ hd
    · rw [hdispatched', hdispatched, List.replicate_succ']

/-! ## Across the wrap -/

theorem popFront_of_readable {rb : RingBuffer readCapacity} (h : 1 ≤ rb.readable) :
    popFront rb = some (rb.cell rb.mRead, { rb with mRead := sizeAdd rb.mRead 1 }) := by
  rw [popFront, RingBuffer.front, if_pos h, RingBuffer.erase, if_pos h, cell_mod]
  rfl

/-- INTERNAL: **the bytes across the wrap**: with the read counter two short of `2 ^ 64` and
the write counter two past it, the buffer shows four bytes, of which the last two are those in
the cells `0` and `1`.
SOURCE: utility/ring_buffer.hh:18-33, 68-71 -/
theorem popFront_across {rb : RingBuffer readCapacity} {written : ℕ}
    (hwrap : written + 2 = sizeModulus) (hread : rb.mRead = written) (hwritten : rb.mWritten = 2) :
    rb.readable = 4 ∧
      popFront rb = some (rb.cell written, { rb with mRead := written + 1 }) ∧
      1 ≤ ({ rb with mRead := written + 1 } : RingBuffer readCapacity).readable ∧
      popFront { rb with mRead := written + 1 } =
        some (rb.cell (written + 1), { rb with mRead := 0 }) ∧
      1 ≤ ({ rb with mRead := 0 } : RingBuffer readCapacity).readable ∧
      popFront { rb with mRead := 0 } = some (rb.cell 0, { rb with mRead := 1 }) ∧
      1 ≤ ({ rb with mRead := 1 } : RingBuffer readCapacity).readable ∧
      popFront { rb with mRead := 1 } = some (rb.cell 1, { rb with mRead := 2 }) ∧
      ({ rb with mRead := 2 } : RingBuffer readCapacity).readable = 0 := by
  have hsize := sizeModulus_eq_literal
  have hreadable : ∀ r, ({ rb with mRead := r } : RingBuffer readCapacity).readable =
      sizeSub 2 r := fun r => by unfold RingBuffer.readable; rw [hwritten]
  have hless : ∀ r left, r < sizeModulus → (2 < r ∧ left + r = sizeModulus + 2 ∨
      r ≤ 2 ∧ left + r = 2) → sizeSub 2 r = left := by
    intro r left hr hleft
    rcases sizeSub_cases (a := 2) (by omega) hr with ⟨_, hsub⟩ | ⟨_, hsub⟩ <;> omega
  have hpop : ∀ r left next, r < sizeModulus → sizeSub 2 r = left + 1 → sizeAdd r 1 = next →
      popFront { rb with mRead := r } = some (rb.cell r, { rb with mRead := next }) := by
    intro r left next hr hleft hnext
    have hone : 1 ≤ ({ rb with mRead := r } : RingBuffer readCapacity).readable := by
      rw [hreadable, hleft]
      omega
    rw [popFront_of_readable hone]
    dsimp only
    rw [hnext]
    rfl
  have hself : rb = { rb with mRead := written } := by
    obtain ⟨mRead, mWritten, mData⟩ := rb
    dsimp only at hread
    rw [hread]
  have hadd : ∀ r, r + 1 < sizeModulus → sizeAdd r 1 = r + 1 := fun r hr => sizeAdd_of_lt hr
  have hlast : sizeAdd (written + 1) 1 = 0 := by
    rcases sizeAdd_cases (a := written + 1) (b := 1) (by omega) (by omega) with h | h <;> omega
  have h4 := hless written 4 (by omega) (by omega)
  have h3 := hless (written + 1) 3 (by omega) (by omega)
  have h2 := hless 0 2 (by omega) (by omega)
  have h1 := hless 1 1 (by omega) (by omega)
  have h0 := hless 2 0 (by omega) (by omega)
  refine ⟨?_, ?_, ?_, ?_, ?_, ?_, ?_, ?_, ?_⟩
  · rw [hself, hreadable, h4]
  · have := hpop written 3 (written + 1) (by omega) h4 (hadd written (by omega))
    rwa [← hself] at this
  · rw [hreadable, h3]
    omega
  · exact hpop (written + 1) 2 0 (by omega) h3 hlast
  · rw [hreadable, h2]
    omega
  · exact hpop 0 1 1 (by omega) h2 (hadd 0 (by omega))
  · rw [hreadable, h1]
  · exact hpop 1 0 2 (by omega) h1 (hadd 1 (by omega))
  · rw [hreadable, h0]

/-- INTERNAL: the third and the fourth of four bytes across the wrap are written to the cells `2`
and `3`; the cells `0` and `1`, which are read next, still hold the first two.
SOURCE: utility/ring_buffer.hh:49-71 -/
theorem markWrite_across {c : Connection Unit} {written : ℕ} (h : Idle c written)
    (hwrap : written + 2 = sizeModulus) :
    ∃ rb : RingBuffer readCapacity,
      (c.mBuffer.fill [1, 0, 1, 5]).markWrite ([1, 0, 1, 5] : List Byte).length = some rb ∧
        rb.mRead = written ∧ rb.mWritten = 2 ∧ rb.cell written = 1 ∧ rb.cell (written + 1) = 0 ∧
          rb.cell 0 = 1 ∧ rb.cell 1 = 0 := by
  have hsize := sizeModulus_eq_literal
  have hvalue : written = 18446744073709551614 := by omega
  have hcapacity : readCapacity = 2097151 := readCapacity_eq
  have hfits : ([] : List Byte).length + ([1, 0, 1, 5] : List Byte).length ≤ readCapacity := by
    rw [hcapacity]
    decide
  have hread : c.mBuffer.mRead = written := by
    have hsame := h.holds.written_eq
    rw [h.written] at hsame
    exact hsame.symm
  have hadd : sizeAdd written 4 = 2 := by
    rcases sizeAdd_cases (a := written) (b := 4) (by omega) (by omega) with h | h <;> omega
  have hroom : ([1, 0, 1, 5] : List Byte).length ≤ (c.mBuffer.fill [1, 0, 1, 5]).writable := by
    rw [(holds_fill h.holds readCapacity_lt _ hfits).writable_eq readCapacity_lt, hcapacity]
    decide
  obtain ⟨rb, hrb⟩ : ∃ rb : RingBuffer readCapacity,
      rb = { c.mBuffer.fill [1, 0, 1, 5] with mWritten := 2 } := ⟨_, rfl⟩
  have hcell : ∀ i, rb.cell i = (c.mBuffer.fill [1, 0, 1, 5]).cell i := by
    intro i
    have hdata : rb.mData = (c.mBuffer.fill [1, 0, 1, 5]).mData := by
      rw [hrb]
    unfold RingBuffer.cell
    rw [hdata]
  have hfilled : ∀ j (hj : j < 4), rb.cell (written + j) =
      ([1, 0, 1, 5] : List Byte)[j]?.getD (c.mBuffer.cell (written + j)) := by
    intro j hj
    rw [hcell, ← h.written]
    exact cell_fill h.holds readCapacity_lt _ hfits j (by omega)
  have h₀ : rb.cell written = 1 := hfilled 0 (by omega)
  have h₁ : rb.cell (written + 1) = 0 := hfilled 1 (by omega)
  refine ⟨rb, ?_, ?_, by rw [hrb], h₀, h₁, ?_, ?_⟩
  · have hlength : ([1, 0, 1, 5] : List Byte).length = 4 := by simp only [List.length]
    rw [RingBuffer.markWrite, if_pos hroom, RingBuffer.mWritten_fill, h.written, hlength, hadd, hrb]
  · rw [hrb]
    dsimp only
    rw [RingBuffer.mRead_fill, hread]
  · rw [← h₀]
    apply cell_congr
    rw [hcapacity]
    omega
  · rw [← h₁]
    apply cell_congr
    rw [hcapacity]
    omega

/-- INTERNAL: four bytes `01 00 01 05` across the wrap are taken for two packets `0`.
SOURCE: utility/ring_buffer.hh:49-71 -/
theorem complete_across {c : Connection Unit} {written : ℕ} (h : Idle c written)
    (hwrap : written + 2 = sizeModulus) :
    ∃ d, c.complete ignore [1, 0, 1, 5] = .ok (d, none) ∧
      d.dispatched = c.dispatched ++ [(0, [])] ++ [(0, [])] := by
  have hsize := sizeModulus_eq_literal
  obtain ⟨rb, hmark, hread, hwritten, h₀, h₁, h₂, h₃⟩ := markWrite_across h hwrap
  obtain ⟨hreadable, hpop₁, hleft₁, hpop₂, hleft₂, hpop₃, hleft₃, hpop₄, hempty⟩ :=
    popFront_across hwrap hread hwritten
  rw [h₀] at hpop₁
  rw [h₁] at hpop₂
  rw [h₂] at hpop₃
  rw [h₃] at hpop₄
  have hsized : Sized ({ rb with mRead := 2 } : RingBuffer readCapacity) := by
    refine ⟨?_, ?_, ?_⟩
    · show 2 < sizeModulus
      omega
    · show rb.mWritten < sizeModulus
      omega
    · rw [hempty]
      exact Nat.zero_le _
  have hfirst := gotByte_short_frame
    (c := { c with mBuffer := rb, offered := none, mResume := none }) hpop₁ hleft₁ hpop₂
    (Connection.receive ignore (rb.readable + 1))
  have hnext := receive_of_readable
    (c := { c with
      mBuffer := { rb with mRead := 0 }
      offered := none
      mResume := none
      dispatched := c.dispatched ++ [(0, [])] }) hleft₂ rb.readable
  have hsecond := gotByte_short_frame
    (c := { c with
      mBuffer := { rb with mRead := 0 }
      offered := none
      mResume := none
      dispatched := c.dispatched ++ [(0, [])] }) hpop₃ hleft₃ hpop₄
    (Connection.receive ignore rb.readable)
  have hlast := receive_of_empty
    (c := { c with
      mBuffer := { rb with mRead := 2 }
      offered := none
      mResume := none
      dispatched := c.dispatched ++ [(0, [])] ++ [(0, [])] }) hempty hsized rfl 3
  have hfuel : rb.readable = 3 + 1 := hreadable
  rw [← hfuel] at hlast
  have hframe := ((hfirst.trans hnext).trans hsecond).trans hlast
  have hcomplete := complete_of_resume hmark h.resume hframe
  dsimp only at hcomplete
  rw [h.thrown] at hcomplete
  exact ⟨_, hcomplete, rfl⟩

/-! ## The same bytes read in one go -/

/-- INTERNAL: the one-shot parse hands on the first frame, and then parses the rest. -/
theorem oneShot_short_frame {body : Byte} (packetId : BitVec 32)
    (hbody : dispatch ignore () [body] = ⟨[(packetId, [])], (), none⟩) (stream : List Byte) :
    oneShot ignore () (1 :: body :: stream) =
      (oneShot ignore () stream).after [(packetId, [])] := by
  have hfront : frontOf 0 0 (1 :: body :: stream) = .frame [body] stream := by
    have hstep : asyncReadStep (0 : BitVec 32) 0 1 = .done 1 := by decide
    have hlength : ¬(body :: stream).length < 1 := by
      rw [List.length_cons]
      omega
    rw [frontOf, hstep]
    show lengthOf 1 (body :: stream) = _
    rw [lengthOf, if_neg (by decide), if_neg (by decide)]
    show bodyOf 1 (body :: stream) = _
    rw [bodyOf, if_neg hlength]
    rfl
  rw [oneShot_eq_parse, hfront, parse_frame, hbody, oneShot_eq_parse]
  rfl

theorem oneShot_short_frames (j : ℕ) (stream : List Byte) :
    oneShot ignore () ((List.replicate j [1, 0]).flatten ++ stream) =
      (oneShot ignore () stream).after (List.replicate j (0, [])) := by
  induction j with
  | zero => rfl
  | succ j ih =>
    rw [List.replicate_succ, List.flatten_cons, List.append_assoc]
    show oneShot ignore () (1 :: 0 :: ((List.replicate j [1, 0]).flatten ++ stream)) = _
    rw [oneShot_short_frame 0 rfl, ih]
    rfl

end Mccpp.Analysis
