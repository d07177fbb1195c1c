import Mccpp.Analysis.ReaderRules
import Mccpp.Analysis.RingBufferRefinement
import Mccpp.Interface.FrameStream

/-!
# The receive loop never trips an assert of the buffer

One invariant (`Waiting`) carries all of them: while the coroutine waits for a byte the buffer
is empty, and while it waits for a body of `n` bytes there are fewer than `n` of them and `n`
fits the buffer, so there is always room to offer. The counters of the buffer may wrap here,
for only their difference matters (`Sized`).
-/

set_option autoImplicit false

namespace Mccpp.Analysis

open Mccpp.Library Mccpp.Model Mccpp.Interface

variable {σ : Type}

/-! ## The buffer, as far as sizes go -/

/-- Both counters are `size_t` values, and no more is unread than fits. -/
structure Sized {N : ℕ} (rb : RingBuffer N) : Prop where
  read_lt : rb.mRead < sizeModulus
  written_lt : rb.mWritten < sizeModulus
  readable_le : rb.readable ≤ N

section Sizes

variable {N : ℕ} {rb : RingBuffer N}

theorem readable_init (memory : Fin N → Byte) : (RingBuffer.init memory).readable = 0 := by
  have hpos : 0 < sizeModulus := by rw [sizeModulus_eq]; omega
  exact sizeSub_of_le hpos (Nat.le_refl 0)

theorem sized_init (memory : Fin N → Byte) : Sized (RingBuffer.init memory) := by
  have hpos : 0 < sizeModulus := by rw [sizeModulus_eq]; omega
  refine ⟨hpos, hpos, ?_⟩
  rw [readable_init]
  exact Nat.zero_le N

theorem writable_of_sized (h : Sized rb) (hN : N < sizeModulus) :
    rb.writable = N - rb.readable := sizeSub_of_le hN h.readable_le

/-- INTERNAL: the two writable spans offer all that is writable.
SOURCE: utility/ring_buffer.hh:49-61 -/
theorem offered_of_sized (h : Sized rb) (hN : N < sizeModulus) :
    rb.writeFront.count + rb.writeBack.count = N - rb.readable := by
  have hwritable := writable_of_sized h hN
  have hlt : rb.writable < sizeModulus := by omega
  have hclamp := clamp_eq_min rb.writable (sizeSub N (rb.mWritten % N))
  show RingBuffer.clamp rb.writable (sizeSub N (rb.mWritten % N)) +
    sizeSub rb.writable (RingBuffer.clamp rb.writable (sizeSub N (rb.mWritten % N))) = _
  rw [hclamp, sizeSub_of_le hlt (Nat.min_le_left _ _), ← hwritable]
  omega

/-- INTERNAL: a byte comes off a buffer that is not empty, wrapped counters or not.
SOURCE: proto/tcp_client.cc:74-78, utility/ring_buffer.hh:30-33, 68-71 -/
theorem popFront_of_sized [NeZero N] (h : Sized rb) (hread : 1 ≤ rb.readable) :
    ∃ b rb', popFront rb = some (b, rb') ∧ Sized rb' ∧ rb'.readable + 1 = rb.readable := by
  have hone : 1 < sizeModulus := by rw [sizeModulus_eq]; decide
  have hmod : sizeAdd rb.mRead 1 < sizeModulus := Nat.mod_lt _ (by omega)
  have hreadable : sizeSub rb.mWritten (sizeAdd rb.mRead 1) + 1 = rb.readable := by
    unfold RingBuffer.readable at hread ⊢
    have hread_lt := h.read_lt
    have hwritten_lt := h.written_lt
    rcases sizeAdd_cases h.read_lt hone with ⟨_, hadd⟩ | ⟨_, hadd⟩ <;>
    rcases sizeSub_cases h.written_lt h.read_lt with ⟨_, hsub⟩ | ⟨_, hsub⟩ <;>
    rcases sizeSub_cases h.written_lt hmod with ⟨_, hsub'⟩ | ⟨_, hsub'⟩ <;> omega
  refine ⟨rb.cell (rb.mRead % N), { rb with mRead := sizeAdd rb.mRead 1 }, ?_, ?_, hreadable⟩
  · rw [popFront, RingBuffer.front, if_pos hread, RingBuffer.erase, if_pos hread]
    dsimp only [Option.bind_eq_bind, Option.bind_some]
    rfl
  · refine ⟨hmod, h.written_lt, ?_⟩
    have hle := h.readable_le
    show sizeSub rb.mWritten (sizeAdd rb.mRead 1) ≤ N
    omega

/-- INTERNAL: a write that fits makes as many bytes readable.
SOURCE: utility/ring_buffer.hh:63-66 -/
theorem markWrite_of_sized (h : Sized rb) (hN : N < sizeModulus) (data : List Byte)
    (hdata : rb.readable + data.length ≤ N) :
    ∃ rb', (rb.fill data).markWrite data.length = some rb' ∧ Sized rb' ∧
      rb'.readable = rb.readable + data.length := by
  have hlen : data.length < sizeModulus := by omega
  have hmod : sizeAdd rb.mWritten data.length < sizeModulus := Nat.mod_lt _ (by omega)
  have hroom : (rb.fill data).writable = N - rb.readable := by
    have hsame : (rb.fill data).readable = rb.readable := by
      unfold RingBuffer.readable
      rw [RingBuffer.mRead_fill, RingBuffer.mWritten_fill]
    rw [RingBuffer.writable, hsame]
    exact writable_of_sized h hN
  have hreadable : sizeSub (sizeAdd rb.mWritten data.length) rb.mRead =
      rb.readable + data.length := by
    unfold RingBuffer.readable at hdata ⊢
    have hread_lt := h.read_lt
    have hwritten_lt := h.written_lt
    rcases sizeAdd_cases h.written_lt hlen with ⟨_, hadd⟩ | ⟨_, hadd⟩ <;>
    rcases sizeSub_cases h.written_lt h.read_lt with ⟨_, hsub⟩ | ⟨_, hsub⟩ <;>
    rcases sizeSub_cases hmod h.read_lt with ⟨_, hsub'⟩ | ⟨_, hsub'⟩ <;> omega
  refine ⟨{ rb.fill data with mWritten := sizeAdd rb.mWritten data.length }, ?_, ?_, ?_⟩
  · rw [RingBuffer.markWrite, if_pos (by omega), RingBuffer.mWritten_fill]
  · refine ⟨?_, hmod, ?_⟩
    · show (rb.fill data).mRead < sizeModulus
      rw [RingBuffer.mRead_fill]
      exact h.read_lt
    · show sizeSub (sizeAdd rb.mWritten data.length) (rb.fill data).mRead ≤ N
      rw [RingBuffer.mRead_fill, hreadable]
      exact hdata
  · show sizeSub (sizeAdd rb.mWritten data.length) (rb.fill data).mRead = _
    rw [RingBuffer.mRead_fill]
    exact hreadable

/-- INTERNAL: a program with a budget of `n` bytes runs over a buffer that has `n`.
SOURCE: proto/tcp_client.cc:74-78 -/
theorem runWith_popFront [NeZero N] {α : Type} (Q : α → ℕ → Prop) (t : Pull Byte α) (n : ℕ)
    (h : t.Within Q n) (hrb : Sized rb) (hn : n ≤ rb.readable) :
    ∃ a m rb', t.runWith popFront rb = some (a, rb') ∧ Q a m ∧ m ≤ n ∧ Sized rb' ∧
      rb'.readable + (n - m) = rb.readable :=
  Pull.runWith_of_within popFront RingBuffer.readable Sized
    (fun _ hsized hread => popFront_of_sized hsized hread) Q t n rb h hrb hn

end Sizes

/-! ## The invariant -/

theorem readCapacity_lt : readCapacity < sizeModulus := by
  rw [sizeModulus_eq, readCapacity_eq]
  decide

/-- How many bytes are readable while the coroutine waits at a point. -/
def AtPoint : Point → ℕ → Prop
  | .readByte _ _, readable => readable = 0
  | .recvUntil n, readable => readable < n ∧ n ≤ readCapacity

/-- The coroutine runs: nothing waits and no read is under way. -/
structure Running (c : Connection σ) : Prop where
  sized : Sized c.mBuffer
  resume : c.mResume = none
  offered : c.offered = none
  thrown : c.thrown = none

/-- **Between two completions**: either the coroutine waits at a point, with the whole room of
the buffer offered to a read, or it is done and no read is under way. -/
structure Waiting (c : Connection σ) : Prop where
  sized : Sized c.mBuffer
  waits : c.thrown = none → ∃ point, c.mResume = some point ∧
    c.offered = some (readCapacity - c.mBuffer.readable) ∧ AtPoint point c.mBuffer.readable
  done : c.thrown ≠ none → c.mResume = none ∧ c.offered = none

/-- No assert fails, and the connection waits afterwards. -/
def Settles (x : Except Halt (Connection σ)) : Prop := ∃ d, x = .ok d ∧ Waiting d

theorem settles_finish {c : Connection σ} (h : Running c) (e : Failure) :
    Settles (c.finish e) := by
  refine ⟨{ c with thrown := some e }, rfl, h.sized, fun hnone => ?_, fun _ => ?_⟩
  · cases hnone
  · exact ⟨h.resume, h.offered⟩

theorem settles_resumeOnReadable {c : Connection σ} (h : Running c) {point : Point}
    (hpoint : AtPoint point c.mBuffer.readable) : Settles (c.resumeOnReadable point) := by
  have hoffered := offered_of_sized h.sized readCapacity_lt
  unfold Connection.resumeOnReadable
  rw [h.resume, hoffered]
  exact ⟨_, rfl, h.sized, fun _ => ⟨point, rfl, rfl, hpoint⟩, fun hdone => absurd h.thrown hdone⟩

/-! ## One resumption -/

/-- INTERNAL: with a byte at hand, `async_read_impl` takes one step. -/
theorem gotByte_of_pop {handle : BitVec 32 → PacketM σ Unit} {c : Connection σ} {byte : Byte}
    {rb : RingBuffer readCapacity} (hpop : popFront c.mBuffer = some (byte, rb))
    (value : BitVec 32) (position : ℕ)
    (next : Connection σ → BitVec 32 → ℕ → Except Halt (Connection σ)) :
    c.gotByte handle value position next = Connection.gotStep handle { c with mBuffer := rb } next
      (asyncReadStep value position byte) := by
  unfold Connection.gotByte
  rw [hpop]
  rfl

section Handlers

variable {handle : BitVec 32 → PacketM σ Unit} (hhandle : StaysInBody handle)
include hhandle

/-- INTERNAL: what is left of a packet is all that its handler takes from the buffer.
SOURCE: proto/client.cc:83-87 -/
theorem settles_gotPacketId {c : Connection σ} (h : Running c) (packetId : BitVec 32) {n : ℕ}
    (hn : n ≤ c.mBuffer.readable) {next : Connection σ → Except Halt (Connection σ)}
    (hnext : ∀ d, Running d → d.mBuffer.readable + n = c.mBuffer.readable → Settles (next d)) :
    Settles (c.gotPacketId handle packetId n next) := by
  obtain ⟨r, m, rb, hpulls, hcount, hm, hsized, hleft⟩ :=
    runWith_popFront _ _ n (hhandle packetId c.client n) h.sized hn
  have hrun : ∀ (client : σ) dispatched, Running
      { c with mBuffer := rb, client := client, dispatched := dispatched } :=
    fun _ _ => ⟨hsized, h.resume, h.offered, h.thrown⟩
  unfold Connection.gotPacketId
  rw [hpulls]
  obtain ⟨e | u, client, remaining⟩ := r
  · exact settles_finish (hrun client _) e
  · have hm' : remaining = m := hcount u rfl
    show Settles (if remaining ≠ 0 then _ else _)
    split
    · exact settles_finish (hrun client _) _
    · refine hnext _ (hrun client _) ?_
      show rb.readable + n = c.mBuffer.readable
      omega

/-- INTERNAL: **a packet takes its own bytes from the buffer and no others**, so whatever
comes next finds fewer.
SOURCE: proto/client.cc:79-87 -/
theorem settles_receivePacket {c : Connection σ} (h : Running c) {length : ℕ}
    (hpos : 1 ≤ length) (hlength : length ≤ c.mBuffer.readable)
    {next : Connection σ → Except Halt (Connection σ)}
    (hnext : ∀ d, Running d → d.mBuffer.readable < c.mBuffer.readable → Settles (next d)) :
    Settles (c.receivePacket handle length next) := by
  obtain ⟨r, m, rb, hpulls, hacc, hm, hsized, hleft⟩ :=
    runWith_popFront Accounted _ length (metered_readVarint _ c.client length (Nat.lt_succ_self _))
      h.sized hlength
  have hrun : ∀ client : σ, Running { c with mBuffer := rb, client := client } :=
    fun _ => ⟨hsized, h.resume, h.offered, h.thrown⟩
  unfold Connection.receivePacket
  rw [hpulls]
  obtain ⟨e | packetId, client, n⟩ := r
  · exact settles_finish (hrun client) e
  · obtain rfl := accounted_ok.mp hacc
    refine settles_gotPacketId hhandle (hrun client) packetId (by show n ≤ rb.readable; omega) ?_
    intro d hd hless
    have hless' : d.mBuffer.readable + n = rb.readable := hless
    exact hnext d hd (by omega)

theorem settles_recvUntil {c : Connection σ} (h : Running c) {n : ℕ} (hpos : 1 ≤ n)
    (hn : n ≤ readCapacity) {next : Connection σ → Except Halt (Connection σ)}
    (hnext : ∀ d, Running d → d.mBuffer.readable < c.mBuffer.readable → Settles (next d)) :
    Settles (c.recvUntil handle n next) := by
  unfold Connection.recvUntil
  split
  · rename_i hlt
    exact settles_resumeOnReadable h ⟨hlt, hn⟩
  · rename_i hge
    exact settles_receivePacket hhandle h hpos (by omega) hnext

/-- INTERNAL: a length that passes both checks fits the buffer: the two constants agree.
SOURCE: proto/client.cc:69-77 -/
theorem settles_gotLength {c : Connection σ} (h : Running c) (length : BitVec 32)
    {next : Connection σ → Except Halt (Connection σ)}
    (hnext : ∀ d, Running d → d.mBuffer.readable < c.mBuffer.readable → Settles (next d)) :
    Settles (c.gotLength handle length next) := by
  unfold Connection.gotLength
  split
  · exact settles_finish h _
  · rename_i hlow
    split
    · exact settles_finish h _
    · rename_i hhigh
      have hnat := toNat_of_toInt_pos (by omega : 0 < length.toInt)
      have hfits : length.toNat ≤ readCapacity := by
        rw [readCapacity_eq]
        omega
      rw [if_neg (by omega)]
      exact settles_recvUntil hhandle h (by omega) hfits hnext

/-- INTERNAL: a byte of a length settles: it is an error, or one more byte is read, or the
length is complete.
SOURCE: proto/varint.hh:37-61 -/
theorem settles_gotByte {c : Connection σ} (h : Running c) (hread : 1 ≤ c.mBuffer.readable)
    (value : BitVec 32) (position : ℕ)
    {next : Connection σ → BitVec 32 → ℕ → Except Halt (Connection σ)}
    (hnext : ∀ d value position, Running d → d.mBuffer.readable < c.mBuffer.readable →
      Settles (next d value position)) :
    Settles (c.gotByte handle value position next) := by
  obtain ⟨b, rb, hpop, hsized, hless⟩ := popFront_of_sized h.sized hread
  have hrun : Running { c with mBuffer := rb } := ⟨hsized, h.resume, h.offered, h.thrown⟩
  rw [gotByte_of_pop hpop]
  cases asyncReadStep value position b with
  | invalid => exact settles_finish hrun _
  | more value position => exact hnext _ _ _ hrun (by show rb.readable < _; omega)
  | done length =>
    refine settles_gotLength hhandle hrun length fun d hd hless' => hnext d 0 0 hd ?_
    have hless'' : d.mBuffer.readable < rb.readable := hless'
    omega

/-- INTERNAL: **the loop settles**: each round takes a byte at least.
SOURCE: proto/client.cc:67-89 -/
theorem settles_receive (fuel : ℕ) {c : Connection σ} (h : Running c)
    (hfuel : c.mBuffer.readable < fuel) (value : BitVec 32) (position : ℕ) :
    Settles (Connection.receive handle fuel c value position) := by
  induction fuel generalizing c value position with
  | zero => omega
  | succ fuel ih =>
    unfold Connection.receive
    split
    · rename_i hread
      exact settles_gotByte hhandle h hread value position fun d value position hd hless =>
        ih hd (by omega) value position
    · rename_i hempty
      exact settles_resumeOnReadable h (show c.mBuffer.readable = 0 by omega)

/-! ## Runs -/

omit hhandle in
/-- INTERNAL: a completion marks the bytes as written and resumes the coroutine.
SOURCE: proto/tcp_client.cc:62-70 -/
theorem complete_of_resume {c d : Connection σ} {data : List Byte} {point : Point}
    {rb : RingBuffer readCapacity} (hmark : (c.mBuffer.fill data).markWrite data.length = some rb)
    (hresume : c.mResume = some point) (hd : Connection.resume handle
      { c with mBuffer := rb, offered := none, mResume := none } point = .ok d) :
    c.complete handle data = .ok (d, d.thrown) := by
  have hwoken : Connection.resumeWaiting handle { c with mBuffer := rb, offered := none } =
      Connection.resume handle { c with mBuffer := rb, offered := none, mResume := none } point := by
    unfold Connection.resumeWaiting
    rw [hresume]
  unfold Connection.complete
  rw [hmark]
  show (Connection.resumeWaiting handle { c with mBuffer := rb, offered := none } >>= fun d =>
    .ok (d, d.thrown)) = _
  rw [hwoken, hd]
  rfl

theorem settles_start (memory : Fin readCapacity → Byte) (client : σ) :
    Settles (Connection.start handle memory client) := by
  have hzero : (Connection.init memory client).mBuffer.readable = 0 := readable_init memory
  exact settles_receive hhandle 1 ⟨sized_init memory, rfl, rfl, rfl⟩ (by omega) 0 0

/-- INTERNAL: **one completion**: none of the asserts fails, and the connection waits again.
SOURCE: proto/tcp_client.cc:48-72 -/
theorem complete_of_waiting {c : Connection σ} (h : Waiting c) {data : List Byte}
    (hdata : c.Deliverable data) :
    ∃ d, c.complete handle data = .ok (d, d.thrown) ∧ Waiting d := by
  obtain ⟨hne, n, hoffered, hlen⟩ := hdata
  have hthrown : c.thrown = none := by
    by_contra hdone
    rw [(h.done hdone).2] at hoffered
    cases hoffered
  obtain ⟨point, hresume, hoffered', hpoint⟩ := h.waits hthrown
  rw [hoffered'] at hoffered
  cases hoffered
  have hdata := List.length_pos_iff.mpr hne
  have hle := h.sized.readable_le
  obtain ⟨rb, hmark, hsized, hreadable⟩ :=
    markWrite_of_sized h.sized readCapacity_lt data (by omega)
  have hrun : Running { c with mBuffer := rb, offered := none, mResume := none } :=
    ⟨hsized, rfl, rfl, hthrown⟩
  have hresumed : Settles (Connection.resume handle
      { c with mBuffer := rb, offered := none, mResume := none } point) := by
    cases point with
    | readByte value position =>
      refine settles_gotByte hhandle hrun (by show 1 ≤ rb.readable; omega) value position ?_
      intro d value position hd hless
      exact settles_receive hhandle _ hd (Nat.lt_succ_of_lt hless) value position
    | recvUntil n =>
      obtain ⟨hlt, hn⟩ := hpoint
      refine settles_recvUntil hhandle hrun (by omega) hn fun d hd hless => ?_
      exact settles_receive hhandle _ hd (Nat.lt_succ_of_lt hless) 0 0
  obtain ⟨d, hd, hwaiting⟩ := hresumed
  exact ⟨d, complete_of_resume hmark hresume hd, hwaiting⟩

/-- INTERNAL: **every state between two completions**, over any run.
SOURCE: proto/tcp_client.cc:48-72, proto/client.cc:67-89 -/
theorem waiting_of_run {memory : Fin readCapacity → Byte} {client : σ}
    {pieces : List (List Byte)} {c : Connection σ} {e : Option Failure}
    (run : Connection.Run handle memory client pieces c e) : Waiting c := by
  induction run with
  | start c h =>
    obtain ⟨d, hd, hwaiting⟩ := settles_start hhandle memory client
    rw [h] at hd
    cases hd
    exact hwaiting
  | complete pieces data c d r e run hdata h ih =>
    obtain ⟨d', hd, hwaiting⟩ := complete_of_waiting hhandle ih hdata
    rw [h] at hd
    cases hd
    exact hwaiting

end Handlers

/-- What the receive loop owes between two completions: a coroutine waits exactly when a read
is under way, the read was offered all that is writable and at least a byte, and a packet that
is waited for fits the buffer. -/
structure ReadsSafely (c : Connection σ) : Prop where
  one_waiter : c.offered.isSome = c.mResume.isSome
  offered_pos : ∀ n, c.offered = some n → 1 ≤ n ∧ n = c.mBuffer.writable
  packet_fits : ∀ n, c.mResume = some (.recvUntil n) → n ≤ c.mBuffer.capacity
  goes_on : c.offered.isSome = c.thrown.isNone

theorem readsSafely_of_waiting {c : Connection σ} (h : Waiting c) : ReadsSafely c := by
  have hle := h.sized.readable_le
  have hcapacity : 1 ≤ readCapacity := Nat.pos_of_neZero readCapacity
  cases hthrown : c.thrown with
  | some e =>
    obtain ⟨hresume, hoffered⟩ := h.done (by rw [hthrown]; exact Option.some_ne_none e)
    refine ⟨by rw [hresume, hoffered]; rfl, fun n hn => ?_, fun n hn => ?_,
      by rw [hoffered, hthrown]; rfl⟩
    · rw [hoffered] at hn
      cases hn
    · rw [hresume] at hn
      cases hn
  | none =>
    obtain ⟨point, hresume, hoffered, hpoint⟩ := h.waits hthrown
    refine ⟨by rw [hresume, hoffered]; rfl, fun n hn => ?_, fun n hn => ?_,
      by rw [hoffered, hthrown]; rfl⟩
    · rw [hoffered] at hn
      cases hn
      refine ⟨?_, (writable_of_sized h.sized readCapacity_lt).symm⟩
      cases point with
      | readByte value position =>
        have hempty : c.mBuffer.readable = 0 := hpoint
        omega
      | recvUntil n =>
        obtain ⟨hlt, hn⟩ := hpoint
        omega
    · rw [hresume] at hn
      cases hn
      exact hpoint.2

/-- INTERNAL: code that goes through the packet reader stays inside the body. -/
theorem staysInBody_of_metered {handle : BitVec 32 → PacketM σ Unit}
    (h : ∀ packetId, Metered (handle packetId)) : StaysInBody handle := by
  intro packetId s n
  refine (h packetId (n + 1) s n (Nat.lt_succ_self n)).mono ?_
  rintro ⟨r, s', n'⟩ m _ hacc a ha
  cases ha
  exact accounted_ok.mp hacc

/-- SOURCE: proto/tcp_client.cc:14-78, proto/client.cc:67-89 — **the receive loop is safe in
every reachable state**. Whatever the server sends and however it is cut, for handlers that
stay inside their packet: neither the start nor any completion fails an assert of the buffer,
nothing else ever waits when a read is issued, no read is offered less than a byte, and no
packet is waited for that does not fit. -/
theorem receive_loop_safe (handle : BitVec 32 → PacketM σ Unit) (hhandle : StaysInBody handle)
    (memory : Fin readCapacity → Byte) (client : σ) :
    (∃ c, Connection.start handle memory client = .ok c) ∧
      ∀ pieces c e, Connection.Run handle memory client pieces c e →
        ReadsSafely c ∧
          ∀ data, c.Deliverable data → ∃ d e', c.complete handle data = .ok (d, e') := by
  constructor
  · obtain ⟨c, hc, _⟩ := settles_start hhandle memory client
    exact ⟨c, hc⟩
  · intro pieces c e run
    have hwaiting := waiting_of_run hhandle run
    refine ⟨readsSafely_of_waiting hwaiting, fun data hdata => ?_⟩
    obtain ⟨d, hd, _⟩ := complete_of_waiting hhandle hwaiting hdata
    exact ⟨d, _, hd⟩

/-- INTERNAL: a client that discards every packet. -/
theorem receive_loop_safe_discarding :
    ∃ c, Connection.start (fun _ => do PacketM.discard (← PacketM.remaining))
      (fun _ => 0#8) () = .ok c := by
  refine (receive_loop_safe _ (staysInBody_of_metered fun _ => ?_) _ ()).1
  exact metered_remaining_bind fun n => metered_discard n _

end Mccpp.Analysis
