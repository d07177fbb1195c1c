import Mccpp.Analysis.ConnectionFragmentation
import Mccpp.Analysis.Coroutines
import Mccpp.Analysis.LayoutRules
import Mccpp.Interface.ReceiverRun

/-!
# The receive tasks are the connection

Turn by turn the coroutines of a connection do what the one loop of `Mccpp.Model.Connection` does
(`reaches_receive`, by induction on the bytes of lengths), and since their frames are calls
(`implements_step`), every run of the tasks is a run of the connection and the other way round
(`receive_tasks_refine`). `varint::read` is the same coroutine, run to its end at once
(`read_impl_runs_to_end`).
-/

set_option autoImplicit false

namespace Mccpp.Analysis

open Mccpp.Library Mccpp.Model Mccpp.Interface

variable {σ : Type} {handle : BitVec 32 → PacketM σ Unit}

/-! ## Turns of the calls -/

/-- Where the connection comes to, the calls come to in some turns. -/
def Reaches (handle : BitVec 32 → PacketM σ Unit) (x : Except Halt (Connection σ))
    (calls : Calls (Receiver σ) ReceiverPoint (BitVec 32) Failure) : Prop :=
  ∀ c, x = .ok c → ∃ n calls', calls.turns (Receiver.code handle) n = .ok calls' ∧ CallsOf c calls'

/-- INTERNAL: one turn before. -/
theorem reaches_of_step {x : Except Halt (Connection σ)}
    {calls calls' : Calls (Receiver σ) ReceiverPoint (BitVec 32) Failure}
    (hstep : calls.step (Receiver.code handle) = .ok calls') (h : Reaches handle x calls') :
    Reaches handle x calls := by
  intro c hc
  obtain ⟨n, final, hturns, hof⟩ := h c hc
  refine ⟨n + 1, final, ?_, hof⟩
  rw [Calls.turns, hstep]
  exact hturns

/-- INTERNAL: an exception in a coroutine that nobody has called ends the task. -/
theorem reaches_throw {c : Connection σ} (hresume : c.mResume = none) {e : Failure} {isVoid : Bool}
    {point : ReceiverPoint} {d : Receiver σ}
    (hturn : Receiver.turn handle point d = .ok (.throws e, dataOf c)) :
    Reaches handle (c.finish e) ⟨.running isVoid point [], d⟩ := by
  intro c' hc'
  cases hc'
  refine ⟨1, _, ?_, .ended e hresume rfl⟩
  rw [Calls.turns, Calls.step_throws (Receiver.code handle) hturn]
  rfl

/-- INTERNAL: an exception in a coroutine that `receiver_task` awaits goes through it.
SOURCE: utility/coro.hh:94-101 -/
theorem reaches_throw_through {c : Connection σ} (hresume : c.mResume = none) {e : Failure}
    {isVoid : Bool} {point : ReceiverPoint} {d : Receiver σ}
    {next : Except Failure (BitVec 32) → ReceiverPoint}
    (hnext : ∀ d : Receiver σ, Receiver.turn handle (next (.error e)) d = .ok (.throws e, d))
    (hturn : Receiver.turn handle point d = .ok (.throws e, dataOf c)) :
    Reaches handle (c.finish e) ⟨.running isVoid point [⟨true, next⟩], d⟩ := by
  exact reaches_of_step (Calls.step_throws (Receiver.code handle) hturn)
    (reaches_throw hresume (hnext _))

/-- INTERNAL: calls that do the same in their next turn. -/
theorem reaches_of_same_step {x : Except Halt (Connection σ)} {d d' : Receiver σ} {isVoid isVoid' : Bool}
    {point point' : ReceiverPoint} {callers callers' : List (Caller ReceiverPoint (BitVec 32) Failure)}
    (hstep : Calls.step (Receiver.code handle) ⟨.running isVoid point callers, d⟩ =
      Calls.step (Receiver.code handle) ⟨.running isVoid' point' callers', d'⟩)
    (h : Reaches handle x ⟨.running isVoid' point' callers', d'⟩) :
    Reaches handle x ⟨.running isVoid point callers, d⟩ := by
  intro c hc
  obtain ⟨n, final, hturns, hof⟩ := h c hc
  cases n with
  | zero =>
    -- nothing runs where the connection waits
    cases hturns
    generalize hcalls : (⟨.running isVoid' point' callers', d'⟩ :
      Calls (Receiver σ) ReceiverPoint (BitVec 32) Failure) = calls at hof
    cases hof with
    | waits point => cases point <;> cases hcalls
    | ended => cases hcalls
  | succ n =>
    refine ⟨n + 1, final, ?_, hof⟩
    rw [Calls.turns] at hturns ⊢
    rw [hstep]
    exact hturns

/-- INTERNAL: turns that are the same make the same step. -/
theorem step_same_turn {d d' : Receiver σ} {isVoid : Bool} {point point' : ReceiverPoint}
    {callers : List (Caller ReceiverPoint (BitVec 32) Failure)}
    (h : Receiver.turn handle point d = Receiver.turn handle point' d') :
    Calls.step (Receiver.code handle) ⟨.running isVoid point callers, d⟩ =
      Calls.step (Receiver.code handle) ⟨.running isVoid point' callers, d'⟩ := by
  have hcode : (Receiver.code handle).turn point d = (Receiver.code handle).turn point' d' := h
  unfold Calls.step
  dsimp only
  rw [hcode]

/-- INTERNAL: **the coroutine waits** where the connection does.
SOURCE: proto/tcp_client.cc:52-55 -/
theorem reaches_resumeOnReadable {c : Connection σ} (hthrown : c.thrown = none) (point : Point)
    {calls : Calls (Receiver σ) ReceiverPoint (BitVec 32) Failure}
    (hstep : calls.step (Receiver.code handle) = .ok (waitingAt point { dataOf c with
      offered := some (c.mBuffer.writeFront.count + c.mBuffer.writeBack.count) })) :
    Reaches handle (c.resumeOnReadable point) calls := by
  intro c' hc'
  unfold Connection.resumeOnReadable at hc'
  split at hc'
  · cases hc'
  · cases hc'
    refine ⟨1, _, ?_, .waits point rfl hthrown⟩
    rw [Calls.turns, hstep]
    rfl

/-! ## The turns of the coroutines -/

theorem turn_gotLength (handle : BitVec 32 → PacketM σ Unit) (packetLength : BitVec 32) (d : Receiver σ) :
    Receiver.turn handle (.gotLength (.ok packetLength)) d =
      if packetLength.toInt ≤ 0 then
        .ok (.throws (.decodeError "invalid packet length (too low)"), d)
      else if packetLength.toInt > 2097151 then
        .ok (.throws (.decodeError "invalid packet length (too high)"), d)
      else .ok (.calls (.asyncRecvUntil packetLength.toNat) (.gotPacket packetLength.toNat), d) := by
  rw [Receiver.turn]

theorem turn_recvLoop (handle : BitVec 32 → PacketM σ Unit) (n : ℕ) (d : Receiver σ) : Receiver.turn handle (.recvLoop n) d =
    if d.mBuffer.readable < n then .ok (.waits .bytes (.recvLoop n), d) else .ok (.returns 0, d) := by
  rw [Receiver.turn]

/-- INTERNAL: behind its assertion `async_recv_until` is at its loop. -/
theorem turn_asyncRecvUntil {n : ℕ} (hcapacity : ¬n > readCapacity) (d : Receiver σ) :
    Receiver.turn handle (.asyncRecvUntil n) d = Receiver.turn handle (.recvLoop n) d := by
  rw [Receiver.turn, if_neg hcapacity, turn_recvLoop]

theorem turn_asyncReadImpl (handle : BitVec 32 → PacketM σ Unit) (point : ReadPoint 32) (d : Receiver σ) :
    Receiver.turn handle (.asyncReadImpl point) d =
      (asyncReadImpl ReceiverWait.byte Receiver.awaitResume point d).map fun r =>
        (r.1.map .asyncReadImpl, r.2) := by
  rw [Receiver.turn]

/-- INTERNAL: a packet that has been received. -/
theorem turn_gotPacket {length : ℕ} (result : BitVec 32) {d d' : Receiver σ}
    {ended : Except Failure Unit} (h : d.receivePacket handle length = .ok (ended, d')) :
    Receiver.turn handle (.gotPacket length (.ok result)) d =
      .ok (ended.casesOn .throws fun _ => .calls .asyncReadImpl .gotLength, d') := by
  rw [Receiver.turn, h]
  cases ended <;> rfl

/-! ## The parts of the loop -/

/-- The calls at the top of the loop of `async_read_impl`. -/
def lengthCalls (value : BitVec 32) (position : ℕ) (d : Receiver σ) :
    Calls (Receiver σ) ReceiverPoint (BitVec 32) Failure :=
  ⟨.running false (.asyncReadImpl (.loop value position)) [⟨true, .gotLength⟩], d⟩

/-- INTERNAL: a packet, from the `packet_reader` on.
SOURCE: proto/client.cc:76-87 -/
theorem reaches_receivePacket {c : Connection σ} (hresume : c.mResume = none)
    (hthrown : c.thrown = none) (length : ℕ) (result : BitVec 32)
    {next : Connection σ → Except Halt (Connection σ)}
    (hnext : ∀ d : Connection σ, d.mResume = none → d.thrown = none →
      Reaches handle (next d) (lengthCalls 0 0 (dataOf d))) :
    Reaches handle (c.receivePacket handle length next)
      ⟨.running true (.gotPacket length (.ok result)) [], dataOf c⟩ := by
  have hthrows : ∀ {d : Connection σ} {e : Failure}, d.mResume = none →
      (dataOf c).receivePacket handle length = .ok (.error e, dataOf d) →
      Reaches handle (d.finish e) ⟨.running true (.gotPacket length (.ok result)) [], dataOf c⟩ := by
    intro d e hd hpacket
    exact reaches_throw hd (turn_gotPacket result hpacket)
  have hgoes : ∀ {d : Connection σ}, d.mResume = none → d.thrown = none →
      (dataOf c).receivePacket handle length = .ok (.ok (), dataOf d) →
      Reaches handle (next d) ⟨.running true (.gotPacket length (.ok result)) [], dataOf c⟩ := by
    intro d hd hd' hpacket
    exact reaches_of_step (Calls.step_calls (Receiver.code handle)
      (turn_gotPacket result hpacket)) (hnext d hd hd')
  unfold Connection.receivePacket
  unfold Receiver.receivePacket at hthrows hgoes
  have hsame : (PacketM.readVarint (dataOf c).client length).runWith popFront (dataOf c).mBuffer =
      (PacketM.readVarint c.client length).runWith popFront c.mBuffer := rfl
  rw [hsame] at hthrows hgoes
  cases hid : (PacketM.readVarint c.client length).runWith popFront c.mBuffer with
  | none =>
    intro c' hc'
    cases hc'
  | some read =>
    obtain ⟨⟨packetId, client, n⟩, rb⟩ := read
    rw [hid] at hthrows hgoes
    cases packetId with
    | error e => exact hthrows (d := { c with mBuffer := rb, client := client }) hresume rfl
    | ok packetId =>
      show Reaches handle (Connection.gotPacketId handle { c with mBuffer := rb, client := client }
        packetId n next) _
      unfold Connection.gotPacketId
      dsimp only [orHalt, bind, Except.bind] at hthrows hgoes ⊢
      cases hrun : (handle packetId client n).runWith popFront rb with
      | none =>
        intro c' hc'
        cases hc'
      | some handled =>
        obtain ⟨⟨ended, client', remaining⟩, rb'⟩ := handled
        rw [hrun] at hthrows hgoes
        cases ended with
        | error e =>
          exact hthrows (d := { c with mBuffer := rb', client := client', dispatched := _ }) hresume rfl
        | ok u =>
          dsimp only at hthrows hgoes ⊢
          by_cases hleft : remaining ≠ 0
          · rw [if_pos hleft] at hthrows ⊢
            exact hthrows (d := { c with mBuffer := rb', client := client', dispatched := _ }) hresume rfl
          · rw [if_neg hleft] at hgoes ⊢
            exact hgoes (d := { c with mBuffer := rb', client := client', dispatched := _ }) hresume
              hthrown rfl

/-- INTERNAL: the loop of `async_recv_until`, and the packet behind it.
SOURCE: proto/tcp_client.cc:31-33 -/
theorem reaches_recvUntil {c : Connection σ} (hresume : c.mResume = none) (hthrown : c.thrown = none)
    (n : ℕ) {next : Connection σ → Except Halt (Connection σ)}
    (hnext : ∀ d : Connection σ, d.mResume = none → d.thrown = none →
      Reaches handle (next d) (lengthCalls 0 0 (dataOf d))) :
    Reaches handle (c.recvUntil handle n next)
      ⟨.running true (.recvLoop n) [⟨true, .gotPacket n⟩], dataOf c⟩ := by
  unfold Connection.recvUntil
  have hturn := turn_recvLoop handle n (dataOf c)
  have hreadable : (dataOf c).mBuffer.readable = c.mBuffer.readable := rfl
  rw [hreadable] at hturn
  split
  · rename_i hlt
    rw [if_pos hlt] at hturn
    have hcode : (Receiver.code handle).turn (.recvLoop n) (dataOf c) =
        .ok (.waits .bytes (.recvLoop n), dataOf c) := hturn
    exact reaches_resumeOnReadable hthrown (.recvUntil n) (Calls.step_waits _ hcode)
  · rename_i hge
    rw [if_neg hge] at hturn
    exact reaches_of_step (Calls.step_returns (Receiver.code handle) hturn)
      (reaches_receivePacket hresume hthrown n 0 hnext)

/-- INTERNAL: a length, behind `async_read_varint()`.
SOURCE: proto/client.cc:63-71, proto/tcp_client.cc:15-16 -/
theorem reaches_gotLength {c : Connection σ} (hresume : c.mResume = none) (hthrown : c.thrown = none)
    (packetLength : BitVec 32) {next : Connection σ → Except Halt (Connection σ)}
    (hnext : ∀ d : Connection σ, d.mResume = none → d.thrown = none →
      Reaches handle (next d) (lengthCalls 0 0 (dataOf d))) :
    Reaches handle (c.gotLength handle packetLength next)
      ⟨.running true (.gotLength (.ok packetLength)) [], dataOf c⟩ := by
  unfold Connection.gotLength
  have hturn := turn_gotLength handle packetLength (dataOf c)
  split
  · rename_i hlow
    rw [if_pos hlow] at hturn
    exact reaches_throw hresume hturn
  · rename_i hlow
    rw [if_neg hlow] at hturn
    split
    · rename_i hhigh
      rw [if_pos hhigh] at hturn
      exact reaches_throw hresume hturn
    · rename_i hhigh
      rw [if_neg hhigh] at hturn
      split
      · intro c' hc'
        cases hc'
      · rename_i hcapacity
        refine reaches_of_step (Calls.step_calls (Receiver.code handle) hturn) ?_
        -- behind its assertion `async_recv_until` is at its loop
        refine reaches_of_same_step ?_ (reaches_recvUntil hresume hthrown packetLength.toNat hnext)
        exact step_same_turn (turn_asyncRecvUntil hcapacity (dataOf c))

/-- INTERNAL: a byte of a length.
SOURCE: proto/varint.hh:40-61 -/
theorem reaches_gotByte {c : Connection σ} (hresume : c.mResume = none) (hthrown : c.thrown = none)
    (value : BitVec 32) (position : ℕ)
    {next : Connection σ → BitVec 32 → ℕ → Except Halt (Connection σ)}
    (hnext : ∀ (d : Connection σ) value position, d.mResume = none → d.thrown = none →
      Reaches handle (next d value position) (lengthCalls value position (dataOf d))) :
    Reaches handle (c.gotByte handle value position next)
      ⟨.running false (.asyncReadImpl (.gotByte value position)) [⟨true, .gotLength⟩], dataOf c⟩ := by
  unfold Connection.gotByte
  cases hpop : popFront c.mBuffer with
  | none =>
    intro c' hc'
    cases hc'
  | some popped =>
    obtain ⟨byte, rb⟩ := popped
    show Reaches handle (Connection.gotStep handle { c with mBuffer := rb } next
      (asyncReadStep value position byte)) _
    have hawait : Receiver.awaitResume (dataOf c) = .ok (.ok byte, dataOf { c with mBuffer := rb }) := by
      unfold Receiver.awaitResume
      have hsame : popFront (dataOf c).mBuffer = some (byte, rb) := hpop
      rw [hsame]
      rfl
    have hturn := turn_asyncReadImpl handle (.gotByte value position) (dataOf c)
    rw [asyncReadImpl, hawait] at hturn
    dsimp only at hturn
    unfold Connection.gotStep
    cases hbyte : asyncReadStep value position byte with
    | invalid =>
      rw [hbyte] at hturn
      exact reaches_throw_through (c := { c with mBuffer := rb }) hresume (fun _ => rfl) hturn
    | more value position =>
      rw [hbyte] at hturn
      refine reaches_of_same_step ?_ (hnext { c with mBuffer := rb } value position hresume hthrown)
      have hloop := turn_asyncReadImpl handle (.loop value position)
        (dataOf { c with mBuffer := rb })
      exact step_same_turn (hturn.trans hloop.symm)
    | done packetLength =>
      rw [hbyte] at hturn
      exact reaches_of_step (Calls.step_returns (Receiver.code handle) hturn)
        (reaches_gotLength (c := { c with mBuffer := rb }) hresume hthrown packetLength fun d hd hd' => hnext d 0 0 hd hd')

/-- INTERNAL: **the loop**, by induction on the bytes of lengths.
SOURCE: proto/client.cc:61-89, proto/varint.hh:40-61 -/
theorem reaches_receive (fuel : ℕ) {c : Connection σ} (hresume : c.mResume = none)
    (hthrown : c.thrown = none) (value : BitVec 32) (position : ℕ) :
    Reaches handle (Connection.receive handle fuel c value position)
      (lengthCalls value position (dataOf c)) := by
  induction fuel generalizing c value position with
  | zero =>
    intro c' hc'
    cases hc'
  | succ fuel ih =>
    unfold Connection.receive lengthCalls
    have hturn : (Receiver.code handle).turn (.asyncReadImpl (.loop value position)) (dataOf c) =
        .ok (.waits .byte (.asyncReadImpl (.gotByte value position)), dataOf c) :=
      turn_asyncReadImpl handle (.loop value position) (dataOf c)
    split
    · rename_i hreadable
      have hready : (Receiver.code handle).ready .byte (dataOf c) = true := decide_eq_true hreadable
      have hstep : Calls.step (Receiver.code handle) (lengthCalls value position (dataOf c)) = .ok
          ⟨.running false (.asyncReadImpl (.gotByte value position)) [⟨true, .gotLength⟩], dataOf c⟩ :=
        (Calls.step_waits _ hturn).trans (if_pos hready)
      exact reaches_of_step hstep (reaches_gotByte hresume hthrown value position
        fun d value position hd hd' => ih hd hd' value position)
    · rename_i hreadable
      have hready : ¬(Receiver.code handle).ready .byte (dataOf c) = true := fun h =>
        hreadable (of_decide_eq_true h)
      exact reaches_resumeOnReadable hthrown (.readByte value position)
        ((Calls.step_waits _ hturn).trans (if_neg hready))

/-! ## Turns of the tasks -/

/-- INTERNAL: there is one state in which the coroutines come to wait. -/
theorem settles_unique {m m₁ m₂ : ReceiverTasks σ} (h₁ : ReceiverTasks.Settles handle m m₁)
    (h₂ : ReceiverTasks.Settles handle m m₂) : m₁ = m₂ := by
  obtain ⟨n₁, hturns₁, hidle₁⟩ := h₁
  obtain ⟨n₂, hturns₂, hidle₂⟩ := h₂
  have hsum₁ := turns_add n₁ n₂ hturns₁
  have hsum₂ := turns_add n₂ n₁ hturns₂
  rw [turns_idle hidle₁] at hsum₁
  rw [turns_idle hidle₂, Nat.add_comm, hsum₁, Except.ok.injEq] at hsum₂
  exact hsum₂

/-! ## Runs -/

/-- The tasks are calls that are those of the connection. -/
def Related (handle : BitVec 32 → PacketM σ Unit) (m : ReceiverTasks σ) (c : Connection σ) : Prop :=
  ∃ calls, Implements (Receiver.code handle) m calls ∧ CallsOf c calls

/-- INTERNAL: what related tasks show.
SOURCE: proto/client.cc:55-59 -/
theorem shows_of_related {m : ReceiverTasks σ} {c : Connection σ} (h : Related handle m c) :
    Shows handle m c := by
  obtain ⟨calls, ⟨hdata, himplements⟩, hof⟩ := h
  cases hof with
  | ended e hresume hthrown =>
    have hm : m.data = dataOf c := hdata
    obtain ⟨hidle, hslot, _, hresult, _⟩ := himplements
    refine ⟨by rw [hm]; rfl, by rw [hm]; rfl, by rw [hm]; rfl, by rw [hm]; rfl,
      by rw [hslot, hresume]; rfl, hidle, ?_⟩
    rw [hthrown]
    unfold ReceiverTasks.onReadable
    cases hframe : m.frames 0 with
    | none =>
      unfold Tasks.awaitResume at hresult
      rw [hframe] at hresult
      cases hresult
    | some f =>
      dsimp only
      cases hplace : f.place with
      | done =>
        dsimp only
        rw [hresult]
        rfl
      | suspended | awaiting | running =>
        unfold Tasks.awaitResume at hresult
        rw [hframe] at hresult
        dsimp only at hresult
        rw [hplace] at hresult
        cases hresult
  | waits point hresume hthrown =>
    obtain ⟨isVoid, s, isVoid', next, hcontrol⟩ : ∃ isVoid s isVoid' next,
        waitingAt point (dataOf c) = ⟨.waiting isVoid s [⟨isVoid', next⟩], dataOf c⟩ := by
      cases point with
      | readByte value position => exact ⟨_, _, _, _, rfl⟩
      | recvUntil n => exact ⟨_, _, _, _, rfl⟩
    rw [hcontrol] at hdata himplements
    have hm : m.data = dataOf c := hdata
    obtain ⟨hidle, h, hslot, link, handles, _, hchain, _⟩ := himplements
    refine ⟨by rw [hm]; rfl, by rw [hm]; rfl, by rw [hm]; rfl, by rw [hm]; rfl, by rw [hslot, hresume]; rfl,
      hidle, ?_⟩
    rw [hthrown]
    cases hchain with
    | caller _ parent _ link callers handles _ hframe hroot =>
      cases hroot
      unfold ReceiverTasks.onReadable
      rw [hframe]

/-- INTERNAL: the tasks before the first byte.
SOURCE: proto/client.cc:17-21 -/
theorem related_start {memory : Fin readCapacity → Byte} {client : σ} {c : Connection σ}
    (h : Connection.start handle memory client = .ok c) :
    ∃ m m', Tasks.launch (Receiver.code handle) .receiverTask ⟨.init memory, none, client, []⟩ = .ok m ∧
      ReceiverTasks.Settles handle m m' ∧ Related handle m' c := by
  obtain ⟨m, hlaunch, himplements⟩ := implements_launch (Receiver.code handle) .receiverTask
    ⟨.init memory, none, client, []⟩
  have hturn : (Receiver.code handle).turn .receiverTask ⟨.init memory, none, client, []⟩ =
      .ok (.calls .asyncReadImpl .gotLength, dataOf (Connection.init memory client)) := by
    show Receiver.turn handle .receiverTask _ = _
    rw [Receiver.turn]
    rfl
  have hfirst : Calls.step (Receiver.code handle) (Calls.launch (Receiver.code handle) .receiverTask
      ⟨.init memory, none, client, []⟩) = .ok (lengthCalls 0 0 (dataOf (Connection.init memory client))) :=
    Calls.step_calls _ hturn
  obtain ⟨n, calls, hturns, hof⟩ := reaches_of_step hfirst
    (reaches_receive 1 (c := Connection.init memory client) rfl rfl 0 0) c h
  obtain ⟨m', hturns', himplements'⟩ := implements_turns_ok himplements hturns
  have hrelated : Related handle m' c := ⟨calls, himplements', hof⟩
  exact ⟨m, m', hlaunch, ⟨n, hturns', (shows_of_related hrelated).idle⟩, hrelated⟩

/-- INTERNAL: **one completion**.
SOURCE: proto/tcp_client.cc:56-72, proto/client.cc:55-59 -/
theorem related_complete {m : ReceiverTasks σ} {c d : Connection σ} {data : List Byte}
    {e : Option Failure} (hrelated : Related handle m c) (hthrown : c.thrown = none)
    (h : c.complete handle data = .ok (d, e)) :
    ∃ rb m₁ m', (m.data.mBuffer.fill data).markWrite data.length = some rb ∧
      m.deliver (Receiver.code handle) (fun d => { d with mBuffer := rb, offered := none }) =
        some (.ok m₁) ∧
      ReceiverTasks.Settles handle m₁ m' ∧ Related handle m' d ∧ m'.onReadable handle = .ok e := by
  obtain ⟨calls, himplements, hof⟩ := hrelated
  cases hof with
  | ended e hresume hended =>
    rw [hthrown] at hended
    cases hended
  | waits point hresume _ =>
    have hbuffer : m.data.mBuffer = c.mBuffer := by
      have hm := himplements.1
      rw [hm]
      cases point <;> rfl
    unfold Connection.complete at h
    cases hmark : (c.mBuffer.fill data).markWrite data.length with
    | none =>
      rw [hmark] at h
      cases h
    | some rb =>
      rw [hmark] at h
      dsimp only [orHalt, bind, Except.bind] at h
      unfold Connection.resumeWaiting at h
      dsimp only at h
      rw [hresume] at h
      dsimp only at h
      cases hrun : Connection.resume handle { c with mBuffer := rb, offered := none, mResume := none }
          point with
      | error halt =>
        rw [hrun] at h
        cases h
      | ok d' =>
        rw [hrun] at h
        obtain ⟨rfl, rfl⟩ := Prod.mk.inj (Except.ok.inj h)
        refine ⟨rb, ?_⟩
        rw [hbuffer]
        rcases implements_deliver himplements
            (fun d => { d with mBuffer := rb, offered := none }) with
          ⟨m₁, calls₁, hdeliver, hcalls, himplements₁⟩ | ⟨_, hnone⟩
        · have hreaches : Reaches handle (Connection.resume handle
              { c with mBuffer := rb, offered := none, mResume := none } point) calls₁ := by
            cases point with
            | readByte value position =>
              cases hcalls
              exact reaches_gotByte (c := { c with mBuffer := rb, offered := none, mResume := none })
                rfl hthrown value position fun d value position hd hd' =>
                  reaches_receive _ hd hd' value position
            | recvUntil n =>
              cases hcalls
              exact reaches_recvUntil (c := { c with mBuffer := rb, offered := none, mResume := none })
                rfl hthrown n fun d hd hd' => reaches_receive _ hd hd' 0 0
          obtain ⟨n, calls', hturns, hof⟩ := hreaches d' hrun
          obtain ⟨m', hturns', himplements'⟩ := implements_turns_ok himplements₁ hturns
          have hrelated : Related handle m' d' := ⟨calls', himplements', hof⟩
          have hshows := shows_of_related hrelated
          exact ⟨m₁, m', hmark, hdeliver, ⟨n, hturns', hshows.idle⟩, hrelated, hshows.thrown⟩
        · cases point <;> cases hnone

/-- INTERNAL: **runs of the connection are runs of the tasks**. -/
theorem related_run (hhandle : StaysInBody handle) {memory : Fin readCapacity → Byte} {client : σ}
    {pieces : List (List Byte)} {c : Connection σ} {e : Option Failure}
    (run : Connection.Run handle memory client pieces c e) :
    ∃ m, ReceiverTasks.Run handle memory client pieces m e ∧ Related handle m c := by
  induction run with
  | start c h =>
    obtain ⟨m, m', hlaunch, hsettles, hrelated⟩ := related_start h
    exact ⟨m', .start m m' hlaunch hsettles, hrelated⟩
  | complete pieces data c d r e run hdata h ih =>
    obtain ⟨m, hrun, hrelated⟩ := ih
    have hwaiting := waiting_of_run hhandle run
    obtain ⟨hne, n, hoffered, hlength⟩ := id hdata
    have hthrown : c.thrown = none := by
      by_contra hdone
      rw [(hwaiting.done hdone).2] at hoffered
      cases hoffered
    obtain ⟨rb, m₁, m', hmark, hdeliver, hsettles, hrelated', hreadable⟩ :=
      related_complete hrelated hthrown h
    have hshown := (shows_of_related hrelated).offered
    exact ⟨m', .complete pieces data m m₁ m' rb r e hrun ⟨hne, n, hshown.trans hoffered, hlength⟩ hmark
      hdeliver hsettles hreadable, hrelated'⟩

/-- INTERNAL: **runs of the tasks are runs of the connection**, since the coroutines come to wait in one
way. -/
theorem run_of_tasks (hhandle : StaysInBody handle) {memory : Fin readCapacity → Byte} {client : σ}
    {pieces : List (List Byte)} {m : ReceiverTasks σ} {e : Option Failure}
    (run : ReceiverTasks.Run handle memory client pieces m e) :
    ∃ c, Connection.Run handle memory client pieces c e ∧ Related handle m c := by
  induction run with
  | start m m' h hsettles =>
    obtain ⟨c, hc, _⟩ := settles_start hhandle memory client
    obtain ⟨m₁, m₁', hlaunch, hsettles', hrelated⟩ := related_start hc
    rw [h, Except.ok.injEq] at hlaunch
    subst hlaunch
    rw [settles_unique hsettles hsettles']
    exact ⟨c, .start c hc, hrelated⟩
  | complete pieces data m m₁ m' rb r e run hdata hmark hdeliver hsettles hreadable ih =>
    obtain ⟨c, hrun, hrelated⟩ := ih
    have hwaiting := waiting_of_run hhandle hrun
    have hshown := shows_of_related hrelated
    obtain ⟨hne, n, hoffered, hlength⟩ := hdata
    have hdata' : c.Deliverable data := ⟨hne, n, hshown.offered.symm.trans hoffered, hlength⟩
    obtain ⟨d, hd, _⟩ := complete_of_waiting hhandle hwaiting hdata'
    have hthrown : c.thrown = none := by
      by_contra hdone
      rw [hshown.offered, (hwaiting.done hdone).2] at hoffered
      cases hoffered
    obtain ⟨rb', m₂, m₂', hmark', hdeliver', hsettles', hrelated', hreadable'⟩ :=
      related_complete hrelated hthrown hd
    rw [hmark, Option.some.injEq] at hmark'
    subst hmark'
    rw [hdeliver, Option.some.injEq, Except.ok.injEq] at hdeliver'
    subst hdeliver'
    obtain rfl := settles_unique hsettles hsettles'
    rw [hreadable, Except.ok.injEq] at hreadable'
    subst hreadable'
    exact ⟨d, .complete pieces data c d r _ hrun hdata' hd, hrelated'⟩

/-- SOURCE: utility/coro.hh, proto/client.cc:17-21, 49-89, proto/varint.hh:33-65,
proto/tcp_client.cc:14-78 — **the coroutines are one loop**. Over any pieces, with handlers that stay
inside their packet, the runs of the receive task, with its frames, handles and promises, are the runs of
the connection that reads in one loop: to every run of the one there is a run of the other over the same
pieces in which both show the same buffer, packets, client and exception, and wait alike. -/
theorem receive_tasks_refine (handle : BitVec 32 → PacketM σ Unit) (hhandle : StaysInBody handle)
    (memory : Fin readCapacity → Byte) (client : σ) (pieces : List (List Byte)) (e : Option Failure) :
    (∀ m, ReceiverTasks.Run handle memory client pieces m e →
      ∃ c, Connection.Run handle memory client pieces c e ∧ Shows handle m c) ∧
    (∀ c, Connection.Run handle memory client pieces c e →
      ∃ m, ReceiverTasks.Run handle memory client pieces m e ∧ Shows handle m c) := by
  constructor
  · intro m run
    obtain ⟨c, hrun, hrelated⟩ := run_of_tasks hhandle run
    exact ⟨c, hrun, shows_of_related hrelated⟩
  · intro c run
    obtain ⟨m, hrun, hrelated⟩ := related_run hhandle run
    exact ⟨m, hrun, shows_of_related hrelated⟩

/-- INTERNAL: a client that discards every packet, after the first byte of a length. -/
theorem receive_tasks_refine_discarding :
    ∃ c m e, Connection.Run (fun _ => do PacketM.discard (← PacketM.remaining)) (fun _ => 0#8) ()
        [[2]] c e ∧
      ReceiverTasks.Run (fun _ => do PacketM.discard (← PacketM.remaining)) (fun _ => 0#8) () [[2]] m e ∧
      Shows (fun _ => do PacketM.discard (← PacketM.remaining)) m c := by
  have hstays : StaysInBody (fun _ => do PacketM.discard (← PacketM.remaining) :
      BitVec 32 → PacketM Unit Unit) :=
    staysInBody_of_metered fun _ => metered_remaining_bind fun n => metered_discard n _
  have hrun := Connection.Run.start _ (start_waits (fun _ => do PacketM.discard (← PacketM.remaining))
    (fun _ => 0#8) ())
  have hdeliverable : Connection.Deliverable { Connection.init (fun _ => 0#8) () with
      mResume := some (.readByte 0 0)
      offered := some readCapacity } [2] := by
    refine ⟨List.cons_ne_nil _ _, readCapacity, rfl, ?_⟩
    rw [readCapacity_eq]
    decide
  obtain ⟨d, hd, _⟩ := complete_of_waiting hstays (waiting_of_run hstays hrun) hdeliverable
  have run := Connection.Run.complete [] [2] _ d none d.thrown hrun hdeliverable hd
  obtain ⟨m, hm, hshows⟩ := (receive_tasks_refine _ hstays _ () [[2]] d.thrown).2 d run
  exact ⟨d, m, d.thrown, run, hm, hshows⟩

/-! ## `read_impl` -/

section ReadImpl

variable {w : ℕ}

/-- INTERNAL: **the loop of `async_read_impl` over a callback that never waits**, by induction on the
bound of the loop of `read_varint()`, which the position does not let it reach.
SOURCE: proto/varint.hh:33-65 -/
theorem turns_readImpl (fuel : ℕ) (value : BitVec w) (position : ℕ) (s : σ) (n : ℕ) (bs : List Byte)
    (hposition : position < w) (hfuel : w < position + 7 * fuel) :
    ∃ k, Calls.turns (readImplCode w readByteCallback) k ⟨.running false (.gotByte value position) [],
        (s, n, bs)⟩ =
      match (PacketM.readVarintLoop w fuel value position s n).run bs with
      | none => .error ()
      | some ((result, s, n), left) => .ok ⟨.ended result, (s, n, left)⟩ := by
  induction fuel generalizing value position s n bs with
  | zero => omega
  | succ fuel ih =>
    have hturn : (readImplCode w readByteCallback).turn (.gotByte value position) (s, n, bs) =
        asyncReadImpl () readByteCallback (.gotByte value position) (s, n, bs) := rfl
    rw [asyncReadImpl, readByteCallback] at hturn
    unfold PacketM.readVarintLoop
    rw [bind_apply, Pull.run_bind]
    cases hbyte : (PacketM.readByte s n).run bs with
    | none =>
      rw [hbyte] at hturn
      refine ⟨1, ?_⟩
      rw [Calls.turns, Calls.step_error _ hturn]
      rfl
    | some read =>
      obtain ⟨⟨result, s, n⟩, bs⟩ := read
      rw [hbyte] at hturn
      cases result with
      | error e =>
        refine ⟨1, ?_⟩
        rw [Calls.turns, Calls.step_throws _ hturn]
        rfl
      | ok byte =>
        rw [Option.bind_some, andThen_ok]
        dsimp only at hturn
        cases hstep : asyncReadStep value position byte with
        | done value =>
          rw [hstep] at hturn
          refine ⟨1, ?_⟩
          rw [Calls.turns, Calls.step_returns _ hturn]
          rfl
        | invalid =>
          rw [hstep] at hturn
          refine ⟨1, ?_⟩
          rw [Calls.turns, Calls.step_throws _ hturn]
          rfl
        | more value' position' =>
          rw [hstep] at hturn
          obtain ⟨rfl, hlt⟩ := asyncReadStep_more hstep
          obtain ⟨k, hk⟩ := ih value' (position + 7) s n bs hlt (by omega)
          refine ⟨k + 1, ?_⟩
          rw [Calls.turns, Calls.step_waits _ hturn]
          exact hk

/-- What `read_impl<TS>` makes of the task that it has made and resumed, when the coroutine has taken
`k` turns: whether it is at its end then, and what is left behind the end. -/
def readImplAfter (w k : ℕ) (s : σ × ℕ × List Byte) :
    Except (TaskHalt Unit) (Bool × Except Failure (BitVec w) ×
      Tasks (σ × ℕ × List Byte) (ReadPoint w) (BitVec w) Failure) := do
  let m ← Tasks.launch (readImplCode w readByteCallback) () s
  let m ← m.turns (readImplCode w readByteCallback) k
  let (result, m') ← readImplEnd w readByteCallback m
  .ok (m.control.isNone, result, m')

/-- SOURCE: proto/varint.hh:33-86, utility/coro.hh — **`varint::read` runs its coroutine to the end**. For
every integer type, every packet reader and all bytes, resuming the task once brings it to its final
suspend, its assertion holds, and its result, the reader and the bytes left are those of the plain loop
`read_varint()`; the frame is gone then. Where the bytes end inside the integer, the task ends in the
callback as the loop does. -/
theorem read_impl_runs_to_end (w : ℕ) (hw : 0 < w) (s : σ) (n : ℕ) (bs : List Byte) :
    ∃ k, match (PacketM.readVarintLoop w w 0 0 s n).run bs with
      | none => readImplAfter w k (s, n, bs) = .error (.own ())
      | some ((result, s', n'), left) => ∃ m, readImplAfter w k (s, n, bs) = .ok (true, result, m) ∧
          m.data = (s', n', left) ∧ ∀ i, m.frames i = none := by
  obtain ⟨m, hlaunch, himplements⟩ := implements_launch (readImplCode w readByteCallback) ()
    (s, n, bs)
  obtain ⟨k, hk⟩ := turns_readImpl w 0 0 s n bs hw (by omega)
  have hfirst : (readImplCode w readByteCallback).turn (.loop 0 0) (s, n, bs) =
      .ok (.waits () (.gotByte 0 0), (s, n, bs)) := rfl
  have hturns : Calls.turns (readImplCode w readByteCallback) (k + 1)
      (Calls.launch (readImplCode w readByteCallback) () (s, n, bs)) =
        Calls.turns (readImplCode w readByteCallback) k
          ⟨.running false (.gotByte 0 0) [], (s, n, bs)⟩ := by
    show (Calls.step _ ⟨.running false (ReadPoint.loop 0 0) [], (s, n, bs)⟩).bind _ = _
    rw [Calls.step_waits _ hfirst]
    rfl
  rw [hk] at hturns
  refine ⟨k + 1, ?_⟩
  cases hrun : (PacketM.readVarintLoop w w 0 0 s n).run bs with
  | none =>
    rw [hrun] at hturns
    have hsame := implements_turns (k + 1) himplements
    rw [hturns] at hsame
    unfold readImplAfter
    dsimp only [bind, Except.bind]
    rw [hlaunch]
    dsimp only
    cases hm : m.turns (readImplCode w readByteCallback) (k + 1) with
    | error halt =>
      rw [hm] at hsame
      exact congrArg Except.error hsame
    | ok m' =>
      rw [hm] at hsame
      exact hsame.elim
  | some r =>
    obtain ⟨⟨result, s', n'⟩, left⟩ := r
    rw [hrun] at hturns
    obtain ⟨m', hturns', hended⟩ := implements_turns_ok himplements hturns
    obtain ⟨hdata, hidle, hslot, hfree, hresult, hlive⟩ := id hended
    obtain ⟨m'', hdestroy, hkept, hgone⟩ := destroy_of_implements hended hidle
    refine ⟨m'', ?_, hkept.trans hdata, hgone⟩
    · unfold readImplAfter readImplEnd
      dsimp only [bind, Except.bind]
      rw [hlaunch]
      dsimp only
      rw [hturns']
      dsimp only
      rw [hresult]
      dsimp only
      rw [hdestroy, hidle]
      rfl

/-- INTERNAL: the two bytes of `128`. -/
theorem read_impl_runs_to_end_two_bytes :
    ∃ k m, readImplAfter 32 k ((), 2, [0x80, 0x01]) = .ok (true, .ok 128, m) ∧ m.data = ((), 0, []) := by
  obtain ⟨k, hk⟩ := read_impl_runs_to_end 32 (Nat.zero_lt_succ 31) () 2 [0x80, 0x01]
  have hrun : (PacketM.readVarintLoop 32 32 0 0 () 2).run [0x80, 0x01] =
      some ((.ok 128, (), 0), []) := rfl
  rw [hrun] at hk
  obtain ⟨m, hafter, hdata, _⟩ := hk
  exact ⟨k, m, hafter, hdata⟩

end ReadImpl

end Mccpp.Analysis
