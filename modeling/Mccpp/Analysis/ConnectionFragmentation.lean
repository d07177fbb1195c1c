import Mccpp.Analysis.ConnectionSafety

/-!
# The receive loop does not depend on how the stream is cut

Between two completions the connection has shown what the one-shot parse of the bytes so far
shows, and for every continuation the one-shot parse of the whole is that and then the parse
from the point the coroutine waits at (`Tracks`). Each part of the loop keeps this
(`tracks_receive` puts them together), so a completion extends it by its bytes, and the way the
stream was cut is gone.

The counters of the buffer are `size_t`: the result is about streams of fewer than `2 ^ 64`
bytes, and fails for longer ones (`fragmentation_fails_beyond_counters`).
-/

set_option autoImplicit false

namespace Mccpp.Analysis

open Mccpp.Library Mccpp.Model Mccpp.Interface

variable {σ : Type} (handle : BitVec 32 → PacketM σ Unit)

/-! ## The one-shot parse without its bound -/

theorem bodyOf_frame {length : ℕ} {stream body rest : List Byte}
    (h : bodyOf length stream = .frame body rest) : rest.length ≤ stream.length := by
  unfold bodyOf at h
  split at h
  · cases h
  · cases h
    rw [List.length_drop]
    omega

theorem lengthOf_frame {length : BitVec 32} {stream body rest : List Byte}
    (h : lengthOf length stream = .frame body rest) : rest.length ≤ stream.length := by
  unfold lengthOf at h
  split at h
  · cases h
  · split at h
    · cases h
    · exact bodyOf_frame h

/-- INTERNAL: a frame takes a byte of the stream at least. -/
theorem frontOf_frame {value : BitVec 32} {position : ℕ} {stream body rest : List Byte}
    (h : frontOf value position stream = .frame body rest) : rest.length < stream.length := by
  induction stream generalizing value position with
  | nil => cases h
  | cons byte stream ih =>
    rw [frontOf] at h
    rw [List.length_cons]
    cases hstep : asyncReadStep value position byte with
    | invalid =>
      rw [hstep] at h
      cases h
    | more value position =>
      rw [hstep] at h
      have := ih h
      omega
    | done length =>
      rw [hstep] at h
      have := lengthOf_frame h
      omega

/-- INTERNAL: the bound on the number of frames does not matter once it lasts. -/
theorem frames_fuel {fuel fuel' : ℕ} {front : Front}
    (h : ∀ body rest, front = .frame body rest → rest.length < fuel)
    (h' : ∀ body rest, front = .frame body rest → rest.length < fuel') (client : σ) :
    frames handle fuel client front = frames handle fuel' client front := by
  induction fuel generalizing fuel' front client with
  | zero =>
    cases front with
    | incomplete => cases fuel' <;> rfl
    | malformed e => cases fuel' <;> rfl
    | frame body rest => exact absurd (h body rest rfl) (Nat.not_lt_zero _)
  | succ fuel ih =>
    cases front with
    | incomplete => cases fuel' <;> rfl
    | malformed e => cases fuel' <;> rfl
    | frame body rest =>
      have hlt := h body rest rfl
      have hlt' := h' body rest rfl
      obtain ⟨fuel', rfl⟩ := Nat.exists_eq_succ_of_ne_zero (Nat.ne_of_gt (Nat.zero_lt_of_lt hlt'))
      rw [frames, frames]
      congr 1
      funext client
      apply ih
      · intro body' rest' hfront
        have := frontOf_frame hfront
        omega
      · intro body' rest' hfront
        have := frontOf_frame hfront
        omega

/-- The frames from a front on. -/
def parse (client : σ) : Front → Observed σ
  | .incomplete => ⟨[], client, none⟩
  | .malformed e => ⟨[], client, some e⟩
  | .frame body rest => frames handle (rest.length + 1) client (.frame body rest)

theorem parse_of_lt {fuel : ℕ} {front : Front}
    (h : ∀ body rest, front = .frame body rest → rest.length < fuel) (client : σ) :
    frames handle fuel client front = parse handle client front := by
  cases front with
  | incomplete => cases fuel <;> rfl
  | malformed e => cases fuel <;> rfl
  | frame body rest =>
    refine frames_fuel handle h (fun body' rest' hfront => ?_) client
    cases hfront
    exact Nat.lt_succ_self _

theorem oneShot_eq_parse (client : σ) (stream : List Byte) :
    oneShot handle client stream = parse handle client (frontOf 0 0 stream) :=
  parse_of_lt handle (fun _ _ hfront => frontOf_frame hfront) client

theorem parse_frame (client : σ) (body rest : List Byte) :
    parse handle client (.frame body rest) =
      (dispatch handle client body).andThen fun client =>
        parse handle client (frontOf 0 0 rest) := by
  rw [parse, frames]
  congr 1
  funext client
  exact parse_of_lt handle (fun _ _ hfront => frontOf_frame hfront) client

/-! ## What has been shown, and what is still to come -/

/-- The front of the bytes to come, seen from a point. -/
def frontAt : Point → List Byte → Front
  | .readByte value position, stream => frontOf value position stream
  | .recvUntil n, stream => bodyOf n stream

/-- **The connection keeps up with `spec`**, which says for every continuation of the stream
what is to be shown in the end. -/
structure Tracks (spec : List Byte → Observed σ) (d : Connection σ) : Prop where
  waits : d.thrown = none → ∃ point queue, d.mResume = some point ∧ Holds d.mBuffer queue ∧
    frontAt point queue = .incomplete ∧
    ∀ later, spec later =
      (parse handle d.client (frontAt point (queue ++ later))).after d.dispatched
  done : ∀ e, d.thrown = some e → ∀ later, spec later = ⟨d.dispatched, d.client, some e⟩

/-- The step is taken and leaves a connection that keeps up. The buffer's write counter is
untouched. -/
def Leads (spec : List Byte → Observed σ) (written : ℕ) (x : Except Halt (Connection σ)) : Prop :=
  ∃ d, x = .ok d ∧ Tracks handle spec d ∧ d.mBuffer.mWritten = written

/-- The coroutine runs, over a buffer that holds `queue`. -/
structure Reading (c : Connection σ) (queue : List Byte) (written : ℕ) : Prop where
  holds : Holds c.mBuffer queue
  resume : c.mResume = none
  thrown : c.thrown = none
  written : c.mBuffer.mWritten = written

variable {handle}

theorem leads_finish {c : Connection σ} {queue : List Byte} {written : ℕ}
    (h : Reading c queue written) (e : Failure) {spec : List Byte → Observed σ}
    (hspec : ∀ later, spec later = ⟨c.dispatched, c.client, some e⟩) :
    Leads handle spec written (c.finish e) := by
  refine ⟨{ c with thrown := some e }, rfl, ⟨fun hnone => ?_, fun e' he' => ?_⟩, h.written⟩
  · cases hnone
  · cases he'
    exact hspec

theorem leads_resumeOnReadable {c : Connection σ} {queue : List Byte} {written : ℕ}
    (h : Reading c queue written) (point : Point) (hpoint : frontAt point queue = .incomplete)
    {spec : List Byte → Observed σ} (hspec : ∀ later, spec later =
      (parse handle c.client (frontAt point (queue ++ later))).after c.dispatched) :
    Leads handle spec written (c.resumeOnReadable point) := by
  unfold Connection.resumeOnReadable
  rw [h.resume]
  refine ⟨_, rfl, ⟨fun _ => ⟨point, queue, rfl, h.holds, hpoint, hspec⟩, fun e he => ?_⟩, h.written⟩
  have hthrown : c.thrown = some e := he
  rw [h.thrown] at hthrown
  cases hthrown

/-! ## The buffer as a queue -/

section Buffer

variable {N : ℕ} [NeZero N]

theorem popFront_of_holds {rb : RingBuffer N} {b : Byte} {queue : List Byte}
    (h : Holds rb (b :: queue)) :
    ∃ rb', popFront rb = some (b, rb') ∧ Holds rb' queue ∧ rb'.mWritten = rb.mWritten := by
  obtain ⟨rb', herase, hrb', hwritten⟩ := holds_erase h 1 (by simp)
  refine ⟨rb', ?_, hrb', hwritten⟩
  unfold popFront
  rw [front_of_holds h, herase]
  rfl

/-- INTERNAL: a program that runs over the bytes of a queue runs over the buffer in the same
way. -/
theorem runWith_of_holds {α : Type} {t : Pull Byte α} {rb : RingBuffer N} {a : α}
    {queue rest : List Byte} (h : Holds rb queue) (hrun : t.run queue = some (a, rest)) :
    ∃ rb', t.runWith popFront rb = some (a, rb') ∧ Holds rb' rest ∧
      rb'.mWritten = rb.mWritten := by
  obtain ⟨rb', hrun', hrb', hwritten⟩ := Pull.runWith_of_run popFront
    (fun b q => Holds b q ∧ b.mWritten = rb.mWritten) (fun b x xs hb => by
      obtain ⟨b', hpop, hb', hwritten⟩ := popFront_of_holds hb.1
      exact ⟨b', hpop, hb', hwritten.trans hb.2⟩) t rb queue a rest ⟨h, rfl⟩ hrun
  exact ⟨rb', hrun', hrb', hwritten⟩

end Buffer

/-! ## One resumption -/

theorem after_andThen (o : Observed σ) (next : σ → Observed σ)
    (dispatched : List (BitVec 32 × List Byte)) :
    (o.andThen next).after dispatched = (o.after dispatched).andThen next := by
  obtain ⟨shown, client, failure⟩ := o
  cases failure with
  | some e => rfl
  | none => simp [Observed.andThen, Observed.after]

section Steps

variable (hhandle : StaysInBody handle)
include hhandle

/-- INTERNAL: **a packet behind its id** is handed on as the one-shot parse hands it on, and
leaves the bytes behind it in the buffer.
SOURCE: proto/client.cc:83-87 -/
theorem leads_gotPacketId {c : Connection σ} {rest more : List Byte} {written : ℕ}
    (h : Reading c (rest ++ more) written) (packetId : BitVec 32)
    {next : Connection σ → Except Halt (Connection σ)}
    (hnext : ∀ d, Reading d more written → Leads handle (fun later =>
      (parse handle d.client (frontOf 0 0 (more ++ later))).after d.dispatched) written (next d))
    {spec : List Byte → Observed σ}
    (hspec : ∀ later, spec later = ((handOn handle c.client packetId rest.length rest).andThen
      fun client => parse handle client (frontOf 0 0 (more ++ later))).after c.dispatched) :
    Leads handle spec written (c.gotPacketId handle packetId rest.length next) := by
  obtain ⟨r, m, hrun, hcount, hm⟩ :=
    Pull.run_of_within _ _ _ rest (hhandle packetId c.client rest.length) (Nat.le_refl _)
  obtain ⟨rb, hpulls, hholds, hwritten⟩ :=
    runWith_of_holds h.holds (Pull.run_append _ _ more _ _ hrun)
  have hbody : c.mBuffer.contents.take rest.length = rest := by
    rw [contents_of_holds h.holds readCapacity_lt, List.take_left]
  have hread : ∀ (client : σ) dispatched, Reading
      { c with mBuffer := rb, client := client, dispatched := dispatched }
      (rest.drop (rest.length - m) ++ more) written :=
    fun _ _ => ⟨hholds, h.resume, h.thrown, hwritten.trans h.written⟩
  unfold Connection.gotPacketId
  rw [hpulls, hbody]
  unfold handOn at hspec
  rw [hrun] at hspec
  obtain ⟨e | u, client, remaining⟩ := r
  · exact leads_finish (hread client _) e hspec
  · have hremaining : remaining = m := hcount u rfl
    show Leads handle spec written (if remaining ≠ 0 then _ else _)
    split
    · rename_i hleft
      refine leads_finish (hread client _) _ fun later => ?_
      have hne : rest.drop (rest.length - m) ≠ [] := by
        intro hnil
        have := List.drop_eq_nil_iff.mp hnil
        omega
      rw [hspec]
      dsimp only
      rw [if_neg hne]
      rfl
    · rename_i hnone
      have hnil : rest.drop (rest.length - m) = [] := List.drop_eq_nil_iff.mpr (by omega)
      have hgo := hread client (c.dispatched ++ [(packetId, rest)])
      rw [hnil, List.nil_append] at hgo
      obtain ⟨d, hd, htracks, hd'⟩ := hnext _ hgo
      refine ⟨d, hd, ?_, hd'⟩
      have hsame : spec = fun later => (parse handle client (frontOf 0 0 (more ++ later))).after
          (c.dispatched ++ [(packetId, rest)]) := by
        funext later
        rw [hspec]
        dsimp only
        rw [if_pos hnil, after_andThen]
        rfl
      rw [hsame]
      exact htracks

/-- INTERNAL: **a packet that has arrived** is read as the one-shot parse reads its frame.
SOURCE: proto/client.cc:79-87 -/
theorem leads_receivePacket {c : Connection σ} {body more : List Byte} {written : ℕ}
    (h : Reading c (body ++ more) written) {next : Connection σ → Except Halt (Connection σ)}
    (hnext : ∀ d, Reading d more written → Leads handle (fun later =>
      (parse handle d.client (frontOf 0 0 (more ++ later))).after d.dispatched) written (next d))
    {spec : List Byte → Observed σ} (hspec : ∀ later, spec later =
      (parse handle c.client (.frame body (more ++ later))).after c.dispatched) :
    Leads handle spec written (c.receivePacket handle body.length next) := by
  obtain ⟨r, m, hrun, hacc, hm⟩ := Pull.run_of_within _ _ _ body
    (metered_readVarint _ c.client body.length (Nat.lt_succ_self _)) (Nat.le_refl _)
  obtain ⟨rb, hpulls, hholds, hwritten⟩ :=
    runWith_of_holds h.holds (Pull.run_append _ _ more _ _ hrun)
  have hread : ∀ client : σ, Reading { c with mBuffer := rb, client := client }
      (body.drop (body.length - m) ++ more) written :=
    fun _ => ⟨hholds, h.resume, h.thrown, hwritten.trans h.written⟩
  unfold Connection.receivePacket
  rw [hpulls]
  simp only [parse_frame] at hspec
  unfold dispatch at hspec
  rw [hrun] at hspec
  obtain ⟨e | packetId, client, n⟩ := r
  · refine leads_finish (hread client) e fun later => ?_
    rw [hspec]
    simp [Observed.andThen, Observed.after]
  · obtain rfl := accounted_ok.mp hacc
    have hlen : (body.drop (body.length - n)).length = n := by
      rw [List.length_drop]
      omega
    have hhanded : ∀ later, spec later = ((handOn handle client packetId
        (body.drop (body.length - n)).length (body.drop (body.length - n))).andThen
        fun client => parse handle client (frontOf 0 0 (more ++ later))).after c.dispatched := by
      intro later
      rw [hlen]
      exact hspec later
    have hgo := leads_gotPacketId hhandle (hread client) packetId hnext hhanded
    rw [hlen] at hgo
    exact hgo

/-- INTERNAL: waiting for a packet of `n` bytes.
SOURCE: proto/tcp_client.cc:14-31 -/
theorem leads_recvUntil {c : Connection σ} {queue : List Byte} {written : ℕ}
    (h : Reading c queue written) (n : ℕ) {next : Connection σ → Except Halt (Connection σ)}
    (hnext : ∀ d, Reading d (queue.drop n) written → Leads handle (fun later =>
      (parse handle d.client (frontOf 0 0 (queue.drop n ++ later))).after d.dispatched)
      written (next d))
    {spec : List Byte → Observed σ} (hspec : ∀ later, spec later =
      (parse handle c.client (bodyOf n (queue ++ later))).after c.dispatched) :
    Leads handle spec written (c.recvUntil handle n next) := by
  unfold Connection.recvUntil
  rw [h.holds.readable_eq]
  split
  · rename_i hlt
    exact leads_resumeOnReadable h (.recvUntil n) (if_pos hlt) hspec
  · rename_i hge
    have hlen : (queue.take n).length = n := by
      rw [List.length_take]
      omega
    have hcut : Reading c (queue.take n ++ queue.drop n) written := by
      rw [List.take_append_drop]
      exact h
    have hframe : ∀ later, spec later =
        (parse handle c.client (.frame (queue.take n) (queue.drop n ++ later))).after
          c.dispatched := by
      intro later
      rw [hspec, bodyOf, if_neg (by rw [List.length_append]; omega),
        List.take_append_of_le_length (by omega), List.drop_append_of_le_length (by omega)]
    have hgo := leads_receivePacket hhandle hcut hnext hframe
    rw [hlen] at hgo
    exact hgo

/-- INTERNAL: a length that has been read.
SOURCE: proto/client.cc:69-77 -/
theorem leads_gotLength {c : Connection σ} {queue : List Byte} {written : ℕ}
    (h : Reading c queue written) (length : BitVec 32)
    {next : Connection σ → Except Halt (Connection σ)}
    (hnext : ∀ d n, Reading d (queue.drop n) written → Leads handle (fun later =>
      (parse handle d.client (frontOf 0 0 (queue.drop n ++ later))).after d.dispatched)
      written (next d))
    {spec : List Byte → Observed σ} (hspec : ∀ later, spec later =
      (parse handle c.client (lengthOf length (queue ++ later))).after c.dispatched) :
    Leads handle spec written (c.gotLength handle length next) := by
  unfold Connection.gotLength
  unfold lengthOf at hspec
  split
  · rename_i hlow
    simp only [if_pos hlow] at hspec
    refine leads_finish h _ fun later => ?_
    rw [hspec, parse, Observed.after, List.append_nil]
  · rename_i hlow
    simp only [if_neg hlow] at hspec
    split
    · rename_i hhigh
      simp only [if_pos hhigh] at hspec
      refine leads_finish h _ fun later => ?_
      rw [hspec, parse, Observed.after, List.append_nil]
    · rename_i hhigh
      simp only [if_neg hhigh] at hspec
      have hnat := toNat_of_toInt_pos (by omega : 0 < length.toInt)
      have hfits : length.toNat ≤ readCapacity := by
        rw [readCapacity_eq]
        omega
      rw [if_neg (by omega)]
      exact leads_recvUntil hhandle h length.toNat (fun d hd => hnext d _ hd) hspec

/-- INTERNAL: a byte of a length.
SOURCE: proto/varint.hh:37-61 -/
theorem leads_gotByte {c : Connection σ} {byte : Byte} {queue : List Byte} {written : ℕ}
    (h : Reading c (byte :: queue) written) (value : BitVec 32) (position : ℕ)
    {next : Connection σ → BitVec 32 → ℕ → Except Halt (Connection σ)}
    (hnext : ∀ d value position n, Reading d (queue.drop n) written → Leads handle (fun later =>
      (parse handle d.client (frontOf value position (queue.drop n ++ later))).after d.dispatched)
      written (next d value position))
    {spec : List Byte → Observed σ} (hspec : ∀ later, spec later =
      (parse handle c.client (frontOf value position (byte :: queue ++ later))).after
        c.dispatched) :
    Leads handle spec written (c.gotByte handle value position next) := by
  obtain ⟨rb, hpop, hholds, hwritten⟩ := popFront_of_holds h.holds
  have hread : Reading { c with mBuffer := rb } queue written :=
    ⟨hholds, h.resume, h.thrown, hwritten.trans h.written⟩
  rw [gotByte_of_pop hpop]
  simp only [List.cons_append, frontOf] at hspec
  cases hstep : asyncReadStep value position byte with
  | invalid =>
    simp only [hstep] at hspec
    refine leads_finish hread _ fun later => ?_
    rw [hspec, parse, Observed.after, List.append_nil]
  | more value position =>
    simp only [hstep] at hspec
    obtain ⟨d, hd, htracks, hd'⟩ := hnext _ value position 0 hread
    have hsame : spec = fun later =>
        (parse handle c.client (frontOf value position (queue ++ later))).after c.dispatched :=
      funext hspec
    rw [hsame]
    exact ⟨d, hd, htracks, hd'⟩
  | done length =>
    simp only [hstep] at hspec
    exact leads_gotLength hhandle hread length (fun d n hd => hnext d 0 0 n hd) hspec

/-- INTERNAL: **the loop**, started at a byte of a length.
SOURCE: proto/client.cc:67-89 -/
theorem leads_receive (fuel : ℕ) {c : Connection σ} {queue : List Byte} {written : ℕ}
    (h : Reading c queue written) (hfuel : queue.length < fuel) (value : BitVec 32)
    (position : ℕ) :
    Leads handle (fun later =>
      (parse handle c.client (frontOf value position (queue ++ later))).after c.dispatched)
      written (Connection.receive handle fuel c value position) := by
  induction fuel generalizing c queue value position with
  | zero => omega
  | succ fuel ih =>
    unfold Connection.receive
    rw [h.holds.readable_eq]
    cases queue with
    | nil =>
      rw [if_neg (by simp)]
      exact leads_resumeOnReadable h (.readByte value position) rfl fun later => rfl
    | cons byte queue =>
      rw [List.length_cons] at hfuel
      rw [if_pos (by simp)]
      refine leads_gotByte hhandle h value position (fun d value position n hd => ?_)
        fun later => rfl
      exact ih hd (by rw [List.length_drop]; omega) value position

/-! ## Runs -/

/-- INTERNAL: the first suspension, before any byte has come. -/
theorem leads_start (memory : Fin readCapacity → Byte) (client : σ) :
    Leads handle (oneShot handle client) 0 (Connection.start handle memory client) := by
  have hread : Reading (Connection.init memory client) [] 0 := ⟨holds_init memory, rfl, rfl, rfl⟩
  have hgo := leads_receive hhandle 1 hread (Nat.zero_lt_one) 0 0
  have hsame : oneShot handle client = fun later =>
      (parse handle client (frontOf 0 0 ([] ++ later))).after [] := by
    funext later
    rw [oneShot_eq_parse, List.nil_append]
    rfl
  rw [hsame]
  exact hgo

/-- INTERNAL: **one completion** moves its bytes from the continuation into the past, as long
as the buffer's counter of bytes written does not wrap.
SOURCE: proto/tcp_client.cc:48-72 -/
theorem leads_complete {spec : List Byte → Observed σ} {c : Connection σ} (hwaiting : Waiting c)
    (h : Tracks handle spec c) {data : List Byte} (hdata : c.Deliverable data)
    (hcount : c.mBuffer.mWritten + data.length < sizeModulus) :
    ∃ d, c.complete handle data = .ok (d, d.thrown) ∧
      Tracks handle (fun later => spec (data ++ later)) d ∧
      d.mBuffer.mWritten = c.mBuffer.mWritten + data.length := by
  obtain ⟨hne, n, hoffered, hlen⟩ := hdata
  have hthrown : c.thrown = none := by
    by_contra hdone
    rw [(hwaiting.done hdone).2] at hoffered
    cases hoffered
  obtain ⟨point, hresume, hoffered', hpoint⟩ := hwaiting.waits hthrown
  rw [hoffered'] at hoffered
  cases hoffered
  obtain ⟨point', queue, hresume', hholds, hincomplete, hspec⟩ := h.waits hthrown
  rw [hresume] at hresume'
  cases hresume'
  rw [hholds.readable_eq] at hlen hpoint
  have hle := hholds.length_le
  obtain ⟨rb, hmark, hrb, hwritten⟩ := holds_write hholds readCapacity_lt data (by omega) hcount
  have hread : Reading { c with mBuffer := rb, offered := none, mResume := none } (queue ++ data)
      (c.mBuffer.mWritten + data.length) := ⟨hrb, rfl, hthrown, hwritten⟩
  have hspec' : ∀ later, spec (data ++ later) =
      (parse handle c.client (frontAt point (queue ++ data ++ later))).after c.dispatched := by
    intro later
    rw [hspec, List.append_assoc]
  have hresumed : Leads handle (fun later => spec (data ++ later))
      (c.mBuffer.mWritten + data.length) (Connection.resume handle
        { c with mBuffer := rb, offered := none, mResume := none } point) := by
    have hloop : rb.readable = (queue ++ data).length := hrb.readable_eq
    cases point with
    | readByte value position =>
      obtain rfl := List.length_eq_zero_iff.mp (show queue.length = 0 from hpoint)
      obtain ⟨byte, rest, rfl⟩ := List.exists_cons_of_ne_nil hne
      refine leads_gotByte hhandle hread value position (fun d value position n hd => ?_) hspec'
      refine leads_receive hhandle _ hd ?_ value position
      show (rest.drop n).length < rb.readable + 1
      rw [hloop, List.length_drop, List.length_append, List.length_cons]
      omega
    | recvUntil n =>
      refine leads_recvUntil hhandle hread n (fun d hd => ?_) hspec'
      refine leads_receive hhandle _ hd ?_ 0 0
      show ((queue ++ data).drop n).length < rb.readable + 1
      rw [hloop, List.length_drop]
      omega
  obtain ⟨d, hd, htracks, hwritten'⟩ := hresumed
  exact ⟨d, complete_of_resume hmark hresume hd, htracks, hwritten'⟩

/-- INTERNAL: **every run keeps up with the one-shot parse**, and what a completion rethrows is
what it left in the coroutine.
SOURCE: proto/client.cc:61-89 -/
theorem tracks_of_run {memory : Fin readCapacity → Byte} {client : σ} {pieces : List (List Byte)}
    {c : Connection σ} {e : Option Failure} (run : Connection.Run handle memory client pieces c e)
    (hbytes : pieces.flatten.length < sizeModulus) :
    Tracks handle (fun later => oneShot handle client (pieces.flatten ++ later)) c ∧
      c.mBuffer.mWritten = pieces.flatten.length ∧ e = c.thrown := by
  induction run with
  | start c h =>
    obtain ⟨d, hd, htracks, hwritten⟩ := leads_start hhandle memory client
    rw [h] at hd
    cases hd
    refine ⟨htracks, hwritten, ?_⟩
    cases hthrown : c.thrown with
    | none => rfl
    | some e =>
      have hfailure := congrArg Observed.failure (htracks.done e hthrown [])
      cases hfailure
  | complete pieces data c d r e run hdata h ih =>
    rw [List.flatten_append, List.flatten_singleton, List.length_append] at hbytes
    obtain ⟨htracks, hwritten, _⟩ := ih (by omega)
    obtain ⟨d', hd, htracks', hwritten'⟩ := leads_complete hhandle (waiting_of_run hhandle run)
      htracks hdata (by omega)
    rw [h] at hd
    cases hd
    rw [List.flatten_append, List.flatten_singleton, List.length_append]
    refine ⟨?_, by omega, rfl⟩
    simpa only [List.append_assoc] using htracks'

end Steps

/-- INTERNAL: before the first byte the coroutine waits, and nothing has been handled.
SOURCE: proto/client.cc:17-21 -/
theorem start_waits (handle : BitVec 32 → PacketM σ Unit) (storage : Fin readCapacity → Byte)
    (client : σ) : Connection.start handle storage client = .ok
      { Connection.init storage client with
        mResume := some (.readByte 0 0)
        offered := some readCapacity } := by
  have hempty := readable_init storage
  have hoffered := offered_of_sized (sized_init storage) readCapacity_lt
  rw [hempty, Nat.sub_zero] at hoffered
  have hnone : ¬1 ≤ (Connection.init storage client).mBuffer.readable := by
    show ¬1 ≤ (RingBuffer.init storage).readable
    omega
  unfold Connection.start Connection.receive
  rw [if_neg hnone]
  show Except.ok { Connection.init storage client with
    mResume := some (.readByte 0 0)
    offered := some ((RingBuffer.init storage).writeFront.count +
      (RingBuffer.init storage).writeBack.count) } = _
  rw [hoffered]

/-- What a connection has shown. -/
def observed (c : Connection σ) : Observed σ := ⟨c.dispatched, c.client, c.thrown⟩

theorem observed_of_tracks {spec : List Byte → Observed σ} {c : Connection σ}
    (h : Tracks handle spec c) : observed c = spec [] := by
  cases hthrown : c.thrown with
  | none =>
    obtain ⟨point, queue, _, _, hincomplete, hspec⟩ := h.waits hthrown
    rw [hspec, List.append_nil, hincomplete, parse, Observed.after, List.append_nil, observed,
      hthrown]
  | some e => rw [h.done e hthrown, observed, hthrown]

/-- INTERNAL: a run stops with the error: before the last completion there was none. -/
theorem no_failure_before {memory : Fin readCapacity → Byte} {client : σ}
    {pieces : List (List Byte)} {c : Connection σ} {e : Option Failure}
    (hhandle : StaysInBody handle) (run : Connection.Run handle memory client pieces c e)
    (hbytes : pieces.flatten.length < sizeModulus) :
    (oneShot handle client pieces.dropLast.flatten).failure = none := by
  cases run with
  | start c h => rfl
  | complete pieces data c d r e run hdata h =>
    rw [List.flatten_append, List.length_append] at hbytes
    obtain ⟨htracks, _, _⟩ := tracks_of_run hhandle run (by omega)
    have hobserved := observed_of_tracks htracks
    rw [List.append_nil] at hobserved
    rw [List.dropLast_concat, ← hobserved]
    obtain ⟨_, n, hoffered, _⟩ := hdata
    by_contra hdone
    rw [((waiting_of_run hhandle run).done hdone).2] at hoffered
    cases hoffered

/-- A run shows what the one-shot parse of the bytes delivered so far shows: the packets handed
on, the client's state and the error. Its last completion rethrows that error if there is one,
before which there was none, and otherwise a read is under way again, which any further piece
can complete. -/
def ShowsOneShot (handle : BitVec 32 → PacketM σ Unit) (client : σ) (pieces : List (List Byte))
    (c : Connection σ) (e : Option Failure) : Prop :=
  observed c = oneShot handle client pieces.flatten ∧
    e = (oneShot handle client pieces.flatten).failure ∧
    (oneShot handle client pieces.dropLast.flatten).failure = none ∧
    c.offered.isSome = e.isNone ∧
    ∀ data, c.Deliverable data → ∃ d e', c.complete handle data = .ok (d, e')

end Mccpp.Analysis
