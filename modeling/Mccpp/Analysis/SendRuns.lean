import Mccpp.Interface.SendRun
import Mccpp.Analysis.Sending

/-!
# What runs of writes and flushes deliver

A flush that throws keeps the whole buffer, with the bytes that the socket has taken in front
(`HoldsBack`). While every flush finds a buffer that nothing was taken of, or has nothing taken, all calls of
a run deliver; any other flush hands the front of its buffer over twice.
-/

set_option autoImplicit false

namespace Mccpp.Analysis

open Mccpp.Model Mccpp.Interface

/-! ## One flush -/

/-- What a flush leaves behind that starts with `done` taken and `buffer` to be handed over. -/
structure Flushed (done buffer : List Byte) (moments : List (List Byte))
    (result : Except Failure Unit × Outgoing) : Prop where
  during : ∀ taken ∈ moments, ∃ k, taken = done ++ buffer.take k
  ended : (result = (.ok (), ⟨[], done ++ buffer⟩)) ∨
    ∃ k, result = (.error .systemError, ⟨buffer, done ++ buffer.take k⟩)

/-- INTERNAL: **the loop of a flush** hands over the buffer up to the end or to an exception.
SOURCE: proto/tcp_client.cc:37-41 -/
theorem flushed_flushLoop {socket : Socket} (hsocket : Obeys socket) {done buffer : List Byte}
    {fuel offset : ℕ} (hoffset : offset ≤ buffer.length) (hfuel : buffer.length < offset + fuel) :
    Flushed done buffer (flushMoments socket fuel offset ⟨buffer, done ++ buffer.take offset⟩)
      (Outgoing.flushLoop socket fuel offset ⟨buffer, done ++ buffer.take offset⟩) := by
  induction fuel generalizing offset with
  | zero => omega
  | succ fuel ih =>
    unfold flushMoments Outgoing.flushLoop
    by_cases hmore : offset < buffer.length
    · have hoffered : buffer.drop offset ≠ [] := by
        intro hnil
        have h := List.drop_eq_nil_iff.mp hnil
        omega
      simp only [if_pos hmore]
      cases htaken : socket (done ++ buffer.take offset) (buffer.drop offset) with
      | none => exact ⟨by simp, Or.inr ⟨offset, rfl⟩⟩
      | some n =>
        obtain ⟨hone, hle⟩ := hsocket _ _ hoffered n htaken
        rw [List.length_drop] at hle
        have hjoin : done ++ buffer.take offset ++ (buffer.drop offset).take n =
            done ++ buffer.take (offset + n) := by
          rw [List.append_assoc, ← List.take_add]
        simp only [hjoin]
        have hrest := @ih (offset + n) (by omega) (by omega)
        refine ⟨?_, hrest.ended⟩
        intro taken hmem
        rcases List.mem_cons.mp hmem with rfl | hmem
        · exact ⟨offset + n, rfl⟩
        · exact hrest.during taken hmem
    · simp only [if_neg hmore]
      refine ⟨by simp, Or.inl ?_⟩
      rw [List.take_of_length_le (by omega)]

theorem flushed_writeFlush {socket : Socket} (hsocket : Obeys socket) (o : Outgoing) :
    Flushed o.sent o.mWriteBuffer (flushMoments socket (o.mWriteBuffer.length + 1) 0 o)
      (o.writeFlush socket) := by
  have h := @flushed_flushLoop socket hsocket o.sent o.mWriteBuffer (o.mWriteBuffer.length + 1) 0
    (Nat.zero_le _) (by omega)
  rwa [List.take_zero, List.append_nil] at h

/-! ## What the buffer holds -/

/-- The buffer is what was passed behind `done`, and the socket has taken the front of it as well. -/
structure HoldsBack (s : Sender) (done front : List Byte) : Prop where
  passed : s.passed = done ++ s.outgoing.mWriteBuffer
  sent : s.outgoing.sent = done ++ front
  front : front <+: s.outgoing.mWriteBuffer

theorem HoldsBack.isPrefix {s : Sender} {done front : List Byte} (h : HoldsBack s done front) :
    s.outgoing.sent <+: s.passed := by
  rw [h.passed, h.sent]
  exact (List.prefix_append_right_inj done).mpr h.front

theorem HoldsBack.unsent_iff {s : Sender} {done front : List Byte} (h : HoldsBack s done front) :
    Unsent s ↔ front = [] := by
  unfold Unsent
  rw [h.passed, h.sent, List.length_append, List.length_append, ← List.length_eq_zero_iff]
  omega

theorem holdsBack_start : HoldsBack .start [] [] := ⟨rfl, rfl, List.nil_prefix⟩

/-- INTERNAL: what is written goes behind the buffer.
SOURCE: proto/tcp_client.cc:32-34 -/
theorem HoldsBack.writeBytes {s : Sender} {done front : List Byte} (h : HoldsBack s done front)
    (bytes : List Byte) : HoldsBack (s.call (.writeBytes bytes)).2 done front := by
  refine ⟨?_, h.sent, h.front.trans (List.prefix_append _ _)⟩
  show s.passed ++ bytes = done ++ (s.outgoing.mWriteBuffer ++ bytes)
  rw [h.passed, List.append_assoc]

/-- INTERNAL: **a flush** hands over the buffer behind the front that was taken before.
SOURCE: proto/tcp_client.cc:36-42 -/
theorem HoldsBack.writeFlush {s : Sender} {done front : List Byte} (h : HoldsBack s done front)
    {socket : Socket} (hsocket : Obeys socket) :
    ((s.call (.writeFlush socket)).1 = .ok () ∧
        (s.call (.writeFlush socket)).2 =
          ⟨⟨[], done ++ front ++ s.outgoing.mWriteBuffer⟩, s.passed⟩) ∨
      ∃ k, (s.call (.writeFlush socket)).1 = .error .systemError ∧
        (s.call (.writeFlush socket)).2 =
          ⟨⟨s.outgoing.mWriteBuffer, done ++ front ++ s.outgoing.mWriteBuffer.take k⟩, s.passed⟩ := by
  have hflushed := (flushed_writeFlush hsocket s.outgoing).ended
  rw [h.sent] at hflushed
  rcases hflushed with hok | ⟨k, hthrown⟩
  · left
    rw [Sender.call, hok]
    exact ⟨rfl, rfl⟩
  · right
    refine ⟨k, ?_⟩
    rw [Sender.call, hthrown]
    exact ⟨rfl, rfl⟩

/-- INTERNAL: a socket that throws at once takes nothing.
SOURCE: proto/tcp_client.cc:38-39 -/
theorem writeFlush_of_none {socket : Socket} {o : Outgoing} (hne : o.mWriteBuffer ≠ [])
    (h : socket o.sent o.mWriteBuffer = none) :
    o.writeFlush socket = (.error .systemError, o) ∧
      flushMoments socket (o.mWriteBuffer.length + 1) 0 o = [] := by
  have hmore : 0 < o.mWriteBuffer.length := List.length_pos_iff.mpr hne
  constructor
  · unfold Outgoing.writeFlush Outgoing.flushLoop
    simp only [if_pos hmore, List.drop_zero, h]
  · unfold flushMoments
    simp only [if_pos hmore, List.drop_zero, h]

/-- INTERNAL: **a call that meets the condition delivers**, and what the buffer holds is as before. -/
theorem HoldsBack.delivers {s : Sender} {done front : List Byte} (h : HoldsBack s done front)
    {c : SendCall} (hobeys : ∀ socket, c = .writeFlush socket → Obeys socket) (hfits : Resumes s c) :
    Delivers s c ∧ ∃ done front, HoldsBack (s.call c).2 done front := by
  cases c with
  | writeBytes bytes =>
    have hafter := h.writeBytes bytes
    refine ⟨⟨?_, hafter.isPrefix, ?_⟩, done, front, hafter⟩
    · intro socket hc
      cases hc
    · intro socket hc
      cases hc
  | writeFlush socket =>
    have hsocket := hobeys socket rfl
    have hflush := h.writeFlush hsocket
    by_cases hfront : front = []
    · subst hfront
      rw [List.append_nil] at hflush
      have hduring : ∀ socket', SendCall.writeFlush socket = .writeFlush socket' →
          ∀ taken ∈ flushMoments socket' (s.outgoing.mWriteBuffer.length + 1) 0 s.outgoing,
            taken <+: s.passed := by
        rintro socket' heq taken hmem
        obtain rfl := SendCall.writeFlush.inj heq
        obtain ⟨k, rfl⟩ := (flushed_writeFlush hsocket s.outgoing).during taken hmem
        rw [h.passed, h.sent, List.append_nil]
        exact (List.prefix_append_right_inj done).mpr (List.take_prefix k _)
      rcases hflush with ⟨-, hstate⟩ | ⟨k, hresult, hstate⟩
      · have hall : HoldsBack (s.call (.writeFlush socket)).2 s.passed [] := by
          rw [hstate]
          exact ⟨by simp, by simp [h.passed], List.nil_prefix⟩
        refine ⟨⟨hduring, hall.isPrefix, fun _ _ _ => ?_⟩, s.passed, [], hall⟩
        rw [hall.sent, List.append_nil, hstate]
      · have hback : HoldsBack (s.call (.writeFlush socket)).2 done
            (s.outgoing.mWriteBuffer.take k) := by
          rw [hstate]
          exact ⟨h.passed, rfl, List.take_prefix k _⟩
        refine ⟨⟨hduring, hback.isPrefix, fun _ _ hok => ?_⟩, done, _, hback⟩
        rw [hresult] at hok
        cases hok
    · have hthrows := hfits.resolve_left (h.unsent_iff.not.mpr hfront)
      have hne : s.outgoing.mWriteBuffer ≠ [] := by
        intro hnil
        have hprefix := h.front
        rw [hnil, List.prefix_nil] at hprefix
        exact hfront hprefix
      obtain ⟨hwrite, hmoments⟩ := writeFlush_of_none hne hthrows
      have hsame : s.call (.writeFlush socket) = (.error .systemError, s) := by
        rw [Sender.call, hwrite]
      refine ⟨⟨?_, ?_, fun _ _ hok => ?_⟩, done, front, ?_⟩
      · rintro socket' heq taken hmem
        obtain rfl := SendCall.writeFlush.inj heq
        rw [hmoments] at hmem
        cases hmem
      · rw [hsame]
        exact h.isPrefix
      · rw [hsame] at hok
        cases hok
      · rw [hsame]
        exact h

/-- INTERNAL: any other flush that returns has handed the front over twice. -/
theorem HoldsBack.not_delivers {s : Sender} {done front : List Byte} (h : HoldsBack s done front)
    {socket : Socket} (hsocket : Obeys socket) (htorn : ¬Unsent s)
    (hok : (s.call (.writeFlush socket)).1 = .ok ()) : ¬Delivers s (.writeFlush socket) := by
  intro hdelivers
  have hfront : front ≠ [] := h.unsent_iff.not.mp htorn
  rcases h.writeFlush hsocket with ⟨-, hstate⟩ | ⟨k, hresult, -⟩
  · have hlength := hdelivers.after.length_le
    rw [hstate, h.passed] at hlength
    simp only [List.length_append] at hlength
    have hpos := List.length_pos_iff.mpr hfront
    omega
  · rw [hresult] at hok
    cases hok

/-! ## Runs -/

/-- INTERNAL: what the buffer holds after a run whose calls meet the condition. -/
theorem holdsBack_calls {s : Sender} {run : List SendCall}
    (hobeys : ∀ socket, .writeFlush socket ∈ run → Obeys socket)
    (hfits : ∀ before c after, run = before ++ c :: after → Resumes (s.calls before) c)
    (h : ∃ done front, HoldsBack s done front) :
    ∃ done front, HoldsBack (s.calls run) done front := by
  induction run generalizing s with
  | nil => exact h
  | cons c run ih =>
    obtain ⟨done, front, hback⟩ := h
    have hfirst : ∀ socket, c = .writeFlush socket → Obeys socket := by
      rintro socket rfl
      exact hobeys socket List.mem_cons_self
    obtain ⟨-, hnext⟩ := hback.delivers hfirst (hfits [] c run rfl)
    apply ih (fun socket hmem => hobeys socket (List.mem_cons_of_mem c hmem)) _ hnext
    rintro before other after rfl
    exact hfits (c :: before) other after rfl

/-- INTERNAL: a packet that is sent is two writes and a flush, and one that is too long no call.
SOURCE: proto/client.cc:27-36 -/
theorem queueSendBody_eq_calls (s : Sender) (socket : Socket) (body : List Byte) :
    s.outgoing.queueSendBody socket body =
      if body.length > 2097151 then (.error (.encodeError "Packet length exceeded"), s.outgoing)
      else
        let written := s.calls
          [.writeBytes (varintWrite (BitVec.ofNat 32 body.length)), .writeBytes body]
        ((written.call (.writeFlush socket)).1, (written.call (.writeFlush socket)).2.outgoing) := by
  unfold Outgoing.queueSendBody
  split_ifs with hlength
  · rfl
  · simp only [writeVarint_eq]
    rfl

/-- SOURCE: proto/tcp_client.cc:32-42 — **when nothing is lost or sent twice**. In every run of
`write_bytes` and `write_flush`, each with any behaviour of the socket, whose flushes all find a buffer
that nothing was taken of, or have nothing taken, every call delivers. A flush that finds a buffer of
which something was taken, behind such a run, does not deliver when it returns. -/
theorem sent_once_of_resumes {run : List SendCall}
    (hobeys : ∀ socket, .writeFlush socket ∈ run → Obeys socket)
    (hfits : ∀ before c after, run = before ++ c :: after → Resumes (Sender.start.calls before) c) :
    (∀ before c after, run = before ++ c :: after → Delivers (Sender.start.calls before) c) ∧
      ∀ socket, Obeys socket → ¬Unsent (Sender.start.calls run) →
        ((Sender.start.calls run).call (.writeFlush socket)).1 = .ok () →
          ¬Delivers (Sender.start.calls run) (.writeFlush socket) := by
  constructor
  · rintro before c after rfl
    have hbefore : ∃ done front, HoldsBack (Sender.start.calls before) done front := by
      apply holdsBack_calls _ _ ⟨[], [], holdsBack_start⟩
      · exact fun socket hmem => hobeys socket (List.mem_append_left _ hmem)
      · rintro first other rest rfl
        exact hfits first other (rest ++ c :: after) (by simp)
    obtain ⟨done, front, hback⟩ := hbefore
    apply (hback.delivers _ (hfits before c after rfl)).1
    rintro socket rfl
    exact hobeys socket (by simp)
  · intro socket hsocket htorn hok
    obtain ⟨done, front, hback⟩ := holdsBack_calls hobeys hfits ⟨[], [], holdsBack_start⟩
    exact hback.not_delivers hsocket htorn hok

/-- A socket that takes one byte in all, and throws behind it. -/
def oneByteSocket : Socket := fun taken _ => if taken = [] then some 1 else none

/-- A socket that takes everything. -/
def openSocket : Socket := fun _ offered => some offered.length

theorem obeys_oneByteSocket : Obeys oneByteSocket := by
  intro taken offered hne n hn
  unfold oneByteSocket at hn
  split_ifs at hn
  obtain rfl := Option.some.inj hn
  exact ⟨le_refl 1, List.length_pos_iff.mpr hne⟩

theorem obeys_openSocket : Obeys openSocket := by
  intro taken offered hne n hn
  obtain rfl := Option.some.inj hn
  exact ⟨List.length_pos_iff.mpr hne, le_refl _⟩

/-- INTERNAL: a write to an empty buffer and a flush of it. -/
theorem resumes_write_flush (bytes : List Byte) (socket : Socket) (before : List SendCall)
    (c : SendCall) (after : List SendCall)
    (heq : [.writeBytes bytes, .writeFlush socket] = before ++ c :: after) :
    Resumes (Sender.start.calls before) c := by
  match before, heq with
  | [], heq =>
    obtain ⟨rfl, -⟩ := List.cons.inj heq
    trivial
  | [first], heq =>
    simp only [List.cons_append, List.nil_append, List.cons.injEq] at heq
    obtain ⟨rfl, rfl, -⟩ := heq
    left
    simp [Unsent, Sender.calls, Sender.call, Sender.start, Outgoing.writeBytes]
  | first :: second :: before, heq =>
    have hlength := congrArg List.length heq
    simp at hlength

theorem sent_once_of_open :
    Delivers (Sender.start.calls [.writeBytes [1, 2]]) (.writeFlush openSocket) ∧
      ¬Delivers (Sender.start.calls [.writeBytes [1, 2], .writeFlush oneByteSocket])
        (.writeFlush openSocket) := by
  have hopen : ∀ socket, SendCall.writeFlush socket ∈
      [.writeBytes [1, 2], .writeFlush openSocket] → Obeys socket := by
    simp [obeys_openSocket]
  have hone : ∀ socket, SendCall.writeFlush socket ∈
      [.writeBytes [1, 2], .writeFlush oneByteSocket] → Obeys socket := by
    simp [obeys_oneByteSocket]
  constructor
  · exact (sent_once_of_resumes hopen (resumes_write_flush _ _)).1 [.writeBytes [1, 2]] _ [] rfl
  · apply (sent_once_of_resumes hone (resumes_write_flush _ _)).2 openSocket obeys_openSocket
    · unfold Unsent
      decide
    · rfl

/-- SOURCE: proto/tcp_client.cc:36-42 — two bytes of which the socket takes one before it throws: the
next flush hands over the first one again. -/
theorem first_byte_sent_twice :
    Obeys oneByteSocket ∧ Obeys openSocket ∧
      (Sender.start.calls [.writeBytes [1, 2], .writeFlush oneByteSocket,
        .writeFlush openSocket]).outgoing.sent = [1, 1, 2] ∧
      ¬Delivers (Sender.start.calls [.writeBytes [1, 2], .writeFlush oneByteSocket])
        (.writeFlush openSocket) := by
  refine ⟨obeys_oneByteSocket, obeys_openSocket, rfl, ?_⟩
  intro hdelivers
  have hafter := hdelivers.after
  revert hafter
  decide

end Mccpp.Analysis
