import Mccpp.Interface.Session
import Mccpp.Analysis.PacketSafety

/-!
# Requests and replies

What a client has sent at any time of a session is told by the packets it has received: their
types, in the states they were received in, and the ids in some of them. The step is one packet
(`exchange_of_receivePacket`), which follows from the layout of the packet.
-/

set_option autoImplicit false

namespace Mccpp.Analysis

open Mccpp.Library Mccpp.Model Mccpp.Model.PacketM Mccpp.Interface

variable {env : Environment}

/-! ## Sending -/

/-- INTERNAL: a flush that ends without an exception has handed over everything, whatever the
socket did.
SOURCE: proto/tcp_client.cc:37-43 -/
theorem flushLoop_ok {socket : Socket} {fuel offset : ℕ} {o o' : Outgoing}
    (h : Outgoing.flushLoop socket fuel offset o = (.ok (), o')) :
    o' = ⟨[], o.sent ++ o.mWriteBuffer.drop offset⟩ := by
  induction fuel generalizing offset o with
  | zero => cases h
  | succ fuel ih =>
    unfold Outgoing.flushLoop at h
    split at h
    · split at h
      · cases h
      · rename_i n _
        rw [ih h]
        dsimp only
        rw [List.append_assoc, ← List.drop_drop, List.take_append_drop]
    · rename_i hend
      have hnil : o.mWriteBuffer.drop offset = [] := List.drop_eq_nil_iff.mpr (by omega)
      cases h
      rw [hnil, List.append_nil]

/-- INTERNAL: **a packet that was sent** is one frame more.
SOURCE: proto/client.hh:16-22, proto/client.cc:27-36 -/
theorem queueSend_ok {c c' : Client} {p : ServerboundPacket} (hbuffer : c.outgoing.mWriteBuffer = [])
    (h : c.queueSend env p = (.ok (), c')) :
    c' = { c with outgoing := ⟨[], c.outgoing.sent ++ framesOf env [p]⟩ } := by
  have houtgoing : ∃ o, c.outgoing.queueSend env.socket env.serverboundId p = (.ok (), o) ∧
      c' = { c with outgoing := o } := by
    unfold Client.queueSend at h
    dsimp only at h
    rw [Prod.mk.injEq] at h
    obtain ⟨hok, rfl⟩ := h
    exact ⟨_, Prod.ext hok rfl, rfl⟩
  obtain ⟨o, hsend, rfl⟩ := houtgoing
  rcases queueSend_cases env.socket env.serverboundId p c.outgoing with ⟨_, hcase⟩ |
    ⟨_, what, hcase⟩
  · rw [hcase] at hsend
    unfold Outgoing.queueSendBody at hsend
    split at hsend
    · cases hsend
    · have hflush := flushLoop_ok hsend
      rw [hflush, writeVarint_eq]
      simp [Outgoing.writeBytes, hbuffer, framesOf, frameBytes]
  · rw [hcase] at hsend
    cases hsend

theorem spells_sendLayout {c c' : Client} {p : ServerboundPacket} {us : List Byte}
    (h : (sendLayout env p c).Spells us ((), c')) : us = [] ∧ c.queueSend env p = (.ok (), c') := by
  unfold sendLayout at h
  split at h
  · rename_i hsend
    obtain ⟨hnil, hpair⟩ := h
    cases hpair
    exact ⟨hnil, hsend⟩
  · exact h.elim

theorem framesOf_append (ps qs : List ServerboundPacket) :
    framesOf env (ps ++ qs) = framesOf env ps ++ framesOf env qs := List.flatMap_append

theorem spells_sendAllLayout {ps : List ServerboundPacket} {c c' : Client} {us : List Byte}
    (hbuffer : c.outgoing.mWriteBuffer = []) (h : (sendAllLayout env ps c).Spells us ((), c')) :
    c' = { c with outgoing := ⟨[], c.outgoing.sent ++ framesOf env ps⟩ } := by
  induction ps generalizing c us with
  | nil =>
    obtain ⟨_, hpair⟩ := h
    have heq : c' = c := congrArg Prod.snd hpair
    obtain ⟨_, _, _, _, buffer, sent⟩ := c
    cases hbuffer
    rw [heq]
    simp [framesOf]
  | cons p ps ih =>
    obtain ⟨_, _, ⟨_, c₁⟩, _, hfirst, hrest⟩ := h
    rw [queueSend_ok hbuffer (spells_sendLayout hfirst).2] at hrest
    rw [ih rfl hrest, List.append_assoc, ← framesOf_append]
    rfl

/-! ## What a packet does to the client -/

/-- INTERNAL: loading chunks changes nothing but the world. -/
theorem spells_chunksLayout {x y : BitVec 32} {pointers : List ℕ} {c c' : Client} {us : List Byte}
    (h : (chunksLayout x y pointers c).Spells us ((), c')) :
    c'.outgoing = c.outgoing ∧ c'.mState = c.mState := by
  induction pointers generalizing c us with
  | nil =>
    have heq : c' = c := congrArg Prod.snd h.2
    rw [heq]
    exact ⟨rfl, rfl⟩
  | cons pointer pointers ih =>
    obtain ⟨_, _, ⟨_, c₁⟩, _, ⟨r, _, hpair⟩, hrest⟩ := h
    cases hpair
    exact ih (c := c.setChunk x y pointer r.2) hrest

theorem spells_columnLayout {memory : ℕ} {x y : BitVec 32} {pointers : List ℕ} {c c' : Client}
    {us : List Byte} (h : (columnLayout memory x y c).Spells us (pointers, c')) :
    c'.outgoing = c.outgoing ∧ c'.mState = c.mState := by
  rcases getColumn_apply memory x y c 0 with ⟨_, _, hlayout⟩ | ⟨_, _, _, _, _, _, hlayout⟩
  · rw [hlayout] at h
    exact h.elim
  · rw [hlayout] at h
    cases h.2
    exact ⟨rfl, rfl⟩

theorem spells_chunkDataLayout {memory : ℕ} {x y : BitVec 32} {n : ℕ} {c c' : Client}
    {us : List Byte} (h : (chunkDataLayout memory x y n c).Spells us ((), c')) :
    c'.outgoing = c.outgoing ∧ c'.mState = c.mState := by
  obtain ⟨_, _, ⟨pointers, c₁⟩, _, hcolumn, _, _, ⟨_, c₂⟩, _, ⟨_, _, _, _, hchunks⟩, htail⟩ := h
  obtain ⟨hout₁, hstate₁⟩ := spells_columnLayout hcolumn
  obtain ⟨hout₂, hstate₂⟩ := spells_chunksLayout hchunks
  have heq : c' = c₂ := by
    obtain ⟨_, _, ⟨_, c₃⟩, _, ⟨_, _, hpair⟩, hrest⟩ := htail
    cases hpair
    exact congrArg Prod.snd hrest
  rw [heq]
  exact ⟨hout₂.trans hout₁, hstate₂.trans hstate₁⟩

/-- INTERNAL: **one packet**, by what is behind its id.
SOURCE: client/handlers.cc:11-60, client/handlers/ -/
theorem answers_of_spells {memory : ℕ} {type : ClientboundType} {arguments : List Byte}
    {c c' : Client} (hbuffer : c.outgoing.mWriteBuffer = [])
    (h : (argumentsLayout env memory type c).Spells arguments ((), c')) :
    ∃ replies, Answers type arguments replies ∧
      (∀ p ∈ replies, p.type.state = type.state) ∧
      c'.outgoing = ⟨[], c.outgoing.sent ++ framesOf env replies⟩ ∧
      c'.mState = if type = .gameProfile then .play else c.mState := by
  have hsame : c.outgoing = ⟨[], c.outgoing.sent ++ framesOf env []⟩ := by
    obtain ⟨_, _, _, _, buffer, sent⟩ := c
    cases hbuffer
    simp [framesOf]
  cases type with
  | pongResponse | statusResponse =>
    obtain ⟨_, _, hpair⟩ := h
    cases hpair
    exact ⟨[], .nothing _ _ (by simp), by simp, hsame, rfl⟩
  | loginCustomQuery =>
    obtain ⟨front, _, ⟨messageId, _⟩, rfl, ⟨_, hid, hpair⟩, rest, _, ⟨_, c₁⟩, rfl, hrest, hsend⟩ := h
    cases hpair
    have hc₁ : c₁ = c := congrArg Prod.snd hrest
    obtain ⟨rfl, hsent⟩ := spells_sendLayout hsend
    rw [hc₁] at hsent
    rw [queueSend_ok hbuffer hsent]
    exact ⟨_, .customQuery messageId front _ hid, by simp [ServerboundPacket.type,
      ServerboundType.state, ClientboundType.state], rfl, rfl⟩
  | gameProfile =>
    obtain ⟨_, _, _, _, ⟨_, _, hpair⟩, _, hc'⟩ := h
    cases hpair
    have heq : c' = { c with mState := .play } := congrArg Prod.snd hc'
    rw [heq]
    exact ⟨[], .nothing _ _ (by simp), by simp, hsame, rfl⟩
  | hello | loginCompression => exact h.elim
  | customPayload =>
    obtain ⟨_, _, _, _, ⟨_, _, hpair⟩, hc'⟩ := h
    cases hpair
    have heq : c' = c := congrArg Prod.snd hc'
    rw [heq]
    exact ⟨[], .nothing _ _ (by simp), by simp, hsame, rfl⟩
  | keepAlive =>
    obtain ⟨front, _, ⟨keepAliveId, _⟩, rfl, ⟨_, hid, hpair⟩, hsend⟩ := h
    cases hpair
    obtain ⟨rfl, hsent⟩ := spells_sendLayout hsend
    have hbytes : front = bigEndian 8 keepAliveId.toNat := hid
    rw [queueSend_ok hbuffer hsent, List.append_nil, hbytes]
    exact ⟨_, .keepAlive keepAliveId, by simp [ServerboundPacket.type, ServerboundType.state,
      ClientboundType.state], rfl, rfl⟩
  | levelChunkWithLight =>
    obtain ⟨_, _, ⟨⟨x, y, n⟩, _⟩, _, ⟨_, _, hpair⟩, hdata⟩ := h
    cases hpair
    obtain ⟨hout, hstate⟩ := spells_chunkDataLayout hdata
    exact ⟨[], .nothing _ _ (by simp), by simp, hout.trans hsame, hstate⟩
  | login =>
    obtain ⟨_, _, _, _, ⟨_, _, hpair⟩, _, _, ⟨_, c₁⟩, _, ⟨_, hworld⟩, hsend⟩ := h
    cases hpair
    have hc₁ : c₁ = { c with mWorld := some (World.init 384) } := congrArg Prod.snd hworld
    rw [hc₁] at hsend
    have hsent := spells_sendAllLayout (c := { c with mWorld := some (World.init 384) }) hbuffer hsend
    rw [hsent]
    exact ⟨_, .login _, by simp [ServerboundPacket.type, ServerboundType.state,
      ClientboundType.state], rfl, rfl⟩
  | other state number =>
    have heq : c' = c := congrArg Prod.snd h
    rw [heq]
    exact ⟨[], .nothing _ _ (by simp), by simp, hsame, rfl⟩

/-- INTERNAL: a packet that is received without an exception is used up.
SOURCE: proto/client.cc:82-87 -/
theorem spells_of_receivePacket {memory : ℕ} {c c' : Client} {body left : List Byte} {n : ℕ}
    (hrun : (receivePacket env memory c body.length).run body = some ((.ok (), c', n), left)) :
    (bodyLayout env memory c).Spells body ((), c') := by
  obtain ⟨hcount, used, hused, hspells⟩ :=
    ((ends_receivePacket env memory).sound c body _ left hrun).1 () rfl
  have hchecked : n = 0 := by
    unfold receivePacket at hrun
    rw [bind_apply, Pull.run_bind] at hrun
    obtain ⟨⟨⟨e | packetId, c₁, n₁⟩, left₁⟩, _, hrest⟩ := Option.bind_eq_some_iff.mp hrun
    · cases hrest
    · dsimp only at hrest
      rw [andThen_ok, bind_apply, Pull.run_bind] at hrest
      obtain ⟨⟨⟨e | _, c₂, n₂⟩, left₂⟩, _, hlast⟩ := Option.bind_eq_some_iff.mp hrest
      · cases hlast
      · by_cases hzero : n₂ = 0
        · subst hzero
          cases hlast
          rfl
        · have hthrow : (do
              let n ← remaining
              if n ≠ 0 then fail (.decodeError "trailing data in packet") else pure () :
                PacketM Client Unit) c₂ n₂ =
              .done (.error (.decodeError "trailing data in packet"), c₂, n₂) := by
            show (if n₂ ≠ 0 then fail (.decodeError "trailing data in packet") else pure () :
              PacketM Client Unit) c₂ n₂ = _
            rw [if_pos hzero]
            rfl
          dsimp only at hlast
          rw [andThen_ok, hthrow] at hlast
          cases hlast
  have hleft : left = [] := List.length_eq_zero_iff.mp (hcount.symm.trans hchecked)
  rw [hleft, List.append_nil] at hused
  rw [hused]
  exact hspells

/-- INTERNAL: **one packet is one exchange**.
SOURCE: proto/client.cc:79-87, client/handlers.cc:38-60 -/
theorem exchange_of_receivePacket {memory : ℕ} {c c' : Client} {body left : List Byte} {n : ℕ}
    (hbuffer : c.outgoing.mWriteBuffer = [])
    (hrun : (receivePacket env memory c body.length).run body = some ((.ok (), c', n), left)) :
    ∃ e : Exchange, e.state = c.mState ∧ Exchanged env body e ∧
      (∀ p ∈ e.replies, p.type.state = e.state) ∧
      c'.outgoing = ⟨[], c.outgoing.sent ++ framesOf env e.replies⟩ ∧
      c'.mState = if e.type = .gameProfile then .play else c.mState := by
  obtain ⟨front, arguments, ⟨packetId, _⟩, rfl, ⟨_, hid, hpair⟩, hrest⟩ :=
    spells_of_receivePacket hrun
  cases hpair
  dsimp only at hrest
  split at hrest
  · rename_i type htype
    obtain ⟨replies, hanswers, hstates, hout, hstate⟩ := answers_of_spells hbuffer hrest
    refine ⟨⟨c.mState, type, replies⟩, rfl, ⟨front, arguments, packetId, rfl, hid, htype, hanswers⟩,
      ?_, hout, hstate⟩
    intro p hp
    rw [hstates p hp]
    exact env.clientbound_state _ _ _ htype
  · exact hrest.elim

/-! ## The whole session -/

theorem stateAfter_append (before : List Exchange) (e : Exchange) :
    stateAfter (before ++ [e]) = if e.type = .gameProfile then .play else stateAfter before := by
  unfold stateAfter
  by_cases he : e.type = .gameProfile
  · simp [he]
  · simp [he]

/-- INTERNAL: **the session so far**, and the packets received from then on. The invariant is that
the state and what was sent are those of the exchanges so far. -/
theorem receiveAll_exchanges (received : List Received) (before : List Exchange) (start : List Byte)
    (c c' : Client) (hstate : c.mState = stateAfter before)
    (hout : c.outgoing = ⟨[], start ++ framesOf env (before.flatMap Exchange.replies)⟩)
    (hrun : receiveAll env received c = some c') :
    ∃ exchanges : List Exchange,
      List.Forall₂ (Exchanged env) (received.map Received.body) exchanges ∧
      (∀ earlier e later, exchanges = earlier ++ e :: later →
        e.state = stateAfter (before ++ earlier) ∧ ∀ p ∈ e.replies, p.type.state = e.state) ∧
      c'.mState = stateAfter (before ++ exchanges) ∧
      c'.outgoing =
        ⟨[], start ++ framesOf env ((before ++ exchanges).flatMap Exchange.replies)⟩ := by
  induction received generalizing before c with
  | nil =>
    cases hrun
    refine ⟨[], .nil, ?_, ?_, ?_⟩
    · intro earlier e later hsplit
      exact absurd hsplit (by simp)
    · rw [List.append_nil, hstate]
    · rw [List.append_nil, hout]
  | cons p received ih =>
    unfold receiveAll at hrun
    split at hrun
    · rename_i c₁ n left hfirst
      obtain ⟨e, hestate, hexchanged, hreplies, hout₁, hstate₁⟩ :=
        exchange_of_receivePacket (by rw [hout]) hfirst
      obtain ⟨exchanges, hall, hsplits, hfinal, hsent⟩ := ih (before ++ [e]) c₁
        (by rw [hstate₁, stateAfter_append, hstate])
        (by
          rw [hout₁, hout, List.flatMap_append, framesOf_append, List.flatMap_singleton,
            List.append_assoc]) hrun
      rw [List.append_assoc] at hfinal hsent
      refine ⟨e :: exchanges, .cons hexchanged hall, ?_, hfinal, hsent⟩
      intro earlier f later hsplit
      cases earlier with
      | nil =>
        cases hsplit
        exact ⟨by rw [List.append_nil, hestate, hstate], hreplies⟩
      | cons f' earlier =>
        cases hsplit
        obtain ⟨hf, hfreplies⟩ := hsplits earlier f later rfl
        rw [List.append_assoc] at hf
        exact ⟨hf, hfreplies⟩
    · cases hrun

/-- INTERNAL: what is sent when the connection is there.
SOURCE: client/client.cc:17-30 -/
theorem onConnect_ok {serverName : List Byte} {serverPort : BitVec 16} {c : Client}
    (h : (Client.connecting serverName serverPort).onConnect env = (.ok (), c)) :
    c.mState = .login ∧ c.outgoing = ⟨[], framesOf env
      [.clientIntention ⟨761, serverName, serverPort, .login⟩,
        .hello ⟨literalBytes "Foobar", none⟩]⟩ := by
  unfold Client.onConnect at h
  split at h
  · cases h
  · rename_i c₁ hintention
    have hc₁ := queueSend_ok rfl hintention
    have hc := queueSend_ok (by rw [hc₁]) h
    rw [hc, hc₁]
    exact ⟨rfl, by simp [Client.connecting, framesOf]⟩

/-- A profile and a `keep_alive` packet. -/
def smallSession : List Received :=
  [⟨2 :: List.replicate 18 0, 0⟩, ⟨[31, 0, 0, 0, 0, 0, 0, 0, 5], 0⟩]

end Mccpp.Analysis
