import Mccpp.Interface.ClientRun
import Mccpp.Analysis.ConnectionFragmentation
import Mccpp.Analysis.Outcomes
import Mccpp.Analysis.Sending
import Mccpp.Analysis.Sessions
import Mccpp.Analysis.VarintCodec

/-!
# The client over its connection

A run of a client is a run of its connection from where `on_connect()` has sent the first packets
(`run_of_clientRun`). Since the connection shows what the one-shot parse of the stream shows, the packets
handled are the complete ones of the stream (`receiveAll_of_frames`), and the session over these is what
the client has sent, however the stream was cut (`client_converses`).
-/

set_option autoImplicit false

namespace Mccpp.Analysis

open Mccpp.Library Mccpp.Model Mccpp.Model.PacketM Mccpp.Interface

variable {env : Environment} {memory : Client → ℕ} {storage : Fin readCapacity → Byte}
  {serverName : List Byte} {serverPort : BitVec 16}

/-! ## Connecting -/

/-- INTERNAL: **a client is a connection** whose packets it handles, from where it has connected.
SOURCE: client/client.cc:7-30, proto/client.cc:17-21 -/
theorem run_of_clientRun {pieces : List (List Byte)} {c : Connection Client} {e : Option Failure}
    (run : Client.Run env memory storage serverName serverPort pieces c e) :
    ∃ start, (Client.connecting serverName serverPort).onConnect env = (.ok (), start) ∧
      Connection.Run (Client.handlePackets env memory) storage start pieces c e := by
  induction run with
  | connect c h =>
    unfold Client.connect at h
    rw [start_waits] at h
    obtain ⟨hresult, hc⟩ := Prod.mk.inj (Except.ok.inj h)
    refine ⟨((Client.connecting serverName serverPort).onConnect env).2, Prod.ext hresult rfl, ?_⟩
    rw [← hc]
    exact .start _ (start_waits _ storage _)
  | complete pieces data c d r e run hdata h ih =>
    obtain ⟨start, hconnect, hrun⟩ := ih
    exact ⟨start, hconnect, .complete pieces data c d r e hrun hdata h⟩

/-- INTERNAL: the handlers of the client stay inside their packet.
SOURCE: client/handlers/ -/
theorem staysInBody_handlePackets (hsocket : Progressing env.socket) :
    StaysInBody (Client.handlePackets env memory) := by
  refine staysInBody_of_metered fun packetId => metered_get.bind fun c => metered_get.bind fun c => ?_
  split
  · exact metered_handlePacket hsocket _ _
  · exact metered_fail (by simp)

/-! ## The packets that are handled -/

/-- INTERNAL: the connection and the session handle a packet in the same way.
SOURCE: proto/client.cc:79-87 -/
theorem receivePacket_of_dispatch {c : Client} {body : List Byte}
    (h : (dispatch (Client.handlePackets env memory) c body).failure = none) :
    (receivePacket env (memory c) c body.length).run body =
      some ((.ok (), (dispatch (Client.handlePackets env memory) c body).client, 0), []) := by
  unfold receivePacket
  rw [bind_apply, Pull.run_bind]
  unfold dispatch at h ⊢
  cases hread : (PacketM.readVarint c body.length).run body with
  | none =>
    rw [hread] at h
    cases h
  | some read =>
    rw [hread] at h
    obtain ⟨⟨result, client, n⟩, rest⟩ := read
    obtain rfl := (inspects_readVarint c _ _ _ _ hread).1.symm
    cases result with
    | error e => cases h
    | ok packetId =>
      have hcount := ((follows_readVarint.sound c body _ rest hread).1 packetId rfl).1
      dsimp only at h hcount ⊢
      subst hcount
      rw [Option.bind_some, andThen_ok, bind_apply, Pull.run_bind]
      -- `get` in front of `on_packet_received` changes nothing
      have hhandle : Client.handlePackets env memory packetId c rest.length =
          onPacketReceived env (memory c) packetId c rest.length := rfl
      unfold handOn at h ⊢
      rw [hhandle] at h ⊢
      cases hrun : (onPacketReceived env (memory c) packetId c rest.length).run rest with
      | none =>
        rw [hrun] at h
        cases h
      | some handled =>
        rw [hrun] at h
        obtain ⟨⟨result, client, n⟩, left⟩ := handled
        cases result with
        | error e => cases h
        | ok u =>
          have hleft : left = [] := by
            by_contra hne
            dsimp only at h
            rw [if_neg hne] at h
            cases h
          have hn := ((ends_onPacketReceived env (memory c) packetId).sound c rest _ left hrun).1 u rfl
          subst hleft
          have hzero : n = 0 := hn.1
          subst hzero
          rfl

/-- INTERNAL: **the packets of a stream**, by induction on the bound on the frames: where none of them
fails, they are received one after another, up to the beginning of a packet.
SOURCE: proto/client.cc:67-89 -/
theorem receiveAll_of_frames (fuel : ℕ) (c : Client) (stream : List Byte)
    (h : (frames (Client.handlePackets env memory) fuel c (frontOf 0 0 stream)).failure = none) :
    ∃ received : List Received, received.map Received.body = (splitFrames fuel stream).1 ∧
      frontOf 0 0 (splitFrames fuel stream).2 = .incomplete ∧
      receiveAll env received c =
        some (frames (Client.handlePackets env memory) fuel c (frontOf 0 0 stream)).client := by
  induction fuel generalizing c stream with
  | zero =>
    cases hfront : frontOf 0 0 stream with
    | incomplete => exact ⟨[], rfl, hfront, rfl⟩
    | malformed e =>
      rw [hfront] at h
      cases h
    | frame body rest =>
      rw [hfront] at h
      cases h
  | succ fuel ih =>
    unfold splitFrames
    cases hfront : frontOf 0 0 stream with
    | incomplete => exact ⟨[], rfl, hfront, rfl⟩
    | malformed e =>
      rw [hfront] at h
      cases h
    | frame body rest =>
      rw [hfront, frames] at h
      rw [frames]
      cases hfailure : (dispatch (Client.handlePackets env memory) c body).failure with
      | some e =>
        unfold Observed.andThen at h
        rw [hfailure] at h
        dsimp only at h
        rw [hfailure] at h
        cases h
      | none =>
        have hpacket := receivePacket_of_dispatch hfailure
        unfold Observed.andThen at h ⊢
        rw [hfailure] at h ⊢
        obtain ⟨received, hbodies, htail, hall⟩ := ih _ rest h
        refine ⟨⟨body, memory c⟩ :: received, by rw [List.map_cons, hbodies]; rfl, htail, ?_⟩
        unfold receiveAll
        dsimp only
        rw [hpacket]
        exact hall

/-- INTERNAL: **a run is a session** over the complete packets of the bytes that have come.
SOURCE: proto/client.cc:67-89, client/client.cc:17-30 -/
theorem session_of_clientRun (hsocket : Progressing env.socket) {pieces : List (List Byte)}
    {c : Connection Client} (run : Client.Run env memory storage serverName serverPort pieces c none)
    (hbytes : pieces.flatten.length < sizeModulus) :
    ∃ start received, (Client.connecting serverName serverPort).onConnect env = (.ok (), start) ∧
      received.map Received.body = (splitStream pieces.flatten).1 ∧
      frontOf 0 0 (splitStream pieces.flatten).2 = .incomplete ∧
      receiveAll env received start = some c.client := by
  obtain ⟨start, hconnect, hrun⟩ := run_of_clientRun run
  obtain ⟨htracks, _, hthrown⟩ := tracks_of_run (staysInBody_handlePackets hsocket) hrun hbytes
  have hobserved := observed_of_tracks htracks
  rw [List.append_nil] at hobserved
  have hfailure : (oneShot (Client.handlePackets env memory) start pieces.flatten).failure = none := by
    rw [← hobserved]
    exact hthrown.symm
  obtain ⟨received, hbodies, htail, hall⟩ := receiveAll_of_frames _ start pieces.flatten hfailure
  refine ⟨start, received, hconnect, hbodies, htail, ?_⟩
  rw [hall]
  have hclient := congrArg Observed.client hobserved
  exact congrArg some hclient.symm

/-! ## What has been sent -/

theorem length_varintWrite_le (v : BitVec 32) : (varintWrite v).length ≤ 5 :=
  length_writeVarintLoop_le (by omega) (by omega)

/-- INTERNAL: a packet that was sent was no longer than the receiver takes.
SOURCE: proto/client.cc:27-31 -/
theorem length_of_queueSend {c c' : Client} {p : ServerboundPacket}
    (h : c.queueSend env p = (.ok (), c')) : (packetBody env.serverboundId p).length ≤ 2097151 := by
  have hsend : (c.outgoing.queueSend env.socket env.serverboundId p).1 = .ok () :=
    congrArg Prod.fst h
  rcases queueSend_cases env.socket env.serverboundId p c.outgoing with ⟨_, hcase⟩ |
    ⟨_, what, hcase⟩
  · rw [hcase] at hsend
    by_contra hlong
    rw [queueSendBody_too_long env.socket (by omega)] at hsend
    cases hsend
  · rw [hcase] at hsend
    cases hsend

theorem length_of_answers {type : ClientboundType} {arguments : List Byte}
    {replies : List ServerboundPacket} (h : Answers type arguments replies) :
    ∀ p ∈ replies, (packetBody env.serverboundId p).length ≤ 2097151 := by
  intro p hp
  have hid := length_varintWrite_le (env.serverboundId p.type)
  cases h with
  | customQuery messageId front rest hspells =>
    obtain rfl := List.mem_singleton.mp hp
    have hmessage := length_varintWrite_le messageId
    simp only [packetBody, fieldsOf, Field.encode, List.flatMap_cons, List.flatMap_nil,
      List.length_append, List.length_cons, List.length_nil]
    omega
  | keepAlive keepAliveId =>
    obtain rfl := List.mem_singleton.mp hp
    simp only [packetBody, fieldsOf, Field.encode, List.flatMap_cons, List.flatMap_nil,
      List.length_append, List.length_nil, length_bigEndian]
    omega
  | login arguments =>
    have hlengths : (literalBytes "minecraft:brand").length = 15 ∧
        (literalBytes "mccpp").length = 5 ∧ (literalBytes "en_US").length = 5 := by decide
    obtain ⟨hbrand, hname, hlocale⟩ := hlengths
    have hprefix := fun n : ℕ => length_varintWrite_le (BitVec.ofNat 32 n)
    rcases List.mem_cons.mp hp with rfl | hp
    · have := hprefix (literalBytes "minecraft:brand").length
      simp only [packetBody, fieldsOf, Field.encode, Field.encodeString, List.flatMap_cons,
        List.flatMap_nil, List.length_append, List.length_nil]
      omega
    · obtain rfl := List.mem_singleton.mp hp
      have := hprefix (literalBytes "en_US").length
      have hmode := length_varintWrite_le 2
      have hhand := length_varintWrite_le 1
      simp only [packetBody, fieldsOf, Field.encode, Field.encodeString, List.flatMap_cons,
        List.flatMap_nil, List.length_append, List.length_cons, List.length_nil]
      omega
  | nothing type arguments hother => cases hp

theorem packetBody_ne_nil (id : ServerboundType → BitVec 32) (p : ServerboundPacket) :
    0 < (packetBody id p).length := by
  have hspells := spells_varintWrite (id p.type)
  unfold packetBody
  cases hid : varintWrite (id p.type) with
  | nil =>
    rw [hid] at hspells
    exact hspells.elim
  | cons b bs => simp

/-- INTERNAL: the receiver's grammar splits the frames of packets into their bodies. -/
theorem splitStream_framesOf {packets : List ServerboundPacket}
    (h : ∀ p ∈ packets, (packetBody env.serverboundId p).length ≤ 2097151) :
    splitStream (framesOf env packets) = (packets.map (packetBody env.serverboundId), []) := by
  have hbodies : ∀ body ∈ packets.map (packetBody env.serverboundId),
      0 < body.length ∧ body.length ≤ 2097151 := by
    intro body hbody
    obtain ⟨p, hp, rfl⟩ := List.mem_map.mp hbody
    exact ⟨packetBody_ne_nil _ p, h p hp⟩
  have hframes : framesOf env packets =
      (packets.map (packetBody env.serverboundId)).flatMap frameBytes := by
    rw [framesOf, List.flatMap_map]
  unfold splitStream
  rw [hframes]
  exact splitFrames_frameBytes hbodies (length_le_flatMap_frameBytes fun body hbody =>
    (hbodies body hbody).1)

/-- INTERNAL: the packets that are sent when the connection is there are no longer either.
SOURCE: client/client.cc:17-30 -/
theorem length_of_onConnect {c : Client}
    (h : (Client.connecting serverName serverPort).onConnect env = (.ok (), c)) :
    (packetBody env.serverboundId (.clientIntention ⟨761, serverName, serverPort, .login⟩)).length ≤
        2097151 ∧
      (packetBody env.serverboundId (.hello ⟨literalBytes "Foobar", none⟩)).length ≤ 2097151 := by
  unfold Client.onConnect at h
  split at h
  · cases h
  · rename_i c₁ hintention
    exact ⟨length_of_queueSend hintention, length_of_queueSend h⟩

/-- What a relation between two lists says of the second one. -/
theorem exists_of_forall₂ {α β : Type} {R : α → β → Prop} {as : List α} {bs : List β}
    (h : List.Forall₂ R as bs) {b : β} (hb : b ∈ bs) : ∃ a ∈ as, R a b := by
  induction h with
  | nil => cases hb
  | cons hhead htail ih =>
    rcases List.mem_cons.mp hb with rfl | hb
    · exact ⟨_, List.mem_cons_self, hhead⟩
    · obtain ⟨a, ha, hab⟩ := ih hb
      exact ⟨a, List.mem_cons_of_mem _ ha, hab⟩

/-- INTERNAL: **a session is a conversation**.
SOURCE: proto/client.cc:67-89, client/client.cc:17-30, client/handlers/ -/
theorem conversation_of_session {stream : List Byte} {start c : Client} {received : List Received}
    (hconnect : (Client.connecting serverName serverPort).onConnect env = (.ok (), start))
    (hbodies : received.map Received.body = (splitStream stream).1)
    (htail : frontOf 0 0 (splitStream stream).2 = .incomplete)
    (hall : receiveAll env received start = some c) :
    ∃ exchanges, Conversation env serverName serverPort stream c exchanges := by
  obtain ⟨hlogin, hstart⟩ := onConnect_ok hconnect
  have hempty : framesOf env (([] : List Exchange).flatMap Exchange.replies) = [] := rfl
  obtain ⟨exchanges, hexchanged, hsplits, hstate, hsent⟩ := receiveAll_exchanges received []
    (framesOf env [.clientIntention ⟨761, serverName, serverPort, .login⟩,
      .hello ⟨literalBytes "Foobar", none⟩]) start c hlogin
    (by rw [hstart, hempty, List.append_nil]) hall
  have hpackets : (sessionPackets serverName serverPort exchanges).map Prod.snd =
      [.clientIntention ⟨761, serverName, serverPort, .login⟩, .hello ⟨literalBytes "Foobar", none⟩] ++
        exchanges.flatMap Exchange.replies := by
    simp [sessionPackets, List.map_flatMap, Function.comp_def]
  have hout : c.outgoing = ⟨[], framesOf env
      ((sessionPackets serverName serverPort exchanges).map Prod.snd)⟩ := by
    rw [hsent, hpackets, framesOf_append]
    rfl
  rw [hbodies] at hexchanged
  refine ⟨exchanges, hexchanged, fun earlier e later hsplit => (hsplits earlier e later hsplit).1,
    htail, hout, ?_, hstate⟩
  rw [hout, splitStream_framesOf]
  intro p hp
  rw [hpackets] at hp
  obtain ⟨hintention, hhello⟩ := length_of_onConnect hconnect
  rcases List.mem_append.mp hp with hp | hp
  · rcases List.mem_cons.mp hp with rfl | hp
    · exact hintention
    · obtain rfl := List.mem_singleton.mp hp
      exact hhello
  · obtain ⟨e, he, hp⟩ := List.mem_flatMap.mp hp
    obtain ⟨_, _, _, arguments, _, _, _, _, hanswers⟩ := exists_of_forall₂ hexchanged he
    exact length_of_answers hanswers p hp

/-- INTERNAL: **a run of one piece**, where the one-shot parse of it does not fail.
SOURCE: proto/tcp_client.cc:48-72, client/client.cc:17-30 -/
theorem run_of_oneShot (hsocket : Progressing env.socket) {start : Client} {data : List Byte}
    (hconnect : (Client.connecting serverName serverPort).onConnect env = (.ok (), start))
    (hne : data ≠ []) (hlength : data.length ≤ 2097151)
    (hfailure : (oneShot (Client.handlePackets env memory) start data).failure = none) :
    ∃ c, Client.Run env memory storage serverName serverPort [data] c none := by
  have hstays : StaysInBody (Client.handlePackets env memory) := staysInBody_handlePackets hsocket
  have hconnected : Client.connect env memory storage serverName serverPort = .ok (.ok (),
      { Connection.init storage start with
        mResume := some (.readByte 0 0)
        offered := some readCapacity }) := by
    have hclient := congrArg Prod.snd hconnect
    have hresult := congrArg Prod.fst hconnect
    unfold Client.connect
    rw [start_waits]
    show Except.ok (((Client.connecting serverName serverPort).onConnect env).1,
      { Connection.init storage ((Client.connecting serverName serverPort).onConnect env).2 with
        mResume := some (.readByte 0 0)
        offered := some readCapacity }) = _
    rw [hresult, hclient]
  have hrun := Client.Run.connect _ hconnected
  obtain ⟨start', hconnect', hreads⟩ := run_of_clientRun hrun
  rw [hconnect, Prod.mk.injEq] at hconnect'
  obtain ⟨_, rfl⟩ := hconnect'
  have hdeliverable : Connection.Deliverable
      { Connection.init storage start with
        mResume := some (.readByte 0 0)
        offered := some readCapacity } data := by
    refine ⟨hne, readCapacity, rfl, ?_⟩
    rw [readCapacity_eq]
    exact hlength
  obtain ⟨d, hd, _⟩ := complete_of_waiting hstays (waiting_of_run hstays hreads) hdeliverable
  have hbytes : [data].flatten.length < sizeModulus := by
    rw [sizeModulus_eq, List.flatten_singleton]
    omega
  obtain ⟨htracks, _, _⟩ := tracks_of_run hstays (.complete _ _ _ d none _ hreads hdeliverable hd) hbytes
  have hobserved := observed_of_tracks htracks
  rw [List.append_nil, List.nil_append, List.flatten_singleton] at hobserved
  have hnone : d.thrown = none := (congrArg Observed.failure hobserved).trans hfailure
  rw [hnone] at hd
  exact ⟨d, .complete _ _ _ d none none hrun hdeliverable hd⟩

/-- The frame of a packet with a profile. -/
def profileFrame : List Byte := 19 :: 2 :: List.replicate 18 0

end Mccpp.Analysis
