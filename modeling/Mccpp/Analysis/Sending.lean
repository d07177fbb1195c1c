import Mccpp.Interface.SentFrame
import Mccpp.Analysis.FieldCodec
import Mccpp.Analysis.ConnectionFragmentation

/-!
# Sending is atomic, and the receiver takes the stream apart again

A packet is written into a buffer of its own, and everything that can be wrong with it is found
before the first byte of its frame is handed to the connection. What is handed over then is a
length and that many bytes, which the grammar of the receiver splits into the same bodies.
-/

set_option autoImplicit false

namespace Mccpp.Analysis

open Mccpp.Library Mccpp.Model Mccpp.Interface

/-! ## Writing the fields -/

/-- `m` throws an `encode_error`. -/
def Refuses (m : WriterM Unit) : Prop := ∀ buffer, ∃ what, m buffer = .error (.encodeError what)

theorem Refuses.bind {m m' : WriterM Unit} (h : Refuses m) : Refuses (do m; m') := by
  intro buffer
  obtain ⟨what, hwhat⟩ := h buffer
  refine ⟨what, ?_⟩
  show (m buffer >>= fun r => m' r.2) = _
  rw [hwhat]
  rfl

theorem Writes.bind_refuses {m m' : WriterM Unit} {bs : List Byte} (hm : Writes m bs)
    (hm' : Refuses m') : Refuses (do m; m') := by
  intro buffer
  obtain ⟨what, hwhat⟩ := hm' (buffer ++ bs)
  refine ⟨what, ?_⟩
  show (m buffer >>= fun r => m' r.2) = _
  rw [hm buffer]
  exact hwhat

theorem refuses_writeString {max : ℕ} {v : List Byte} (hmax : max ≤ 32767)
    (hlen : max * 4 < v.length) : Refuses (WriterM.writeString max v) := by
  intro buffer
  refine ⟨"invalid string", ?_⟩
  unfold WriterM.writeString
  rw [if_neg (by simpa using hmax), if_pos hlen]
  rfl

/-- The limits of strings are those the writer admits. -/
def Field.Limited : Field → Prop
  | .string max _ => max ≤ 32767
  | _ => True

/-- INTERNAL: a field is written, or refused when it is over its limit.
SOURCE: proto/packet.cc:9-81 -/
theorem writes_or_refuses {f : Field} (h : Field.Limited f) :
    (f.Writable ∧ Writes f.write f.encode) ∨ (¬f.Writable ∧ Refuses f.write) := by
  cases f with
  | string max v =>
    by_cases hlen : v.length ≤ max * 4
    · exact Or.inl ⟨⟨h, hlen⟩, writes_writeString h hlen⟩
    · exact Or.inr ⟨fun hw => hlen hw.2, refuses_writeString h (by omega)⟩
  | identifier v =>
    by_cases hlen : v.length ≤ 32767 * 4
    · exact Or.inl ⟨hlen, writes_writeString (le_refl _) hlen⟩
    · exact Or.inr ⟨hlen, refuses_writeString (le_refl _) (by omega)⟩
  | _ => exact Or.inl ⟨trivial, writes_write trivial⟩

/-- INTERNAL: all fields are written, or one of them is refused. -/
theorem writeAll_or_refuses {fields : List Field} (h : ∀ f ∈ fields, Field.Limited f) :
    ((∀ f ∈ fields, f.Writable) ∧
        Writes (Field.writeAll fields) (fields.flatMap Field.encode)) ∨
      ((∃ f ∈ fields, ¬f.Writable) ∧ Refuses (Field.writeAll fields)) := by
  induction fields with
  | nil => exact Or.inl ⟨by simp, writes_pure⟩
  | cons f fields ih =>
    rw [List.forall_mem_cons] at h
    rcases writes_or_refuses h.1 with ⟨hf, hwrites⟩ | ⟨hf, hrefuses⟩
    · rcases ih h.2 with ⟨hall, hrest⟩ | ⟨⟨g, hg, hover⟩, hrest⟩
      · refine Or.inl ⟨List.forall_mem_cons.mpr ⟨hf, hall⟩, ?_⟩
        rw [List.flatMap_cons]
        exact hwrites.bind hrest
      · exact Or.inr ⟨⟨g, List.mem_cons_of_mem _ hg, hover⟩, hwrites.bind_refuses hrest⟩
    · exact Or.inr ⟨⟨f, by simp, hf⟩, hrefuses.bind⟩

/-- INTERNAL: `write` of each struct writes its fields in order.
SOURCE: proto/serverbound/ -/
theorem write_eq (p : ServerboundPacket) : p.write = Field.writeAll (fieldsOf p) := by
  cases p with
  | hello p =>
    obtain ⟨name, uuid⟩ := p
    cases uuid <;> simp [ServerboundPacket.write, fieldsOf, Field.writeAll, Field.write]
  | statusRequest => rfl
  | _ => simp [ServerboundPacket.write, fieldsOf, Field.writeAll, Field.write]

theorem limited_fieldsOf (p : ServerboundPacket) : ∀ f ∈ fieldsOf p, Field.Limited f := by
  cases p with
  | hello p =>
    obtain ⟨name, uuid⟩ := p
    cases uuid <;> simp [fieldsOf, Field.Limited]
  | _ => simp [fieldsOf, Field.Limited]

/-! ## The socket -/

theorem writeVarint_eq (o : Outgoing) (value : BitVec 32) :
    o.writeVarint value = o.writeBytes (varintWrite value) := by
  have hall : ∀ (bs : List Byte) (o : Outgoing),
      bs.foldl Outgoing.writeByte o = o.writeBytes bs := by
    intro bs
    induction bs with
    | nil =>
      intro o
      simp [Outgoing.writeBytes]
    | cons b bs ih =>
      intro o
      rw [List.foldl_cons, ih]
      simp [Outgoing.writeBytes, Outgoing.writeByte]
  exact hall _ o

/-- INTERNAL: **a flush** hands over what is left of the buffer, in however many pieces.
SOURCE: proto/tcp_client.cc:37-43 -/
theorem flushLoop_accepting {socket : Socket} (hsocket : Accepting socket) {fuel offset : ℕ}
    {o : Outgoing} (hoffset : offset ≤ o.mWriteBuffer.length)
    (hfuel : o.mWriteBuffer.length < offset + fuel) :
    Outgoing.flushLoop socket fuel offset o =
      (.ok (), ⟨[], o.sent ++ o.mWriteBuffer.drop offset⟩) := by
  induction fuel generalizing offset o with
  | zero => omega
  | succ fuel ih =>
    unfold Outgoing.flushLoop
    by_cases hmore : offset < o.mWriteBuffer.length
    · have hoffered : o.mWriteBuffer.drop offset ≠ [] := by
        intro hnil
        have := List.drop_eq_nil_iff.mp hnil
        omega
      obtain ⟨n, htaken, hone, hle⟩ := hsocket o.sent _ hoffered
      rw [List.length_drop] at hle
      have hnext : Outgoing.flushLoop socket fuel (offset + n)
          { o with sent := o.sent ++ (o.mWriteBuffer.drop offset).take n } =
          (.ok (), ⟨[], (o.sent ++ (o.mWriteBuffer.drop offset).take n) ++
            o.mWriteBuffer.drop (offset + n)⟩) :=
        ih (by dsimp only; omega) (by dsimp only; omega)
      rw [if_pos hmore, htaken]
      dsimp only
      rw [hnext, List.append_assoc, ← List.drop_drop, List.take_append_drop]
    · have hnil : o.mWriteBuffer.drop offset = [] := List.drop_eq_nil_iff.mpr (by omega)
      rw [if_neg hmore, hnil, List.append_nil]

/-- INTERNAL: **a body that is not too long** leaves as one frame, behind what was still in the
buffer.
SOURCE: proto/client.cc:27-36 -/
theorem queueSendBody_accepting {socket : Socket} (hsocket : Accepting socket) {body : List Byte}
    (hlen : body.length ≤ 2097151) (o : Outgoing) :
    o.queueSendBody socket body = (.ok (), ⟨[], o.sent ++ o.mWriteBuffer ++ frameBytes body⟩) := by
  unfold Outgoing.queueSendBody
  rw [if_neg (by omega)]
  dsimp only
  unfold Outgoing.writeFlush
  rw [writeVarint_eq, flushLoop_accepting hsocket (Nat.zero_le _) (by omega)]
  simp [Outgoing.writeBytes, frameBytes]

theorem queueSendBody_too_long (socket : Socket) {body : List Byte} (hlen : 2097151 < body.length)
    (o : Outgoing) :
    o.queueSendBody socket body = (.error (.encodeError "Packet length exceeded"), o) := by
  unfold Outgoing.queueSendBody
  rw [if_pos hlen]

/-- INTERNAL: what `queue_send` makes of a packet before it comes to the connection.
SOURCE: proto/client.hh:16-22 -/
theorem queueSend_cases (socket : Socket) (id : ServerboundType → BitVec 32) (p : ServerboundPacket)
    (o : Outgoing) :
    ((∀ f ∈ fieldsOf p, f.Writable) ∧
        o.queueSend socket id p = o.queueSendBody socket (packetBody id p)) ∨
      ((∃ f ∈ fieldsOf p, ¬f.Writable) ∧
        ∃ what, o.queueSend socket id p = (.error (.encodeError what), o)) := by
  have hid : Writes (WriterM.writeVarint (id p.type)) (varintWrite (id p.type)) :=
    writes_writeVarint _
  rcases writeAll_or_refuses (limited_fieldsOf p) with ⟨hall, hwrites⟩ | ⟨hover, hrefuses⟩
  · refine Or.inl ⟨hall, ?_⟩
    rw [← write_eq] at hwrites
    have hbody := (hid.bind hwrites) []
    rw [List.nil_append] at hbody
    unfold Outgoing.queueSend
    rw [hbody]
    rfl
  · refine Or.inr ⟨hover, ?_⟩
    rw [← write_eq] at hrefuses
    obtain ⟨what, hwhat⟩ := (hid.bind_refuses hrefuses) []
    refine ⟨what, ?_⟩
    unfold Outgoing.queueSend
    rw [hwhat]

/-- A socket that takes one byte at a time. -/
def bytewise : Socket := fun _ _ => some 1

theorem accepting_bytewise : Accepting bytewise :=
  fun _ _ hoffered => ⟨1, rfl, le_refl 1, List.length_pos_iff.mpr hoffered⟩

/-- A client that takes every packet and discards its body. -/
def discarding : BitVec 32 → PacketM Unit Unit := fun _ => do PacketM.discard (← PacketM.remaining)

theorem frontOf_spells {value : BitVec 32} {position : ℕ} {us : List Byte} {v : BitVec 32}
    (h : SpellsVarint value position us v) (stream : List Byte) :
    frontOf value position (us ++ stream) = lengthOf v stream := by
  induction us generalizing value position with
  | nil => exact h.elim
  | cons b us ih =>
    rw [spells_varint_cons] at h
    rw [List.cons_append, frontOf]
    cases hb : asyncReadStep value position b with
    | done value =>
      rw [hb] at h
      obtain ⟨rfl, rfl⟩ := h
      rfl
    | more value position =>
      rw [hb] at h
      exact ih h
    | invalid =>
      rw [hb] at h
      exact h.elim

/-- INTERNAL: the receiver takes a length between its bounds.
SOURCE: proto/client.cc:70-77 -/
theorem lengthOf_accepted {length : BitVec 32} (hlow : 0 < length.toInt)
    (hhigh : length.toInt ≤ 2097151) (stream : List Byte) :
    lengthOf length stream = bodyOf length.toNat stream := by
  unfold lengthOf
  rw [if_neg (by omega), if_neg (by omega)]

theorem bodyOf_append (body rest : List Byte) : bodyOf body.length (body ++ rest) = .frame body rest := by
  unfold bodyOf
  rw [if_neg (by rw [List.length_append]; omega), List.take_left, List.drop_left]

/-- INTERNAL: **a frame that was sent** is the front of the stream.
SOURCE: proto/client.cc:27-36, 67-77 -/
theorem frontOf_frameBytes {body : List Byte} (hlow : 0 < body.length) (hhigh : body.length ≤ 2097151)
    (rest : List Byte) : frontOf 0 0 (frameBytes body ++ rest) = .frame body rest := by
  obtain ⟨hnat, hint⟩ := toInt_ofNat_length (n := body.length) (by omega)
  unfold frameBytes
  rw [List.append_assoc, frontOf_spells (spells_varintWrite _),
    lengthOf_accepted (by omega) (by omega), hnat, bodyOf_append]

theorem splitFrames_frameBytes {bodies : List (List Byte)}
    (h : ∀ body ∈ bodies, 0 < body.length ∧ body.length ≤ 2097151) {fuel : ℕ}
    (hfuel : bodies.length ≤ fuel) : splitFrames fuel (bodies.flatMap frameBytes) = (bodies, []) := by
  induction bodies generalizing fuel with
  | nil => cases fuel <;> rfl
  | cons body bodies ih =>
    rw [List.forall_mem_cons] at h
    rw [List.length_cons] at hfuel
    obtain ⟨fuel, rfl⟩ := Nat.exists_eq_succ_of_ne_zero (by omega : fuel ≠ 0)
    rw [List.flatMap_cons, splitFrames, frontOf_frameBytes h.1.1 h.1.2]
    dsimp only
    rw [ih h.2 (by omega)]
    rfl

theorem length_le_flatMap_frameBytes {bodies : List (List Byte)}
    (h : ∀ body ∈ bodies, 0 < body.length) :
    bodies.length ≤ (bodies.flatMap frameBytes).length := by
  induction bodies with
  | nil => exact Nat.zero_le _
  | cons body bodies ih =>
    rw [List.forall_mem_cons] at h
    have := ih h.2
    have := h.1
    rw [List.flatMap_cons, List.length_cons, List.length_append, frameBytes, List.length_append]
    omega

/-- INTERNAL: the id is read off the body.
SOURCE: proto/client.cc:79-87 -/
theorem dispatch_discarding {idBytes : List Byte} {packetId : BitVec 32}
    (h : varintFormat.Spells idBytes packetId) (rest : List Byte) :
    dispatch discarding () (idBytes ++ rest) = ⟨[(packetId, rest)], (), none⟩ := by
  have hid := follows_readVarint.reads () idBytes rest packetId () ⟨packetId, h, rfl⟩
  have hdiscard : (discarding packetId () rest.length).run rest = some ((.ok (), (), 0), []) := by
    have hreads : Reads (PacketM.discard rest.length : PacketM Unit Unit) rest () :=
      reads_prepaid rest _ fun _ => ()
    have hrun := hreads () rest.length [] (le_refl _)
    rwa [List.append_nil, Nat.sub_self] at hrun
  unfold dispatch
  rw [hid]
  show handOn discarding () packetId rest.length rest = _
  unfold handOn
  rw [hdiscard]
  rfl

theorem oneShot_frameBytes {packets : List (BitVec 32 × List Byte × List Byte)}
    (h : ∀ p ∈ packets, varintFormat.Spells p.2.1 p.1 ∧
      0 < (p.2.1 ++ p.2.2).length ∧ (p.2.1 ++ p.2.2).length ≤ 2097151) :
    oneShot discarding () ((packets.map fun p => p.2.1 ++ p.2.2).flatMap frameBytes) =
      ⟨packets.map fun p => (p.1, p.2.2), (), none⟩ := by
  induction packets with
  | nil => rfl
  | cons p packets ih =>
    rw [List.forall_mem_cons] at h
    obtain ⟨⟨hid, hlow, hhigh⟩, hrest⟩ := h
    rw [List.map_cons, List.flatMap_cons, oneShot_eq_parse, frontOf_frameBytes hlow hhigh, parse_frame,
      dispatch_discarding hid]
    show (parse discarding () (frontOf 0 0 _)).after _ = _
    rw [← oneShot_eq_parse, ih hrest]
    rfl

/-- INTERNAL: the bodies leave one after another.
SOURCE: proto/client.cc:27-36 -/
theorem sendBodies_accepting {socket : Socket} (hsocket : Accepting socket)
    {bodies : List (List Byte)} (h : ∀ body ∈ bodies, body.length ≤ 2097151) (sent : List Byte) :
    sendBodies socket bodies ⟨[], sent⟩ = (.ok (), ⟨[], sent ++ bodies.flatMap frameBytes⟩) := by
  induction bodies generalizing sent with
  | nil => simp [sendBodies]
  | cons body bodies ih =>
    rw [List.forall_mem_cons] at h
    rw [sendBodies, queueSendBody_accepting hsocket h.1]
    dsimp only
    rw [ih h.2, List.flatMap_cons, List.append_nil, List.append_assoc]

/-- INTERNAL: the receiver takes exactly these lengths.
SOURCE: proto/client.cc:70-77 -/
theorem lengthOf_malformed_iff (length : BitVec 32) (stream : List Byte) :
    (∃ e, lengthOf length stream = .malformed e) ↔ ¬(0 < length.toInt ∧ length.toInt ≤ 2097151) := by
  constructor
  · rintro ⟨e, he⟩ ⟨hlow, hhigh⟩
    rw [lengthOf_accepted hlow hhigh, bodyOf] at he
    split at he <;> cases he
  · intro hout
    unfold lengthOf
    by_cases hlow : length.toInt ≤ 0
    · exact ⟨_, if_pos hlow⟩
    · rw [if_neg hlow, if_pos (by omega)]
      exact ⟨_, rfl⟩

/-- SOURCE: proto/client.cc:23-36, 67-89 — **the frames that were sent are the frames that are
received**. Bodies that begin with an id, sent one after another, are split by the grammar of
the receiver into the same bodies with nothing left, and a client that takes them all is handed
their ids and what is behind these, without an error. The lengths of the two sides agree: the
receiver takes the length of every body the sender takes, and for every length the receiver
takes the sender takes a body that begins with an id. -/
theorem framing_round_trip (socket : Socket) (hsocket : Accepting socket) :
    (∀ packets : List (BitVec 32 × List Byte × List Byte),
      (∀ p ∈ packets, varintFormat.Spells p.2.1 p.1 ∧ (p.2.1 ++ p.2.2).length ≤ 2097151) →
      ∃ sent, sendBodies socket (packets.map fun p => p.2.1 ++ p.2.2) ⟨[], []⟩ =
          (.ok (), ⟨[], sent⟩) ∧
        splitStream sent = (packets.map fun p => p.2.1 ++ p.2.2, []) ∧
        oneShot discarding () sent = ⟨packets.map fun p => (p.1, p.2.2), (), none⟩) ∧
    (∀ packetId idBytes rest o, varintFormat.Spells idBytes packetId →
      (Outgoing.queueSendBody socket (idBytes ++ rest) o).1 = .ok () →
      ∀ stream e, lengthOf (BitVec.ofNat 32 (idBytes ++ rest).length) stream ≠ .malformed e) ∧
    ∀ (length : BitVec 32) (stream : List Byte), (∀ e, lengthOf length stream ≠ .malformed e) →
      ∃ packetId idBytes rest, varintFormat.Spells idBytes packetId ∧
        BitVec.ofNat 32 (idBytes ++ rest).length = length ∧
        ∀ o, (Outgoing.queueSendBody socket (idBytes ++ rest) o).1 = .ok () := by
  have hpos : ∀ {idBytes : List Byte} {packetId : BitVec 32} (rest : List Byte),
      varintFormat.Spells idBytes packetId → 0 < (idBytes ++ rest).length := by
    intro idBytes packetId rest hid
    cases idBytes with
    | nil => exact hid.elim
    | cons b idBytes => simp
  refine ⟨fun packets h => ?_, fun packetId idBytes rest o hid hsent stream e he => ?_,
    fun length stream haccepted => ?_⟩
  · have hbodies : ∀ body ∈ packets.map fun p => p.2.1 ++ p.2.2,
        0 < body.length ∧ body.length ≤ 2097151 := by
      intro body hbody
      obtain ⟨p, hp, rfl⟩ := List.mem_map.mp hbody
      exact ⟨hpos _ (h p hp).1, (h p hp).2⟩
    have hsend := sendBodies_accepting hsocket (fun body hbody => (hbodies body hbody).2) []
    refine ⟨_, hsend, ?_, ?_⟩
    · rw [List.nil_append]
      exact splitFrames_frameBytes hbodies
        (length_le_flatMap_frameBytes fun body hbody => (hbodies body hbody).1)
    · rw [List.nil_append]
      exact oneShot_frameBytes fun p hp => ⟨(h p hp).1, hpos _ (h p hp).1, (h p hp).2⟩
  · by_cases hlen : (idBytes ++ rest).length ≤ 2097151
    · obtain ⟨_, hint⟩ := toInt_ofNat_length (n := (idBytes ++ rest).length) (by omega)
      have hlow := hpos rest hid
      exact (lengthOf_malformed_iff _ stream).mp ⟨e, he⟩ ⟨by omega, by omega⟩
    · rw [queueSendBody_too_long socket (by omega)] at hsent
      cases hsent
  · have hbounds : 0 < length.toInt ∧ length.toInt ≤ 2097151 := by
      by_contra hout
      obtain ⟨e, he⟩ := (lengthOf_malformed_iff length stream).mpr hout
      exact haccepted e he
    have hnat := toNat_of_toInt_pos hbounds.1
    have hlen : ([0] ++ List.replicate (length.toNat - 1) (0 : Byte)).length = length.toNat := by
      rw [List.length_append, List.length_replicate, List.length_singleton]
      omega
    refine ⟨0, [0], List.replicate (length.toNat - 1) 0, ⟨rfl, rfl⟩, ?_, fun o => ?_⟩
    · rw [hlen, BitVec.ofNat_toNat, BitVec.setWidth_eq]
    · rw [queueSendBody_accepting hsocket (by rw [hlen]; omega)]

/-- Two bodies, the second only an id of two bytes. -/
theorem framing_round_trip_bytewise :
    ∃ sent, sendBodies bytewise [[5, 1, 2], [172, 2]] ⟨[], []⟩ = (.ok (), ⟨[], sent⟩) ∧
      splitStream sent = ([[5, 1, 2], [172, 2]], []) ∧
      oneShot discarding () sent = ⟨[(5, [1, 2]), (300, [])], (), none⟩ :=
  (framing_round_trip bytewise accepting_bytewise).1
    [(5, [5], [1, 2]), (300, [172, 2], [])] (by
      intro p hp
      simp only [List.mem_cons, List.not_mem_nil, or_false] at hp
      rcases hp with rfl | rfl
      · exact ⟨⟨rfl, rfl⟩, by decide⟩
      · exact ⟨⟨rfl, rfl⟩, by decide⟩)

end Mccpp.Analysis
