import Mccpp.Analysis.PacketLayouts

/-!
# No byte brings the process down, if the fields are there

A packet is handled without a failed assert if and only if its layout does not break on the body:
no field of it is cut off where the body ends, no section ends outside of its window, and no
document declares a list of `TAG_END` items.
-/

set_option autoImplicit false

namespace Mccpp.Analysis

open Mccpp.Library Mccpp.Model Mccpp.Model.PacketM Mccpp.Interface

variable {σ α : Type}

/-! ## The handlers -/

theorem unbroken_sendLayout (env : Environment) (p : ServerboundPacket) (c : Client)
    (bs : List Byte) (k : Breakdown) : ¬(sendLayout env p c).Breaks bs k := by
  intro h
  unfold sendLayout at h
  split at h <;> exact h.elim

theorem ends_handleCustomQuery (env : Environment) (memory : ℕ) :
    Ends (handleCustomQuery env) (argumentsLayout env memory .loginCustomQuery) :=
  follows_readVarint.bind_ends fun _ =>
    ends_discardRest.bind (fun _ => (follows_queueSend env _).ends)
      fun _ _ _ _ _ k _ hbreaks => absurd hbreaks (unbroken_sendLayout env _ _ _ k)

theorem follows_handleGameProfile (env : Environment) (memory : ℕ) :
    Follows handleGameProfile (argumentsLayout env memory .gameProfile) := by
  have hassoc : handleGameProfile = (do
      let _uuid ← readUuid
      let _name ← readString 16
      let propCount ← readVarint
      let _properties ← PacketM.times propCount.toInt.toNat readProperty
      pure ()) >>= fun _ => setState .play := by
    simp only [bind_assoc_eq, pure_bind_eq]
    rfl
  rw [hassoc]
  refine Follows.bind ?_ fun _ => follows_modify _
  exact follows_readUuid.lift_bind fun _ => (follows_readString (by omega)).lift_bind fun _ =>
    follows_readVarint.lift_bind fun _ => (follows_readProperty.lift_times _).lift_map _

theorem ends_handleLevelChunkWithLight (env : Environment) (memory : ℕ) :
    Ends (handleLevelChunkWithLight memory) (argumentsLayout env memory .levelChunkWithLight) := by
  unfold handleLevelChunkWithLight argumentsLayout
  refine follows_readChunkHead.bind_ends ?_
  rintro ⟨x, y, n⟩
  exact (follows_getColumn memory x y).bind_ends fun pointers =>
    (follows_nested (follows_loadChunks x y pointers) (blind_loadChunks x y pointers)
      (metered_loadChunks x y pointers) n).bind_ends fun _ => ends_readChunkTail

theorem follows_handleLogin (env : Environment) (memory : ℕ) :
    Follows (handleLogin env) (argumentsLayout env memory .login) :=
  follows_readLogin.bind fun _ => (follows_modify _).bind fun _ => follows_queueSendAll env _

/-- INTERNAL: **every handler does what the layout says**.
SOURCE: client/handlers.cc:11-60, client/handlers/ -/
theorem ends_handlePacket (env : Environment) (memory : ℕ) (type : ClientboundType) :
    Ends (handlePacket env memory type) (argumentsLayout env memory type) := by
  cases type with
  | pongResponse => exact ((follows_readIntN 8 rfl).lift_map _).ends
  | statusResponse => exact ((follows_readString (le_refl _)).lift_map _).ends
  | loginCustomQuery => exact ends_handleCustomQuery env memory
  | gameProfile => exact (follows_handleGameProfile env memory).ends
  | hello => exact follows_abort.ends
  | loginCompression => exact follows_abort.ends
  | customPayload => exact ends_handleCustomPayload
  | keepAlive => exact ((follows_readIntN 8 rfl).bind fun _ => follows_queueSend env _).ends
  | levelChunkWithLight => exact ends_handleLevelChunkWithLight env memory
  | login => exact (follows_handleLogin env memory).ends
  | other state number => exact ends_discardRest

/-! ## A whole packet -/

theorem ends_get_bind {f : σ → PacketM σ α} {G : σ → Layout σ α} (hf : ∀ s, Ends (f s) (G s)) :
    Ends (PacketM.get >>= f) (fun s => G s s) where
  sound := fun s bs r left hrun => (hf s).sound s bs r left hrun
  fails := fun s bs k hbreaks => (hf s).fails s bs k hbreaks

theorem ends_onPacketReceived (env : Environment) (memory : ℕ) (packetId : BitVec 32) :
    Ends (onPacketReceived env memory packetId) (fun c =>
      match env.clientbound c.mState packetId with
      | some type => argumentsLayout env memory type c
      | none => .refuse) := by
  have hends : ∀ c : Client, Ends
      (match env.clientbound c.mState packetId with
        | some type => handlePacket env memory type
        | none => fail (.protocolError "invalid packet id"))
      (fun c' => match env.clientbound c.mState packetId with
        | some type => argumentsLayout env memory type c'
        | none => .refuse) := by
    intro c
    cases env.clientbound c.mState packetId with
    | none => exact (follows_throw rfl).ends
    | some type => exact ends_handlePacket env memory type
  exact ends_get_bind hends

theorem ends_trailing : Ends (do
    let n ← remaining
    if n ≠ 0 then fail (.decodeError "trailing data in packet") else pure () : PacketM σ Unit)
    (.pure ()) where
  sound := by
    intro s bs r left hrun
    have happly : (do
        let n ← remaining
        if n ≠ 0 then fail (.decodeError "trailing data in packet") else pure () :
          PacketM σ Unit) s bs.length =
        (if bs.length ≠ 0 then fail (.decodeError "trailing data in packet") else pure () :
          PacketM σ Unit) s bs.length := rfl
    rw [happly] at hrun
    split at hrun
    · cases hrun
      refine ⟨fun b hb => (nomatch hb), fun e k he hk => ?_⟩
      cases he
      cases hk
    · cases hrun
      refine ⟨fun b hb => ?_, fun e k he => (nomatch he)⟩
      cases hb
      exact ⟨rfl, [], rfl, rfl, rfl⟩
  fails := fun _ _ _ h => h.elim

theorem bind_pure_unit (F : Layout σ Unit) : (F.bind fun _ => .pure ()) = F := by
  funext s
  refine format_ext (fun bs r => ?_) fun bs k => ?_
  · constructor
    · rintro ⟨us, _, r', rfl, hspells, rfl, rfl⟩
      rwa [List.append_nil]
    · exact fun hspells => ⟨bs, [], r, (List.append_nil bs).symm, hspells, rfl, rfl⟩
  · constructor
    · rintro (hbreaks | ⟨_, _, _, _, _, hfalse⟩)
      · exact hbreaks
      · exact hfalse.elim
    · exact Or.inl

/-- INTERNAL: **a packet is received as its layout says**.
SOURCE: proto/client.cc:79-87, client/handlers.cc:38-60 -/
theorem ends_receivePacket (env : Environment) (memory : ℕ) :
    Ends (receivePacket env memory) (bodyLayout env memory) := by
  refine follows_readVarint.bind_ends fun packetId => ?_
  rw [← bind_pure_unit (fun c => _)]
  exact (ends_onPacketReceived env memory packetId).bind (fun _ => ends_trailing)
    fun _ _ _ _ _ _ _ hbreaks => hbreaks.elim

/-! ## The count is kept -/

/-- INTERNAL: a flush comes to an end when the socket takes something each time.
SOURCE: proto/tcp_client.cc:37-43 -/
theorem flushLoop_not_diverged {socket : Socket} (hsocket : Progressing socket) {fuel offset : ℕ}
    {o : Outgoing} (hfuel : o.mWriteBuffer.length < offset + fuel) (hfuel' : 0 < fuel) :
    (Outgoing.flushLoop socket fuel offset o).1 ≠ .error .diverged := by
  induction fuel generalizing offset o with
  | zero => omega
  | succ fuel ih =>
    unfold Outgoing.flushLoop
    split
    · rename_i hmore
      have hoffered : o.mWriteBuffer.drop offset ≠ [] := by
        intro hnil
        have := List.drop_eq_nil_iff.mp hnil
        omega
      split
      · simp
      · rename_i n htaken
        have hone := hsocket _ _ n hoffered htaken
        exact ih (by dsimp only; omega) (by omega)
    · simp

theorem queueSend_not_diverged {socket : Socket} (hsocket : Progressing socket)
    (id : ServerboundType → BitVec 32) (p : ServerboundPacket) (o : Outgoing) :
    (o.queueSend socket id p).1 ≠ .error .diverged := by
  rcases queueSend_cases socket id p o with ⟨_, hsend⟩ | ⟨_, what, hsend⟩
  · rw [hsend]
    unfold Outgoing.queueSendBody
    split
    · simp
    · exact flushLoop_not_diverged hsocket (by omega) (Nat.succ_pos _)
  · rw [hsend]
    simp

section Metering

variable {env : Environment} (hsocket : Progressing env.socket)
include hsocket

theorem metered_queueSend (p : ServerboundPacket) : Metered (PacketM.queueSend env p) := by
  intro bound c n _
  refine (Pull.within_done _ _ _).mpr ⟨?_, fun _ => rfl⟩
  exact queueSend_not_diverged hsocket env.serverboundId p c.outgoing

theorem metered_queueSendAll (ps : List ServerboundPacket) : Metered (queueSendAll env ps) := by
  induction ps with
  | nil => exact metered_pure ()
  | cons p ps ih => exact (metered_queueSend hsocket p).bind fun _ => ih

theorem metered_handlePacket (memory : ℕ) (type : ClientboundType) :
    Metered (handlePacket env memory type) := by
  cases type with
  | pongResponse => exact (metered_readIntN 64).bind fun _ => metered_pure ()
  | statusResponse => exact (metered_readString _).bind fun _ => metered_pure ()
  | loginCustomQuery =>
    exact metered_readVarint.bind fun _ => metered_discardRest.bind fun _ =>
      metered_queueSend hsocket _
  | gameProfile =>
    exact metered_readUuid.bind fun _ => (metered_readString _).bind fun _ =>
      metered_readVarint.bind fun _ => (metered_readProperty.times _).bind fun _ =>
        metered_get.bind fun _ => metered_set _
  | hello => exact metered_fail (by simp)
  | loginCompression => exact metered_fail (by simp)
  | customPayload => exact metered_handleCustomPayload
  | keepAlive => exact (metered_readIntN 64).bind fun _ => metered_queueSend hsocket _
  | levelChunkWithLight =>
    refine metered_readChunkHead.bind ?_
    rintro ⟨x, y, n⟩
    exact (metered_getColumn memory x y).bind fun pointers =>
      (metered_nested ((metered_loadChunks x y pointers).bind fun _ => metered_discardRest) n).bind
        fun _ => metered_readChunkTail
  | login =>
    exact metered_readLogin.bind fun _ => (metered_get.bind fun _ => metered_set _).bind
      fun _ => metered_queueSendAll hsocket _
  | other state number => exact metered_discardRest

theorem metered_receivePacket (memory : ℕ) : Metered (receivePacket env memory) := by
  refine metered_readVarint.bind fun packetId => Metered.bind ?_ fun _ => ?_
  · refine metered_get.bind fun c => ?_
    split
    · exact metered_handlePacket hsocket memory _
    · exact metered_fail (by simp)
  · refine metered_remaining_bind fun n => ?_
    split
    · exact meteredBelow_fail _ (by simp)
    · exact meteredBelow_pure _ _

end Metering

/-- INTERNAL: what is no C++ exception brings the process down, or does not exist. -/
theorem isException_iff {e : Failure} (he : e ≠ .diverged) :
    e.isException = true ↔ breakdownOf e = none := by
  cases e <;> simp_all [Failure.isException, breakdownOf]

/-- An environment in which the packets of the state `PLAY` with the ids 31 and 32 are `keep_alive`
and a chunk. -/
def smallEnvironment : Environment where
  socket := bytewise
  serverboundId := fun _ => 0
  clientbound := fun state id =>
    match state with
    | .play => if id = 31 then some .keepAlive else if id = 32 then some .levelChunkWithLight else none
    | .login => if id = 2 then some .gameProfile else none
    | _ => none
  clientbound_state := by
    intro state id type h
    cases state with
    | play =>
      dsimp only at h
      split at h
      · cases h
        rfl
      · split at h
        · cases h
          rfl
        · cases h
    | login =>
      dsimp only at h
      split at h
      · cases h
        rfl
      · cases h
    | _ => cases h

theorem progressing_bytewise : Progressing bytewise := by
  intro taken offered n _ h
  cases h
  exact le_refl 1

end Mccpp.Analysis
