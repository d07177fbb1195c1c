import Mccpp.Interface.AllOrNothing
import Mccpp.Analysis.PacketLayouts

/-!
# What a failure leaves behind

Two judgements about the runs of code over a packet, whatever the bytes are. `Inspects p`: `p`
never changes the data it works on and fails only as a reader does. `Clean p`: a failure of a
malformed packet leaves the data as they were. Code that inspects first, and whose effects come
last and do not fail so, is clean.
-/

set_option autoImplicit false

namespace Mccpp.Analysis

open Mccpp.Library Mccpp.Model Mccpp.Model.PacketM Mccpp.Interface

variable {σ α β : Type}

/-! ## Two judgements -/

/-- How the operations of a packet reader fail, and the code over them that has no effect. -/
def ReadFailure (e : Failure) : Prop :=
  Malformed e ∨ (breakdownOf e).isSome ∨ e = .diverged

/-- `p` leaves the data alone, and fails as a reader. -/
def Inspects (p : PacketM σ α) : Prop :=
  ∀ s n bs r left, (p s n).run bs = some (r, left) →
    r.2.1 = s ∧ ∀ e, r.1 = .error e → ReadFailure e

/-- Where `p` fails because of a malformed packet, the data are what they were. -/
def Clean (p : PacketM σ α) : Prop :=
  ∀ s n bs e s' n' left, (p s n).run bs = some ((.error e, s', n'), left) → Malformed e → s' = s

theorem malformed_decodeError (what : String) : Malformed (.decodeError what) := Or.inl ⟨what, rfl⟩

theorem malformed_parseError (what : String) : Malformed (.parseError what) := Or.inr ⟨what, rfl⟩

theorem readFailure_malformed {e : Failure} (he : Malformed e) : ReadFailure e := Or.inl he

theorem readFailure_assert (text : String) : ReadFailure (.assertFailed text) := Or.inr (Or.inl rfl)

theorem inspects_pure (a : α) : Inspects (pure a : PacketM σ α) := by
  intro s n bs r left h
  cases h
  exact ⟨rfl, fun e he => nomatch he⟩

theorem inspects_fail {e : Failure} (he : ReadFailure e) : Inspects (fail e : PacketM σ α) := by
  intro s n bs r left h
  cases h
  refine ⟨rfl, fun e' he' => ?_⟩
  cases he'
  exact he

theorem inspects_throw (what : String) : Inspects (fail (.decodeError what) : PacketM σ α) :=
  inspects_fail (readFailure_malformed (malformed_decodeError what))

theorem Inspects.bind {p : PacketM σ α} {f : α → PacketM σ β} (hp : Inspects p)
    (hf : ∀ a, Inspects (f a)) : Inspects (p >>= f) := by
  intro s n bs r left h
  rw [bind_apply, Pull.run_bind] at h
  obtain ⟨⟨⟨e | a, s₁, n₁⟩, left₁⟩, hrun₁, hrun₂⟩ := Option.bind_eq_some_iff.mp h
  · cases hrun₂
    obtain ⟨hsame, hfailure⟩ := hp _ _ _ _ _ hrun₁
    refine ⟨hsame, fun e' he' => ?_⟩
    cases he'
    exact hfailure e rfl
  · obtain ⟨hsame, _⟩ := hp _ _ _ _ _ hrun₁
    cases hsame
    exact hf a _ _ _ _ _ hrun₂

theorem Inspects.failsWith {p : PacketM σ α} (hp : Inspects p) : FailsWith ReadFailure p :=
  fun s n bs e _ _ left h => (hp s n bs _ left h).2 e rfl

theorem Inspects.clean {p : PacketM σ α} (hp : Inspects p) : Clean p :=
  fun s n bs _ _ _ left h _ => (hp s n bs _ left h).1

theorem FailsWith.clean {p : PacketM σ α} (hp : FailsWith (fun e => ¬Malformed e) p) : Clean p :=
  fun s n bs e s' n' left h hmalformed => absurd hmalformed (hp s n bs e s' n' left h)

/-- INTERNAL: **effects come last**. What follows code that only reads decides. -/
theorem Inspects.bind_clean {p : PacketM σ α} {f : α → PacketM σ β} (hp : Inspects p)
    (hf : ∀ a, Clean (f a)) : Clean (p >>= f) := by
  intro s n bs e s' n' left h hmalformed
  rw [bind_apply, Pull.run_bind] at h
  obtain ⟨⟨⟨e₁ | a, s₁, n₁⟩, left₁⟩, hrun₁, hrun₂⟩ := Option.bind_eq_some_iff.mp h
  · cases hrun₂
    exact (hp _ _ _ _ _ hrun₁).1
  · obtain ⟨hsame, _⟩ := hp _ _ _ _ _ hrun₁
    cases hsame
    exact hf a _ _ _ _ _ _ _ hrun₂ hmalformed

/-! ## The operations of the packet reader -/

theorem Inspects.times {p : PacketM σ α} (hp : Inspects p) (k : ℕ) : Inspects (times k p) := by
  induction k with
  | zero => exact inspects_pure []
  | succ k ih => exact hp.bind fun a => ih.bind fun as => inspects_pure (a :: as)

theorem inspects_remaining : Inspects (remaining : PacketM σ ℕ) := by
  intro s n bs r left h
  cases h
  exact ⟨rfl, fun e he => nomatch he⟩

theorem inspects_setRemaining (m : ℕ) : Inspects (setRemaining m : PacketM σ Unit) := by
  intro s n bs r left h
  cases h
  exact ⟨rfl, fun e he => nomatch he⟩

theorem inspects_pullByte : Inspects (pullByte : PacketM σ Byte) := by
  intro s n bs r left h
  cases bs with
  | nil => cases h
  | cons b bs =>
    cases h
    exact ⟨rfl, fun e he => nomatch he⟩

theorem inspects_require (condition : Bool) (text : String) :
    Inspects (require condition text : PacketM σ Unit) := by
  unfold require
  split
  · exact inspects_pure ()
  · exact inspects_fail (readFailure_assert text)

theorem inspects_readByte : Inspects (readByte : PacketM σ Byte) :=
  inspects_remaining.bind fun _ => (inspects_require _ _).bind fun _ =>
    (inspects_setRemaining _).bind fun _ => inspects_pullByte

theorem inspects_discardRest : Inspects (discardRest : PacketM σ Unit) :=
  inspects_remaining.bind fun _ => inspects_remaining.bind fun _ =>
    (inspects_require _ _).bind fun _ => (inspects_setRemaining _).bind fun _ =>
      (inspects_pullByte.times _).bind fun _ => inspects_pure ()

theorem inspects_readCharArray (n : ℕ) : Inspects (readCharArray n : PacketM σ (List Byte)) :=
  inspects_readByte.times n

theorem inspects_readIntN (w : ℕ) : Inspects (readIntN w : PacketM σ (BitVec w)) := by
  have hloop : ∀ k (v : BitVec w), Inspects (readIntLoop w k v : PacketM σ (BitVec w)) := by
    intro k
    induction k with
    | zero => exact fun v => inspects_pure v
    | succ k ih => exact fun v => inspects_readByte.bind fun b => ih _
  exact hloop _ _

theorem inspects_readFloatN (w : ℕ) : Inspects (readFloatN w : PacketM σ (BitVec w)) :=
  inspects_remaining.bind fun _ => (inspects_require _ _).bind fun _ =>
    (inspects_setRemaining _).bind fun _ => (inspects_pullByte.times _).bind fun _ => inspects_pure _

theorem inspects_readBool : Inspects (readBool : PacketM σ Bool) := by
  refine inspects_readByte.bind fun b => ?_
  split
  · exact inspects_pure _
  · split
    · exact inspects_pure _
    · exact inspects_throw _

theorem inspects_readVarint : Inspects (readVarint : PacketM σ (BitVec 32)) := by
  have hloop : ∀ fuel (value : BitVec 32) position,
      Inspects (readVarintLoop 32 fuel value position : PacketM σ (BitVec 32)) := by
    intro fuel
    induction fuel with
    | zero => exact fun _ _ => inspects_fail (Or.inr (Or.inr rfl))
    | succ fuel ih =>
      intro value position
      refine inspects_readByte.bind fun b => ?_
      split
      · exact inspects_pure _
      · exact ih _ _
      · exact inspects_throw _
  exact hloop _ _ _

theorem inspects_readString (max : ℕ) : Inspects (readString max : PacketM σ (List Byte)) := by
  refine (inspects_require _ _).bind fun _ => inspects_readVarint.bind fun length => ?_
  split
  · exact inspects_throw _
  · split
    · exact inspects_throw _
    · exact inspects_readCharArray _

theorem inspects_readUuid : Inspects (readUuid : PacketM σ (BitVec 64 × BitVec 64)) :=
  (inspects_readIntN 64).bind fun _ => (inspects_readIntN 64).bind fun _ => inspects_pure _

/-! ## Named binary tags -/

theorem inspects_readName : Inspects (Nbt.readName : PacketM σ (List Byte)) :=
  (inspects_readIntN 16).bind fun _ => inspects_readCharArray _

theorem inspects_tagArray (w : ℕ) : Inspects (Nbt.tagArray w : PacketM σ (List (BitVec w))) := by
  refine (inspects_readIntN 32).bind fun length => ?_
  split
  · exact inspects_pure _
  · exact (inspects_readIntN w).times _

section Containers

variable {create : Option TagType → PacketM σ Tag} (hcreate : ∀ type, Inspects (create type))
include hcreate

theorem inspects_tagList : Inspects (Nbt.tagList create) := by
  refine inspects_readByte.bind fun type => (inspects_readIntN 32).bind fun length => ?_
  split
  · exact inspects_pure _
  · exact ((hcreate _).times _).bind fun _ => inspects_pure _

theorem inspects_compoundLoop (fuel : ℕ) : Inspects (Nbt.compoundLoop create fuel) := by
  induction fuel with
  | zero => exact inspects_fail (Or.inr (Or.inr rfl))
  | succ fuel ih =>
    refine inspects_readByte.bind fun type => ?_
    split
    · exact inspects_pure _
    · exact inspects_readName.bind fun _ => (hcreate _).bind fun _ => ih.bind fun _ =>
        inspects_pure _

end Containers

/-- INTERNAL: **a tag is only read**, by induction on the levels of the recursion.
SOURCE: nbt.cc:26-43 -/
theorem inspects_create (fuel : ℕ) (type : Option TagType) :
    Inspects (Nbt.create fuel type : PacketM σ Tag) := by
  induction fuel generalizing type with
  | zero => exact inspects_fail (Or.inr (Or.inr rfl))
  | succ fuel ih =>
    have hparse : ∀ what, Inspects (fail (.parseError what) : PacketM σ Tag) := fun what =>
      inspects_fail (Or.inl (malformed_parseError what))
    rcases type with _ | type
    · exact hparse _
    · cases type with
      | tagEnd => exact inspects_fail (Or.inr (Or.inl rfl))
      | tagByte => exact (inspects_readIntN 8).bind fun _ => inspects_pure _
      | tagShort => exact (inspects_readIntN 16).bind fun _ => inspects_pure _
      | tagInt => exact (inspects_readIntN 32).bind fun _ => inspects_pure _
      | tagLong => exact (inspects_readIntN 64).bind fun _ => inspects_pure _
      | tagFloat => exact (inspects_readFloatN 32).bind fun _ => inspects_pure _
      | tagDouble => exact (inspects_readFloatN 64).bind fun _ => inspects_pure _
      | tagByteArray => exact hparse _
      | tagString => exact inspects_readName.bind fun _ => inspects_pure _
      | tagList => exact inspects_tagList ih
      | tagCompound => exact (inspects_compoundLoop ih _).bind fun _ => inspects_pure _
      | tagIntArray => exact (inspects_tagArray 32).bind fun _ => inspects_pure _
      | tagLongArray => exact (inspects_tagArray 64).bind fun _ => inspects_pure _

theorem inspects_nbt : Inspects (Nbt.nbt : PacketM σ (Option Tag)) := by
  refine inspects_readByte.bind fun type => ?_
  split
  · exact inspects_pure _
  · exact inspects_readName.bind fun _ => inspects_remaining.bind fun _ =>
      (inspects_create _ _).bind fun _ => inspects_pure _

/-! ## What the handlers read -/

theorem inspects_readProperty : Inspects (readProperty : PacketM σ Unit) := by
  refine (inspects_readString _).bind fun _ => (inspects_readString _).bind fun _ =>
    inspects_readBool.bind fun isSigned => ?_
  split
  · exact (inspects_readString _).bind fun _ => inspects_pure _
  · exact inspects_pure _

theorem inspects_readDeathLocation : Inspects (readDeathLocation : PacketM σ Unit) := by
  refine inspects_readBool.bind fun hasDeathLocation => ?_
  split
  · exact (inspects_readString _).bind fun _ => (inspects_readIntN 64).bind fun _ => inspects_pure _
  · exact inspects_pure _

theorem inspects_readLogin : Inspects (readLogin : PacketM σ Unit) :=
  (inspects_readIntN 32).bind fun _ => inspects_readBool.bind fun _ =>
  (inspects_readIntN 8).bind fun _ => (inspects_readIntN 8).bind fun _ =>
  inspects_readVarint.bind fun _ => ((inspects_readString _).times _).bind fun _ =>
  inspects_nbt.bind fun _ => (inspects_readString _).bind fun _ =>
  (inspects_readString _).bind fun _ => (inspects_readIntN 64).bind fun _ =>
  inspects_readVarint.bind fun _ => inspects_readVarint.bind fun _ =>
  inspects_readVarint.bind fun _ => inspects_readBool.bind fun _ => inspects_readBool.bind fun _ =>
  inspects_readBool.bind fun _ => inspects_readBool.bind fun _ => inspects_readDeathLocation

theorem inspects_readChunkHead :
    Inspects (readChunkHead : PacketM σ (BitVec 32 × BitVec 32 × ℕ)) := by
  refine (inspects_readIntN 32).bind fun _ => (inspects_readIntN 32).bind fun _ =>
    inspects_nbt.bind fun _ => inspects_readVarint.bind fun dataSize => ?_
  split
  · exact inspects_throw _
  · exact inspects_pure _

theorem inspects_readChunkTail : Inspects (readChunkTail : PacketM σ Unit) :=
  inspects_readVarint.bind fun _ => (Inspects.times ((inspects_readIntN 8).bind fun _ =>
    (inspects_readIntN 16).bind fun _ => inspects_readVarint.bind fun _ => inspects_nbt.bind fun _ =>
      inspects_pure ()) _).bind fun _ => inspects_readBool.bind fun _ => inspects_discardRest

theorem inspects_handleCustomPayload : Inspects (handleCustomPayload : PacketM σ Unit) := by
  refine (inspects_readString _).bind fun channel => ?_
  split
  · exact inspects_remaining.bind fun n => (inspects_readCharArray n).bind fun _ => inspects_pure _
  · exact inspects_discardRest

/-! ## What they do afterwards -/

theorem failsWith_modify (E : Failure → Prop) (f : σ → σ) :
    FailsWith E (do let s ← PacketM.get; PacketM.set (f s) : PacketM σ Unit) := by
  intro s n bs e s' n' left h
  cases h

theorem failsWith_queueSend (env : Environment) (p : ServerboundPacket) :
    FailsWith (fun e => ¬Malformed e) (PacketM.queueSend env p) := by
  intro c n bs e c' n' left h
  cases hsend : c.queueSend env p with
  | mk result c'' =>
    have hrun : (PacketM.queueSend env p c n).run bs = some ((result, c'', n), bs) := by
      unfold PacketM.queueSend
      rw [hsend]
      rfl
    rw [hrun] at h
    cases h
    rcases queueSend_failure _ _ _ _ _ (congrArg Prod.fst hsend) with ⟨what, rfl⟩ | rfl | rfl
    all_goals simp [Malformed]

theorem failsWith_queueSendAll (env : Environment) (ps : List ServerboundPacket) :
    FailsWith (fun e => ¬Malformed e) (queueSendAll env ps) := by
  induction ps with
  | nil => exact failsWith_pure _ ()
  | cons p ps ih => exact (failsWith_queueSend env p).bind fun _ => ih

/-- INTERNAL: **all handlers but one are clean**: they read everything first.
SOURCE: client/handlers/ -/
theorem clean_handlePacket (env : Environment) (memory : ℕ) {type : ClientboundType}
    (htype : type ≠ .levelChunkWithLight) : Clean (handlePacket env memory type) := by
  cases type with
  | pongResponse => exact ((inspects_readIntN 64).bind fun _ => inspects_pure ()).clean
  | statusResponse => exact ((inspects_readString _).bind fun _ => inspects_pure ()).clean
  | loginCustomQuery =>
    exact inspects_readVarint.bind_clean fun _ => inspects_discardRest.bind_clean fun _ =>
      (failsWith_queueSend env _).clean
  | gameProfile =>
    refine inspects_readUuid.bind_clean fun _ => (inspects_readString _).bind_clean fun _ =>
      inspects_readVarint.bind_clean fun _ => (inspects_readProperty.times _).bind_clean fun _ => ?_
    exact (failsWith_modify _ fun (c : Client) => { c with mState := .play }).clean
  | hello => exact (inspects_fail (Or.inr (Or.inl rfl))).clean
  | loginCompression => exact (inspects_fail (Or.inr (Or.inl rfl))).clean
  | customPayload => exact inspects_handleCustomPayload.clean
  | keepAlive => exact (inspects_readIntN 64).bind_clean fun _ => (failsWith_queueSend env _).clean
  | levelChunkWithLight => exact absurd rfl htype
  | login =>
    refine inspects_readLogin.bind_clean fun _ => FailsWith.clean (FailsWith.bind ?_ fun _ =>
      failsWith_queueSendAll env _)
    exact failsWith_modify _ fun (c : Client) => { c with mWorld := some (World.init 384) }
  | other state number => exact inspects_discardRest.clean

end Mccpp.Analysis
