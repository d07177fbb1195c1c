import Mccpp.Analysis.NestedReader
import Mccpp.Analysis.NbtBreakdown
import Mccpp.Analysis.Sending
import Mccpp.Analysis.ChunkColumns

/-!
# The handlers and the layouts

Every handler does over everything that is left of a packet what the layout of the packet says:
when it returns the bytes spell the layout and the client is what the layout makes of it, and it
brings the process down exactly where the layout breaks.
-/

set_option autoImplicit false

namespace Mccpp.Analysis

open Mccpp.Library Mccpp.Model Mccpp.Model.PacketM Mccpp.Interface

variable {σ α : Type}

/-! ## Fields that are dropped -/

theorem follows_nbt : Follows (Nbt.nbt : PacketM σ (Option Tag)) (.lift documentFormat) :=
  follows_lift sound_nbt (fun _ _ h => reads_nbt h) fun _ _ h => fails_nbt h

theorem follows_readProperty : Follows (readProperty : PacketM σ Unit) (.lift propertyFormat) := by
  refine (follows_readString (le_refl _)).lift_bind fun _ =>
    (follows_readString (le_refl _)).lift_bind fun _ => follows_readBool.lift_bind fun isSigned => ?_
  cases isSigned with
  | true => exact (follows_readString (le_refl _)).lift_map _
  | false => exact follows_lift_pure ()

theorem follows_readDeathLocation :
    Follows (readDeathLocation : PacketM σ Unit) (.lift deathLocationFormat) := by
  refine follows_readBool.lift_bind fun hasDeathLocation => ?_
  cases hasDeathLocation with
  | true => exact (follows_readString (le_refl _)).lift_bind fun _ =>
      (follows_readIntN 8 rfl).lift_map _
  | false => exact follows_lift_pure ()

theorem follows_readLogin : Follows (readLogin : PacketM σ Unit) (.lift loginFormat) :=
  (follows_readIntN 4 rfl).lift_bind fun _ => follows_readBool.lift_bind fun _ =>
  (follows_readIntN 1 rfl).lift_bind fun _ => (follows_readIntN 1 rfl).lift_bind fun _ =>
  follows_readVarint.lift_bind fun _ =>
  ((follows_readString (le_refl _)).lift_times _).lift_bind fun _ =>
  follows_nbt.lift_bind fun _ =>
  (follows_readString (le_refl _)).lift_bind fun _ =>
  (follows_readString (le_refl _)).lift_bind fun _ =>
  (follows_readIntN 8 rfl).lift_bind fun _ =>
  follows_readVarint.lift_bind fun _ => follows_readVarint.lift_bind fun _ =>
  follows_readVarint.lift_bind fun _ =>
  follows_readBool.lift_bind fun _ => follows_readBool.lift_bind fun _ =>
  follows_readBool.lift_bind fun _ => follows_readBool.lift_bind fun _ =>
  follows_readDeathLocation

theorem follows_readChunkHead :
    Follows (readChunkHead : PacketM σ (BitVec 32 × BitVec 32 × ℕ)) (.lift chunkHeadFormat) := by
  refine (follows_readIntN 4 rfl).lift_bind fun _ => (follows_readIntN 4 rfl).lift_bind fun _ =>
    follows_nbt.lift_bind fun _ => follows_readVarint.lift_bind fun dataSize => ?_
  split
  · exact follows_lift_throw rfl
  · exact follows_lift_pure _

theorem follows_readBlockEntity :
    Follows (readBlockEntity : PacketM σ Unit) (.lift blockEntityFormat) :=
  (follows_readIntN 1 rfl).lift_bind fun _ => (follows_readIntN 2 rfl).lift_bind fun _ =>
    follows_readVarint.lift_bind fun _ => follows_nbt.lift_map _

/-! ## Everything that is left -/

/-- Code that returns whatever is left, and leaves nothing. -/
theorem ends_rest {p : PacketM σ Unit}
    (hp : ∀ s bs, (p s bs.length).run bs = some ((.ok (), s, 0), [])) : Ends p .rest where
  sound := by
    intro s bs r left hrun
    rw [hp s bs] at hrun
    cases hrun
    exact ⟨fun _ _ => ⟨rfl, bs, (List.append_nil bs).symm, rfl⟩, fun e k he => (nomatch he)⟩
  fails := fun _ _ _ h => h.elim

theorem ends_discardRest : Ends (discardRest : PacketM σ Unit) .rest := by
  refine ends_rest fun s bs => ?_
  rw [run_discardRest, if_pos (le_refl _), List.drop_length]

theorem ends_handleCustomPayload :
    Ends (handleCustomPayload : PacketM σ Unit) ((Layout.lift (stringFormat 32767)).bind fun _ => .rest) := by
  refine (follows_readString (le_refl _)).bind_ends fun channel => ?_
  split
  · refine ends_rest fun s bs => ?_
    have hread := (reads_readCharArray bs).map (fun _ => ()) s bs.length [] (le_refl _)
    rw [List.append_nil, Nat.sub_self] at hread
    exact hread
  · exact ends_discardRest

theorem ends_readChunkTail : Ends (readChunkTail : PacketM σ Unit) chunkTailLayout := by
  have hassoc : (readChunkTail : PacketM σ Unit) = (do
      let numberOfBlockEntities ← readVarint
      let _blockEntities ← PacketM.times numberOfBlockEntities.toInt.toNat readBlockEntity
      let _trustEdges ← readBool
      pure ()) >>= fun _ => discardRest := by
    simp only [bind_assoc_eq, pure_bind_eq]
    rfl
  rw [hassoc]
  refine Follows.bind_ends ?_ fun _ => ends_discardRest
  exact follows_readVarint.lift_bind fun _ => (follows_readBlockEntity.lift_times _).lift_bind fun _ =>
    follows_readBool.lift_map _

/-! ## Effects -/

theorem follows_modify (f : σ → σ) :
    Follows (do let s ← get; PacketM.set (f s) : PacketM σ Unit) (.modify f) where
  sound := by
    intro s bs r left h
    cases h
    refine ⟨fun b hb => ?_, fun e k he => (nomatch he)⟩
    cases hb
    exact ⟨rfl, [], rfl, rfl, rfl⟩
  reads := by
    rintro s _ left b s' ⟨rfl, hb⟩
    cases hb
    rfl
  fails := fun _ _ _ h => h.elim

/-- INTERNAL: **what `queue_send` can throw**. Only a socket that takes nothing keeps it from
ending.
SOURCE: proto/client.hh:16-22, proto/tcp_client.cc:37-43 -/
theorem queueSend_failure (socket : Socket) (id : ServerboundType → BitVec 32)
    (p : ServerboundPacket) (o : Outgoing) (e : Failure)
    (h : (o.queueSend socket id p).1 = .error e) :
    (∃ what, e = .encodeError what) ∨ e = .systemError ∨ e = .diverged := by
  have hflush : ∀ fuel offset (o : Outgoing), (Outgoing.flushLoop socket fuel offset o).1 = .error e →
      e = .systemError ∨ e = .diverged := by
    intro fuel
    induction fuel with
    | zero =>
      intro offset o h
      cases h
      exact Or.inr rfl
    | succ fuel ih =>
      intro offset o h
      unfold Outgoing.flushLoop at h
      split at h
      · split at h
        · cases h
          exact Or.inl rfl
        · exact ih _ _ h
      · cases h
  rcases queueSend_cases socket id p o with ⟨_, hsend⟩ | ⟨_, what, hsend⟩
  · rw [hsend] at h
    unfold Outgoing.queueSendBody at h
    split at h
    · cases h
      exact Or.inl ⟨_, rfl⟩
    · exact Or.inr (hflush _ _ _ h)
  · rw [hsend] at h
    cases h
    exact Or.inl ⟨what, rfl⟩

theorem breakdownOf_queueSend {env : Environment} {p : ServerboundPacket} {c : Client} {e : Failure}
    (h : (c.queueSend env p).1 = .error e) : breakdownOf e = none := by
  rcases queueSend_failure _ _ _ _ _ h with ⟨what, rfl⟩ | rfl | rfl <;> rfl

theorem follows_queueSend (env : Environment) (p : ServerboundPacket) :
    Follows (PacketM.queueSend env p) (sendLayout env p) where
  sound := by
    intro c bs r left h
    cases h
    unfold sendLayout
    cases hsend : c.queueSend env p with
    | mk result c' =>
      cases result with
      | error e =>
        refine ⟨fun b hb => (nomatch hb), fun e' k he hk => ?_⟩
        cases he
        rw [breakdownOf_queueSend (congrArg Prod.fst hsend)] at hk
        cases hk
      | ok u =>
        refine ⟨fun b hb => ?_, fun e k he => (nomatch he)⟩
        cases hb
        exact ⟨rfl, [], rfl, rfl, rfl⟩
  reads := by
    intro c us left a c' h
    unfold sendLayout at h
    cases hsend : c.queueSend env p with
    | mk result c'' =>
      rw [hsend] at h
      cases result with
      | error e => exact h.elim
      | ok u =>
        obtain ⟨rfl, hpair⟩ := h
        cases hpair
        unfold PacketM.queueSend
        rw [hsend]
        rfl
  fails := by
    intro c bs k h
    unfold sendLayout at h
    split at h <;> exact h.elim

theorem follows_queueSendAll (env : Environment) (ps : List ServerboundPacket) :
    Follows (queueSendAll env ps) (sendAllLayout env ps) := by
  induction ps with
  | nil => exact follows_pure ()
  | cons p ps ih => exact (follows_queueSend env p).bind fun _ => ih

/-! ## The chunks of a column -/

theorem get_total (m : ChunkManager) (memory : ℕ) (x y : BitVec 32) :
    ∃ column chunks, m.get memory x y = some (column, chunks) := by
  obtain ⟨column, chunks, hget, _⟩ := get_spec m ⟨x, y, memory⟩
  exact ⟨column, chunks, hget⟩

/-- INTERNAL: what `get(x, y)` does to the client.
SOURCE: game.hh:20-22, world/chunk.hh:70-76 -/
theorem getColumn_apply (memory : ℕ) (x y : BitVec 32) (c : Client) (n : ℕ) :
    (c.mWorld = none ∧ getColumn memory x y c n = .done (.error .badOptionalAccess, c, n) ∧
        columnLayout memory x y c = .refuse) ∨
      ∃ world column chunks, c.mWorld = some world ∧
        world.mChunks.get memory x y = some (column, chunks) ∧
        getColumn memory x y c n = .done (.ok column.pointers,
          { c with mWorld := some { world with mChunks := chunks } }, n) ∧
        columnLayout memory x y c =
          .pure (column.pointers, { c with mWorld := some { world with mChunks := chunks } }) := by
  obtain ⟨state, name, port, world, outgoing⟩ := c
  cases world with
  | none => exact Or.inl ⟨rfl, rfl, rfl⟩
  | some world =>
    obtain ⟨column, chunks, hget⟩ := get_total world.mChunks memory x y
    refine Or.inr ⟨world, column, chunks, rfl, hget, ?_, ?_⟩
    · unfold getColumn
      simp only [bind_apply, PacketM.get, Pull.bind_done, andThen_ok, hget]
      rfl
    · unfold columnLayout
      simp only [hget]

theorem follows_getColumn (memory : ℕ) (x y : BitVec 32) :
    Follows (getColumn memory x y) (columnLayout memory x y) where
  sound := by
    intro c bs r left h
    rcases getColumn_apply memory x y c bs.length with ⟨_, hrun, hlayout⟩ |
      ⟨world, column, chunks, _, _, hrun, hlayout⟩
    · rw [hrun] at h
      cases h
      refine ⟨fun b hb => (nomatch hb), fun e k he hk => ?_⟩
      cases he
      cases hk
    · rw [hrun] at h
      cases h
      rw [hlayout]
      refine ⟨fun b hb => ?_, fun e k he => (nomatch he)⟩
      cases hb
      exact ⟨rfl, [], rfl, rfl, rfl⟩
  reads := by
    intro c us left a c' h
    rcases getColumn_apply memory x y c (us ++ left).length with ⟨_, _, hlayout⟩ |
      ⟨world, column, chunks, _, _, hrun, hlayout⟩
    · rw [hlayout] at h
      exact h.elim
    · rw [hlayout] at h
      rw [hrun]
      obtain ⟨rfl, hpair⟩ := h
      cases hpair
      rfl
  fails := by
    intro c bs k h
    rcases getColumn_apply memory x y c bs.length with ⟨_, _, hlayout⟩ |
      ⟨world, column, chunks, _, _, _, hlayout⟩
    · rw [hlayout] at h
      exact h.elim
    · rw [hlayout] at h
      exact h.elim

theorem follows_load : Follows Chunk.load sectionLayout :=
  (follows_readIntN 2 rfl).bind fun _ => follows_loadBlocks.bind fun _ => follows_pure ()

theorem run_onChunk (x y : BitVec 32) (pointer : ℕ) (p : PacketM Chunk α) (c : Client) (n : ℕ)
    (bs : List Byte) :
    (onChunk x y pointer p c n).run bs =
      ((p (c.chunkAt x y pointer) n).run bs).map fun r =>
        ((r.1.1, c.setChunk x y pointer r.1.2.1, r.1.2.2), r.2) := by
  unfold onChunk
  rw [Pull.run_bind]
  cases (p (c.chunkAt x y pointer) n).run bs <;> rfl

/-- INTERNAL: code over a chunk of a column, compared through the chunk. -/
theorem Follows.onChunk {p : PacketM Chunk Unit} (hp : Follows p sectionLayout) (x y : BitVec 32)
    (pointer : ℕ) : Follows (PacketM.onChunk x y pointer p) (chunkLayout x y pointer) where
  sound := by
    intro c bs r left h
    rw [run_onChunk, Option.map_eq_some_iff] at h
    obtain ⟨⟨r', left'⟩, hrun, heq⟩ := h
    cases heq
    obtain ⟨hok, herror⟩ := hp.sound _ bs r' left' hrun
    refine ⟨fun a ha => ?_, herror⟩
    obtain ⟨hcount, used, hused, hspells⟩ := hok a ha
    exact ⟨hcount, used, hused, _, hspells, rfl⟩
  reads := by
    rintro c us left a c' ⟨⟨a', chunk⟩, hspells, hpair⟩
    cases hpair
    rw [run_onChunk, hp.reads _ us left _ chunk hspells]
    rfl
  fails := by
    intro c bs k h
    obtain ⟨e, chunk, n, left, hrun, hk⟩ := hp.fails _ bs k h
    refine ⟨e, c.setChunk x y pointer chunk, n, left, ?_, hk⟩
    rw [run_onChunk, hrun]
    rfl

theorem follows_loadChunks (x y : BitVec 32) (pointers : List ℕ) :
    Follows (loadChunks x y pointers) (chunksLayout x y pointers) := by
  induction pointers with
  | nil => exact follows_pure ()
  | cons pointer pointers ih => exact (follows_load.onChunk x y pointer).bind fun _ => ih

theorem Blind.onChunk {p : PacketM Chunk α} (hp : Blind p) (x y : BitVec 32) (pointer : ℕ) :
    Blind (PacketM.onChunk x y pointer p) where
  returns := by
    intro c bs d a c' n left h
    rw [run_onChunk, Option.map_eq_some_iff] at h
    obtain ⟨⟨⟨e | b, chunk, m⟩, left'⟩, hrun, heq⟩ := h
    · cases heq
    · cases heq
      obtain ⟨hn, hmore⟩ := hp.returns _ bs d _ _ _ _ hrun
      refine ⟨hn, ?_⟩
      rw [run_onChunk, hmore]
      rfl
  throws := by
    intro c bs d e c' n left h hk
    rw [run_onChunk, Option.map_eq_some_iff] at h
    obtain ⟨⟨⟨e' | b, chunk, m⟩, left'⟩, hrun, heq⟩ := h
    · cases heq
      obtain ⟨m', hmore⟩ := hp.throws _ bs d _ _ _ _ hrun hk
      refine ⟨m', ?_⟩
      rw [run_onChunk, hmore]
      rfl
    · cases heq
  stops := by
    intro c bs d e c' n left k h hk
    rw [run_onChunk, Option.map_eq_some_iff] at h
    obtain ⟨⟨⟨e' | b, chunk, m⟩, left'⟩, hrun, heq⟩ := h
    · cases heq
      obtain ⟨hcut, hnone⟩ := hp.stops _ bs d _ _ _ _ k hrun hk
      refine ⟨hcut, fun hd => ?_⟩
      rw [run_onChunk, hnone hd]
      rfl
    · cases heq

theorem blind_loadChunks (x y : BitVec 32) (pointers : List ℕ) :
    Blind (loadChunks x y pointers) := by
  induction pointers with
  | nil => exact blind_pure ()
  | cons pointer pointers ih => exact (blind_load.onChunk x y pointer).bind fun _ => ih

/-! ## The count is kept -/

theorem metered_get : Metered (PacketM.get : PacketM σ σ) :=
  fun _ _ _ _ => (Pull.within_done _ _ _).mpr (accounted_ok.mpr rfl)

theorem metered_load : Metered Chunk.load :=
  (metered_readIntN 16).bind fun _ => metered_loadBlocks.bind fun _ => metered_pure ()

theorem Metered.onChunk {p : PacketM Chunk α} (hp : Metered p) (x y : BitVec 32) (pointer : ℕ) :
    Metered (PacketM.onChunk x y pointer p) := by
  intro bound c n hn
  unfold PacketM.onChunk
  rw [Pull.within_bind]
  refine (hp bound _ n hn).mono ?_
  intro r m _ hacc
  exact (Pull.within_done _ _ _).mpr hacc

theorem metered_loadChunks (x y : BitVec 32) (pointers : List ℕ) :
    Metered (loadChunks x y pointers) := by
  induction pointers with
  | nil => exact metered_pure ()
  | cons pointer pointers ih => exact (metered_load.onChunk x y pointer).bind fun _ => ih

theorem metered_getColumn (memory : ℕ) (x y : BitVec 32) : Metered (getColumn memory x y) := by
  intro bound c n _
  rcases getColumn_apply memory x y c n with ⟨_, hrun, _⟩ | ⟨world, column, chunks, _, _, hrun, _⟩
  · rw [hrun]
    exact (Pull.within_done _ _ _).mpr (accounted_error.mpr ⟨by simp, fun _ => rfl⟩)
  · rw [hrun]
    exact (Pull.within_done _ _ _).mpr (accounted_ok.mpr rfl)

theorem metered_discardRest : Metered (discardRest : PacketM σ Unit) :=
  metered_remaining_bind fun n => metered_discard n (n + 1)

theorem metered_readProperty : Metered (readProperty : PacketM σ Unit) := by
  refine (metered_readString _).bind fun _ => (metered_readString _).bind fun _ =>
    metered_readBool.bind fun isSigned => ?_
  split
  · exact (metered_readString _).bind fun _ => metered_pure ()
  · exact metered_pure ()

theorem metered_readDeathLocation : Metered (readDeathLocation : PacketM σ Unit) := by
  refine metered_readBool.bind fun hasDeathLocation => ?_
  split
  · exact (metered_readString _).bind fun _ => (metered_readIntN 64).bind fun _ => metered_pure ()
  · exact metered_pure ()

theorem metered_readLogin : Metered (readLogin : PacketM σ Unit) :=
  (metered_readIntN 32).bind fun _ => metered_readBool.bind fun _ =>
  (metered_readIntN 8).bind fun _ => (metered_readIntN 8).bind fun _ =>
  metered_readVarint.bind fun _ => ((metered_readString _).times _).bind fun _ =>
  metered_nbt.bind fun _ => (metered_readString _).bind fun _ =>
  (metered_readString _).bind fun _ => (metered_readIntN 64).bind fun _ =>
  metered_readVarint.bind fun _ => metered_readVarint.bind fun _ =>
  metered_readVarint.bind fun _ => metered_readBool.bind fun _ => metered_readBool.bind fun _ =>
  metered_readBool.bind fun _ => metered_readBool.bind fun _ => metered_readDeathLocation

theorem metered_readChunkHead : Metered (readChunkHead : PacketM σ (BitVec 32 × BitVec 32 × ℕ)) := by
  refine (metered_readIntN 32).bind fun _ => (metered_readIntN 32).bind fun _ =>
    metered_nbt.bind fun _ => metered_readVarint.bind fun dataSize => ?_
  split
  · exact metered_fail (by simp)
  · exact metered_pure _

theorem metered_readChunkTail : Metered (readChunkTail : PacketM σ Unit) :=
  metered_readVarint.bind fun _ => (Metered.times ((metered_readIntN 8).bind fun _ =>
    (metered_readIntN 16).bind fun _ => metered_readVarint.bind fun _ => metered_nbt.bind fun _ =>
      metered_pure ()) _).bind fun _ => metered_readBool.bind fun _ => metered_discardRest

theorem metered_handleCustomPayload : Metered (handleCustomPayload : PacketM σ Unit) := by
  refine (metered_readString _).bind fun channel => ?_
  split
  · exact metered_remaining_bind fun n =>
      ((metered_readCharArray n).bind fun _ => metered_pure ()) (n + 1)
  · exact metered_discardRest

end Mccpp.Analysis
