import Mccpp.Analysis.Outcomes
import Mccpp.Analysis.PacketSafety

/-!
# When a handler is all or nothing

Only the handler of a chunk packet has effects before its last read: it makes the column, and it
loads the sections one by one. A malformed packet that is refused behind its head leaves the column
and the chunks that were filled by then. What was filled is determined by the bytes (`Filled`),
because a section takes the same bytes whatever chunk it is loaded into.
-/

set_option autoImplicit false

namespace Mccpp.Analysis

open Mccpp.Library Mccpp.Model Mccpp.Model.PacketM Mccpp.Interface

variable {σ α β : Type}

/-! ## A field, and what is behind it -/

/-- INTERNAL: the bytes of a value are found in one way. -/
theorem Follows.unique {p : PacketM σ α} {F : Layout σ α} (hp : Follows p F) {s s₁ s₂ : σ}
    {us us' left left' : List Byte} {a a' : α} (h : (F s).Spells us (a, s₁))
    (h' : (F s).Spells us' (a', s₂)) (hsame : us ++ left = us' ++ left') :
    us = us' ∧ left = left' ∧ a = a' ∧ s₁ = s₂ := by
  have hrun := hp.reads s us left a s₁ h
  rw [hsame, hp.reads s us' left' a' s₂ h', Option.some.injEq, Prod.mk.injEq, Prod.mk.injEq,
    Prod.mk.injEq, Except.ok.injEq] at hrun
  obtain ⟨⟨ha, hs, _⟩, hleft⟩ := hrun
  cases hleft
  exact ⟨List.append_cancel_right hsame, rfl, ha.symm, hs.symm⟩

theorem Follows.unique_lift {p : PacketM σ α} {F : ByteFormat α} (hp : Follows p (.lift F)) (s : σ)
    {us us' left left' : List Byte} {a a' : α} (h : F.Spells us a) (h' : F.Spells us' a')
    (hsame : us ++ left = us' ++ left') : us = us' ∧ left = left' ∧ a = a' := by
  have hlift : (Layout.lift F s).Spells us (a, s) := ⟨a, h, rfl⟩
  have hlift' : (Layout.lift F s).Spells us' (a', s) := ⟨a', h', rfl⟩
  obtain ⟨hused, hleft, ha, _⟩ := hp.unique hlift hlift' hsame
  exact ⟨hused, hleft, ha⟩

/-- INTERNAL: code behind a field that is only read. Either the field is not there, and nothing
has happened, or the rest runs over what is behind it. -/
theorem run_behind {p : PacketM σ α} {F : ByteFormat α} (hp : Follows p (.lift F))
    (hi : Inspects p) {f : α → PacketM σ β} {s : σ} {bs left : List Byte} {r : Ended σ β}
    (hrun : ((p >>= f) s bs.length).run bs = some (r, left)) :
    ((∀ used rest a, bs = used ++ rest → ¬F.Spells used a) ∧ r.2.1 = s) ∨
      ∃ used rest a, bs = used ++ rest ∧ F.Spells used a ∧
        (f a s rest.length).run rest = some (r, left) := by
  rw [bind_apply, Pull.run_bind] at hrun
  obtain ⟨⟨⟨e | a, s₁, n₁⟩, left₁⟩, hrun₁, hrun₂⟩ := Option.bind_eq_some_iff.mp hrun
  · cases hrun₂
    refine Or.inl ⟨fun used rest a hbs hspells => ?_, (hi _ _ _ _ _ hrun₁).1⟩
    have hread := hp.reads s used rest a s ⟨a, hspells, rfl⟩
    rw [← hbs, hrun₁] at hread
    cases hread
  · obtain ⟨hcount, used, hbs, b, hspells, hpair⟩ := (hp.sound s bs _ left₁ hrun₁).1 a rfl
    cases hpair
    cases hcount
    exact Or.inr ⟨used, left₁, a, hbs, hspells, hrun₂⟩

/-! ## Loading a section -/

/-- INTERNAL: the blocks of a chunk change only where there is one value for all of them.
SOURCE: world/chunk.cc:33-65 -/
theorem loadBlocks_leaves {c : Chunk} {bs left : List Byte} {r : Ended Chunk Unit}
    (hrun : (loadBlocks c bs.length).run bs = some (r, left)) :
    FillsBlocks bs ∧ r.2.1 = uniformChunk ∨ ¬FillsBlocks bs ∧ r.2.1 = c := by
  rcases run_behind (follows_readIntN 1 rfl) (inspects_readIntN 8) hrun with
    ⟨hnone, hsame⟩ | ⟨used, rest, bits, rfl, hbits, hrun⟩
  · exact Or.inr ⟨fun ⟨us, vs, v, xs, hbs, hbits, _⟩ => hnone us (vs ++ xs) 0 hbs hbits, hsame⟩
  · have hzero : FillsBlocks (used ++ rest) → bits = 0 := by
      rintro ⟨us, vs, v, xs, hbs, hspells, _⟩
      exact ((follows_readIntN 1 rfl).unique_lift c hbits hspells hbs).2.2
    split at hrun
    · rename_i hbits0
      subst hbits0
      rcases run_behind follows_readVarint inspects_readVarint hrun with
        ⟨hnone, hsame⟩ | ⟨value, rest, v, rfl, hvalue, hrun⟩
      · refine Or.inr ⟨?_, hsame⟩
        rintro ⟨us, vs, v, xs, hbs, hspells, hvalue⟩
        obtain ⟨_, hrest, _⟩ := (follows_readIntN 1 rfl).unique_lift c hbits hspells hbs
        exact hnone vs xs v hrest hvalue
      · have hlength : Inspects (do
            let _dataArrayLength ← readVarint
            pure () : PacketM Chunk Unit) := inspects_readVarint.bind fun _ => inspects_pure ()
        refine Or.inl ⟨⟨used, value, v, rest, rfl, hbits, hvalue⟩, ?_⟩
        exact (hlength _ _ _ _ _ hrun).1
    · rename_i hbits0
      refine Or.inr ⟨fun hfills => hbits0 (hzero hfills), ?_⟩
      have hinspects : Inspects (if bits.toNat ≤ 8 then do
          let bitsPerEntry := if bits.toNat < 4 then 4 else bits.toNat
          let paletteLength ← readVarint
          if paletteLength.toInt < 0 then fail (.decodeError "invalid palette length")
          else
            let _palette ← PacketM.times paletteLength.toNat readVarint
            let _dataArrayLength ← readVarint
            let dataArray ← PacketM.times (4096 * bitsPerEntry / 64) readU64
            let _entries := (List.range 4096).map fun i =>
              extractBits (dataArray ++ [0]) (i * bitsPerEntry) bitsPerEntry
            pure ()
          else pure () : PacketM Chunk Unit) := by
        split
        · refine inspects_readVarint.bind fun count => ?_
          split
          · exact inspects_throw _
          · exact (inspects_readVarint.times _).bind fun _ => inspects_readVarint.bind fun _ =>
              ((inspects_readIntN 64).times _).bind fun _ => inspects_pure ()
        · exact inspects_pure ()
      exact (hinspects _ _ _ _ _ hrun).1

/-- INTERNAL: **what loading a section does to its chunk**, whether it returns or fails.
SOURCE: world/chunk.cc:20-73 -/
theorem load_leaves {c : Chunk} {bs left : List Byte} {r : Ended Chunk Unit}
    (hrun : (Chunk.load c bs.length).run bs = some (r, left)) :
    FillsChunk bs ∧ r.2.1 = uniformChunk ∨ ¬FillsChunk bs ∧ r.2.1 = c := by
  rcases run_behind (follows_readIntN 2 rfl) (inspects_readIntN 16) hrun with
    ⟨hnone, hsame⟩ | ⟨used, rest, n, rfl, hcount, hrun⟩
  · exact Or.inr ⟨fun ⟨us, n, xs, hbs, hspells, _⟩ => hnone us xs n hbs hspells, hsame⟩
  · have hfills : FillsChunk (used ++ rest) ↔ FillsBlocks rest := by
      constructor
      · rintro ⟨us, m, xs, hbs, hspells, hblocks⟩
        obtain ⟨_, hrest, _⟩ := (follows_readIntN 2 rfl).unique_lift c hcount hspells hbs
        rw [hrest]
        exact hblocks
      · exact fun hblocks => ⟨used, n, rest, rfl, hcount, hblocks⟩
    rw [hfills]
    rw [bind_apply, Pull.run_bind] at hrun
    obtain ⟨⟨⟨e | u, c', m⟩, left'⟩, hblocks, hbiomes⟩ := Option.bind_eq_some_iff.mp hrun
    · cases hbiomes
      exact loadBlocks_leaves hblocks
    · cases hbiomes
      exact loadBlocks_leaves hblocks

/-- INTERNAL: a section takes the same bytes for every chunk. -/
theorem spells_section_any {c c' : Chunk} {us : List Byte}
    (h : (sectionLayout c).Spells us ((), c')) (d : Chunk) :
    ∃ d', (sectionLayout d).Spells us ((), d') := by
  obtain ⟨counts, vs, ⟨n, _⟩, rfl, ⟨_, hcount, hpair⟩, blocks, _, ⟨_, c''⟩, rfl, hblocks, rfl, _⟩ := h
  cases hpair
  have hany : ∃ d', (blocksLayout d).Spells blocks ((), d') := by
    obtain ⟨us, vs, ⟨bits, _⟩, rfl, ⟨_, hbits, hpair⟩, h⟩ := hblocks
    cases hpair
    dsimp only at h
    split at h
    · rename_i hzero
      obtain ⟨ws, xs, ⟨value, _⟩, rfl, ⟨_, hvalue, hpair⟩, hrest⟩ := h
      cases hpair
      refine ⟨c'', us, ws ++ xs, (bits, d), rfl, ⟨bits, hbits, rfl⟩, ?_⟩
      dsimp only
      rw [if_pos hzero]
      exact ⟨ws, xs, (_, d), rfl, ⟨_, hvalue, rfl⟩, hrest⟩
    · rename_i hzero
      refine ⟨d, us, vs, (bits, d), rfl, ⟨bits, hbits, rfl⟩, ?_⟩
      dsimp only
      rw [if_neg hzero]
      split at h
      · rename_i hfew
        obtain ⟨_, hlift, _⟩ := h
        rw [if_pos hfew]
        exact ⟨(), hlift, rfl⟩
      · rename_i hmany
        obtain ⟨rfl, _⟩ := h
        rw [if_neg hmany]
        exact ⟨rfl, rfl⟩
  obtain ⟨d', hd'⟩ := hany
  exact ⟨d', counts, blocks ++ [], (n, d), rfl, ⟨n, hcount, rfl⟩, blocks, [], ((), d'), rfl, hd', rfl,
    rfl⟩

/-! ## The chunks of a column -/

/-- Chunks of the column at a position become uniform, one after another. -/
def fillAll (x y : BitVec 32) (filled : List ℕ) (c : Client) : Client :=
  filled.foldl (fun c q => c.setChunk x y q uniformChunk) c

theorem column_setChunk (c : Client) (x y : BitVec 32) (q : ℕ) (chunk : Chunk) :
    (c.setChunk x y q chunk).column x y =
      (c.column x y).map fun column => { column with mChunks := column.mChunks.set q chunk } := by
  obtain ⟨state, name, port, world, outgoing⟩ := c
  cases world with
  | none => rfl
  | some world => simp [Client.setChunk, Client.column, ChunkManager.tryGet]

/-- INTERNAL: a write of what is there already changes nothing. -/
theorem setChunk_same {c : Client} {x y : BitVec 32} {q : ℕ} {chunk : Chunk}
    (h : ∀ column old, c.column x y = some column → column.mChunks[q]? = some old → old = chunk) :
    c.setChunk x y q chunk = c := by
  obtain ⟨state, name, port, world, outgoing⟩ := c
  cases world with
  | none => rfl
  | some world =>
    obtain ⟨⟨height, columns⟩⟩ := world
    have hcolumns : (fun key => if key = ChunkManager.chunkPosToIdx x y then
        (columns key).map fun column => { column with mChunks := column.mChunks.set q chunk }
        else columns key) = columns := by
      funext key
      split
      · rename_i hkey
        subst hkey
        cases hcolumn : columns (ChunkManager.chunkPosToIdx x y) with
        | none => rfl
        | some column =>
          have hset : column.mChunks.set q chunk = column.mChunks := by
            apply List.ext_getElem?
            intro i
            rw [List.getElem?_set]
            split
            · rename_i hq
              subst hq
              split
              · rename_i hlt
                rw [List.getElem?_eq_getElem hlt]
                exact congrArg some (h column _ hcolumn (List.getElem?_eq_getElem hlt)).symm
              · rename_i hge
                exact (List.getElem?_eq_none (by omega)).symm
            · rfl
          rw [Option.map_some, hset]
      · rfl
    unfold Client.setChunk
    simp only [Option.map_some, hcolumns]

theorem setChunk_chunkAt (c : Client) (x y : BitVec 32) (q : ℕ) :
    c.setChunk x y q (c.chunkAt x y q) = c := by
  refine setChunk_same fun column old hcolumn hold => ?_
  unfold Client.chunkAt
  rw [hcolumn, Option.bind_some, hold]
  rfl

/-- INTERNAL: the column behind the writes. -/
theorem column_fillAll {x y : BitVec 32} (filled : List ℕ) {c : Client} {column : ChunkColumn}
    (h : c.column x y = some column) :
    ∃ column', (fillAll x y filled c).column x y = some column' ∧
      ∀ q, column'.mChunks[q]? =
        if q ∈ filled then column.mChunks[q]?.map fun _ => uniformChunk else column.mChunks[q]? := by
  induction filled generalizing c column with
  | nil => exact ⟨column, h, fun q => rfl⟩
  | cons p filled ih =>
    have hset := column_setChunk c x y p uniformChunk
    rw [h, Option.map_some] at hset
    obtain ⟨column', hcolumn', hchunks⟩ := ih hset
    refine ⟨column', hcolumn', fun q => ?_⟩
    rw [hchunks q]
    dsimp only
    rw [List.getElem?_set]
    by_cases hpq : p = q
    · subst hpq
      by_cases hlt : p < column.mChunks.length
      · simp [hlt]
      · simp [hlt]
    · have hqp : q ≠ p := fun h => hpq h.symm
      simp [hpq, hqp]

theorem fillAll_same {x y : BitVec 32} {filled : List ℕ} {c : Client}
    (h : ∀ q ∈ filled, ∀ column old, c.column x y = some column → column.mChunks[q]? = some old →
      old = uniformChunk) : fillAll x y filled c = c := by
  induction filled with
  | nil => rfl
  | cons p filled ih =>
    have hhead := setChunk_same (h p List.mem_cons_self)
    unfold fillAll
    rw [List.foldl_cons, hhead]
    exact ih fun q hq => h q (List.mem_cons_of_mem p hq)

theorem column_of_same_world {c c' : Client} (h : c'.mWorld = c.mWorld) (x y : BitVec 32) :
    c'.column x y = c.column x y := by
  unfold Client.column
  rw [h]

/-- INTERNAL: **filling the chunks of a column** changes the world if and only if one of them has
other blocks. -/
theorem fillAll_world_iff {x y : BitVec 32} {filled : List ℕ} {c : Client} {column : ChunkColumn}
    {window : List Byte} (hcolumn : c.column x y = some column)
    (hfilled : ∀ q, q ∈ filled ↔ Filled column.pointers window q) :
    (fillAll x y filled c).mWorld = c.mWorld ↔ ¬Touches (some column) window := by
  constructor
  · rintro h ⟨q, chunk, hq, hchunk, hother⟩
    obtain ⟨column', hcolumn', hchunks⟩ := column_fillAll filled hcolumn
    rw [column_of_same_world h, hcolumn] at hcolumn'
    cases hcolumn'
    have hfill := hchunks q
    rw [if_pos ((hfilled q).mpr hq), hchunk] at hfill
    exact hother (Option.some.inj hfill)
  · intro huntouched
    rw [fillAll_same fun q hq column' chunk hcolumn' hchunk => ?_]
    rw [hcolumn] at hcolumn'
    cases hcolumn'
    by_contra hother
    exact huntouched ⟨q, chunk, (hfilled q).mp hq, hchunk, hother⟩

theorem fillAll_elsewhere (x y : BitVec 32) (filled : List ℕ) (c : Client) :
    (fillAll x y filled c).mState = c.mState ∧ (fillAll x y filled c).outgoing = c.outgoing := by
  induction filled generalizing c with
  | nil => exact ⟨rfl, rfl⟩
  | cons p filled ih => exact ih (c.setChunk x y p uniformChunk)

/-! ## Loading the sections of a packet -/

/-- INTERNAL: what is filled behind a section that is there. -/
theorem filled_behind {pointer : ℕ} {pointers : List ℕ} {used left : List Byte} {chunk chunk' : Chunk}
    (hspells : (sectionLayout chunk).Spells used ((), chunk')) (q : ℕ) :
    Filled (pointer :: pointers) (used ++ left) q ↔
      q = pointer ∧ FillsChunk (used ++ left) ∨ Filled pointers left q := by
  constructor
  · generalize hbs : used ++ left = bs
    intro h
    cases h with
    | here _ _ _ hfills => exact Or.inl ⟨rfl, hfills⟩
    | later _ _ used' left' other other' _ hspells' hlater =>
      obtain ⟨other'', hother⟩ := spells_section_any hspells' chunk
      obtain ⟨_, rfl, _⟩ := follows_load.unique hspells hother hbs
      exact Or.inr hlater
  · rintro (⟨rfl, hfills⟩ | hlater)
    · exact .here q pointers _ hfills
    · exact .later pointer pointers used left chunk chunk' q hspells hlater

/-- INTERNAL: what is filled where the first section is refused, or cut off. -/
theorem filled_here {pointer : ℕ} {pointers : List ℕ} {bs : List Byte}
    (hnone : ∀ used left chunk chunk', bs = used ++ left →
      ¬(sectionLayout chunk).Spells used ((), chunk')) (q : ℕ) :
    Filled (pointer :: pointers) bs q ↔ q = pointer ∧ FillsChunk bs := by
  constructor
  · intro h
    cases h with
    | here _ _ _ hfills => exact ⟨rfl, hfills⟩
    | later _ _ used left chunk chunk' _ hspells _ =>
      exact absurd hspells (hnone used left chunk chunk' rfl)
  · rintro ⟨rfl, hfills⟩
    exact .here q pointers bs hfills

/-- INTERNAL: **what loading the sections leaves**, by induction on the chunks: the chunks that
the bytes fill are uniform, however it ends.
SOURCE: client/handlers/play/level_chunk_with_light_packet.cc:26-28 -/
theorem loadChunks_leaves (x y : BitVec 32) (pointers : List ℕ) {c : Client} {bs left : List Byte}
    {r : Ended Client Unit} (hrun : (loadChunks x y pointers c bs.length).run bs = some (r, left)) :
    ∃ filled, r.2.1 = fillAll x y filled c ∧ ∀ q, q ∈ filled ↔ Filled pointers bs q := by
  induction pointers generalizing c bs with
  | nil =>
    cases hrun
    refine ⟨[], rfl, fun q => ?_⟩
    constructor
    · intro h
      cases h
    · intro h
      cases h
  | cons pointer pointers ih =>
    have hstep : ((onChunk x y pointer Chunk.load >>= fun _ => loadChunks x y pointers) c
        bs.length).run bs = some (r, left) := hrun
    rw [bind_apply, Pull.run_bind, run_onChunk] at hstep
    obtain ⟨_, hmap, hrest⟩ := Option.bind_eq_some_iff.mp hstep
    obtain ⟨⟨⟨result, chunk, n⟩, left₁⟩, hload, rfl⟩ := Option.map_eq_some_iff.mp hmap
    have hwrite : ∃ here : List ℕ, c.setChunk x y pointer chunk = fillAll x y here c ∧
        ∀ q, q ∈ here ↔ q = pointer ∧ FillsChunk bs := by
      rcases load_leaves hload with ⟨hfills, hchunk⟩ | ⟨hfills, hchunk⟩
      · refine ⟨[pointer], congrArg (c.setChunk x y pointer) hchunk, fun q => ?_⟩
        simp [hfills]
      · refine ⟨[], ?_, fun q => ?_⟩
        · dsimp only at hchunk
          rw [hchunk, setChunk_chunkAt]
          rfl
        · simp [hfills]
    obtain ⟨here, hwrite, hhere⟩ := hwrite
    cases result with
    | error e =>
      cases hrest
      refine ⟨here, hwrite, fun q => ?_⟩
      rw [hhere, filled_here]
      intro used left other other' hbs hspells
      obtain ⟨own, hown⟩ := spells_section_any hspells (c.chunkAt x y pointer)
      have hread := follows_load.reads _ used left () own hown
      rw [← hbs, hload] at hread
      cases hread
    | ok u =>
      obtain ⟨hcount, used, rfl, hspells⟩ := (follows_load.sound _ bs _ left₁ hload).1 u rfl
      cases hcount
      rw [andThen_ok] at hrest
      obtain ⟨filled, hstate, hfilled⟩ := ih hrest
      refine ⟨here ++ filled, ?_, fun q => ?_⟩
      · rw [hstate, hwrite]
        exact (List.foldl_append ..).symm
      · rw [List.mem_append, hhere, hfilled, filled_behind hspells]

/-! ## A chunk packet behind its head -/

/-- What follows the look-up of the column. -/
def loadColumn (x y : BitVec 32) (n : ℕ) (pointers : List ℕ) : PacketM Client Unit := do
  nested n do
    loadChunks x y pointers
    discardRest
  readChunkTail

/-- What follows the head. -/
def chunkData (memory : ℕ) (x y : BitVec 32) (n : ℕ) : PacketM Client Unit := do
  let pointers ← getColumn memory x y
  loadColumn x y n pointers

/-- `p` returns over bytes that start with a value of its layout. -/
def Accepts (p : PacketM σ α) (F : Layout σ α) : Prop :=
  ∀ s us left r, (F s).Spells us r → ∃ a s' n left',
    (p s (us ++ left).length).run (us ++ left) = some ((.ok a, s', n), left')

theorem Follows.bind_accepts {p : PacketM σ α} {f : α → PacketM σ β} {F : Layout σ α}
    {G : α → Layout σ β} (hp : Follows p F) (hf : ∀ a, Accepts (f a) (G a)) :
    Accepts (p >>= f) (F.bind G) := by
  rintro s _ left r ⟨us, vs, ⟨a, s₁⟩, rfl, hspells, hbehind⟩
  obtain ⟨b, s', n, left', hrun⟩ := hf a s₁ vs left r hbehind
  refine ⟨b, s', n, left', ?_⟩
  rw [bind_apply, Pull.run_bind, List.append_assoc, hp.reads s us (vs ++ left) a s₁ hspells,
    Option.bind_some, andThen_ok]
  exact hrun

theorem accepts_readChunkTail : Accepts (readChunkTail : PacketM σ Unit) chunkTailLayout := by
  have hassoc : (readChunkTail : PacketM σ Unit) = (do
      let numberOfBlockEntities ← readVarint
      let _blockEntities ← PacketM.times numberOfBlockEntities.toInt.toNat readBlockEntity
      let _trustEdges ← readBool
      pure ()) >>= fun _ => discardRest := by
    simp only [bind_assoc_eq, pure_bind_eq]
    rfl
  rw [hassoc]
  refine Follows.bind_accepts ?_ fun _ => ?_
  · exact follows_readVarint.lift_bind fun _ =>
      (follows_readBlockEntity.lift_times _).lift_bind fun _ => follows_readBool.lift_map _
  · intro s us left r _
    refine ⟨(), s, 0, [], ?_⟩
    rw [run_discardRest, if_pos (le_refl _), List.drop_length]

/-- INTERNAL: **when code throws**: exactly where the bytes are refused. -/
theorem refused_iff {p : PacketM σ α} {F : Layout σ α} (hends : Ends p F) (haccepts : Accepts p F)
    (hmetered : Metered p) (s : σ) (bs : List Byte) :
    Refused (F s) bs ↔ ∃ e s' n left, (p s bs.length).run bs = some ((.error e, s', n), left) ∧
      breakdownOf e = none ∧ e ≠ .diverged := by
  constructor
  · rintro ⟨hnone, hunbroken⟩
    obtain ⟨⟨e | a, s', n⟩, left, hrun, hdiverged⟩ := hmetered.run s bs
    · obtain ⟨_, herror⟩ := hends.sound s bs _ left hrun
      refine ⟨e, s', n, left, hrun, ?_, fun he => hdiverged (congrArg Except.error he)⟩
      cases hk : breakdownOf e with
      | none => rfl
      | some k => exact absurd (herror e k rfl hk) (hunbroken k)
    · obtain ⟨hok, _⟩ := hends.sound s bs _ left hrun
      obtain ⟨_, used, hbs, hspells⟩ := hok a rfl
      exact absurd hspells (hnone used left _ hbs)
  · rintro ⟨e, s', n, left, hrun, hk, _⟩
    constructor
    · intro used rest a hbs hspells
      obtain ⟨b, s'', n', left', hok⟩ := haccepts s used rest a hspells
      rw [← hbs, hrun] at hok
      cases hok
    · intro k hbreaks
      obtain ⟨e', s'', n', left', hfail, hk'⟩ := hends.fails s bs k hbreaks
      rw [hrun] at hfail
      cases hfail
      rw [hk] at hk'
      cases hk'

theorem ends_loadColumn (x y : BitVec 32) (n : ℕ) (pointers : List ℕ) :
    Ends (loadColumn x y n pointers)
      ((Layout.window n (chunksLayout x y pointers)).bind fun _ => chunkTailLayout) :=
  (follows_nested (follows_loadChunks x y pointers) (blind_loadChunks x y pointers)
    (metered_loadChunks x y pointers) n).bind_ends fun _ => ends_readChunkTail

theorem refused_chunkData (memory : ℕ) (x y : BitVec 32) (n : ℕ) (c : Client) (bs : List Byte) :
    Refused (chunkDataLayout memory x y n c) bs ↔ ∃ e c' m left,
      (chunkData memory x y n c bs.length).run bs = some ((.error e, c', m), left) ∧
        breakdownOf e = none ∧ e ≠ .diverged := by
  refine refused_iff ?_ ?_ ?_ c bs
  · exact (follows_getColumn memory x y).bind_ends fun pointers => ends_loadColumn x y n pointers
  · exact (follows_getColumn memory x y).bind_accepts fun pointers =>
      (follows_nested (follows_loadChunks x y pointers) (blind_loadChunks x y pointers)
        (metered_loadChunks x y pointers) n).bind_accepts fun _ => accepts_readChunkTail
  · exact (metered_getColumn memory x y).bind fun pointers =>
      (metered_nested ((metered_loadChunks x y pointers).bind fun _ => metered_discardRest) n).bind
        fun _ => metered_readChunkTail

/-- INTERNAL: the failures of a nested reader are those of its code, and a failed assert. -/
theorem FailsWith.nested {p : PacketM σ α} (hp : FailsWith ReadFailure p) (n : ℕ) :
    FailsWith ReadFailure (PacketM.nested n p) := by
  have hserve : ∀ (t : Pull Byte (Ended σ α)) (s : σ) (m : ℕ) (bs : List Byte) (e : Failure) (s' : σ)
      (m' : ℕ) (left : List Byte),
      (∀ xs e s' k left, t.run xs = some ((.error e, s', k), left) → ReadFailure e) →
      (serve t s m).run bs = some ((.error e, s', m'), left) → ReadFailure e := by
    intro t
    induction t with
    | done r =>
      obtain ⟨result, s₁, k⟩ := r
      intro s m bs e s' m' left ht h
      cases h
      exact ht [] e s₁ k [] rfl
    | pull k ih =>
      intro s m bs e s' m' left ht h
      cases m with
      | zero =>
        cases h
        exact readFailure_assert _
      | succ m =>
        cases bs with
        | nil => cases h
        | cons b bs => exact ih b s m bs e s' m' left (fun xs => ht (b :: xs)) h
  exact fun s m bs e s' m' left h =>
    hserve (p s n) s m bs e s' m' left (fun xs e s' k left => hp s n xs e s' k left) h

theorem failsWith_load : FailsWith ReadFailure Chunk.load := by
  have hset : ∀ c : Chunk, FailsWith ReadFailure (PacketM.set c : PacketM Chunk Unit) := by
    intro c s n bs e s' n' left h
    cases h
  have hblocks : FailsWith ReadFailure loadBlocks := by
    unfold loadBlocks
    refine (inspects_readIntN 8).failsWith.bind fun bits => ?_
    split
    · exact inspects_readVarint.failsWith.bind fun value => (hset _).bind fun _ =>
        inspects_readVarint.failsWith.bind fun _ => failsWith_pure _ ()
    · split
      · refine inspects_readVarint.failsWith.bind fun count => ?_
        split
        · exact (inspects_throw _).failsWith
        · exact (inspects_readVarint.times _).failsWith.bind fun _ =>
            inspects_readVarint.failsWith.bind fun _ =>
              ((inspects_readIntN 64).times _).failsWith.bind fun _ => failsWith_pure _ ()
      · exact failsWith_pure _ ()
  exact (inspects_readIntN 16).failsWith.bind fun _ => hblocks.bind fun _ => failsWith_pure _ ()

theorem failsWith_loadChunks (x y : BitVec 32) (pointers : List ℕ) :
    FailsWith ReadFailure (loadChunks x y pointers) := by
  induction pointers with
  | nil => exact failsWith_pure _ ()
  | cons pointer pointers ih =>
    refine FailsWith.bind ?_ fun _ => ih
    intro c n bs e c' n' left h
    rw [run_onChunk, Option.map_eq_some_iff] at h
    obtain ⟨⟨⟨result, chunk, m⟩, left'⟩, hload, heq⟩ := h
    cases heq
    exact failsWith_load _ n bs e chunk m left' hload

theorem failsWith_loadColumn (x y : BitVec 32) (n : ℕ) (pointers : List ℕ) :
    FailsWith ReadFailure (loadColumn x y n pointers) :=
  FailsWith.bind (((failsWith_loadChunks x y pointers).bind fun _ =>
    inspects_discardRest.failsWith).nested n) fun _ => inspects_readChunkTail.failsWith

/-- INTERNAL: **what a malformed packet leaves of its sections**: the chunks they fill.
SOURCE: client/handlers/play/level_chunk_with_light_packet.cc:20-43 -/
theorem loadColumn_leaves (x y : BitVec 32) (n : ℕ) (pointers : List ℕ) {c c' : Client}
    {bs left : List Byte} {e : Failure} {m : ℕ} (he : breakdownOf e = none)
    (hrun : (loadColumn x y n pointers c bs.length).run bs = some ((.error e, c', m), left)) :
    ∃ filled, c' = fillAll x y filled c ∧ ∀ q, q ∈ filled ↔ Filled pointers (bs.take n) q := by
  have hstep : ((nested n (do loadChunks x y pointers; discardRest) >>= fun _ => readChunkTail) c
      bs.length).run bs = some ((.error e, c', m), left) := hrun
  rw [bind_apply, Pull.run_bind] at hstep
  obtain ⟨⟨result, c₁, m₁⟩, left₁, hinner, _⟩ :=
    (metered_loadChunks x y pointers).run c (bs.take n)
  obtain ⟨filled, hstate, hfilled⟩ := loadChunks_leaves x y pointers hinner
  refine ⟨filled, ?_, hfilled⟩
  rw [← hstate]
  dsimp only
  cases result with
  | error e₁ =>
    rw [run_nested_fails (blind_loadChunks x y pointers) hinner] at hstep
    split at hstep
    · cases hstep
      rfl
    · cases hstep
      cases he
  | ok u =>
    rw [run_nested_returns (blind_loadChunks x y pointers) hinner] at hstep
    split at hstep
    · exact (inspects_readChunkTail _ _ _ _ _ hstep).1
    · cases hstep
      cases he

/-- INTERNAL: **what a malformed packet leaves of the world**: it is changed exactly where the
packet touches the column.
SOURCE: client/handlers/play/level_chunk_with_light_packet.cc:20-43, world/chunk.hh:70-76 -/
theorem chunkData_leaves {memory : ℕ} {x y : BitVec 32} {n : ℕ} {c c' : Client} {world : World}
    {bs left : List Byte} {e : Failure} {m : ℕ} (hworld : c.mWorld = some world)
    (he : breakdownOf e = none)
    (hrun : (chunkData memory x y n c bs.length).run bs = some ((.error e, c', m), left)) :
    (Malformed e ∨ e = .diverged) ∧ c'.mState = c.mState ∧ c'.outgoing = c.outgoing ∧
      (c'.mWorld = c.mWorld ↔ ¬Touches (world.mChunks.tryGet x y) (bs.take n)) := by
  have hcolumn : c.column x y = world.mChunks.tryGet x y := by
    unfold Client.column
    rw [hworld]
    rfl
  rcases getColumn_apply memory x y c bs.length with ⟨hnone, _⟩ |
    ⟨world', column, chunks, hworld', hget, hstep, _⟩
  · rw [hworld] at hnone
    cases hnone
  · rw [hworld, Option.some.injEq] at hworld'
    subst hworld'
    have hload : (loadColumn x y n column.pointers
        { c with mWorld := some { world with mChunks := chunks } } bs.length).run bs =
          some ((.error e, c', m), left) := by
      unfold chunkData at hrun
      rwa [bind_apply, hstep, Pull.bind_done, andThen_ok] at hrun
    obtain ⟨filled, rfl, hfilled⟩ := loadColumn_leaves x y n column.pointers he hload
    obtain ⟨hstate, hout⟩ := fillAll_elsewhere x y filled
      { c with mWorld := some { world with mChunks := chunks } }
    refine ⟨?_, hstate, hout, ?_⟩
    · rcases failsWith_loadColumn x y n column.pointers _ _ _ _ _ _ _ hload with h | h | h
      · exact Or.inl h
      · rw [he] at h
        cases h
      · exact Or.inr h
    cases hthere : world.mChunks.tryGet x y with
    | none =>
      rw [get_of_none hthere memory, Option.some.injEq, Prod.mk.injEq] at hget
      obtain ⟨rfl, rfl⟩ := hget
      refine ⟨fun h => ?_, fun h => absurd trivial h⟩
      have hnew : Client.column { c with mWorld := some { world with mChunks := { world.mChunks with
          mColumns := fun k => if k = ChunkManager.chunkPosToIdx x y then
            some (.construct memory world.mChunks.mHeightInChunks) else world.mChunks.mColumns k } } }
          x y = some (.construct memory world.mChunks.mHeightInChunks) := by
        simp [Client.column, ChunkManager.tryGet]
      obtain ⟨column', hcolumn', _⟩ := column_fillAll filled hnew
      rw [column_of_same_world h, hcolumn, hthere] at hcolumn'
      cases hcolumn'
    | some old =>
      rw [get_of_some hthere memory, Option.some.injEq, Prod.mk.injEq] at hget
      obtain ⟨rfl, rfl⟩ := hget
      have hclient : { c with mWorld := some { world with mChunks := world.mChunks } } = c := by
        rw [← hworld]
      rw [hclient]
      exact fillAll_world_iff (hcolumn.trans hthere) hfilled

/-! ## All or nothing -/

theorem handleLevelChunkWithLight_eq (memory : ℕ) :
    handleLevelChunkWithLight memory =
      readChunkHead >>= fun head => chunkData memory head.1 head.2.1 head.2.2 := rfl

/-- INTERNAL: the handler of a chunk packet.
SOURCE: client/handlers/play/level_chunk_with_light_packet.cc:12-49 -/
theorem chunk_all_or_nothing_iff (env : Environment) (memory : ℕ) (c : Client)
    (arguments : List Byte) :
    AllOrNothing env memory .levelChunkWithLight c arguments ↔ ¬TornChunk memory c arguments := by
  constructor
  · rintro hall ⟨head, data, x, y, n, world, rfl, hhead, hworld, hrefused, htouches⟩
    obtain ⟨e, c', m, left, hrun, he, hdiverged⟩ := (refused_chunkData memory x y n c data).mp hrefused
    obtain ⟨hmalformed, _, _, hiff⟩ := chunkData_leaves hworld he hrun
    have hhandle : (handlePacket env memory .levelChunkWithLight c (head ++ data).length).run
        (head ++ data) = some ((.error e, c', m), left) := by
      show (handleLevelChunkWithLight memory c _).run _ = _
      rw [handleLevelChunkWithLight_eq, bind_apply, Pull.run_bind,
        follows_readChunkHead.reads c head data _ c ⟨_, hhead, rfl⟩, Option.bind_some, andThen_ok]
      exact hrun
    obtain ⟨_, hsame, _⟩ := hall e c' m left hhandle (hmalformed.resolve_right hdiverged)
    exact hiff.mp hsame htouches
  · intro hnot e c' m left hrun hmalformed
    have hhandle : (handleLevelChunkWithLight memory c arguments.length).run arguments =
        some ((.error e, c', m), left) := hrun
    have he : breakdownOf e = none := by
      rcases hmalformed with ⟨what, rfl⟩ | ⟨what, rfl⟩ <;> rfl
    have hne : e ≠ .diverged := by
      rcases hmalformed with ⟨what, rfl⟩ | ⟨what, rfl⟩ <;> simp
    rw [handleLevelChunkWithLight_eq] at hhandle
    rcases run_behind follows_readChunkHead inspects_readChunkHead hhandle with
      ⟨_, hsame⟩ | ⟨head, data, ⟨x, y, n⟩, rfl, hhead, hdata⟩
    · cases hsame
      exact ⟨rfl, rfl, rfl⟩
    · cases hworld : c.mWorld with
      | none =>
        rcases getColumn_apply memory x y c data.length with ⟨_, hstep, _⟩ | ⟨_, _, _, hsome, _⟩
        · have hfail : (chunkData memory x y n c data.length).run data =
              some ((.error .badOptionalAccess, c, data.length), data) := by
            unfold chunkData
            rw [bind_apply, hstep]
            rfl
          rw [hfail] at hdata
          cases hdata
          simp [Malformed] at hmalformed
        · rw [hworld] at hsome
          cases hsome
      | some world =>
        obtain ⟨_, hstate, hout, hiff⟩ := chunkData_leaves hworld he hdata
        refine ⟨hstate, ?_, hout⟩
        rw [← hworld, hiff]
        intro htouches
        refine hnot ⟨head, data, x, y, n, world, rfl, hhead, hworld, ?_, htouches⟩
        exact (refused_chunkData memory x y n c data).mpr ⟨e, c', m, left, hdata, he, hne⟩

end Mccpp.Analysis
