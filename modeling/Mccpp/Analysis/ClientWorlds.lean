import Mccpp.Analysis.ClientRuns
import Mccpp.Analysis.TornChunks

/-!
# The world of a client

`login` makes a world of height `384` in place of the one before, a chunk packet brings its column into
it and fills some of its chunks (`world_of_chunkData`), and no other packet touches the world. So what is
in the world of a client is what the packets since the last `login` say (`worldAfter_packet` for one
packet, `client_world` for a run).
-/

set_option autoImplicit false

namespace Mccpp.Analysis

open Mccpp.Library Mccpp.Model Mccpp.Model.PacketM Mccpp.Interface

variable {env : Environment}

/-! ## What the packets say -/

/-- INTERNAL: the last packet, and those before it. -/
theorem loadedSince_concat {packets : List Handled} {packet : Handled} {x y : BitVec 32}
    {sections : List Byte} : LoadedSince (packets ++ [packet]) x y sections ↔
      LoadsColumn packet x y sections ∨ ¬StartsGame packet ∧ LoadedSince packets x y sections := by
  constructor
  · rintro ⟨before, loads, after, hsplit, hloads, hafter⟩
    rcases List.eq_nil_or_concat after with rfl | ⟨after', last, rfl⟩
    · obtain ⟨_, hlast⟩ := List.append_inj' hsplit rfl
      cases hlast
      exact Or.inl hloads
    · rw [List.concat_eq_append] at hsplit hafter
      have hassoc : packets ++ [packet] = (before ++ loads :: after') ++ [last] := by
        rw [hsplit, List.append_assoc, List.cons_append]
      obtain ⟨hfront, hlast⟩ := List.append_inj' hassoc rfl
      cases hlast
      exact Or.inr ⟨hafter packet (List.mem_append_right _ List.mem_cons_self),
        before, loads, after', hfront, hloads, fun later hlater =>
          hafter later (List.mem_append_left _ hlater)⟩
  · rintro (hloads | ⟨hgame, before, loads, after, rfl, hloads, hafter⟩)
    · exact ⟨packets, packet, [], rfl, hloads, fun later hlater => nomatch hlater⟩
    · refine ⟨before, loads, after ++ [packet], by simp, hloads, fun later hlater => ?_⟩
      rcases List.mem_append.mp hlater with hlater | hlater
      · exact hafter later hlater
      · rw [List.mem_singleton.mp hlater]
        exact hgame

/-- INTERNAL: what a chunk packet says is found in one way. -/
theorem loadsColumn_iff {front head data body : List Byte} {packetId x y : BitVec 32} {n : ℕ}
    {e : Exchange} (hbody : body = front ++ (head ++ data)) (hid : varintFormat.Spells front packetId)
    (hhead : chunkHeadFormat.Spells head (x, y, n)) (htype : e.type = .levelChunkWithLight)
    (x' y' : BitVec 32) (sections : List Byte) :
    LoadsColumn (body, e) x' y' sections ↔ x' = x ∧ y' = y ∧ sections = data.take n := by
  constructor
  · rintro ⟨_, front', packetId', head', data', n', hbody', hid', hhead', rfl⟩
    obtain ⟨_, hrest, _⟩ := follows_readVarint.unique_lift () hid hid' (hbody.symm.trans hbody')
    obtain ⟨_, rfl, hvalue⟩ := follows_readChunkHead.unique_lift () hhead hhead' hrest
    cases hvalue
    exact ⟨rfl, rfl, rfl⟩
  · rintro ⟨rfl, rfl, rfl⟩
    exact ⟨htype, front, packetId, head, data, n, hbody, hid, hhead, rfl⟩

/-! ## What a packet does to the world -/

theorem column_setChunk_other {x y x' y' : BitVec 32} (h : (x', y') ≠ (x, y)) (c : Client) (q : ℕ)
    (chunk : Chunk) : (c.setChunk x y q chunk).column x' y' = c.column x' y' := by
  have hkey : ChunkManager.chunkPosToIdx x' y' ≠ ChunkManager.chunkPosToIdx x y := by
    intro hkey
    obtain ⟨rfl, rfl⟩ := chunkPosToIdx_inj hkey
    exact h rfl
  obtain ⟨state, name, port, world, outgoing⟩ := c
  cases world with
  | none => rfl
  | some world => simp [Client.setChunk, Client.column, ChunkManager.tryGet, hkey]

theorem column_fillAll_other {x y x' y' : BitVec 32} (h : (x', y') ≠ (x, y)) (filled : List ℕ)
    (c : Client) : (fillAll x y filled c).column x' y' = c.column x' y' := by
  induction filled generalizing c with
  | nil => rfl
  | cons p filled ih => exact (ih (c.setChunk x y p uniformChunk)).trans (column_setChunk_other h c p _)

/-- INTERNAL: the number of chunks that the columns show and the height of the world stay. -/
theorem count_fillAll (x y : BitVec 32) (filled : List ℕ) (c : Client) :
    ((fillAll x y filled c).column x y).map ChunkColumn.count =
        (c.column x y).map ChunkColumn.count ∧
      (fillAll x y filled c).mWorld.map (fun world => world.mChunks.mHeightInChunks) =
        c.mWorld.map fun world => world.mChunks.mHeightInChunks := by
  induction filled generalizing c with
  | nil => exact ⟨rfl, rfl⟩
  | cons p filled ih =>
    obtain ⟨hcount, hheight⟩ := ih (c.setChunk x y p uniformChunk)
    have hworld : (c.setChunk x y p uniformChunk).mWorld.map
        (fun world => world.mChunks.mHeightInChunks) =
          c.mWorld.map fun world => world.mChunks.mHeightInChunks := by
      unfold Client.setChunk
      rw [Option.map_map]
      rfl
    rw [column_setChunk, Option.map_map] at hcount
    exact ⟨hcount, hheight.trans hworld⟩

/-- INTERNAL: **what a chunk packet does**: the column of its position is there, and the chunks that its
sections fill become uniform.
SOURCE: client/handlers/play/level_chunk_with_light_packet.cc:20-43 -/
theorem world_of_chunkData {memory : ℕ} {x y : BitVec 32} {n : ℕ} {c c' : Client} {data : List Byte}
    (h : (chunkDataLayout memory x y n c).Spells data ((), c')) :
    ∃ world column chunks filled, c.mWorld = some world ∧
      world.mChunks.get memory x y = some (column, chunks) ∧
      c'.mWorld = (fillAll x y filled
        { c with mWorld := some { world with mChunks := chunks } }).mWorld ∧
      ∀ q, q ∈ filled ↔ Filled column.pointers (data.take n) q := by
  obtain ⟨columnBytes, behind, ⟨pointers, c₁⟩, rfl, hcolumn, window, tail, ⟨_, c₂⟩, rfl,
    ⟨hlength, used, left, rfl, hchunks⟩, htail⟩ := h
  have hc₂ : c' = c₂ := by
    obtain ⟨_, _, ⟨_, c₃⟩, _, ⟨_, _, hpair⟩, hrest⟩ := htail
    cases hpair
    exact congrArg Prod.snd hrest
  rcases getColumn_apply memory x y c 0 with ⟨_, _, hlayout⟩ |
    ⟨world, column, chunks, hworld, hget, _, hlayout⟩
  · rw [hlayout] at hcolumn
    exact hcolumn.elim
  · rw [hlayout] at hcolumn
    obtain ⟨rfl, hpair⟩ := hcolumn
    cases hpair
    have hrun := (follows_loadChunks x y column.pointers).reads _ used left () c₂ hchunks
    obtain ⟨filled, hstate, hfilled⟩ := loadChunks_leaves x y column.pointers hrun
    refine ⟨world, column, chunks, filled, hworld, hget, ?_, ?_⟩
    · rw [hc₂]
      exact congrArg Client.mWorld hstate
    · rw [List.nil_append, List.take_left' hlength]
      exact hfilled

/-- INTERNAL: the world behind `get(x, y)`: a column that was not there is a new one.
SOURCE: world/chunk.hh:70-76 -/
theorem column_of_get {memory : ℕ} {x y : BitVec 32} {c : Client} {world : World} {column : ChunkColumn}
    {chunks : ChunkManager} (hworld : c.mWorld = some world)
    (hget : world.mChunks.get memory x y = some (column, chunks)) :
    chunks.mHeightInChunks = world.mChunks.mHeightInChunks ∧
      (∀ x' y', Client.column { c with mWorld := some { world with mChunks := chunks } } x' y' =
        if (x', y') = (x, y) then some column else c.column x' y') ∧
      (c.column x y = some column ∨
        c.column x y = none ∧ column = .construct memory world.mChunks.mHeightInChunks) := by
  have hold : ∀ x' y', c.column x' y' = world.mChunks.tryGet x' y' := by
    intro x' y'
    unfold Client.column
    rw [hworld]
    rfl
  cases hthere : world.mChunks.tryGet x y with
  | some old =>
    rw [get_of_some hthere memory, Option.some.injEq, Prod.mk.injEq] at hget
    obtain ⟨rfl, rfl⟩ := hget
    refine ⟨rfl, fun x' y' => ?_, Or.inl ((hold x y).trans hthere)⟩
    split
    · rename_i hsame
      cases hsame
      exact hthere
    · exact (hold x' y').symm
  | none =>
    rw [get_of_none hthere memory, Option.some.injEq, Prod.mk.injEq] at hget
    obtain ⟨rfl, rfl⟩ := hget
    refine ⟨rfl, fun x' y' => ?_, Or.inr ⟨(hold x y).trans hthere, rfl⟩⟩
    rw [hold]
    exact tryGet_insert world.mChunks x y x' y' _

/-- INTERNAL: a packet of another type.
SOURCE: client/handlers/ -/
theorem worldAfter_other {packets : List Handled} {packet : Handled} {c c' : Client}
    (h : WorldAfter packets c) (hlogin : packet.2.type ≠ .login)
    (hchunk : packet.2.type ≠ .levelChunkWithLight) (hsame : c'.mWorld = c.mWorld) :
    WorldAfter (packets ++ [packet]) c' := by
  have hloaded : ∀ x y sections, LoadedSince (packets ++ [packet]) x y sections ↔
      LoadedSince packets x y sections := by
    intro x y sections
    rw [loadedSince_concat]
    constructor
    · rintro (⟨htype, _⟩ | ⟨_, hloaded⟩)
      · exact absurd htype hchunk
      · exact hloaded
    · exact fun hloaded => Or.inr ⟨hlogin, hloaded⟩
  have hfilled : ∀ x y count q, FilledSince (packets ++ [packet]) x y count q ↔
      FilledSince packets x y count q := fun x y count q =>
    exists_congr fun sections => and_congr_left' (hloaded x y sections)
  constructor
  · rw [hsame, h.started]
    constructor
    · rintro ⟨start, hstart, hgame⟩
      exact ⟨start, List.mem_append_left _ hstart, hgame⟩
    · rintro ⟨start, hstart, hgame⟩
      rcases List.mem_append.mp hstart with hstart | hstart
      · exact ⟨start, hstart, hgame⟩
      · rw [List.mem_singleton.mp hstart] at hgame
        exact absurd hgame hlogin
  · intro world hworld
    exact h.height world (hsame ▸ hworld)
  · intro x y
    rw [column_of_same_world hsame, h.columns]
    exact exists_congr fun sections => (hloaded x y sections).symm
  · intro x y column hcolumn q
    rw [column_of_same_world hsame] at hcolumn
    rw [hfilled]
    exact h.chunks x y column hcolumn q

/-- INTERNAL: a new world has no columns.
SOURCE: client/handlers/play/login_packet.cc:46 -/
theorem worldAfter_login {packets : List Handled} {packet : Handled} {c' : Client}
    (htype : packet.2.type = .login) (hworld : c'.mWorld = some (World.init 384)) :
    WorldAfter (packets ++ [packet]) c' := by
  have hnone : ∀ x y, c'.column x y = none := by
    intro x y
    unfold Client.column
    rw [hworld]
    rfl
  constructor
  · rw [hworld]
    exact ⟨fun _ => ⟨packet, List.mem_append_right _ List.mem_cons_self, htype⟩, fun _ => rfl⟩
  · intro world hsome
    rw [hworld] at hsome
    cases hsome
    rfl
  · intro x y
    rw [hnone]
    constructor
    · intro h
      cases h
    · rintro ⟨sections, hloaded⟩
      rcases loadedSince_concat.mp hloaded with ⟨hchunk, _⟩ | ⟨hgame, _⟩
      · rw [htype] at hchunk
        cases hchunk
      · exact absurd htype hgame
  · intro x y column hcolumn
    rw [hnone] at hcolumn
    cases hcolumn

/-- INTERNAL: a chunk packet brings its column, and fills the chunks of its sections.
SOURCE: client/handlers/play/level_chunk_with_light_packet.cc:12-49 -/
theorem worldAfter_chunk {packets : List Handled} {packet : Handled} {memory : ℕ} {x y : BitVec 32}
    {n : ℕ} {data : List Byte} {c c' : Client} (h : WorldAfter packets c)
    (htype : packet.2.type = .levelChunkWithLight)
    (hpacket : ∀ x' y' sections, LoadsColumn packet x' y' sections ↔
      x' = x ∧ y' = y ∧ sections = data.take n)
    (hspells : (chunkDataLayout memory x y n c).Spells data ((), c')) :
    WorldAfter (packets ++ [packet]) c' := by
  obtain ⟨world, column, chunks, filled, hworld, hget, hc', hfilled⟩ := world_of_chunkData hspells
  obtain ⟨hheight, hcolumns, hold⟩ := column_of_get hworld hget
  have hplays : ¬StartsGame packet := by
    intro hgame
    rw [StartsGame, htype] at hgame
    cases hgame
  have hloaded : ∀ x' y' sections, LoadedSince (packets ++ [packet]) x' y' sections ↔
      (x' = x ∧ y' = y ∧ sections = data.take n) ∨ LoadedSince packets x' y' sections := by
    intro x' y' sections
    rw [loadedSince_concat, hpacket]
    exact or_congr_right (and_iff_right hplays)
  obtain ⟨hcount, hheights⟩ := count_fillAll x y filled
    { c with mWorld := some { world with mChunks := chunks } }
  rw [hcolumns, if_pos rfl] at hcount
  have hsome : c'.mWorld.isSome := by
    rw [hc', ← Option.isSome_map (f := fun world : World => world.mChunks.mHeightInChunks), hheights]
    rfl
  have hhere : ∃ column', c'.column x y = some column' ∧ column'.count = column.count ∧
      ∀ q, column'.mChunks[q]? =
        if q ∈ filled then column.mChunks[q]?.map fun _ => uniformChunk else column.mChunks[q]? := by
    obtain ⟨column', hcolumn', hchunks⟩ := column_fillAll filled ((hcolumns x y).trans (if_pos rfl))
    rw [hcolumn', Option.map_some, Option.map_some, Option.some.injEq] at hcount
    exact ⟨column', (column_of_same_world hc' x y).trans hcolumn', hcount, hchunks⟩
  have helse : ∀ x' y', (x', y') ≠ (x, y) → c'.column x' y' = c.column x' y' := by
    intro x' y' hne
    rw [column_of_same_world hc', column_fillAll_other hne, hcolumns, if_neg hne]
  have hfirst : ∀ q, (24 ≤ q → column.mChunks[q]? = none) ∧
      (q < 24 → FilledSince packets x y column.count q → column.mChunks[q]? = some uniformChunk) ∧
      (q < 24 → ¬FilledSince packets x y column.count q → column.mChunks[q]? = some Chunk.empty) := by
    rcases hold with hthere | ⟨hnew, rfl⟩
    · exact h.chunks x y column hthere
    · intro q
      have hnone : ¬∃ sections, LoadedSince packets x y sections := by
        rw [← h.columns x y, hnew]
        exact Bool.false_ne_true
      rw [h.height world hworld]
      unfold ChunkColumn.construct
      refine ⟨fun hge => ?_, fun _ hfilled => ?_, fun hlt _ => ?_⟩
      · exact List.getElem?_eq_none (by rw [List.length_replicate]; exact hge)
      · obtain ⟨sections, hsince, _⟩ := hfilled
        exact absurd ⟨sections, hsince⟩ hnone
      · rw [List.getElem?_replicate, if_pos hlt]
  constructor
  · rw [iff_true_intro hsome, true_iff]
    have hstarted := h.started
    rw [hworld] at hstarted
    obtain ⟨start, hstart, hgame⟩ := hstarted.mp rfl
    exact ⟨start, List.mem_append_left _ hstart, hgame⟩
  · intro world' hworld'
    rw [← hc', hworld', Option.map_some, Option.map_some, Option.some.injEq] at hheights
    exact hheights.trans (hheight.trans (h.height world hworld))
  · intro x' y'
    by_cases hpos : (x', y') = (x, y)
    · cases hpos
      obtain ⟨column', hcolumn', _⟩ := hhere
      rw [hcolumn', iff_true_intro (Option.isSome_some), true_iff]
      exact ⟨data.take n, (hloaded x y _).mpr (Or.inl ⟨rfl, rfl, rfl⟩)⟩
    · rw [helse x' y' hpos, h.columns]
      refine exists_congr fun sections => ?_
      rw [hloaded]
      constructor
      · exact Or.inr
      · rintro (⟨rfl, rfl, _⟩ | hsince)
        · exact absurd rfl hpos
        · exact hsince
  · intro x' y' column' hcolumn' q
    by_cases hpos : (x', y') = (x, y)
    · cases hpos
      obtain ⟨column'', hcolumn'', hsame, hchunks⟩ := hhere
      rw [hcolumn'', Option.some.injEq] at hcolumn'
      subst hcolumn'
      obtain ⟨habove, hfull, hempty⟩ := hfirst q
      have hsince : FilledSince (packets ++ [packet]) x y column.count q ↔
          q ∈ filled ∨ FilledSince packets x y column.count q := by
        rw [hfilled]
        constructor
        · rintro ⟨sections, hsince, hfills⟩
          rcases (hloaded x y sections).mp hsince with ⟨_, _, rfl⟩ | hsince
          · exact Or.inl hfills
          · exact Or.inr ⟨sections, hsince, hfills⟩
        · rintro (hfills | ⟨sections, hsince, hfills⟩)
          · exact ⟨_, (hloaded x y _).mpr (Or.inl ⟨rfl, rfl, rfl⟩), hfills⟩
          · exact ⟨sections, (hloaded x y sections).mpr (Or.inr hsince), hfills⟩
      rw [hsame, hsince, hchunks]
      by_cases hmem : q ∈ filled
      · rw [if_pos hmem]
        refine ⟨fun hge => by rw [habove hge]; rfl, fun hlt _ => ?_, fun _ hnot => absurd (Or.inl hmem) hnot⟩
        by_cases hbefore : FilledSince packets x y column.count q
        · rw [hfull hlt hbefore]
          rfl
        · rw [hempty hlt hbefore]
          rfl
      · rw [if_neg hmem]
        refine ⟨habove, fun hlt hor => hfull hlt (hor.resolve_left hmem), fun hlt hnot => ?_⟩
        exact hempty hlt fun hbefore => hnot (Or.inr hbefore)
    · rw [helse x' y' hpos] at hcolumn'
      have hsince : FilledSince (packets ++ [packet]) x' y' column'.count q ↔
          FilledSince packets x' y' column'.count q := by
        refine exists_congr fun sections => and_congr_left fun _ => ?_
        rw [hloaded]
        constructor
        · rintro (⟨rfl, rfl, _⟩ | hsince)
          · exact absurd rfl hpos
          · exact hsince
        · exact Or.inr
      rw [hsince]
      exact h.chunks x' y' column' hcolumn' q

/-! ## Packets and sessions -/

/-- INTERNAL: the answers to `login` leave the world that has been made.
SOURCE: client/handlers/play/login_packet.cc:46-60 -/
theorem world_of_sendAllLayout {ps : List ServerboundPacket} {c c' : Client} {us : List Byte}
    (h : (sendAllLayout env ps c).Spells us ((), c')) : c'.mWorld = c.mWorld := by
  induction ps generalizing c us with
  | nil => exact congrArg (fun r : Unit × Client => r.2.mWorld) h.2
  | cons p ps ih =>
    obtain ⟨_, _, ⟨_, c₁⟩, _, hfirst, hrest⟩ := h
    have hsent := (spells_sendLayout hfirst).2
    have hc₁ : c₁.mWorld = c.mWorld := congrArg (fun r => r.2.mWorld) hsent.symm
    exact (ih hrest).trans hc₁

/-- INTERNAL: the other packets leave the world as it is.
SOURCE: client/handlers/ -/
theorem world_of_other {memory : ℕ} {type : ClientboundType} {arguments : List Byte} {c c' : Client}
    (hlogin : type ≠ .login) (hchunk : type ≠ .levelChunkWithLight)
    (h : (argumentsLayout env memory type c).Spells arguments ((), c')) : c'.mWorld = c.mWorld := by
  have hdropped : ∀ {d d' : Client}, ((), d') = ((), d) → d'.mWorld = d.mWorld := fun hpair =>
    congrArg (fun r : Unit × Client => r.2.mWorld) hpair
  have hsent : ∀ {p : ServerboundPacket} {d : Client} {us : List Byte},
      (sendLayout env p d).Spells us ((), c') → c'.mWorld = d.mWorld := fun h =>
    congrArg (fun r => r.2.mWorld) (spells_sendLayout h).2.symm
  cases type with
  | login => exact absurd rfl hlogin
  | levelChunkWithLight => exact absurd rfl hchunk
  | hello | loginCompression => exact h.elim
  | pongResponse | statusResponse =>
    obtain ⟨_, _, hpair⟩ := h
    cases hpair
    rfl
  | loginCustomQuery =>
    obtain ⟨_, _, _, _, ⟨_, _, hpair⟩, _, _, ⟨_, c₁⟩, _, hrest, hsend⟩ := h
    cases hpair
    exact (hsent hsend).trans (hdropped hrest)
  | gameProfile =>
    obtain ⟨_, _, _, _, ⟨_, _, hpair⟩, _, hstate⟩ := h
    cases hpair
    exact congrArg (fun r : Unit × Client => r.2.mWorld) hstate
  | customPayload =>
    obtain ⟨_, _, _, _, ⟨_, _, hpair⟩, hrest⟩ := h
    cases hpair
    exact hdropped hrest
  | keepAlive =>
    obtain ⟨_, _, _, _, ⟨_, _, hpair⟩, hsend⟩ := h
    cases hpair
    exact hsent hsend
  | other state number => exact hdropped h

/-- INTERNAL: **one packet**, by what is behind its id.
SOURCE: client/handlers.cc:11-60, client/handlers/ -/
theorem worldAfter_packet {packets : List Handled} {memory : ℕ} {front arguments : List Byte}
    {packetId : BitVec 32} {e : Exchange} {c c' : Client} (h : WorldAfter packets c)
    (hid : varintFormat.Spells front packetId)
    (hspells : (argumentsLayout env memory e.type c).Spells arguments ((), c')) :
    WorldAfter (packets ++ [(front ++ arguments, e)]) c' := by
  by_cases hlogin : e.type = .login
  · rw [hlogin] at hspells
    obtain ⟨_, _, _, _, ⟨_, _, hpair⟩, _, _, ⟨_, c₁⟩, _, ⟨_, hworld⟩, hsend⟩ := hspells
    cases hpair
    cases hworld
    exact worldAfter_login hlogin (world_of_sendAllLayout hsend)
  · by_cases hchunk : e.type = .levelChunkWithLight
    · rw [hchunk] at hspells
      obtain ⟨head, data, ⟨⟨x, y, n⟩, _⟩, rfl, ⟨_, hhead, hpair⟩, hdata⟩ := hspells
      cases hpair
      exact worldAfter_chunk h hchunk (loadsColumn_iff rfl hid hhead hchunk) hdata
    · exact worldAfter_other h hlogin hchunk (world_of_other hlogin hchunk hspells)

/-- INTERNAL: a body is the exchange of one type, in a state.
SOURCE: client/handlers.cc:38-60 -/
theorem type_of_exchanged {body : List Byte} {e e' : Exchange} (h : Exchanged env body e)
    (h' : Exchanged env body e') (hstate : e.state = e'.state) : e.type = e'.type := by
  obtain ⟨front, arguments, packetId, rfl, hid, htype, _⟩ := h
  obtain ⟨front', arguments', packetId', hbody, hid', htype', _⟩ := h'
  obtain ⟨_, _, rfl⟩ := follows_readVarint.unique_lift () hid hid' hbody
  rw [hstate, htype', Option.some.injEq] at htype
  exact htype.symm

/-- INTERNAL: a packet that is received is the exchange it is said to be.
SOURCE: proto/client.cc:79-87, client/handlers.cc:38-60 -/
theorem worldAfter_exchange {packets : List Handled} {memory : ℕ} {body left : List Byte} {n : ℕ}
    {e : Exchange} {c c' : Client} (h : WorldAfter packets c) (hstate : e.state = c.mState)
    (hexchanged : Exchanged env body e)
    (hrun : (receivePacket env memory c body.length).run body = some ((.ok (), c', n), left)) :
    WorldAfter (packets ++ [(body, e)]) c' := by
  obtain ⟨front, arguments, packetId, rfl, hid, htype, _⟩ := hexchanged
  obtain ⟨front', arguments', ⟨packetId', _⟩, hbody, ⟨_, hid', hpair⟩, hrest⟩ :=
    spells_of_receivePacket hrun
  cases hpair
  obtain ⟨_, rfl, rfl⟩ := follows_readVarint.unique_lift () hid hid' hbody
  rw [hstate] at htype
  dsimp only at hrest
  rw [htype] at hrest
  exact worldAfter_packet h hid hrest

/-- INTERNAL: **the world so far**, and the packets received from then on.
SOURCE: proto/client.cc:67-89, client/handlers/ -/
theorem worldAfter_session (received : List Received) (before : List Handled) (exchanges : List Exchange)
    (c c' : Client) (h : WorldAfter before c) (hstate : c.mState = stateAfter (before.map Prod.snd))
    (hbuffer : c.outgoing.mWriteBuffer = [])
    (hexchanged : List.Forall₂ (Exchanged env) (received.map Received.body) exchanges)
    (hstates : ∀ earlier e later, exchanges = earlier ++ e :: later →
      e.state = stateAfter (before.map Prod.snd ++ earlier))
    (hall : receiveAll env received c = some c') :
    WorldAfter (before ++ (received.map Received.body).zip exchanges) c' := by
  induction received generalizing before exchanges c with
  | nil =>
    cases hall
    rw [List.map_nil, List.zip_nil_left, List.append_nil]
    exact h
  | cons p received ih =>
    cases hexchanged with
    | @cons _ e _ exchanges hfirst hrest =>
      unfold receiveAll at hall
      split at hall
      · rename_i c₁ n left hrun
        have hestate : e.state = c.mState := by
          rw [hstate, hstates [] e exchanges rfl, List.append_nil]
        obtain ⟨e', hestate', hexchanged', _, hout₁, hstate₁⟩ := exchange_of_receivePacket hbuffer hrun
        have htype := type_of_exchanged hfirst hexchanged' (hestate.trans hestate'.symm)
        have hbefore : (before ++ [(p.body, e)]).map Prod.snd = before.map Prod.snd ++ [e] := by
          rw [List.map_append, List.map_singleton]
        have hlater := ih (before ++ [(p.body, e)]) exchanges c₁
          (worldAfter_exchange h hestate hfirst hrun)
          (by rw [hbefore, stateAfter_append, hstate₁, htype, hstate])
          (by rw [hout₁]) hrest
          (fun earlier f later hsplit => by
            rw [hbefore, List.append_assoc]
            exact hstates (e :: earlier) f later (congrArg (e :: ·) hsplit)) hall
        rwa [List.append_assoc] at hlater
      · cases hall

/-- INTERNAL: before the first packet there is no world.
SOURCE: game.hh:30, client/client.cc:7-15 -/
theorem worldAfter_nil {c : Client} (h : c.mWorld = none) : WorldAfter [] c := by
  have hnone : ∀ x y, c.column x y = none := by
    intro x y
    unfold Client.column
    rw [h]
    rfl
  constructor
  · rw [h]
    exact ⟨fun hsome => (nomatch hsome), fun ⟨packet, hpacket, _⟩ => nomatch hpacket⟩
  · intro world hworld
    rw [h] at hworld
    cases hworld
  · intro x y
    rw [hnone]
    refine ⟨fun hsome => (nomatch hsome), fun ⟨sections, before, packet, after, hsplit, _⟩ => ?_⟩
    exact absurd hsplit (by simp)
  · intro x y column hcolumn
    rw [hnone] at hcolumn
    cases hcolumn

/-- INTERNAL: sending the first packets makes no world.
SOURCE: client/client.cc:17-30 -/
theorem world_of_onConnect {serverName : List Byte} {serverPort : BitVec 16} {c : Client}
    (h : (Client.connecting serverName serverPort).onConnect env = (.ok (), c)) : c.mWorld = none := by
  unfold Client.onConnect at h
  split at h
  · cases h
  · rename_i c₁ hintention
    have hc := congrArg (fun r => r.2.mWorld) h
    have hc₁ := congrArg (fun r => r.2.mWorld) hintention
    exact hc.symm.trans hc₁.symm

/-- An environment in which the packets of the state `PLAY` with the ids 40 and 32 are `login` and a
chunk. -/
def gameEnvironment : Environment where
  socket := bytewise
  serverboundId := fun _ => 0
  clientbound := fun state id =>
    if state = .login ∧ id = 2 then some .gameProfile
    else if state = .play ∧ id = 40 then some .login
    else if state = .play ∧ id = 32 then some .levelChunkWithLight
    else none
  clientbound_state := by
    intro state id type h
    split at h
    · rename_i hlogin
      cases h
      exact hlogin.1.symm
    · split at h
      · rename_i _ hplay
        cases h
        exact hplay.1.symm
      · split at h
        · rename_i _ _ hplay
          cases h
          exact hplay.1.symm
        · cases h

/-- The frames of a profile, of `login`, and of a chunk packet with a section. -/
def gameFrames : List Byte :=
  profileFrame ++ (28 :: 40 :: List.replicate 27 0) ++
    (18 :: 32 :: (List.replicate 9 0 ++ 5 :: List.replicate 7 0))

end Mccpp.Analysis
