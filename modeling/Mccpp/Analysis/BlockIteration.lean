import Mathlib.Algebra.BigOperators.Ring.List
import Mathlib.Algebra.Ring.Nat
import Mccpp.Analysis.BlockProperties

/-!
# Iterating over the properties of a state

The loop over the properties of a state divides the place of the state in its block by the counts of
the properties, so that it visits the digits of the place (`forProperties_eq_visit`). The word of a
block gives the part of the map that is its own (`forState_eq_visit`). So the tables are read back
without loss unless a property has more values than the mask of the count can hold
(`reads_back_iff`), and every state of a block is decoded (`states_decoded`).
-/

set_option autoImplicit false

namespace Mccpp.Analysis

open Mccpp.Library Mccpp.Model Mccpp.Interface

variable {data : List PropertyItem} {items : List BlockStates.BlockItem}
  {props : List (List Char × Property)} {blocks : List BlockStates.Block} {t : BlockTables}

/-! ## The loop -/

/-- INTERNAL: the loop visits the digits of its value, the property of the lowest place first.
SOURCE: src/data/block.hh:130-152. -/
theorem forProperties_eq_visit {β : Type} {body : BitVec 8 → ℕ → Except DataFailure (Option β)}
    {ids : List (BitVec 8)} {value index : BitVec 16}
    (hmap : ∀ (j : ℕ) id, ids[j]? = some id → t.map (index + BitVec.ofNat 16 j) = id)
    (hcounts : ∀ id ∈ ids, 0 < t.count id) :
    t.forProperties body ids.length value index =
      visit body (ids.zip (digits (ids.map t.count) value.toNat)) := by
  induction ids generalizing value index with
  | nil => rfl
  | cons id ids ih =>
    have hid : t.map index = id := by simpa using hmap 0 id (by simp)
    have hpos : t.count id ≠ 0 := Nat.ne_of_gt (hcounts id (by simp))
    have hnext : ∀ (j : ℕ) id', ids[j]? = some id' →
        t.map (index + 1 + BitVec.ofNat 16 j) = id' := by
      intro j id' hj
      have h := hmap (j + 1) id' (by simpa using hj)
      rw [BitVec.ofNat_add, BitVec.add_comm (BitVec.ofNat 16 j), ← BitVec.add_assoc] at h
      exact h
    have hvalue : (BitVec.ofNat 16 (value.toNat / t.count id)).toNat = value.toNat / t.count id := by
      rw [BitVec.toNat_ofNat, Nat.mod_eq_of_lt]
      exact lt_of_le_of_lt (Nat.div_le_self _ _) value.isLt
    have hrest : t.forProperties body ids.length (BitVec.ofNat 16 (value.toNat / t.count id))
        (index + 1) = visit body (ids.zip (digits (ids.map t.count) (value.toNat / t.count id))) := by
      rw [ih hnext (fun id' hid' => hcounts id' (by simp [hid'])), hvalue]
    simp only [BlockTables.forProperties, List.length_cons, hid, hpos, if_false, List.map_cons,
      digits, List.zip_cons_cons, visit]
    refine bind_congr fun result => ?_
    cases result with
    | none => exact hrest
    | some _ => rfl

/-- INTERNAL: the word of a block holds where its properties are and how many.
SOURCE: src/data/block.hh:84-111,155-169. -/
theorem forState_eq_forProperties {β : Type}
    {body : BitVec 8 → ℕ → Except DataFailure (Option β)} {state id : BitVec 16} {start count : ℕ}
    (hstate : t.stateBlock[state.toNat]? = some id)
    (hword : t.blockProperties[id.toNat]? = some (BitVec.ofNat 16 (start ||| count <<< 11)))
    (hstart : start < 2048) (hcount : count < 8) :
    t.forState state body =
      t.forProperties body count (state - t.firstState id) (BitVec.ofNat 16 start) := by
  have hnumber : start ||| count <<< 11 = 2048 * count + start := by
    have h := Nat.shiftLeft_add_eq_or_of_lt (i := 11) hstart count
    rw [Nat.or_comm, ← h, Nat.shiftLeft_eq]
    omega
  have hblock : t.block state = id := by simp [BlockTables.block, hstate]
  have hdata : (t.propertiesData id).toNat = 2048 * count + start := by
    rw [BlockTables.propertiesData, hword, Option.getD_some, hnumber, BitVec.toNat_ofNat]
    omega
  have hfirst : t.propertiesStart id = BitVec.ofNat 16 start := by
    apply BitVec.eq_of_toNat_eq
    have hmask : (0x7ff : BitVec 16).toNat = 2 ^ 11 - 1 := by decide
    rw [BlockTables.propertiesStart, BitVec.toNat_and, hmask, Nat.and_two_pow_sub_one_eq_mod, hdata,
      BitVec.toNat_ofNat]
    omega
  have hlength : t.propertiesCount id = BitVec.ofNat 16 count := by
    apply BitVec.eq_of_toNat_eq
    rw [BlockTables.propertiesCount, BitVec.toNat_ushiftRight, Nat.shiftRight_eq_div_pow, hdata,
      BitVec.toNat_ofNat]
    omega
  have hsteps : (BitVec.ofNat 16 start + BitVec.ofNat 16 count - BitVec.ofNat 16 start).toNat =
      count := by
    rw [BitVec.add_comm, BitVec.add_sub_cancel, BitVec.toNat_ofNat]
    omega
  rw [BlockTables.forState, hblock, hfirst, hlength, hsteps]

/-! ## The map of properties -/

/-- INTERNAL: the word of each block.
SOURCE: generator/block_states.py:144-158. -/
theorem places_writeProperties {offset : ℕ} {places : List ℕ}
    (h : BlockStates.writeProperties offset blocks = some places) {i : ℕ}
    {block : BlockStates.Block} (hblock : blocks[i]? = some block) :
    offset + mapStart blocks i < 2048 ∧ block.properties.length < 8 ∧
      places[i]? = some ((offset + mapStart blocks i) ||| block.properties.length <<< 11) := by
  induction blocks generalizing offset places i with
  | nil => simp at hblock
  | cons first blocks ih =>
    rw [BlockStates.writeProperties] at h
    split_ifs at h with hfits
    simp only [Option.bind_eq_bind, Option.bind_eq_some_iff, Option.some.injEq] at h
    obtain ⟨rest, hrest, rfl⟩ := h
    cases i with
    | zero =>
      obtain rfl : first = block := by simpa using hblock
      simpa [mapStart] using hfits
    | succ i =>
      have hi := ih hrest (by simpa using hblock)
      simpa [mapStart, Nat.add_assoc] using hi

/-- INTERNAL: there is a word for each block. -/
theorem length_writeProperties {offset : ℕ} {places : List ℕ}
    (h : BlockStates.writeProperties offset blocks = some places) :
    places.length = blocks.length := by
  induction blocks generalizing offset places with
  | nil =>
    obtain rfl := Option.some.inj h
    rfl
  | cons first blocks ih =>
    rw [BlockStates.writeProperties] at h
    split_ifs at h with hfits
    simp only [Option.bind_eq_bind, Option.bind_eq_some_iff, Option.some.injEq] at h
    obtain ⟨rest, hrest, rfl⟩ := h
    simp [ih hrest]

/-- INTERNAL: the part of the map that belongs to a block.
SOURCE: generator/block_states.py:159-163. -/
theorem getElem?_writePropertyMap {i : ℕ} {block : BlockStates.Block}
    (hblock : blocks[i]? = some block) {j : ℕ} (hj : j < block.properties.length) :
    (BlockStates.writePropertyMap blocks)[mapStart blocks i + j]? =
      (block.properties.reverse.map Property.id)[j]? := by
  have hget := getElem?_flatMap_add
    (f := fun (block : BlockStates.Block) => block.properties.reverse.map Property.id) hblock
    (j := j) (by simpa using hj)
  simpa only [List.length_map, List.length_reverse, BlockStates.writePropertyMap, mapStart]
    using hget

/-- INTERNAL: the loop visits what the map has from the start of the block on. -/
theorem forState_eq_visit_of_map {ids : List (BitVec 8)} {state id : BitVec 16} {start : ℕ}
    (hstate : t.stateBlock[state.toNat]? = some id)
    (hword : t.blockProperties[id.toNat]? = some (BitVec.ofNat 16 (start ||| ids.length <<< 11)))
    (hstart : start < 2048) (hcount : ids.length < 8)
    (hmap : ∀ (j : ℕ) prop, ids[j]? = some prop → t.propertyMap[start + j]? = some prop)
    (hcounts : ∀ prop ∈ ids, 0 < t.count prop) (β : Type)
    (body : BitVec 8 → ℕ → Except DataFailure (Option β)) :
    t.forState state body =
      visit body (ids.zip (digits (ids.map t.count) (state - t.firstState id).toNat)) := by
  rw [forState_eq_forProperties hstate hword hstart hcount]
  apply forProperties_eq_visit ?_ hcounts
  intro j prop hj
  have hlt : j < ids.length := (List.getElem?_eq_some_iff.mp hj).1
  have hindex : (BitVec.ofNat 16 start + BitVec.ofNat 16 j).toNat = start + j := by
    rw [← BitVec.ofNat_add, BitVec.toNat_ofNat]
    omega
  rw [BlockTables.map, hindex, hmap j prop hj, Option.getD_some]

section OfBlock

variable {flags firsts places : List ℕ} {id : BitVec 16} {block : BlockStates.Block}
variable (hw : Written props blocks t flags firsts places) (hblock : blocks[id.toNat]? = some block)

include hw hblock

/-- INTERNAL: the word of a block. -/
theorem blockProperties_eq : mapStart blocks id.toNat < 2048 ∧ (propertyIds block).length < 8 ∧
    t.blockProperties[id.toNat]? = some (BitVec.ofNat 16
      (mapStart blocks id.toNat ||| (propertyIds block).length <<< 11)) := by
  obtain ⟨hstart, hcount, hplace⟩ := places_writeProperties hw.writeProperties hblock
  rw [Nat.zero_add] at hstart hplace
  have hlength : (propertyIds block).length = block.properties.length := by simp [propertyIds]
  rw [hlength, hw.blockProperties, List.getElem?_map, hplace]
  exact ⟨hstart, hcount, rfl⟩

/-- INTERNAL: the map of a block names its properties, from the last to the first. -/
theorem propertyMap_eq (j : ℕ) (prop : BitVec 8) (hj : (propertyIds block).reverse[j]? = some prop) :
    t.propertyMap[mapStart blocks id.toNat + j]? = some prop := by
  have hlt : j < block.properties.length := by
    simpa [propertyIds] using (List.getElem?_eq_some_iff.mp hj).1
  have hids : (propertyIds block).reverse =
      (block.properties.reverse.map Property.id).map (BitVec.ofNat 8) := by
    simp [propertyIds]
  rw [hw.propertyMap, List.getElem?_map, getElem?_writePropertyMap hblock hlt, ← List.getElem?_map,
    ← hids, hj]

/-- INTERNAL: **the loop visits the properties of the block**.
SOURCE: src/data/block.hh:72-172. -/
theorem forState_eq_visit (hcounts : ∀ prop ∈ propertyIds block, 0 < t.count prop)
    {state : BitVec 16} (hstate : t.stateBlock[state.toNat]? = some id) (β : Type)
    (body : BitVec 8 → ℕ → Except DataFailure (Option β)) :
    t.forState state body = visit body ((propertyIds block).reverse.zip
      (digits ((propertyIds block).reverse.map t.count) (state - t.firstState id).toNat)) := by
  obtain ⟨hstart, hcount, hword⟩ := blockProperties_eq hw hblock
  rw [← List.length_reverse] at hcount hword
  apply forState_eq_visit_of_map hstate hword hstart hcount (propertyMap_eq hw hblock)
  simpa using hcounts

/-- INTERNAL: nothing else of the map is read. -/
theorem forState_own (hcounts : ∀ prop ∈ propertyIds block, 0 < t.count prop)
    {map : List (BitVec 8)} (hmap : ∀ i, mapStart blocks id.toNat ≤ i →
      i < mapStart blocks id.toNat + block.properties.length → map[i]? = t.propertyMap[i]?)
    {state : BitVec 16} (hstate : t.stateBlock[state.toNat]? = some id) (β : Type)
    (body : BitVec 8 → ℕ → Except DataFailure (Option β)) :
    ({ t with propertyMap := map } : BlockTables).forState state body = t.forState state body := by
  obtain ⟨hstart, hcount, hword⟩ := blockProperties_eq hw hblock
  rw [← List.length_reverse] at hcount hword
  rw [forState_eq_visit hw hblock hcounts hstate]
  apply forState_eq_visit_of_map (t := { t with propertyMap := map }) hstate hword hstart hcount
  · intro j prop hj
    have hlt : j < block.properties.length := by
      simpa [propertyIds] using (List.getElem?_eq_some_iff.mp hj).1
    rw [← propertyMap_eq hw hblock j prop hj]
    exact hmap _ (by omega) (by omega)
  · intro prop hprop
    exact hcounts prop (by simpa using hprop)

end OfBlock

/-- INTERNAL: the id of a property of a block is its place in the list. -/
theorem props_of_mem {flags firsts places : List ℕ}
    (hprops : BlockStates.parseProps data = some props)
    (hblocks : BlockStates.parseBlocks items props = some blocks)
    (hw : Written props blocks t flags firsts places) {block : BlockStates.Block}
    (hblock : block ∈ blocks) {p : Property} (hp : p ∈ block.properties) :
    ∃ name, props[(BitVec.ofNat 8 p.id).toNat]? = some (name, p) := by
  obtain ⟨i, name, hi⟩ := exists_props_of_mem hblocks hblock hp
  have hid : p.id = i := (accepted_parseProps hprops hi).1
  have hfits : p.id < 2 ^ 8 := by
    apply hw.mapFits
    rw [BlockStates.writePropertyMap, List.mem_flatMap]
    exact ⟨block, hblock, List.mem_map_of_mem (List.mem_reverse.mpr hp)⟩
  refine ⟨name, ?_⟩
  rw [BitVec.toNat_ofNat, Nat.mod_eq_of_lt hfits, hid, hi]

/-! ## Reading the tables back -/

/-- INTERNAL: a loop without failures of its own ends. -/
theorem visit_ok {β : Type} (body : BitVec 8 → ℕ → Option β) (l : List (BitVec 8 × ℕ)) :
    ∃ result, visit (fun prop value => .ok (body prop value)) l = .ok result := by
  induction l with
  | nil => exact ⟨none, rfl⟩
  | cons p l ih =>
    rw [visit]
    cases body p.1 p.2 with
    | none => exact ih
    | some result => exact ⟨some result, rfl⟩

/-- A property `level` from `0` on with this many values. -/
def level (n : ℕ) : Property := ⟨0, "level".toList, .int, (List.range n).map fun i => .int i⟩

/-- A block with this property. -/
def levelBlock (n : ℕ) : BlockStates.Block :=
  ⟨"cauldron".toList, 0, "cauldron".toList, 0, [level n],
    (List.range n).map fun i => ⟨[Nat.toDigits 10 i], i⟩⟩

/-- What the generator reads. -/
def levelItem (n : ℕ) : PropertyItem := ⟨"level".toList, "level".toList, (level n).values⟩

/-- What the generator reads. -/
def levelBlockItem (n : ℕ) : BlockStates.BlockItem :=
  ⟨"cauldron".toList, 0, "cauldron".toList, 0, ["level".toList], (levelBlock n).states⟩

/-- What the generator writes. -/
def levelTables (n : ℕ) : BlockTables where
  propertyFlags := [BitVec.ofNat 16 (0x40 ||| n)]
  propertyName := ["level".toList]
  propertyKey := ["level".toList]
  propertyValues := []
  blockName := ["cauldron".toList]
  blockTranslationKey := ["cauldron".toList]
  firstStateId := [0]
  defaultStateId := [0]
  blockProperties := [0x0800]
  propertyMap := [0]
  stateBlock := List.replicate n 0

/-- INTERNAL: the first state of a block.
SOURCE: generator/block_states.py:134-137. -/
theorem firstState_eq {flags firsts places : List ℕ}
    (hw : Written props blocks t flags firsts places) {id : BitVec 16} {block : BlockStates.Block}
    (hblock : blocks[id.toNat]? = some block) :
    block.states.head?.map BlockStates.State.id = some (t.firstState id).toNat := by
  have hlength := length_of_mapM hw.writeFirstStates
  have hlt : id.toNat < firsts.length := by
    rw [hlength]
    exact (List.getElem?_eq_some_iff.mp hblock).1
  have hget := List.getElem?_eq_getElem hlt
  obtain ⟨block', hblock', hfirst⟩ := exists_of_mapM hw.writeFirstStates hget
  obtain rfl : block = block' := Option.some.inj (hblock.symm.trans hblock')
  have hfits := hw.firstsFit _ (List.mem_of_getElem? hget)
  rw [BlockTables.firstState, hw.firstStateId, List.getElem?_map, hget, Option.map_some,
    Option.getD_some, BitVec.toNat_ofNat, Nat.mod_eq_of_lt hfits]
  exact hfirst

theorem numbered_of_cartesian (hc : Cartesian props blocks) : Numbered blocks where
  blockIds := hc.blockIds
  fits := hc.fits
  stateIds := hc.stateIds

/-- INTERNAL: the table has every state once.
SOURCE: generator/block_states.py:164-170. -/
theorem length_stateBlock {flags firsts places : List ℕ}
    (hw : Written props blocks t flags firsts places) : t.stateBlock.length = stateCount blocks := by
  rw [hw.stateBlock, List.length_map]
  simp [BlockStates.writeStateBlocks, stateCount, List.length_flatMap]

/-- INTERNAL: the tables know the state.
SOURCE: generator/block_states.py:164-170. -/
theorem stateBlock_eq {flags firsts places : List ℕ}
    (hw : Written props blocks t flags firsts places) (hn : Numbered blocks) {i : ℕ}
    {block : BlockStates.Block} (hblock : blocks[i]? = some block) {j : ℕ}
    {state : BlockStates.State} (hstate : block.states[j]? = some state) :
    i < 2 ^ 16 ∧ state.id < 2 ^ 16 ∧ state.id = stateCount (blocks.take i) + j ∧
      t.stateBlock[state.id]? = some (BitVec.ofNat 16 i) := by
  have hid := hn.stateIds i block hblock j state hstate
  have hlt : j < (block.states.map fun _ => block.id).length := by
    simpa using (List.getElem?_eq_some_iff.mp hstate).1
  have hget := getElem?_flatMap_add
    (f := fun (block : BlockStates.Block) => block.states.map fun _ => block.id) hblock hlt
  simp only [List.length_map] at hget
  rw [← stateCount, ← hid, List.getElem?_map, hstate, Option.map_some,
    hn.blockIds i block hblock] at hget
  have hfits := hw.stateBlocksFit i (List.mem_of_getElem? hget)
  have htable : t.stateBlock[state.id]? = some (BitVec.ofNat 16 i) := by
    rw [hw.stateBlock, List.getElem?_map, BlockStates.writeStateBlocks, hget, Option.map_some]
  have hindex := (List.getElem?_eq_some_iff.mp htable).1
  rw [length_stateBlock hw] at hindex
  exact ⟨hfits, Nat.lt_of_lt_of_le hindex hn.fits, hid, htable⟩

/-- INTERNAL: pairs in the other order. -/
theorem reverse_zip {α β : Type} {l : List α} {m : List β} (h : l.length = m.length) :
    (l.zip m).reverse = l.reverse.zip m.reverse :=
  List.reverse_zipWith h

/-- INTERNAL: the number of a state and its values. -/
theorem stateValues_spec {counts : List ℕ} {k : ℕ} (hk : k < counts.prod) :
    List.Forall₂ (fun v c => v < c) (stateValues counts k) counts ∧
      k = stateNumber counts (stateValues counts k) := by
  have hpos : ∀ c ∈ counts.reverse, 0 < c := by
    intro c hc
    by_contra hzero
    have hzero : c = 0 := by omega
    have hmem : 0 ∈ counts := by simpa [hzero] using hc
    have hprod : counts.prod = 0 := List.prod_eq_zero hmem
    omega
  rw [← List.prod_reverse] at hk
  constructor
  · have hdigits := List.rel_reverse (digits_lt hpos k)
    rwa [List.reverse_reverse] at hdigits
  · have hnumber := foldr_digits hk
    have hzip : (counts.reverse.zip (digits counts.reverse k)).reverse =
        counts.zip (stateValues counts k) := by
      rw [stateValues, reverse_zip (by simp), List.reverse_reverse]
    rw [← List.foldl_reverse, hzip] at hnumber
    exact hnumber.symm

/-- INTERNAL: **every tuple of values is that of one state**. -/
theorem existsUnique_stateValues {counts values : List ℕ}
    (h : List.Forall₂ (fun v c => v < c) values counts) :
    ∃! k, k < counts.prod ∧ stateValues counts k = values := by
  obtain ⟨k, hk, hdigits⟩ := exists_digits (List.rel_reverse h)
  rw [List.prod_reverse] at hk
  have hvalues : stateValues counts k = values := by
    rw [stateValues, hdigits, List.reverse_reverse]
  refine ⟨k, ⟨hk, hvalues⟩, ?_⟩
  rintro k' ⟨hk', hvalues'⟩
  rw [(stateValues_spec hk').2, (stateValues_spec hk).2, hvalues, hvalues']

/-- INTERNAL: the states that the table assigns to a block.
SOURCE: src/data/block.hh:72-172. -/
theorem decodesStates {flags firsts places : List ℕ}
    (hprops : BlockStates.parseProps data = some props)
    (hblocks : BlockStates.parseBlocks items props = some blocks)
    (hw : Written props blocks t flags firsts places) {id : BitVec 16} {block : BlockStates.Block}
    (hblock : blocks[id.toNat]? = some block)
    (hcounts : ∀ p ∈ block.properties, t.count (BitVec.ofNat 8 p.id) = p.values.length) :
    DecodesStates t blocks id block := by
  have hpos : ∀ prop ∈ propertyIds block, 0 < t.count prop := by
    intro prop hprop
    obtain ⟨p, hp, rfl⟩ := List.mem_map.mp hprop
    obtain ⟨name, hget⟩ := props_of_mem hprops hblocks hw (List.mem_of_getElem? hblock) hp
    rw [hcounts p hp]
    exact (accepted_parseProps hprops hget).2.nonempty
  have hcount : (propertyIds block).reverse.map t.count = (valueCounts block).reverse := by
    rw [propertyIds, valueCounts, List.map_reverse, List.map_map]
    congr 1
    exact List.map_congr_left hcounts
  refine ⟨?_, ?_, ?_, ?_⟩
  · intro k hk state hstate hown β body
    have hplace : (state - t.firstState id).toNat = k := by
      rw [BitVec.toNat_sub_of_le (BitVec.le_def.mpr (by omega))]
      omega
    have hlength : (propertyIds block).length = (stateValues (valueCounts block) k).length := by
      simp [propertyIds, stateValues, valueCounts]
    rw [forState_eq_visit hw hblock hpos hown, hcount, hplace, reverse_zip hlength, stateValues,
      List.reverse_reverse]
  · intro k hk
    exact stateValues_spec hk
  · intro values hvalues
    exact existsUnique_stateValues hvalues
  · intro map hmap state hown β body
    exact forState_own hw hblock hpos hmap hown β body

/-- SOURCE: src/data/block.hh:72-172, generator/block_states.py:144-163 — **the states that the
table assigns to a block are decoded**. -/
theorem states_decoded (hprops : BlockStates.parseProps data = some props)
    (hblocks : BlockStates.parseBlocks items props = some blocks)
    (ht : (BlockStates.writeCpp props blocks).bind BlockStates.Emitted.compile = some t)
    {id : BitVec 16} {block : BlockStates.Block} (hblock : blocks[id.toNat]? = some block)
    (hcounts : ∀ p ∈ block.properties, t.count (BitVec.ofNat 8 p.id) = p.values.length) :
    block.states.head?.map BlockStates.State.id = some (t.firstState id).toNat ∧
      DecodesStates t blocks id block := by
  obtain ⟨flags, firsts, places, hw⟩ := written ht
  exact ⟨firstState_eq hw hblock, decodesStates hprops hblocks hw hblock hcounts⟩

/-- The states of a block with four. -/
theorem states_decoded_of_four : DecodesStates (levelTables 4) [levelBlock 4] 0 (levelBlock 4) := by
  apply (@states_decoded [levelItem 4] [levelBlockItem 4] [("level".toList, level 4)]
    [levelBlock 4] (levelTables 4) rfl rfl rfl 0 (levelBlock 4) rfl ?_).2
  intro p hp
  rw [List.mem_singleton.mp hp]
  decide

example : (levelTables 4).forState (β := ℕ) 2 (fun _ value => .ok (some value)) = .ok (some 2) := rfl

/-- A block whose one state is not all that its property allows, and the block after it. -/
def shortBlocks : List BlockStates.Block :=
  [⟨"cauldron".toList, 0, "cauldron".toList, 0, [level 4], [⟨[['0']], 0⟩]⟩,
    ⟨"stone".toList, 1, "stone".toList, 1, [], [⟨[], 1⟩]⟩]

/-- What the generator writes for them. -/
def shortTables : BlockTables where
  propertyFlags := [BitVec.ofNat 16 (0x40 ||| 4)]
  propertyName := ["level".toList]
  propertyKey := ["level".toList]
  propertyValues := []
  blockName := ["cauldron".toList, "stone".toList]
  blockTranslationKey := ["cauldron".toList, "stone".toList]
  firstStateId := [0, 1]
  defaultStateId := [0, 1]
  blockProperties := [0x0800, 0x0001]
  propertyMap := [0]
  stateBlock := [0, 1]

/-- SOURCE: generator/block_states.py:64-78,164-170 — a state that the data does not have is one of
another block. -/
theorem not_decoded_of_short :
    BlockStates.parseProps [levelItem 4] = some [("level".toList, level 4)] ∧
    BlockStates.parseBlocks
      [⟨"cauldron".toList, 0, "cauldron".toList, 0, ["level".toList], [⟨[['0']], 0⟩]⟩,
        ⟨"stone".toList, 1, "stone".toList, 1, [], [⟨[], 1⟩]⟩] [("level".toList, level 4)] =
      some shortBlocks ∧
    (BlockStates.writeCpp [("level".toList, level 4)] shortBlocks).bind
      BlockStates.Emitted.compile = some shortTables ∧
    ∃ block, shortBlocks[0]? = some block ∧
      (∀ p ∈ block.properties, shortTables.count (BitVec.ofNat 8 p.id) = p.values.length) ∧
      1 < (valueCounts block).prod ∧
      shortTables.forState (β := Unit) (shortTables.firstState 0 + 1) (fun _ _ => .ok (some ())) ≠
        visit (fun _ _ => .ok (some ()))
          ((propertyIds block).zip (stateValues (valueCounts block) 1)).reverse := by
  refine ⟨rfl, rfl, rfl, _, rfl, ?_, by decide, ?_⟩
  · simp
    decide
  · have hstops : shortTables.forState (β := Unit) (shortTables.firstState 0 + 1)
        (fun _ _ => .ok (some ())) = .ok none := rfl
    rw [hstops]
    decide

end Mccpp.Analysis
