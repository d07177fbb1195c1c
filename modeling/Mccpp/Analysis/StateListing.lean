import Mccpp.Analysis.BlockExamination
import Mccpp.Analysis.BlockMatching
import Mccpp.Analysis.BlockVariants
import Mccpp.Interface.StateListing

/-!
# What `main` lists

With variants whose values the properties of a block have, nothing fails, so the loop over the states of the block
says for each of them whether it is listed. Variants that describe each state once list each state once.
-/

set_option autoImplicit false

namespace Mccpp.Analysis

open Mccpp.Library Mccpp.Model Mccpp.Interface

variable {data : List PropertyItem} {items : List BlockStates.BlockItem}
  {props : List (List Char × Property)} {blocks : List BlockStates.Block} {t : BlockTables}
  {variant : List (List Char × List Char)} {flags firsts places : List ℕ}

/-! ## Nothing fails -/

/-- INTERNAL: what `match_block_state` does for one property, where the pair for it has one of its values.
SOURCE: main.cc:44-66 -/
theorem exists_matchProperty {id : BitVec 8} {name : List Char} {p : Property}
    (hprops : BlockStates.parseProps data = some props) (hw : Written props blocks t flags firsts places)
    (hp : props[id.toNat]? = some (name, p)) (hcount : p.values.length ≤ 15)
    (hints : p.kind = .int → ∀ value ∈ p.values, ∃ n, value = .int n)
    (htakes : ∀ pair ∈ variant, p.key = pair.1 → pair.2 ∈ p.values.map textOf) {v : ℕ}
    (hv : v < p.values.length) : ∃ result, matchProperty t variant id v = .ok result := by
  have hreads := propertyReadsBack hprops hw hp hcount
  rw [matchProperty, key_eq hw hp]
  cases hfind : variant.find? fun pair => pair.1 = p.key with
  | none => exact ⟨none, rfl⟩
  | some pair =>
    obtain ⟨key, text⟩ := pair
    have hkey : key = p.key := by simpa using List.find?_some hfind
    have htext : text ∈ p.values.map textOf := htakes _ (List.mem_of_find?_eq_some hfind) hkey.symm
    cases hkind : p.kind with
    | str =>
      obtain ⟨expected, hvalue, _⟩ := value_eq hprops hw hp hkind hcount hv
      simp only [if_pos (hreads.isEnum.mpr hkind), hvalue, bind, Except.bind]
      exact ⟨_, rfl⟩
    | bool =>
      have henum : ¬t.isEnum id = true := by
        rw [hreads.isEnum, hkind]
        decide
      simp only [if_neg henum, if_pos (hreads.isBool.mpr hkind)]
      exact ⟨_, rfl⟩
    | int =>
      have henum : ¬t.isEnum id = true := by
        rw [hreads.isEnum, hkind]
        decide
      have hbool : ¬t.isBool id = true := by
        rw [hreads.isBool, hkind]
        decide
      obtain ⟨first, _, _, hvalues⟩ := exists_first (accepted_parseProps hprops hp).2 hkind (hints hkind)
      obtain ⟨value, hvalue, rfl⟩ := List.mem_map.mp htext
      obtain ⟨w, hlt, rfl⟩ := List.getElem_of_mem hvalue
      have hget := (List.getElem?_eq_getElem hlt).symm.trans (hvalues w hlt)
      simp only [if_neg henum, if_neg hbool, if_pos ((isInt_iff hprops hw hp).mpr hkind), Option.some.inj hget,
        parseUint_textOf, bind, Except.bind]
      exact ⟨_, rfl⟩

theorem exists_visit {β : Type} {body : BitVec 8 → ℕ → Except DataFailure (Option β)} {l : List (BitVec 8 × ℕ)}
    (h : ∀ p ∈ l, ∃ result, body p.1 p.2 = .ok result) : ∃ result, visit body l = .ok result := by
  induction l with
  | nil => exact ⟨none, rfl⟩
  | cons p l ih =>
    obtain ⟨⟨result, hresult⟩, hl⟩ := List.forall_mem_cons.mp h
    rw [visit, hresult]
    cases result with
    | none => exact ih hl
    | some result => exact ⟨some result, rfl⟩

section OfBlock

variable {i : ℕ} {block : BlockStates.Block} (hprops : BlockStates.parseProps data = some props)
  (hblocks : BlockStates.parseBlocks items props = some blocks) (hw : Written props blocks t flags firsts places)
  (hc : Cartesian props blocks) (hblock : blocks[i]? = some block) (htakes : Takes block variant)

include hprops hblocks hw hc hblock htakes

theorem exists_matchBlockState {j : ℕ} {state : BlockStates.State} (hstate : block.states[j]? = some state) :
    ∃ matched, matchBlockState t (numberOfState state) variant = .ok matched := by
  have hvisit : ∃ result, visit (matchProperty t variant)
      ((propertyIds block).zip (stateValues (valueCounts block) j)).reverse = .ok result := by
    apply exists_visit
    intro pair hpair
    rw [List.mem_reverse] at hpair
    obtain ⟨m, hm⟩ := List.getElem?_of_mem hpair
    obtain ⟨hprop, hv⟩ := List.getElem?_zip_eq_some.mp hm
    rw [propertyIds, List.getElem?_map, Option.map_eq_some_iff] at hprop
    obtain ⟨p, hp, hid⟩ := hprop
    rw [← hid]
    have hbelow := (stateValues_spec (lt_prod_of_state hc hblock hstate)).1
    have hmem := List.mem_of_getElem? hp
    obtain ⟨name, hget⟩ := props_of_mem hprops hblocks hw (List.mem_of_getElem? hblock) hmem
    obtain ⟨c, hcount, hvc⟩ := Mccpp.Library.exists_of_forall₂ hbelow hv
    rw [valueCounts, List.getElem?_map, hp, Option.map_some] at hcount
    obtain rfl := Option.some.inj hcount
    have hprop := List.mem_of_getElem? hget
    exact exists_matchProperty hprops hw hget (hc.few _ hprop) (hc.ints _ hprop)
      (fun pair hpair hkey => htakes pair hpair p hmem hkey) hvc
  obtain ⟨result, hresult⟩ := hvisit
  rw [matchBlockState, numberOfState, forState_eq hw hc hblock hprops hblocks hstate, hresult]
  cases result with
  | none => exact ⟨true, rfl⟩
  | some result => exact ⟨result, rfl⟩

/-- INTERNAL: **which states match**, and no state fails.
SOURCE: main.cc:42-69 -/
theorem matchBlockState_eq_decide [DecidablePred (ListedUnder variant block)] {j : ℕ} {state : BlockStates.State}
    (hstate : block.states[j]? = some state) :
    matchBlockState t (numberOfState state) variant = .ok (decide (ListedUnder variant block state)) := by
  have hlisted : matchBlockState t (numberOfState state) variant = .ok true ↔ ListedUnder variant block state := by
    rw [numberOfState, matches_iff hw hc hblock hprops hblocks htakes hstate]
    constructor
    · intro hall m p hp pair hfind
      obtain ⟨v, hv⟩ := exists_stateValues j hp
      rw [← properties_eq hc hblock hstate hp hv]
      exact hall m p v hp hv pair hfind
    · intro hall m p v hp hv pair hfind
      rw [properties_eq hc hblock hstate hp hv]
      exact hall m p hp pair hfind
  obtain ⟨matched, hmatched⟩ := exists_matchBlockState hprops hblocks hw hc hblock htakes hstate
  rw [hmatched, Except.ok.injEq] at hlisted ⊢
  rw [Bool.eq_iff_iff, decide_eq_true_iff]
  exact hlisted

end OfBlock

/-! ## The loop over the states -/

/-- INTERNAL: **the loop over states of the block** logs those that match, and goes on behind them.
SOURCE: main.cc:71-78 -/
theorem matchBlockStatesFrom_states {block : BitVec 16} {P : BlockStates.State → Prop} [DecidablePred P] (fuel : ℕ)
    {states : List BlockStates.State} {state : BitVec 16}
    (hplace : ∀ (j : ℕ) s, states[j]? = some s → stateBehind state j = numberOfState s)
    (hown : ∀ s ∈ states, t.stateBlock[(numberOfState s).toNat]? = some block)
    (hmatch : ∀ s ∈ states, matchBlockState t (numberOfState s) variant = .ok (decide (P s))) :
    (matchBlockStatesFrom t block variant (fuel + states.length) state).logged =
        (states.filter fun s => decide (P s)).map numberOfState ++
          (matchBlockStatesFrom t block variant fuel (stateBehind state states.length)).logged ∧
      (matchBlockStatesFrom t block variant (fuel + states.length) state).ending =
        (matchBlockStatesFrom t block variant fuel (stateBehind state states.length)).ending := by
  induction states generalizing state with
  | nil =>
    rw [List.length_nil, stateBehind_zero]
    exact ⟨rfl, rfl⟩
  | cons s states ih =>
    obtain ⟨howns, hown⟩ := List.forall_mem_cons.mp hown
    obtain ⟨hmatchs, hmatch⟩ := List.forall_mem_cons.mp hmatch
    have hfirst := hplace 0 s rfl
    rw [stateBehind_zero] at hfirst
    have hrest : ∀ (j : ℕ) s', states[j]? = some s' → stateBehind (state + 1) j = numberOfState s' := by
      intro j s' hs'
      rw [← stateBehind_succ]
      exact hplace (j + 1) s' hs'
    obtain ⟨hlogged, hending⟩ := ih hrest hown hmatch
    rw [← hfirst] at howns hmatchs
    rw [List.length_cons, ← Nat.add_assoc, stateBehind_succ, ← hending, matchBlockStatesFrom, howns]
    simp only [if_true, hmatchs, and_true]
    rw [hlogged, List.filter_cons]
    by_cases hP : P s
    · simp only [hP, decide_true, if_true, List.map_cons, hfirst, List.cons_append, List.nil_append]
    · simp only [hP, decide_false, Bool.false_eq_true, if_false, List.nil_append]

section OfBlock

variable {i : ℕ} {block : BlockStates.Block} (hprops : BlockStates.parseProps data = some props)
  (hblocks : BlockStates.parseBlocks items props = some blocks) (hw : Written props blocks t flags firsts places)
  (hc : Cartesian props blocks) (hblock : blocks[i]? = some block) (hnext : i + 1 < blocks.length)

include hprops hblocks hw hc hblock hnext

/-- INTERNAL: all states of a block that another one follows are gone through.
SOURCE: main.cc:71-78 -/
theorem matchBlockStates_eq (htakes : Takes block variant) {fuel : ℕ} (hfuel : block.states.length < fuel) :
    (matchBlockStates t fuel (BitVec.ofNat 16 i) variant).logged =
        (statesUnder block variant).map numberOfState ∧
      (matchBlockStates t fuel (BitVec.ofNat 16 i) variant).ending = .finished := by
  classical
  have hn := numbered_of_cartesian hc
  obtain ⟨_, _, hfirst⟩ := firstState_of_numbered hw hn hblock
  have hplace : ∀ (j : ℕ) s, block.states[j]? = some s →
      stateBehind (t.firstState (BitVec.ofNat 16 i)) j = numberOfState s := by
    intro j s hs
    apply BitVec.eq_of_toNat_eq
    rw [toNat_stateBehind, hfirst, numberOfState, BitVec.toNat_ofNat, hc.stateIds i block hblock j s hs]
  have hown : ∀ s ∈ block.states, t.stateBlock[(numberOfState s).toNat]? = some (BitVec.ofNat 16 i) := by
    intro s hs
    obtain ⟨j, hj⟩ := List.getElem?_of_mem hs
    obtain ⟨_, hlt, _, howner⟩ := stateBlock_eq hw hn hblock hj
    rw [numberOfState, BitVec.toNat_ofNat, Nat.mod_eq_of_lt hlt]
    exact howner
  have hmatch : ∀ s ∈ block.states,
      matchBlockState t (numberOfState s) variant = .ok (decide (ListedUnder variant block s)) := by
    intro s hs
    obtain ⟨j, hj⟩ := List.getElem?_of_mem hs
    exact matchBlockState_eq_decide hprops hblocks hw hc hblock htakes hj
  -- The first state of the block behind it.
  have hbehind : t.stateBlock[(stateBehind (t.firstState (BitVec.ofNat 16 i)) block.states.length).toNat]? =
      some (BitVec.ofNat 16 (i + 1)) := by
    have hblock' := List.getElem?_eq_getElem hnext
    obtain ⟨_, hpos, _⟩ := firstState_of_numbered hw hn hblock'
    obtain ⟨hlt, howner⟩ := owner_of_place hw hn hblock' hpos
    rw [Nat.add_zero, stateCount_take_succ hblock] at hlt howner
    rw [toNat_stateBehind, hfirst, Nat.mod_eq_of_lt hlt]
    exact howner
  have hother : BitVec.ofNat 16 (i + 1) ≠ BitVec.ofNat 16 i :=
    mt (ofNat_inj hw hn (List.getElem?_eq_getElem hnext) hblock) i.succ_ne_self
  obtain ⟨k, rfl⟩ := Nat.exists_eq_add_of_lt hfuel
  have hfinished := @finished_of_other t (BitVec.ofNat 16 i) variant _ _ hbehind hother k
  obtain ⟨hlogged, hending⟩ := matchBlockStatesFrom_states (k + 1) hplace hown hmatch
  rw [hfinished] at hlogged hending
  rw [matchBlockStates, Nat.add_assoc, Nat.add_comm, hlogged, hending, List.append_nil, statesUnder]
  exact ⟨rfl, rfl⟩

theorem listVariant_eq (hproper : ProperVariant block variant) {v : BlockStateVariant}
    (htext : v.match' = variantText variant) {fuel : ℕ} (hstates : block.states.length < fuel)
    (hpairs : (variantText variant).length < fuel) :
    listVariant t fuel (BitVec.ofNat 16 i) v = some (.ok ((statesUnder block variant).map numberOfState)) := by
  obtain ⟨hlogged, hending⟩ := matchBlockStates_eq hprops hblocks hw hc hblock hnext hproper.takes hstates
  rw [listVariant, htext, parseVariantKvPairs_variantText hproper.plain hpairs, Option.bind_some]
  simp only [hending, hlogged]

/-- INTERNAL: **the loop over the variants**.
SOURCE: main.cc:106-109 -/
theorem exists_listVariants {rbs : List BlockStateVariant} {variants : List (List (List Char × List Char))}
    (hvariants : ∀ variant ∈ variants, ProperVariant block variant)
    (htexts : rbs.map BlockStateVariant.match' = variants.map variantText) :
    ∃ bound, ∀ fuel ≥ bound, listVariants t fuel (BitVec.ofNat 16 i) rbs =
      some (.ok (variants.map fun variant => (statesUnder block variant).map numberOfState)) := by
  induction rbs generalizing variants with
  | nil =>
    obtain rfl := List.map_eq_nil_iff.mp htexts.symm
    exact ⟨0, fun _ _ => rfl⟩
  | cons v rbs ih =>
    cases variants with
    | nil => cases htexts
    | cons variant variants =>
      obtain ⟨htext, htexts⟩ := List.cons.inj htexts
      obtain ⟨hproper, hvariants⟩ := List.forall_mem_cons.mp hvariants
      obtain ⟨bound, hbound⟩ := ih hvariants htexts
      refine ⟨max bound (block.states.length + (variantText variant).length + 1), fun fuel hfuel => ?_⟩
      have hle := le_trans (le_max_right _ _) hfuel
      have hfirst := listVariant_eq hprops hblocks hw hc hblock hnext hproper htext
        (by omega : block.states.length < fuel) (by omega)
      rw [listVariants, hfirst, Option.bind_some]
      simp only [hbound fuel (le_trans (le_max_left _ _) hfuel), Option.map_some]
      rfl

end OfBlock

/-! ## Each state once -/

/-- INTERNAL: where no boolean is named, and nothing twice, what is listed is what is described. -/
theorem listedUnder_iff_describes {block : BlockStates.Block} (h : Matchable block variant)
    (state : BlockStates.State) : ListedUnder variant block state ↔ Describes variant block state := by
  constructor
  · intro hlisted pair hpair m p hp hkey
    obtain ⟨pair', hfind, hpair', hkey'⟩ := exists_first_pair hpair hkey
    obtain ⟨hkind, hsame⟩ := h pair hpair p (List.mem_of_getElem? hp) hkey
    have hvalue := mt (hlisted m p hp pair' hfind).mpr hkind
    rw [not_not, hsame pair' hpair' (hkey'.symm.trans hkey)] at hvalue
    exact hvalue
  · intro hdescribes m p hp pair hfind
    have hpair := List.mem_of_find?_eq_some hfind
    have hkey : pair.1 = p.key := by simpa using List.find?_some hfind
    obtain ⟨hkind, _⟩ := h pair hpair p (List.mem_of_getElem? hp) hkey.symm
    exact iff_of_false hkind (not_not.mpr (hdescribes pair hpair m p hp hkey.symm))

theorem mem_statesUnder {block : BlockStates.Block} {state : BlockStates.State} :
    state ∈ statesUnder block variant ↔ state ∈ block.states ∧ ListedUnder variant block state := by
  classical
  rw [statesUnder, List.mem_filter, decide_eq_true_iff]

theorem nodup_states (hc : Cartesian props blocks) {i : ℕ} {block : BlockStates.Block}
    (hblock : blocks[i]? = some block) : block.states.Nodup := by
  rw [List.nodup_iff_getElem?_ne_getElem?]
  intro j k hjk hk hsame
  have hstate := List.getElem?_eq_getElem hk
  have hid := hc.stateIds i block hblock k _ hstate
  have hid' := hc.stateIds i block hblock j _ (hsame.trans hstate)
  omega

theorem perm_statesUnder (hc : Cartesian props blocks) {i : ℕ} {block : BlockStates.Block}
    (hblock : blocks[i]? = some block) {variants : List (List (List Char × List Char))}
    (hmatchable : ∀ variant ∈ variants, Matchable block variant) (honce : DescribesEachOnce block variants) :
    (variants.flatMap (statesUnder block)).Perm block.states := by
  classical
  have hnodup := nodup_states hc hblock
  have hmem : ∀ variant ∈ variants, ∀ state,
      state ∈ statesUnder block variant ↔ state ∈ block.states ∧ Describes variant block state := by
    intro variant hvariant state
    rw [mem_statesUnder, listedUnder_iff_describes (hmatchable variant hvariant)]
  have hflat : (variants.flatMap (statesUnder block)).Nodup := by
    rw [List.nodup_flatMap]
    refine ⟨fun variant _ => hnodup.filter _, ?_⟩
    refine honce.1.imp_of_mem fun {variant variant'} hvariant hvariant' hnever => ?_
    intro state hstate hstate'
    obtain ⟨hin, hdescribes⟩ := (hmem variant hvariant state).mp hstate
    obtain ⟨_, hdescribes'⟩ := (hmem variant' hvariant' state).mp hstate'
    exact hnever state hin ⟨hdescribes, hdescribes'⟩
  refine (List.perm_ext_iff_of_nodup hflat hnodup).mpr fun state => ?_
  rw [List.mem_flatMap]
  constructor
  · rintro ⟨variant, hvariant, hstate⟩
    exact ((hmem variant hvariant state).mp hstate).1
  · intro hstate
    obtain ⟨variant, hvariant, hdescribes⟩ := honce.2 state hstate
    exact ⟨variant, hvariant, (hmem variant hvariant state).mpr ⟨hstate, hdescribes⟩⟩

/-- A block without properties, behind one with two states. -/
def stoneBlock : BlockStates.Block := ⟨"stone".toList, 1, "stone".toList, 2, [], [⟨[], 2⟩]⟩

/-- What the generator reads of it. -/
def stoneItem : BlockStates.BlockItem := ⟨"stone".toList, 1, "stone".toList, 2, [], [⟨[], 2⟩]⟩

/-- A variant that gives the level. -/
def levelVariant (level : List Char) : List (List Char × List Char) := [("level".toList, level)]

/-- The parsed file with a variant for each of two levels. -/
def levelFile : JsonObject (Option (JsonObject (List (List Char × VariantItem)))) :=
  .object (some (.object [("level=0".toList, ⟨none, none, none⟩), ("level=1".toList, ⟨none, none, none⟩)]))

theorem cartesian_stone : Cartesian [("level".toList, level 2)] [levelBlock 2, stoneBlock] where
  few := by decide
  ints := by
    intro p hp _ value hvalue
    rw [List.mem_singleton.mp hp] at hvalue
    obtain ⟨n, -, rfl⟩ := List.mem_map.mp hvalue
    exact ⟨n, rfl⟩
  product := by decide
  blockIds := by
    intro i block hblock
    rcases i with - | - | i
    · obtain rfl := Option.some.inj hblock
      rfl
    · obtain rfl := Option.some.inj hblock
      rfl
    · cases hblock
  fits := by decide
  stateIds := by
    intro i block hblock j state hstate
    rcases i with - | - | i
    · obtain rfl := Option.some.inj hblock
      rw [id_levelBlock hstate, stateCount, List.take_zero, List.map_nil, List.sum_nil, Nat.zero_add]
    · obtain rfl := Option.some.inj hblock
      cases j with
      | zero =>
        obtain rfl := Option.some.inj hstate
        rfl
      | succ j => cases hstate
    · cases hblock

theorem describes_levelVariant {n : ℕ} {value : List Char} {state : BlockStates.State} :
    Describes (levelVariant value) (levelBlock n) state ↔ state.properties[0]? = some value := by
  constructor
  · intro h
    exact h _ List.mem_cons_self 0 (level n) rfl rfl
  · intro h pair hpair i p hp _
    rw [List.mem_singleton.mp hpair]
    cases i with
    | zero => exact h
    | succ i => cases hp

theorem matchable_levelVariant (n : ℕ) (value : List Char) : Matchable (levelBlock n) (levelVariant value) := by
  intro pair hpair p hp _
  rw [List.mem_singleton.mp hpair, List.mem_singleton.mp hp]
  have hkind : (level n).kind ≠ .bool := fun h => by cases h
  refine ⟨hkind, fun pair' hpair' _ => ?_⟩
  rw [List.mem_singleton.mp hpair']

theorem describesEachOnce_levels :
    DescribesEachOnce (levelBlock 2) [levelVariant ['0'], levelVariant ['1']] := by
  constructor
  · refine List.pairwise_pair.mpr fun state _ => ?_
    rw [describes_levelVariant, describes_levelVariant]
    rintro ⟨hzero, hone⟩
    rw [hzero] at hone
    cases hone
  · intro state hstate
    have hcases : state.properties[0]? = some ['0'] ∨ state.properties[0]? = some ['1'] := by
      revert state
      decide
    rcases hcases with hzero | hone
    · exact ⟨_, List.mem_cons_self, describes_levelVariant.mpr hzero⟩
    · exact ⟨_, List.mem_cons_of_mem _ List.mem_cons_self, describes_levelVariant.mpr hone⟩

theorem properVariant_level {value : List Char} (h : value = ['0'] ∨ value = ['1']) :
    ProperVariant (levelBlock 2) (levelVariant value) := by
  refine ⟨fun pair hpair => ?_, fun pair hpair p hp _ => ?_⟩
  · rw [List.mem_singleton.mp hpair]
    rcases h with rfl | rfl
    · exact ⟨⟨by decide, by decide⟩, by decide⟩
    · exact ⟨⟨by decide, by decide⟩, by decide⟩
  · rw [List.mem_singleton.mp hpair, List.mem_singleton.mp hp]
    rcases h with rfl | rfl
    · decide
    · decide

end Mccpp.Analysis
