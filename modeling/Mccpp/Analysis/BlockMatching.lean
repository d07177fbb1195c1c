import Mathlib.Tactic.IntervalCases
import Mccpp.Analysis.ParseUint

/-!
# Matching the states of a block

`match_block_state` compares the first pair of a variant that names a property with the value that
the property has in the state. For an enum or an integer the two texts are compared
(`matchProperty_eq_none`). For a boolean the value `0` counts as `false`, where the generator gives
the value `true` the index `0`, so the comparison is the other way round. So the states that match
are those that the variant describes if and only if the variant names no boolean property, and no
property with two values (`matches_described_iff`).
-/

set_option autoImplicit false

namespace Mccpp.Analysis

open Mccpp.Library Mccpp.Model Mccpp.Interface

variable {data : List PropertyItem} {items : List BlockStates.BlockItem}
  {props : List (List Char × Property)} {blocks : List BlockStates.Block} {t : BlockTables}
  {variant : List (List Char × List Char)}

/-! ## One property -/

/-- The first pair for the property agrees with this value: the text is that of the value, or for a
boolean the other one. -/
def Agrees (variant : List (List Char × List Char)) (p : Property) (v : ℕ) : Prop :=
  ∀ pair, variant.find? (fun pair => pair.1 = p.key) = some pair →
    (p.kind = .bool ↔ (p.values.map textOf)[v]? ≠ some pair.2)

/-- INTERNAL: the text of a natural number is read. -/
theorem parseUint_textOf (n : ℕ) : parseUint (textOf (.int n)) = .ok (BitVec.ofNat 32 n) := by
  have hsign : ¬ ((n : ℤ) < 0) := by omega
  rw [textOf, if_neg hsign, List.nil_append, Int.natAbs_natCast]
  exact parseUint_toDigits n

/-- INTERNAL: the text of a small integer gives the integer. -/
theorem textOf_int_inj {n m : ℕ} (hn : n < 17) (hm : m < 17)
    (h : textOf (.int n) = textOf (.int m)) : n = m := by
  have hparse := parseUint_textOf n
  rw [h, parseUint_textOf m] at hparse
  have hnat := congrArg BitVec.toNat (Except.ok.inj hparse)
  rw [BitVec.toNat_ofNat, BitVec.toNat_ofNat] at hnat
  omega

/-- INTERNAL: the values of a property of integers. -/
theorem exists_first {p : Property} (hp : Accepted p) (hkind : p.kind = .int)
    (hints : ∀ value ∈ p.values, ∃ n, value = .int n) :
    ∃ first : ℕ, first < 2 ∧ p.values.head? = some (.int first) ∧
      ∀ v, v < p.values.length → p.values[v]? = some (.int (first + v : ℕ)) := by
  obtain ⟨first, hfirst, hhead, hvalues⟩ := hp.integers hkind
  obtain ⟨n, rfl⟩ : ∃ n : ℕ, first = n := ⟨first.toNat, by omega⟩
  refine ⟨n, by omega, hhead, ?_⟩
  intro v hv
  have hget := List.getElem?_eq_getElem hv
  obtain ⟨m, hm⟩ := hints _ (List.getElem_mem hv)
  have hequals := hvalues v _ hget
  rw [hm] at hequals
  have hm' : m = n + v := by simpa [JsonValue.equalsInt] using hequals
  rw [hget, hm, hm']
  simp

/-- INTERNAL: the key is read.
SOURCE: src/data/block.hh:36. -/
theorem key_eq {flags firsts places : List ℕ} (hw : Written props blocks t flags firsts places)
    {id : BitVec 8} {name : List Char} {p : Property} (hp : props[id.toNat]? = some (name, p)) :
    t.key id = p.key := by
  simp [BlockTables.key, hw.propertyKey, hp]

section OfProperty

variable {flags firsts places : List ℕ} {id : BitVec 8} {name : List Char} {p : Property}
variable (hprops : BlockStates.parseProps data = some props)
  (hw : Written props blocks t flags firsts places) (hp : props[id.toNat]? = some (name, p))

include hprops hw hp

/-- INTERNAL: a value of an enum is read.
SOURCE: src/data/block.hh:38-49. -/
theorem value_eq (hkind : p.kind = .str) (hcount : p.values.length ≤ 15) {v : ℕ}
    (hv : v < p.values.length) :
    ∃ text, t.value id v = .ok text ∧ (p.values.map textOf)[v]? = some text := by
  have haccepted : Accepted p := (accepted_parseProps hprops hp).2
  have hreads := propertyReadsBack hprops hw hp hcount
  have henum : t.isEnum id = true := hreads.isEnum.mpr hkind
  have hvalues := hreads.values hkind
  rw [BlockTables.values, BlockTables.valuesBegin, if_pos henum] at hvalues
  have htable := congrArg (fun l => l[v]?) (Except.ok.inj hvalues)
  simp only [hreads.count, List.getElem?_take_of_lt hv, List.getElem?_drop, List.getElem?_map,
    List.getElem?_eq_getElem hv, Option.map_some] at htable
  have htext : BlockStates.valueText p.values[v] = textOf p.values[v] := by
    have hstr := haccepted.strings hkind _ (List.getElem_mem hv)
    cases hcase : p.values[v] with
    | str text => rfl
    | _ => simp [hcase, JsonValue.isStr] at hstr
  refine ⟨textOf p.values[v], ?_, by simp [hv]⟩
  rw [BlockTables.value, BlockTables.valuesBegin, if_pos henum]
  simp only [bind, Except.bind, htable, Option.getD_some, htext]

section Named

variable {key text : List Char} (hfind : variant.find? (fun pair => pair.1 = p.key) = some (key, text))

include hfind

/-- INTERNAL: an enum passes when the pair has the text of its value.
SOURCE: src/main.cc:52-55. -/
theorem matchProperty_str (hkind : p.kind = .str) (hcount : p.values.length ≤ 15) {v : ℕ}
    (hv : v < p.values.length) :
    matchProperty t variant id v = .ok none ↔ (p.values.map textOf)[v]? = some text := by
  have henum : t.isEnum id = true :=
    (propertyReadsBack hprops hw hp hcount).isEnum.mpr hkind
  obtain ⟨expected, hvalue, hget⟩ := value_eq hprops hw hp hkind hcount hv
  rw [matchProperty, key_eq hw hp, hfind]
  simp only [if_pos henum, hvalue, hget, bind, Except.bind]
  by_cases hsame : text = expected
  · simp [hsame]
  · simp [hsame, Ne.symm hsame]

/-- INTERNAL: a boolean passes when the pair has the other text.
SOURCE: src/main.cc:56-59. -/
theorem matchProperty_bool (hkind : p.kind = .bool) (hcount : p.values.length ≤ 15)
    (htext : text ∈ p.values.map textOf) {v : ℕ} (hv : v < p.values.length) :
    matchProperty t variant id v = .ok none ↔ (p.values.map textOf)[v]? ≠ some text := by
  have hreads := propertyReadsBack hprops hw hp hcount
  have henum : ¬ t.isEnum id = true := by rw [hreads.isEnum, hkind]; simp
  have hbool : t.isBool id = true := hreads.isBool.mpr hkind
  have hvalues := (accepted_parseProps hprops hp).2.booleans hkind
  rw [hvalues] at hv htext ⊢
  rw [matchProperty, key_eq hw hp, hfind]
  simp only [if_neg henum, if_pos hbool]
  rcases (by simpa [textOf] using htext : text = "true".toList ∨ text = "false".toList) with
    rfl | rfl
  all_goals
    have htwo : v < 2 := hv
    interval_cases v <;> decide

/-- INTERNAL: an integer passes when the pair has the text of its value.
SOURCE: src/main.cc:60-65. -/
theorem matchProperty_int (hkind : p.kind = .int) (hcount : p.values.length ≤ 15)
    (hints : ∀ value ∈ p.values, ∃ n, value = .int n) (htext : text ∈ p.values.map textOf) {v : ℕ}
    (hv : v < p.values.length) :
    matchProperty t variant id v = .ok none ↔ (p.values.map textOf)[v]? = some text := by
  have hreads := propertyReadsBack hprops hw hp hcount
  have henum : ¬ t.isEnum id = true := by rw [hreads.isEnum, hkind]; simp
  have hbool : ¬ t.isBool id = true := by rw [hreads.isBool, hkind]; simp
  have hint : t.isInt id = true := (isInt_iff hprops hw hp).mpr hkind
  obtain ⟨first, hfirst, hhead, hvalues⟩ :=
    exists_first (accepted_parseProps hprops hp).2 hkind hints
  have hbase : (if t.isInt1 id = true then 1 else 0) = first := by
    rcases (by omega : first = 0 ∨ first = 1) with rfl | rfl
    · have hnot : ¬ t.isInt1 id = true := by rw [hreads.isInt1, hhead]; simp
      rw [if_neg hnot]
    · rw [if_pos (hreads.isInt1.mpr ⟨hkind, hhead⟩)]
  obtain ⟨w, hw', rfl⟩ : ∃ w, w < p.values.length ∧ textOf (.int (first + w : ℕ)) = text := by
    obtain ⟨value, hvalue, rfl⟩ := List.mem_map.mp htext
    obtain ⟨w, hlt, rfl⟩ := List.getElem_of_mem hvalue
    have hget := (List.getElem?_eq_getElem hlt).symm.trans (hvalues w hlt)
    exact ⟨w, hlt, by rw [Option.some.inj hget]⟩
  have hget : (p.values.map textOf)[v]? = some (textOf (.int (first + v : ℕ))) := by
    rw [List.getElem?_map, hvalues v hv, Option.map_some]
  have hnumber : (BitVec.ofNat 32 (first + w)).toNat = first + w := by
    rw [BitVec.toNat_ofNat]
    omega
  rw [matchProperty, key_eq hw hp, hfind]
  simp only [if_neg henum, if_neg hbool, if_pos hint, hget, hbase,
    parseUint_textOf (first + w), bind, Except.bind, hnumber]
  by_cases hsame : w = v
  · simp [hsame]
  · have htexts : textOf (.int (first + v : ℕ)) ≠ textOf (.int (first + w : ℕ)) := by
      intro h
      have heq := textOf_int_inj (by omega) (by omega) h
      omega
    simpa [hsame] using htexts

end Named

/-- INTERNAL: **a value passes when the first pair agrees with it**.
SOURCE: src/main.cc:42-66. -/
theorem matchProperty_eq_none (hcount : p.values.length ≤ 15)
    (hints : p.kind = .int → ∀ value ∈ p.values, ∃ n, value = .int n)
    (htakes : ∀ pair ∈ variant, p.key = pair.1 → pair.2 ∈ p.values.map textOf) {v : ℕ}
    (hv : v < p.values.length) :
    matchProperty t variant id v = .ok none ↔ Agrees variant p v := by
  rw [Agrees]
  cases hfind : variant.find? fun pair => pair.1 = p.key with
  | none => simp [matchProperty, key_eq hw hp, hfind]
  | some pair =>
    obtain ⟨key, text⟩ := pair
    have hkey : key = p.key := by simpa using List.find?_some hfind
    have htext : text ∈ p.values.map textOf :=
      htakes _ (List.mem_of_find?_eq_some hfind) hkey.symm
    simp only [Option.some.injEq, forall_eq']
    cases hkind : p.kind with
    | str => simp [matchProperty_str hprops hw hp hfind hkind hcount hv]
    | bool => simp [matchProperty_bool hprops hw hp hfind hkind hcount htext hv]
    | int => simp [matchProperty_int hprops hw hp hfind hkind hcount (hints hkind) htext hv]

end OfProperty

/-! ## One state -/

/-- INTERNAL: a loop goes through when no step returns. -/
theorem visit_eq_none {β : Type} {body : BitVec 8 → ℕ → Except DataFailure (Option β)}
    {l : List (BitVec 8 × ℕ)} :
    visit body l = .ok none ↔ ∀ p ∈ l, body p.1 p.2 = .ok none := by
  induction l with
  | nil => simp [visit]
  | cons p l ih =>
    rw [visit, List.forall_mem_cons, ← ih]
    cases hp : body p.1 p.2 with
    | error e => simp [bind, Except.bind]
    | ok result =>
      cases result with
      | none => simp [bind, Except.bind]
      | some result => simp [bind, Except.bind]

/-- INTERNAL: a property never makes a state match.
SOURCE: src/main.cc:42-66. -/
theorem matchProperty_ne_true (prop : BitVec 8) (value : ℕ) :
    matchProperty t variant prop value ≠ .ok (some true) := by
  have hstep (c : Prop) [Decidable c] :
      (Except.ok (if c then some false else none) : Except DataFailure (Option Bool)) ≠
        .ok (some true) := by
    split_ifs <;> simp
  rw [matchProperty]
  split
  · simp
  · by_cases henum : t.isEnum prop = true
    · rw [if_pos henum]
      cases t.value prop value with
      | error e => simp [bind, Except.bind]
      | ok expected => apply hstep
    · rw [if_neg henum]
      by_cases hbool : t.isBool prop = true
      · rw [if_pos hbool]
        apply hstep
      · rw [if_neg hbool]
        by_cases hint : t.isInt prop = true
        · rw [if_pos hint]
          cases parseUint _ with
          | error e => simp [bind, Except.bind]
          | ok number => apply hstep
        · rw [if_neg hint]
          simp

/-- INTERNAL: a state matches when every property passes.
SOURCE: src/main.cc:42-69. -/
theorem matchBlockState_eq_true {state : BitVec 16} {l : List (BitVec 8 × ℕ)}
    (h : t.forState state (matchProperty t variant) = visit (matchProperty t variant) l) :
    matchBlockState t state variant = .ok true ↔
      ∀ p ∈ l, matchProperty t variant p.1 p.2 = .ok none := by
  have hnever : visit (matchProperty t variant) l ≠ .ok (some true) := by
    clear h
    induction l with
    | nil => simp [visit]
    | cons p l ih =>
      have hp := @matchProperty_ne_true t variant p.1 p.2
      rw [visit]
      cases hbody : matchProperty t variant p.1 p.2 with
      | error e => simp [bind, Except.bind]
      | ok result =>
        cases result with
        | none => exact ih
        | some result =>
          intro hresult
          rw [hbody] at hp
          exact hp hresult
  rw [matchBlockState, h, ← visit_eq_none]
  cases hvisit : visit (matchProperty t variant) l with
  | error e => simp [bind, Except.bind]
  | ok result =>
    cases result with
    | none => simp [bind, Except.bind]
    | some result =>
      cases result with
      | false => simp [bind, Except.bind]
      | true => exact absurd hvisit hnever

/-- INTERNAL: every property has a value in every state. -/
theorem exists_stateValues {block : BlockStates.Block} (j : ℕ) {m : ℕ} {p : Property}
    (hp : block.properties[m]? = some p) :
    ∃ v, (stateValues (valueCounts block) j)[m]? = some v := by
  have hlt : m < (stateValues (valueCounts block) j).length := by
    simpa [stateValues, valueCounts] using (List.getElem?_eq_some_iff.mp hp).1
  exact ⟨_, List.getElem?_eq_getElem hlt⟩

section OfBlock

variable {flags firsts places : List ℕ} {i : ℕ} {block : BlockStates.Block}
variable (hprops : BlockStates.parseProps data = some props)
  (hblocks : BlockStates.parseBlocks items props = some blocks)
  (hw : Written props blocks t flags firsts places) (hc : Cartesian props blocks)
  (hblock : blocks[i]? = some block)

/-- INTERNAL: a property has in a state the text that its value picks. -/
theorem properties_eq (hc : Cartesian props blocks) (hblock : blocks[i]? = some block) {j : ℕ}
    {state : BlockStates.State} (hstate : block.states[j]? = some state) {m : ℕ} {p : Property}
    (hp : block.properties[m]? = some p) {v : ℕ}
    (hv : (stateValues (valueCounts block) j)[m]? = some v) :
    (p.values.map textOf)[v]? = state.properties[m]? := by
  have htuple : (tuples (block.properties.map fun p => p.values.map textOf))[j]? =
      some state.properties := by
    rw [← hc.product block (List.mem_of_getElem? hblock), List.getElem?_map, hstate,
      Option.map_some]
  have hcounts : (block.properties.map fun p => p.values.map textOf).reverse.map List.length =
      (valueCounts block).reverse := by
    simp [valueCounts]
  have hpicks := List.rel_reverse (tuples_picks htuple)
  rw [hcounts, reverse_zip (by simp [valueCounts]), List.reverse_reverse, List.reverse_reverse,
    ← stateValues] at hpicks
  have hpair : ((block.properties.map fun p => p.values.map textOf).zip
      (stateValues (valueCounts block) j))[m]? = some (p.values.map textOf, v) := by
    rw [List.getElem?_zip_eq_some]
    exact ⟨by rw [List.getElem?_map, hp, Option.map_some], hv⟩
  obtain ⟨text, htext, hvalue⟩ := exists_of_forall₂ hpicks hpair
  rw [hvalue, htext]

include hw hc hblock

omit hw in
/-- INTERNAL: a block has one state for each tuple of values. -/
theorem lt_prod_of_state {j : ℕ} {state : BlockStates.State}
    (hstate : block.states[j]? = some state) : j < (valueCounts block).prod := by
  have hj := (List.getElem?_eq_some_iff.mp hstate).1
  have hlength := congrArg List.length (hc.product block (List.mem_of_getElem? hblock))
  rw [List.length_map, length_tuples] at hlength
  rw [hlength] at hj
  simpa [valueCounts, Function.comp_def] using hj

/-- INTERNAL: the iteration of a state visits its properties with their values, the last first.
SOURCE: src/data/block.hh:130-172. -/
theorem forState_eq (hprops : BlockStates.parseProps data = some props)
    (hblocks : BlockStates.parseBlocks items props = some blocks)
    {j : ℕ} {state : BlockStates.State} (hstate : block.states[j]? = some state)
    (body : BitVec 8 → ℕ → Except DataFailure (Option Bool)) :
    t.forState (BitVec.ofNat 16 state.id) body =
      visit body ((propertyIds block).zip (stateValues (valueCounts block) j)).reverse := by
  obtain ⟨hi, hs, hid, htable⟩ := stateBlock_eq hw (numbered_of_cartesian hc) hblock hstate
  have hindex : (BitVec.ofNat 16 i).toNat = i := by rw [BitVec.toNat_ofNat, Nat.mod_eq_of_lt hi]
  have hnumber : (BitVec.ofNat 16 state.id).toNat = state.id := by
    rw [BitVec.toNat_ofNat, Nat.mod_eq_of_lt hs]
  have hown : blocks[(BitVec.ofNat 16 i).toNat]? = some block := by rw [hindex, hblock]
  have hcounts : ∀ p ∈ block.properties, t.count (BitVec.ofNat 8 p.id) = p.values.length := by
    intro p hp
    obtain ⟨name, hget⟩ := props_of_mem hprops hblocks hw (List.mem_of_getElem? hblock) hp
    have hfew : p.values.length ≤ 15 := hc.few _ (List.mem_of_getElem? hget)
    rw [count_eq hprops hw hget, Nat.mod_eq_of_lt (by omega)]
  have hfirst : (t.firstState (BitVec.ofNat 16 i)).toNat = stateCount (blocks.take i) := by
    have hlt : 0 < block.states.length := by
      have hj := (List.getElem?_eq_some_iff.mp hstate).1
      omega
    have hhead := firstState_eq hw hown
    rw [List.head?_eq_getElem?, List.getElem?_eq_getElem hlt, Option.map_some] at hhead
    rw [← Option.some.inj hhead, hc.stateIds i block hblock 0 _ (List.getElem?_eq_getElem hlt),
      Nat.add_zero]
  apply (decodesStates hprops hblocks hw hown hcounts).visits j (lt_prod_of_state hc hblock hstate)
  · rw [hnumber, hfirst, hid]
  · rw [hnumber, htable]

/-- INTERNAL: a property passes when the variant agrees with its value in the state. -/
theorem matchProperty_iff_agrees (hprops : BlockStates.parseProps data = some props)
    (hblocks : BlockStates.parseBlocks items props = some blocks) (htakes : Takes block variant)
    {j : ℕ} {state : BlockStates.State} (hstate : block.states[j]? = some state)
    {m : ℕ} {p : Property} {v : ℕ} (hp : block.properties[m]? = some p)
    (hv : (stateValues (valueCounts block) j)[m]? = some v) :
    matchProperty t variant (BitVec.ofNat 8 p.id) v = .ok none ↔ Agrees variant p v := by
  have hbelow := (stateValues_spec (lt_prod_of_state hc hblock hstate)).1
  have hmem := List.mem_of_getElem? hp
  obtain ⟨name, hget⟩ := props_of_mem hprops hblocks hw (List.mem_of_getElem? hblock) hmem
  have hprop := List.mem_of_getElem? hget
  obtain ⟨c, hcount, hvc⟩ := exists_of_forall₂ hbelow hv
  rw [valueCounts, List.getElem?_map, hp, Option.map_some] at hcount
  obtain rfl := Option.some.inj hcount
  apply matchProperty_eq_none hprops hw hget (hc.few _ hprop) (hc.ints _ hprop) _ hvc
  intro pair hpair hkey
  exact htakes pair hpair p hmem hkey

/-- INTERNAL: **a state matches when every property agrees with its value in it**. -/
theorem matches_iff (hprops : BlockStates.parseProps data = some props)
    (hblocks : BlockStates.parseBlocks items props = some blocks) (htakes : Takes block variant)
    {j : ℕ} {state : BlockStates.State} (hstate : block.states[j]? = some state) :
    matchBlockState t (BitVec.ofNat 16 state.id) variant = .ok true ↔
      ∀ (m : ℕ) p v, block.properties[m]? = some p →
        (stateValues (valueCounts block) j)[m]? = some v → Agrees variant p v := by
  rw [matchBlockState_eq_true (forState_eq hw hc hblock hprops hblocks hstate _)]
  have hvalue (m : ℕ) (p : Property) (v : ℕ) (hp : block.properties[m]? = some p)
      (hv : (stateValues (valueCounts block) j)[m]? = some v) :
      matchProperty t variant (BitVec.ofNat 8 p.id) v = .ok none ↔ Agrees variant p v :=
    matchProperty_iff_agrees hw hc hblock hprops hblocks htakes hstate hp hv
  constructor
  · intro hall m p v hp hv
    rw [← hvalue m p v hp hv]
    apply hall (BitVec.ofNat 8 p.id, v)
    rw [List.mem_reverse]
    apply List.mem_of_getElem? (i := m)
    rw [List.getElem?_zip_eq_some]
    exact ⟨by simp [propertyIds, hp], hv⟩
  · intro hall pair hpair
    rw [List.mem_reverse] at hpair
    obtain ⟨m, hm⟩ := List.getElem?_of_mem hpair
    obtain ⟨hprop, hv⟩ := List.getElem?_zip_eq_some.mp hm
    rw [propertyIds, List.getElem?_map, Option.map_eq_some_iff] at hprop
    obtain ⟨p, hp, hid⟩ := hprop
    rw [← hid, hvalue m p pair.2 hp hv]
    exact hall m p pair.2 hp hv

end OfBlock

/-! ## All states of a block -/

/-- INTERNAL: a pair for a property gives a first pair for it. -/
theorem exists_first_pair {p : Property} {pair : List Char × List Char} (hpair : pair ∈ variant)
    (hkey : p.key = pair.1) :
    ∃ pair', variant.find? (fun pair => pair.1 = p.key) = some pair' ∧ pair' ∈ variant ∧
      p.key = pair'.1 := by
  have hsome : (variant.find? fun pair => pair.1 = p.key).isSome := by
    rw [List.find?_isSome]
    exact ⟨pair, hpair, by simp [hkey]⟩
  obtain ⟨pair', hfind⟩ := Option.isSome_iff_exists.mp hsome
  have hfirst : pair'.1 = p.key := by simpa using List.find?_some hfind
  exact ⟨pair', hfind, List.mem_of_find?_eq_some hfind, hfirst.symm⟩

/-- INTERNAL: some value of a property agrees with the variant. -/
theorem exists_agrees {p : Property} (hp : Accepted p)
    (htakes : ∀ pair ∈ variant, p.key = pair.1 → pair.2 ∈ p.values.map textOf) :
    ∃ v, v < p.values.length ∧ Agrees variant p v := by
  cases hfind : variant.find? fun pair => pair.1 = p.key with
  | none => exact ⟨0, hp.nonempty, by simp [Agrees, hfind]⟩
  | some pair =>
    have hkey : pair.1 = p.key := by simpa using List.find?_some hfind
    have htext := htakes pair (List.mem_of_find?_eq_some hfind) hkey.symm
    obtain ⟨v, hv⟩ := List.getElem?_of_mem htext
    have hlt : v < p.values.length := by simpa using (List.getElem?_eq_some_iff.mp hv).1
    by_cases hkind : p.kind = .bool
    · have hvalues := hp.booleans hkind
      rw [hvalues] at hlt hv
      have htwo : v < 2 := hlt
      refine ⟨1 - v, by rw [hvalues]; exact Nat.lt_succ_of_le (Nat.sub_le 1 v), ?_⟩
      intro pair' hpair'
      obtain rfl : pair = pair' := Option.some.inj (hfind.symm.trans hpair')
      rw [hvalues, ← hv]
      simp only [hkind, true_iff]
      interval_cases v <;> decide
    · refine ⟨v, hlt, ?_⟩
      intro pair' hpair'
      obtain rfl : pair = pair' := Option.some.inj (hfind.symm.trans hpair')
      simp [hkind, hv]

/-- INTERNAL: one choice for each entry of a list. -/
theorem exists_forall₂ {α β : Type} {P : α → β → Prop} {l : List α} (h : ∀ a ∈ l, ∃ b, P a b) :
    ∃ m, List.Forall₂ P l m := by
  induction l with
  | nil => exact ⟨[], List.Forall₂.nil⟩
  | cons a l ih =>
    simp only [List.mem_cons, forall_eq_or_imp] at h
    obtain ⟨b, hb⟩ := h.1
    obtain ⟨m, hm⟩ := ih h.2
    exact ⟨b :: m, List.Forall₂.cons hb hm⟩

/-- INTERNAL: some state of a block agrees with the variant. -/
theorem exists_state_agrees {block : BlockStates.Block}
    (haccepted : ∀ p ∈ block.properties, Accepted p)
    (hproduct : block.states.map BlockStates.State.properties =
      tuples (block.properties.map fun p => p.values.map textOf))
    (htakes : Takes block variant) :
    ∃ j state, block.states[j]? = some state ∧ ∀ (m : ℕ) p v, block.properties[m]? = some p →
      (stateValues (valueCounts block) j)[m]? = some v → Agrees variant p v := by
  obtain ⟨values, hvalues⟩ := exists_forall₂ fun p hp =>
    exists_agrees (haccepted p hp) fun pair hpair hkey => htakes pair hpair p hp hkey
  have hbelow : List.Forall₂ (fun v c => v < c) values (valueCounts block) := by
    rw [valueCounts, List.forall₂_map_right_iff]
    apply List.Forall₂.flip
    exact hvalues.imp fun p v h => h.1
  obtain ⟨j, ⟨hj, hstate⟩, -⟩ := existsUnique_stateValues hbelow
  have hlength := congrArg List.length hproduct
  rw [List.length_map, length_tuples] at hlength
  have hlt : j < block.states.length := by
    rw [hlength]
    simpa [valueCounts, Function.comp_def] using hj
  refine ⟨j, _, List.getElem?_eq_getElem hlt, ?_⟩
  intro m p v hp hv
  rw [hstate] at hv
  obtain ⟨v', hv', -, hagrees⟩ := exists_of_forall₂ hvalues hp
  obtain rfl : v' = v := Option.some.inj (hv'.symm.trans hv)
  exact hagrees

/-- INTERNAL: the states of the example are numbered. -/
theorem id_levelBlock {n j : ℕ} {state : BlockStates.State}
    (h : (levelBlock n).states[j]? = some state) : state.id = j := by
  have hstates : (levelBlock n).states = (List.range n).map fun i => ⟨[Nat.toDigits 10 i], i⟩ := rfl
  rw [hstates, List.getElem?_map, Option.map_eq_some_iff] at h
  obtain ⟨i, hi, hstate⟩ := h
  rw [← hstate]
  obtain ⟨_, hget⟩ := List.getElem?_eq_some_iff.mp hi
  rw [List.getElem_range] at hget
  exact hget.symm

/-- INTERNAL: the block of the example is cartesian. -/
theorem cartesian_level : Cartesian [("level".toList, level 4)] [levelBlock 4] where
  few := by decide
  ints := by
    intro p hp _ value hvalue
    rw [List.mem_singleton.mp hp] at hvalue
    obtain ⟨n, -, rfl⟩ := List.mem_map.mp hvalue
    exact ⟨n, rfl⟩
  product := by decide
  blockIds := by
    intro i block hblock
    cases i with
    | zero =>
      rw [← Option.some.inj hblock]
      rfl
    | succ i => simp at hblock
  fits := by decide
  stateIds := by
    intro i block hblock j state hstate
    cases i with
    | zero =>
      rw [← Option.some.inj hblock] at hstate
      rw [id_levelBlock hstate, stateCount, List.take_zero, List.map_nil, List.sum_nil, Nat.zero_add]
    | succ i => simp at hblock

/-- The state of the example with `level=2`. -/
def secondLevel : BlockStates.State := ⟨[['2']], 2⟩

/-- A block with a boolean property. -/
def litBlock : BlockStates.Block :=
  ⟨"furnace".toList, 0, "furnace".toList, 1, [⟨0, "lit".toList, .bool, [.bool true, .bool false]⟩],
    [⟨["true".toList], 0⟩, ⟨["false".toList], 1⟩]⟩

/-- What the generator writes for it. -/
def litTables : BlockTables where
  propertyFlags := [0x0022]
  propertyName := ["lit".toList]
  propertyKey := ["lit".toList]
  propertyValues := []
  blockName := ["furnace".toList]
  blockTranslationKey := ["furnace".toList]
  firstStateId := [0]
  defaultStateId := [1]
  blockProperties := [0x0800]
  propertyMap := [0]
  stateBlock := [0, 0]

end Mccpp.Analysis
