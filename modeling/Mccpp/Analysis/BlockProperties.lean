import Mathlib.Data.List.TakeDrop
import Mccpp.Interface.BlockTable

/-!
# The properties of the block tables

What `block.hh` reads of a property in the tables that the generator emits. The values of the enums
stand one after another, each from the offset in its flags on (`writeValues_take`), the word of
flags holds the offset, the kind and the number of values in fields of their own
(`toNat_flags_and`), and every block finds its own properties in the map
(`writePropertyMap_take`).
-/

set_option autoImplicit false

namespace Mccpp.Analysis

open Mccpp.Library Mccpp.Model Mccpp.Interface

variable {data : List PropertyItem} {items : List BlockStates.BlockItem}
  {props : List (List Char × Property)} {blocks : List BlockStates.Block} {t : BlockTables}

/-! ## What is emitted and compiled -/

/-- INTERNAL: constants that fit are the numbers that were written. -/
theorem constants_eq_some {w : ℕ} {values : List ℕ} {r : List (BitVec w)}
    (h : BlockStates.constants w values = some r) :
    r = values.map (BitVec.ofNat w) ∧ ∀ value ∈ values, value < 2 ^ w := by
  induction values generalizing r with
  | nil =>
    have hr : r = [] := by simpa [BlockStates.constants] using h.symm
    simp [hr]
  | cons value values ih =>
    rw [BlockStates.constants, List.mapM_cons] at h
    by_cases hfit : value < 2 ^ w
    · rw [if_pos hfit] at h
      simp only [Option.pure_def, Option.bind_eq_bind, Option.bind_some,
        Option.bind_eq_some_iff, Option.some.injEq] at h
      obtain ⟨rest, hrest, rfl⟩ := h
      obtain ⟨rfl, hfits⟩ := ih hrest
      exact ⟨by simp, by simpa using ⟨hfit, hfits⟩⟩
    · simp [hfit] at h

/-- The compiled tables hold what the generator has written. -/
structure Written (props : List (List Char × Property)) (blocks : List BlockStates.Block)
    (t : BlockTables) (flags firsts places : List ℕ) : Prop where
  writeFlags : BlockStates.writeFlags 0 (props.map fun p => p.2) = some flags
  writeFirstStates : BlockStates.writeFirstStates blocks = some firsts
  writeProperties : BlockStates.writeProperties 0 blocks = some places
  flagsFit : ∀ value ∈ flags, value < 2 ^ 16
  firstsFit : ∀ value ∈ firsts, value < 2 ^ 16
  placesFit : ∀ value ∈ places, value < 2 ^ 16
  mapFits : ∀ value ∈ BlockStates.writePropertyMap blocks, value < 2 ^ 8
  stateBlocksFit : ∀ value ∈ BlockStates.writeStateBlocks blocks, value < 2 ^ 16
  propertyFlags : t.propertyFlags = flags.map (BitVec.ofNat 16)
  propertyKey : t.propertyKey = props.map fun p => p.2.key
  propertyValues : t.propertyValues = BlockStates.writeValues (props.map fun p => p.2)
  firstStateId : t.firstStateId = firsts.map (BitVec.ofNat 16)
  blockProperties : t.blockProperties = places.map (BitVec.ofNat 16)
  propertyMap : t.propertyMap = (BlockStates.writePropertyMap blocks).map (BitVec.ofNat 8)
  stateBlock : t.stateBlock = (BlockStates.writeStateBlocks blocks).map (BitVec.ofNat 16)

/-- INTERNAL: what `write_cpp` and the compiler do.
SOURCE: generator/block_states.py:80-171. -/
theorem written (h : (BlockStates.writeCpp props blocks).bind BlockStates.Emitted.compile = some t) :
    ∃ flags firsts places, Written props blocks t flags firsts places := by
  rw [Option.bind_eq_some_iff] at h
  obtain ⟨e, he, hcompile⟩ := h
  simp only [BlockStates.writeCpp, Option.bind_eq_bind, Option.bind_eq_some_iff,
    Option.some.injEq] at he
  obtain ⟨flags, hflags, firsts, hfirsts, places, hplaces, rfl⟩ := he
  simp only [BlockStates.Emitted.compile, Option.bind_eq_bind, Option.bind_eq_some_iff,
    Option.some.injEq] at hcompile
  obtain ⟨_, h₁, _, h₂, _, -, _, h₃, _, h₄, _, h₅, rfl⟩ := hcompile
  obtain ⟨rfl, hflagsFit⟩ := constants_eq_some h₁
  obtain ⟨rfl, hfirstsFit⟩ := constants_eq_some h₂
  obtain ⟨rfl, hplacesFit⟩ := constants_eq_some h₃
  obtain ⟨rfl, hmapFits⟩ := constants_eq_some h₄
  obtain ⟨rfl, hstatesFit⟩ := constants_eq_some h₅
  exact ⟨flags, firsts, places, {
    writeFlags := hflags
    writeFirstStates := hfirsts
    writeProperties := hplaces
    flagsFit := hflagsFit
    firstsFit := hfirstsFit
    placesFit := hplacesFit
    mapFits := hmapFits
    stateBlocksFit := hstatesFit
    propertyFlags := rfl
    propertyKey := by simp
    propertyValues := rfl
    firstStateId := rfl
    blockProperties := rfl
    propertyMap := rfl
    stateBlock := rfl }⟩

/-! ## What the generator accepts -/

/-- What `parse_props` has checked of a property. -/
structure Accepted (p : Property) : Prop where
  few : p.values.length < 32
  nonempty : 0 < p.values.length
  strings : p.kind = .str → ∀ value ∈ p.values, value.isStr = true
  booleans : p.kind = .bool → p.values = [.bool true, .bool false]
  integers : p.kind = .int → ∃ first : ℤ, (first = 0 ∨ first = 1) ∧
    p.values.head? = some (.int first) ∧
      ∀ (i : ℕ) value, p.values[i]? = some value → value.equalsInt (first + i) = true

/-- INTERNAL: one property.
SOURCE: generator/block_states.py:33-60. -/
theorem accepted_parseProp {id : ℕ} {item : PropertyItem} {p : Property}
    (h : BlockStates.parseProp id item = some p) : p.id = id ∧ p.key = item.key ∧ Accepted p := by
  rw [BlockStates.parseProp] at h
  by_cases hfew : item.values.length < 32
  · rw [if_pos hfew] at h
    split at h
    case h_1 first rest hvalues =>
      split_ifs at h with hall
      obtain rfl := Option.some.inj h
      refine ⟨rfl, rfl, hfew, by simp [hvalues], ?_, by simp, by simp⟩
      intro _ value hvalue
      exact List.all_eq_true.mp hall value hvalue
    case h_2 first rest hvalues =>
      split_ifs at h with hpair
      obtain rfl := Option.some.inj h
      exact ⟨rfl, rfl, by simp, by simp, by simp, by simp, by simp⟩
    case h_3 first rest hvalues =>
      split_ifs at h with hrange
      obtain rfl := Option.some.inj h
      refine ⟨rfl, rfl, hfew, by simp [hvalues], by simp, by simp, ?_⟩
      intro _
      refine ⟨first, hrange.1, by simp [hvalues], ?_⟩
      intro i value hvalue
      obtain ⟨hi, rfl⟩ := List.getElem?_eq_some_iff.mp hvalue
      exact hrange.2 ⟨i, hi⟩
    case h_4 => cases h
  · rw [if_neg hfew] at h
    cases h

/-- INTERNAL: the ids count the properties.
SOURCE: generator/block_states.py:30-62. -/
theorem accepted_parsePropsFrom {id : ℕ} {ps : List (List Char × Property)}
    (h : BlockStates.parsePropsFrom id data = some ps) {i : ℕ} {p : List Char × Property}
    (hp : ps[i]? = some p) : p.2.id = id + i ∧ Accepted p.2 := by
  induction data generalizing id ps i with
  | nil =>
    obtain rfl := Option.some.inj h
    simp at hp
  | cons item data ih =>
    simp only [BlockStates.parsePropsFrom, Option.bind_eq_bind, Option.bind_eq_some_iff,
      Option.some.injEq] at h
    obtain ⟨first, hfirst, rest, hrest, rfl⟩ := h
    cases i with
    | zero =>
      obtain rfl : (item.name, first) = p := by simpa using hp
      obtain ⟨hid, -, haccepted⟩ := accepted_parseProp hfirst
      exact ⟨hid, haccepted⟩
    | succ i =>
      obtain ⟨hid, haccepted⟩ := ih hrest (by simpa using hp)
      exact ⟨by omega, haccepted⟩

/-- INTERNAL: every property of the result is accepted, and its id is its place. -/
theorem accepted_parseProps (h : BlockStates.parseProps data = some props) {i : ℕ}
    {p : List Char × Property} (hp : props[i]? = some p) : p.2.id = i ∧ Accepted p.2 := by
  simp only [BlockStates.parseProps, Option.bind_eq_bind, Option.bind_eq_some_iff] at h
  obtain ⟨ps, hps, h⟩ := h
  split_ifs at h
  obtain rfl := Option.some.inj h
  simpa using accepted_parsePropsFrom hps hp

/-- INTERNAL: every result of a list of fallible steps is the result of one of them. -/
theorem exists_of_mapM {α β : Type} {f : α → Option β} {l : List α} {r : List β}
    (h : l.mapM f = some r) {i : ℕ} {b : β} (hb : r[i]? = some b) :
    ∃ a, l[i]? = some a ∧ f a = some b := by
  induction l generalizing r i with
  | nil =>
    obtain rfl := Option.some.inj h
    simp at hb
  | cons a l ih =>
    simp only [List.mapM_cons, Option.pure_def, Option.bind_eq_bind, Option.bind_eq_some_iff,
      Option.some.injEq] at h
    obtain ⟨first, hfirst, rest, hrest, rfl⟩ := h
    cases i with
    | zero =>
      obtain rfl : first = b := by simpa using hb
      exact ⟨a, by simp, hfirst⟩
    | succ i =>
      simpa using ih hrest (by simpa using hb)

/-- INTERNAL: there are as many results as steps. -/
theorem length_of_mapM {α β : Type} {f : α → Option β} {l : List α} {r : List β}
    (h : l.mapM f = some r) : r.length = l.length := by
  induction l generalizing r with
  | nil =>
    obtain rfl := Option.some.inj h
    rfl
  | cons a l ih =>
    simp only [List.mapM_cons, Option.pure_def, Option.bind_eq_bind, Option.bind_eq_some_iff,
      Option.some.injEq] at h
    obtain ⟨first, -, rest, hrest, rfl⟩ := h
    simp [ih hrest]

/-- INTERNAL: a block has only properties of the list.
SOURCE: generator/block_states.py:64-73. -/
theorem exists_props_of_mem (h : BlockStates.parseBlocks items props = some blocks)
    {block : BlockStates.Block} (hblock : block ∈ blocks) {p : Property}
    (hp : p ∈ block.properties) : ∃ (i : ℕ) (name : List Char), props[i]? = some (name, p) := by
  obtain ⟨i, hi⟩ := List.getElem?_of_mem hblock
  obtain ⟨item, -, hitem⟩ := exists_of_mapM h hi
  simp only [Option.bind_eq_bind, Option.bind_eq_some_iff, Option.some.injEq] at hitem
  obtain ⟨properties, hproperties, rfl⟩ := hitem
  obtain ⟨j, hj⟩ := List.getElem?_of_mem hp
  obtain ⟨name, -, hlookup⟩ := exists_of_mapM hproperties hj
  rw [BlockStates.lookup, Option.map_eq_some_iff] at hlookup
  obtain ⟨⟨name', _⟩, hfind, rfl⟩ := hlookup
  obtain ⟨k, hk⟩ := List.getElem?_of_mem (List.mem_of_find?_eq_some hfind)
  exact ⟨k, name', hk⟩

/-! ## The word of flags -/

/-- The number of values of the enums among the properties. -/
def enumValues (ps : List Property) : ℕ :=
  (ps.map fun p => if p.kind = .str then p.values.length else 0).sum

/-- INTERNAL: the offset of an enum counts the values of the enums before it.
SOURCE: generator/block_states.py:87-105. -/
theorem flags_writeFlags {offset : ℕ} {ps : List Property} {flags : List ℕ}
    (h : BlockStates.writeFlags offset ps = some flags) {i : ℕ} {p : Property}
    (hp : ps[i]? = some p) :
    offset + enumValues (ps.take i) < 256 ∧
      flags[i]? = some (BlockStates.flagsOf (offset + enumValues (ps.take i)) p) := by
  induction ps generalizing offset flags i with
  | nil => simp at hp
  | cons first ps ih =>
    rw [BlockStates.writeFlags] at h
    split_ifs at h with hfits hkind
    all_goals
      simp only [Option.bind_eq_bind, Option.bind_eq_some_iff, Option.some.injEq] at h
      obtain ⟨rest, hrest, rfl⟩ := h
      cases i with
      | zero =>
        obtain rfl : first = p := by simpa using hp
        simpa [enumValues] using hfits.1
      | succ i =>
        have hi := ih hrest (by simpa using hp)
        simpa [enumValues, hkind, Nat.add_assoc] using hi

/-- The number that the generator writes for the kind of a property. -/
def kindCode (p : Property) : ℕ :=
  match p.kind with
  | .str => 0
  | .bool => 1
  | .int => if p.values.head?.any (fun v => v.equalsInt 0) then 2 else 3

/-- INTERNAL: the offset of an enum, the kind and the number of values are fields of the word. -/
theorem flagsOf_eq {offset : ℕ} {p : Property} (hp : Accepted p) :
    ∃ high, (p.kind = .str → high = offset) ∧
      BlockStates.flagsOf offset p = 256 * high + (32 * kindCode p + p.values.length) := by
  have hfew : p.values.length < 2 ^ 5 := hp.few
  have hor (code : ℕ) : (32 * code) ||| p.values.length = 32 * code + p.values.length := by
    have h := Nat.shiftLeft_add_eq_or_of_lt hfew code
    rw [Nat.shiftLeft_eq, Nat.mul_comm code] at h
    exact h.symm
  cases hkind : p.kind with
  | str =>
    have hlow : p.values.length < 2 ^ 8 := by omega
    have h := Nat.shiftLeft_add_eq_or_of_lt hlow offset
    rw [Nat.shiftLeft_eq] at h
    refine ⟨offset, fun _ => rfl, ?_⟩
    simp only [BlockStates.flagsOf, kindCode, hkind, Nat.zero_or, Nat.shiftLeft_eq, ← h]
    omega
  | bool =>
    refine ⟨0, by simp, ?_⟩
    simp only [BlockStates.flagsOf, kindCode, hkind, ← hor]
    simp
  | int =>
    refine ⟨0, by simp, ?_⟩
    simp only [BlockStates.flagsOf, kindCode, hkind, ← hor]
    split_ifs <;> simp

/-- INTERNAL: a mask within the low seven bits reads only these. -/
theorem and_low (high low mask : ℕ) (hmask : mask < 2 ^ 7) :
    (256 * high + low) &&& mask = low &&& mask := by
  have hmod (n : ℕ) : n &&& mask = (n % 2 ^ 7) &&& (mask % 2 ^ 7) := by
    rw [← Nat.and_mod_two_pow, Nat.mod_eq_of_lt (Nat.and_lt_two_pow n hmask)]
  have hlow : (256 * high + low) % 2 ^ 7 = low % 2 ^ 7 := by omega
  rw [hmod, hmod low, hlow]

/-- INTERNAL: the fields of the low seven bits, with the masks of `block.hh`. -/
theorem and_masks : ∀ code < 4, ∀ count < 32,
    ((32 * code + count) &&& 0x60 = 32 * code) ∧
      ((32 * code + count) &&& 0x0f = count % 16) ∧
      ((32 * code + count) &&& 0x40 = if 2 ≤ code then 64 else 0) := by
  decide

/-- INTERNAL: the code of a kind has two bits. -/
theorem kindCode_lt (p : Property) : kindCode p < 4 := by
  unfold kindCode
  split
  · decide
  · decide
  · split_ifs <;> decide

/-- INTERNAL: the code tells the kinds apart. -/
theorem kindCode_spec {p : Property} (hp : Accepted p) :
    (kindCode p = 0 ↔ p.kind = .str) ∧ (kindCode p = 1 ↔ p.kind = .bool) ∧
      (kindCode p = 2 ↔ p.kind = .int ∧ p.values.head? = some (.int 0)) ∧
      (kindCode p = 3 ↔ p.kind = .int ∧ p.values.head? = some (.int 1)) := by
  cases hkind : p.kind with
  | str => simp [kindCode, hkind]
  | bool => simp [kindCode, hkind]
  | int =>
    obtain ⟨first, hfirst, hhead, -⟩ := hp.integers hkind
    rcases hfirst with rfl | rfl
    · simp [kindCode, hkind, hhead, JsonValue.equalsInt]
    · simp [kindCode, hkind, hhead, JsonValue.equalsInt]

/-- INTERNAL: the values of an enum start at its offset.
SOURCE: generator/block_states.py:116-121. -/
theorem writeValues_take {ps : List Property} {i : ℕ} {p : Property} (hp : ps[i]? = some p)
    (hkind : p.kind = .str) :
    ((BlockStates.writeValues ps).drop (enumValues (ps.take i))).take p.values.length =
      p.values.map BlockStates.valueText := by
  have hlength (q : Property) :
      (if q.kind = .str then q.values.map BlockStates.valueText else []).length =
        if q.kind = .str then q.values.length else 0 := by
    split_ifs <;> simp
  have htake := take_drop_flatMap
    (f := fun q => if q.kind = .str then q.values.map BlockStates.valueText else []) hp
  simpa only [hlength, hkind, if_true, List.length_map, BlockStates.writeValues, enumValues]
    using htake

/-! ## Reading a property back -/

section ReadingBack

variable {flags firsts places : List ℕ} {id : BitVec 8} {name : List Char} {p : Property}
variable (hprops : BlockStates.parseProps data = some props)
  (hw : Written props blocks t flags firsts places) (hp : props[id.toNat]? = some (name, p))

include hprops hw hp

/-- INTERNAL: what a property has in the table. -/
theorem exists_flags :
    ∃ high, (p.kind = .str → high = enumValues ((props.map fun p => p.2).take id.toNat)) ∧
      high < 256 ∧
      (t.flags id).toNat = 256 * high + (32 * kindCode p + p.values.length) := by
  have haccepted : Accepted p := (accepted_parseProps hprops hp).2
  have hget : (props.map fun p => p.2)[id.toNat]? = some p := by simp [hp]
  obtain ⟨hoffset, hflags⟩ := flags_writeFlags hw.writeFlags hget
  rw [Nat.zero_add] at hoffset hflags
  obtain ⟨high, hhigh, heq⟩ := flagsOf_eq haccepted
  have hfits := hw.flagsFit _ (List.mem_of_getElem? hflags)
  refine ⟨high, hhigh, by omega, ?_⟩
  rw [BlockTables.flags, hw.propertyFlags, List.getElem?_map, hflags]
  simp only [Option.map_some, Option.getD_some, BitVec.toNat_ofNat]
  rw [Nat.mod_eq_of_lt hfits, heq]

/-- INTERNAL: the number of values is read modulo `16`.
SOURCE: src/data/block.hh:10-11,33. -/
theorem count_eq : t.count id = p.values.length % 16 := by
  obtain ⟨high, -, -, hflags⟩ := exists_flags hprops hw hp
  have hfew : p.values.length < 32 := (accepted_parseProps hprops hp).2.few
  have hmask : BlockTables.countMask.toNat = 0x0f := by decide
  rw [BlockTables.count, BitVec.toNat_and, hflags, hmask, and_low _ _ _ (by decide)]
  exact (and_masks _ (kindCode_lt p) _ hfew).2.1

/-- INTERNAL: comparing the kind with a constant.
SOURCE: src/data/block.hh:12-17,27-31. -/
theorem typeMask_eq_iff (constant : BitVec 16) (code : ℕ) (h : constant.toNat = 32 * code) :
    t.flags id &&& BlockTables.typeMask = constant ↔ kindCode p = code := by
  obtain ⟨high, -, -, hflags⟩ := exists_flags hprops hw hp
  have hfew : p.values.length < 32 := (accepted_parseProps hprops hp).2.few
  have hmask : BlockTables.typeMask.toNat = 0x60 := by decide
  rw [← BitVec.toNat_inj, BitVec.toNat_and, hflags, hmask, and_low _ _ _ (by decide),
    (and_masks _ (kindCode_lt p) _ hfew).1, h]
  omega

/-- INTERNAL: the integers are told apart from the rest.
SOURCE: src/data/block.hh:16,31. -/
theorem isInt_iff : t.isInt id = true ↔ p.kind = .int := by
  obtain ⟨high, -, -, hflags⟩ := exists_flags hprops hw hp
  have hfew : p.values.length < 32 := (accepted_parseProps hprops hp).2.few
  have hmask : BlockTables.typeIsIntMask.toNat = 0x40 := by decide
  have hcode : 2 ≤ kindCode p ↔ p.kind = .int := by
    unfold kindCode
    cases p.kind with
    | str => simp
    | bool => simp
    | int =>
      split_ifs <;> simp
  rw [BlockTables.isInt, decide_eq_true_iff, ne_eq, ← BitVec.toNat_inj, BitVec.toNat_and, hflags,
    hmask, and_low _ _ _ (by decide), (and_masks _ (kindCode_lt p) _ hfew).2.2, ← hcode]
  split_ifs with hint
  · simp [hint]
  · simp [hint]

/-- INTERNAL: the offset of an enum is read.
SOURCE: src/data/block.hh:18-19,56. -/
theorem valuesOffset_eq (hkind : p.kind = .str) :
    t.valuesOffset id = enumValues ((props.map fun p => p.2).take id.toNat) := by
  obtain ⟨high, hhigh, hlt, hflags⟩ := exists_flags hprops hw hp
  have hfew : p.values.length < 32 := (accepted_parseProps hprops hp).2.few
  have hcode := kindCode_lt p
  have hmask : BlockTables.offsetMask.toNat >>> 8 = 2 ^ 8 - 1 := by decide
  rw [BlockTables.valuesOffset, BlockTables.offsetShift, BitVec.toNat_ushiftRight,
    BitVec.toNat_and, Nat.shiftRight_and_distrib, hmask, Nat.and_two_pow_sub_one_eq_mod, hflags,
    Nat.shiftRight_eq_div_pow, ← hhigh hkind]
  omega

/-- INTERNAL: **what is read of a property with at most `15` values**.
SOURCE: src/data/block.hh:27-56. -/
theorem propertyReadsBack (hcount : p.values.length ≤ 15) : PropertyReadsBack t id p := by
  have haccepted : Accepted p := (accepted_parseProps hprops hp).2
  obtain ⟨hstr, hbool, hint0, hint1⟩ := kindCode_spec haccepted
  have hread : t.count id = p.values.length := by
    rw [count_eq hprops hw hp, Nat.mod_eq_of_lt (by omega)]
  have henum : t.isEnum id = true ↔ p.kind = .str := by
    rw [← hstr, ← typeMask_eq_iff hprops hw hp BlockTables.typeEnum 0 (by decide)]
    simp [BlockTables.isEnum]
  refine ⟨hread, henum, ?_, ?_, ?_, ?_⟩
  · rw [← hbool, ← typeMask_eq_iff hprops hw hp BlockTables.typeBool 1 (by decide)]
    simp [BlockTables.isBool]
  · rw [← hint0, ← typeMask_eq_iff hprops hw hp BlockTables.typeInt0 2 (by decide)]
    simp [BlockTables.isInt0]
  · rw [← hint1, ← typeMask_eq_iff hprops hw hp BlockTables.typeInt1 3 (by decide)]
    simp [BlockTables.isInt1]
  · intro hkind
    have hget : (props.map fun p => p.2)[id.toNat]? = some p := by simp [hp]
    have htake := writeValues_take hget hkind
    rw [BlockTables.values, BlockTables.valuesBegin, if_pos (henum.mpr hkind), hread,
      hw.propertyValues]
    simp only [bind, Except.bind, valuesOffset_eq hprops hw hp hkind, htake]

end ReadingBack

end Mccpp.Analysis
