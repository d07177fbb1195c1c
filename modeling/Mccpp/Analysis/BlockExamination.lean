import Mathlib.Data.List.Nodup
import Mathlib.Data.Nat.Find
import Mccpp.Interface.BlockVariants
import Mccpp.Analysis.BlockIteration

/-!
# Examining the states of a block

The loop of `match_block_states` goes over the states from the first one of the block on, as long
as they are its own (`matchBlockStatesFrom_add`), and has no other end: where the states of the block
are the last ones of the table, it reads behind it. So the states of a block are examined if and only
if they are side by side with a state of another block behind them, or an exception comes first.
-/

set_option autoImplicit false

namespace Mccpp.Analysis

open Mccpp.Library Mccpp.Model Mccpp.Interface

variable {t : BlockTables} {block : BitVec 16} {variant : List (List Char × List Char)}

/-! ## Numbers of states -/

theorem stateBehind_zero (state : BitVec 16) : stateBehind state 0 = state := by
  simp [stateBehind]

theorem stateBehind_succ (state : BitVec 16) (n : ℕ) :
    stateBehind state (n + 1) = stateBehind (state + 1) n := by
  unfold stateBehind
  rw [Nat.add_comm, BitVec.ofNat_add, BitVec.add_assoc]
  rfl

theorem toNat_stateBehind (state : BitVec 16) (n : ℕ) :
    (stateBehind state n).toNat = (state.toNat + n) % 2 ^ 16 := by
  simp [stateBehind]

/-- INTERNAL: after all the numbers, the first one comes again. -/
theorem stateBehind_sub {state : BitVec 16} {n : ℕ} (hn : 2 ^ 16 ≤ n) :
    stateBehind state (n - 2 ^ 16) = stateBehind state n := by
  apply BitVec.eq_of_toNat_eq
  rw [toNat_stateBehind, toNat_stateBehind]
  omega

theorem nodup_stateBehind (state : BitVec 16) {n : ℕ} (hn : n ≤ 2 ^ 16) :
    ((List.range n).map (stateBehind state)).Nodup := by
  apply List.Nodup.map_on _ List.nodup_range
  intro i hi j hj heq
  rw [List.mem_range] at hi hj
  have h := congrArg BitVec.toNat heq
  rw [toNat_stateBehind, toNat_stateBehind] at h
  omega

/-! ## The loop -/

/-- INTERNAL: one round of the loop.
SOURCE: main.cc:73-77 -/
theorem matchBlockStatesFrom_own {state : BitVec 16} {matched : Bool}
    (hown : t.stateBlock[state.toNat]? = some block)
    (hpass : matchBlockState t state variant = .ok matched) (fuel : ℕ) :
    (matchBlockStatesFrom t block variant (fuel + 1) state).examined =
        state :: (matchBlockStatesFrom t block variant fuel (state + 1)).examined ∧
      (matchBlockStatesFrom t block variant (fuel + 1) state).ending =
        (matchBlockStatesFrom t block variant fuel (state + 1)).ending := by
  rw [matchBlockStatesFrom, hown]
  simp [hpass]

/-- INTERNAL: **the loop goes over the states of the block** that are matched or not.
SOURCE: main.cc:73-77 -/
theorem matchBlockStatesFrom_add {fuel n : ℕ} {state : BitVec 16}
    (hown : ∀ j < n, t.stateBlock[(stateBehind state j).toNat]? = some block)
    (hpass : ∀ j < n, ∃ matched, matchBlockState t (stateBehind state j) variant = .ok matched) :
    (matchBlockStatesFrom t block variant (fuel + n) state).examined =
        (List.range n).map (stateBehind state) ++
          (matchBlockStatesFrom t block variant fuel (stateBehind state n)).examined ∧
      (matchBlockStatesFrom t block variant (fuel + n) state).ending =
        (matchBlockStatesFrom t block variant fuel (stateBehind state n)).ending := by
  induction n generalizing state with
  | zero => simp [stateBehind_zero]
  | succ n ih =>
    have hfirst := hown 0 n.succ_pos
    obtain ⟨matched, hmatched⟩ := hpass 0 n.succ_pos
    rw [stateBehind_zero] at hfirst hmatched
    have hrest : ∀ j < n, t.stateBlock[(stateBehind (state + 1) j).toNat]? = some block := by
      intro j hj
      rw [← stateBehind_succ]
      exact hown (j + 1) (Nat.succ_lt_succ hj)
    have hrestPass : ∀ j < n, ∃ matched,
        matchBlockState t (stateBehind (state + 1) j) variant = .ok matched := by
      intro j hj
      rw [← stateBehind_succ]
      exact hpass (j + 1) (Nat.succ_lt_succ hj)
    have hstates : (List.range (n + 1)).map (stateBehind state) =
        state :: (List.range n).map (stateBehind (state + 1)) := by
      rw [List.range_succ_eq_map, List.map_cons, stateBehind_zero, List.map_map]
      congr 1
      apply List.map_congr_left
      intro j _
      exact stateBehind_succ state j
    have hround := matchBlockStatesFrom_own hfirst hmatched (fuel + n)
    have hstep := ih hrest hrestPass
    rw [← Nat.add_assoc, stateBehind_succ, hstates, hround.1, hround.2, List.cons_append]
    exact ⟨congrArg (state :: ·) hstep.1, hstep.2⟩

/-- INTERNAL: behind the table the loop reads on.
SOURCE: main.cc:73 -/
theorem outOfRange_of_none {state : BitVec 16} (h : t.stateBlock[state.toNat]? = none) (fuel : ℕ) :
    (matchBlockStatesFrom t block variant (fuel + 1) state).ending = .outOfRange := by
  unfold matchBlockStatesFrom
  rw [h]

/-- INTERNAL: at a state of another block the loop ends.
SOURCE: main.cc:73 -/
theorem finished_of_other {state other : BitVec 16} (h : t.stateBlock[state.toNat]? = some other)
    (hother : other ≠ block) (fuel : ℕ) :
    matchBlockStatesFrom t block variant (fuel + 1) state = ⟨[], [], .finished⟩ := by
  unfold matchBlockStatesFrom
  rw [h]
  simp only [if_neg hother]

/-- INTERNAL: an exception ends it as well.
SOURCE: main.cc:74 -/
theorem failed_of_error {state : BitVec 16} {failure : DataFailure}
    (h : t.stateBlock[state.toNat]? = some block)
    (hfail : matchBlockState t state variant = .error failure) (fuel : ℕ) :
    matchBlockStatesFrom t block variant (fuel + 1) state = ⟨[state], [], .failed failure⟩ := by
  unfold matchBlockStatesFrom
  rw [h]
  simp only [if_true, hfail]

/-- INTERNAL: while it has only met states of the block, the loop is still running.
SOURCE: main.cc:73 -/
theorem running_of_own {fuel : ℕ} {state : BitVec 16}
    (hown : ∀ j < fuel, t.stateBlock[(stateBehind state j).toNat]? = some block)
    (hpass : ∀ j < fuel, ∃ matched, matchBlockState t (stateBehind state j) variant = .ok matched) :
    (matchBlockStatesFrom t block variant fuel state).ending = .running := by
  have h := (@matchBlockStatesFrom_add t block variant 0 fuel state hown hpass).2
  rwa [Nat.zero_add] at h

/-! ## The two ends -/

theorem exists_matched {state : BitVec 16}
    (h : ∀ failure, matchBlockState t state variant ≠ .error failure) :
    ∃ matched, matchBlockState t state variant = .ok matched := by
  cases hcase : matchBlockState t state variant with
  | ok matched => exact ⟨matched, rfl⟩
  | error failure => exact absurd hcase (h failure)

/-- INTERNAL: the states from the first one on that are the block's own do not fail. -/
theorem matched_of_own {n : ℕ} (hpass : ¬FailsBefore t block variant)
    (hown : ∀ j < n, t.stateBlock[(stateBehind (t.firstState block) j).toNat]? = some block) :
    ∀ j < n,
      ∃ matched, matchBlockState t (stateBehind (t.firstState block) j) variant = .ok matched := by
  intro j hj
  apply exists_matched
  intro failure hcase
  exact hpass ⟨j, fun i hi => hown i (by omega), failure, hcase⟩

/-- INTERNAL: a state of the block for which `match_block_state` fails, and none before it. -/
theorem examinesOwn_of_fails (h : FailsBefore t block variant) :
    ∃ fuel, ExaminesOwn t block (matchBlockStates t fuel block variant) := by
  classical
  obtain ⟨hown, failure, hfail⟩ := Nat.find_spec h
  have hfirst : ∀ j < Nat.find h,
      ∃ matched, matchBlockState t (stateBehind (t.firstState block) j) variant = .ok matched := by
    intro j hj
    apply exists_matched
    intro failure hcase
    exact Nat.find_min h hj ⟨fun i hi => hown i (by omega), failure, hcase⟩
  have hlt : Nat.find h < 2 ^ 16 := by
    by_contra hge
    obtain ⟨matched, hmatched⟩ := hfirst (Nat.find h - 2 ^ 16) (by omega)
    rw [stateBehind_sub (by omega), hfail] at hmatched
    cases hmatched
  have hloop := @matchBlockStatesFrom_add t block variant 1 (Nat.find h) (t.firstState block)
    (fun j hj => hown j (by omega)) hfirst
  rw [failed_of_error (hown _ (le_refl _)) hfail] at hloop
  obtain ⟨hexamined, hending⟩ := hloop
  have hstates : (List.range (Nat.find h)).map (stateBehind (t.firstState block)) ++
      [stateBehind (t.firstState block) (Nat.find h)] =
        (List.range (Nat.find h + 1)).map (stateBehind (t.firstState block)) := by
    simp [List.range_succ]
  rw [hstates] at hexamined
  refine ⟨1 + Nat.find h, ?_, ?_, ?_, ?_, ?_⟩ <;> unfold matchBlockStates
  · simp [hending]
  · simp [hending]
  · rw [hexamined]
    exact nodup_stateBehind _ (by omega)
  · intro state hstate
    rw [hexamined, List.mem_map] at hstate
    obtain ⟨j, hj, rfl⟩ := hstate
    exact hown j (by rw [List.mem_range] at hj; omega)
  · simp [hending]

/-- INTERNAL: the states of the block are side by side, and none of them fails. -/
theorem examinesOwn_of_sideBySide (hside : SideBySide t block)
    (hpass : ¬FailsBefore t block variant) :
    ∃ fuel, ExaminesOwn t block (matchBlockStates t fuel block variant) := by
  obtain ⟨n, hown, ⟨other, hother, hnext⟩, hall⟩ := hside
  have hmatched := matched_of_own hpass hown
  have hle : n ≤ 2 ^ 16 := by
    by_contra hgt
    have hagain := hown (n - 2 ^ 16) (by omega)
    rw [stateBehind_sub (by omega), hnext] at hagain
    exact hother (Option.some.inj hagain)
  have hloop := @matchBlockStatesFrom_add t block variant 1 n (t.firstState block) hown hmatched
  rw [finished_of_other hnext hother, List.append_nil] at hloop
  obtain ⟨hexamined, hending⟩ := hloop
  refine ⟨1 + n, ?_, ?_, ?_, ?_, ?_⟩ <;> unfold matchBlockStates
  · simp [hending]
  · simp [hending]
  · rw [hexamined]
    exact nodup_stateBehind _ hle
  · intro state hstate
    rw [hexamined, List.mem_map] at hstate
    obtain ⟨j, hj, rfl⟩ := hstate
    exact hown j (List.mem_range.mp hj)
  · intro _ state hstate
    obtain ⟨j, hj, rfl⟩ := hall state hstate
    rw [hexamined]
    exact List.mem_map_of_mem (List.mem_range.mpr hj)

/-- INTERNAL: otherwise the loop has come to a state of another block behind all its own. -/
theorem sideBySide_of_examinesOwn {fuel : ℕ} (hpass : ¬FailsBefore t block variant)
    (h : ExaminesOwn t block (matchBlockStates t fuel block variant)) : SideBySide t block := by
  classical
  unfold matchBlockStates at h
  have hend : ∃ n < fuel,
      t.stateBlock[(stateBehind (t.firstState block) n).toNat]? ≠ some block := by
    by_contra hnone
    push Not at hnone
    exact h.stops (running_of_own hnone (matched_of_own hpass hnone))
  have hown : ∀ j < Nat.find hend,
      t.stateBlock[(stateBehind (t.firstState block) j).toNat]? = some block := by
    intro j hj
    have hmin := Nat.find_min hend hj
    obtain ⟨hlt, -⟩ := Nat.find_spec hend
    by_contra hne
    exact hmin ⟨by omega, hne⟩
  obtain ⟨hlt, hnext⟩ := Nat.find_spec hend
  obtain ⟨k, hk⟩ : ∃ k, fuel = (k + 1) + Nat.find hend := ⟨fuel - Nat.find hend - 1, by omega⟩
  have hloop := @matchBlockStatesFrom_add t block variant (k + 1) (Nat.find hend)
    (t.firstState block) hown (matched_of_own hpass hown)
  rw [← hk] at hloop
  obtain ⟨hexamined, hending⟩ := hloop
  cases howner : t.stateBlock[(stateBehind (t.firstState block) (Nat.find hend)).toNat]? with
  | none =>
    rw [outOfRange_of_none howner] at hending
    exact absurd hending h.inside
  | some other =>
    have hother : other ≠ block := by
      rintro rfl
      exact hnext howner
    rw [finished_of_other howner hother] at hexamined hending
    refine ⟨Nat.find hend, hown, ⟨other, hother, howner⟩, ?_⟩
    intro state hstate
    have hmem := h.all hending state hstate
    rw [hexamined, List.append_nil, List.mem_map] at hmem
    obtain ⟨j, hj, rfl⟩ := hmem
    exact ⟨j, List.mem_range.mp hj, rfl⟩

/-! ## Places of the states -/

section Numbered

variable {props : List (List Char × Property)} {blocks : List BlockStates.Block}
  {flags firsts places : List ℕ}

/-- INTERNAL: every number below that of all states is that of a state of some block. -/
theorem exists_state_of_lt {s : ℕ} (hs : s < stateCount blocks) :
    ∃ (i : ℕ) (block : BlockStates.Block) (j : ℕ), blocks[i]? = some block ∧
      j < block.states.length ∧ s = stateCount (blocks.take i) + j := by
  induction blocks generalizing s with
  | nil => simp [stateCount] at hs
  | cons first blocks ih =>
    by_cases hlt : s < first.states.length
    · exact ⟨0, first, s, rfl, hlt, by simp [stateCount]⟩
    · have hrest : s - first.states.length < stateCount blocks := by
        simp [stateCount] at hs ⊢
        omega
      obtain ⟨i, block, j, hblock, hj, hplace⟩ := ih hrest
      refine ⟨i + 1, block, j, hblock, hj, ?_⟩
      simp [stateCount] at hplace ⊢
      omega

theorem stateCount_take_succ {i : ℕ} {block : BlockStates.Block} (hblock : blocks[i]? = some block) :
    stateCount (blocks.take (i + 1)) = stateCount (blocks.take i) + block.states.length := by
  simp [stateCount, List.take_add_one, hblock]

variable (hw : Written props blocks t flags firsts places)
include hw

/-- INTERNAL: the generator reads the first state of every block.
SOURCE: generator/block_states.py:134-137 -/
theorem exists_firstState {i : ℕ} {block : BlockStates.Block} (hblock : blocks[i]? = some block) :
    ∃ first rest, block.states = first :: rest := by
  have hlength := length_of_mapM hw.writeFirstStates
  have hlt : i < firsts.length := by
    rw [hlength]
    exact (List.getElem?_eq_some_iff.mp hblock).1
  obtain ⟨block', hblock', hfirst⟩ :=
    exists_of_mapM hw.writeFirstStates (List.getElem?_eq_getElem hlt)
  obtain rfl : block = block' := Option.some.inj (hblock.symm.trans hblock')
  cases hstates : block.states with
  | nil => simp [hstates] at hfirst
  | cons first rest => exact ⟨first, rest, rfl⟩

variable (hn : Numbered blocks)
include hn

/-- INTERNAL: the state of a block with this place in it. -/
theorem owner_of_place {i j : ℕ} {block : BlockStates.Block} (hblock : blocks[i]? = some block)
    (hj : j < block.states.length) :
    stateCount (blocks.take i) + j < 2 ^ 16 ∧
      t.stateBlock[stateCount (blocks.take i) + j]? = some (BitVec.ofNat 16 i) := by
  obtain ⟨-, hlt, hid, howner⟩ := stateBlock_eq hw hn hblock (List.getElem?_eq_getElem hj)
  rw [hid] at hlt howner
  exact ⟨hlt, howner⟩

/-- INTERNAL: where the states of a block start.
SOURCE: generator/block_states.py:134-137 -/
theorem firstState_of_numbered {i : ℕ} {block : BlockStates.Block}
    (hblock : blocks[i]? = some block) :
    i < 2 ^ 16 ∧ 0 < block.states.length ∧
      (t.firstState (BitVec.ofNat 16 i)).toNat = stateCount (blocks.take i) := by
  obtain ⟨first, rest, hstates⟩ := exists_firstState hw hblock
  have hfirst : block.states[0]? = some first := by simp [hstates]
  obtain ⟨hi, -, hid, -⟩ := stateBlock_eq hw hn hblock hfirst
  have hplace : (BitVec.ofNat 16 i).toNat = i := Nat.mod_eq_of_lt hi
  have hhead := @firstState_eq _ _ _ _ _ _ hw (BitVec.ofNat 16 i) block (by rwa [hplace])
  rw [hstates] at hhead
  refine ⟨hi, by simp [hstates], ?_⟩
  rw [← Option.some.inj hhead, hid, Nat.add_zero]

/-- INTERNAL: two blocks have two ids. -/
theorem ofNat_inj {i i' : ℕ} {block block' : BlockStates.Block} (hblock : blocks[i]? = some block)
    (hblock' : blocks[i']? = some block') (h : BitVec.ofNat 16 i = BitVec.ofNat 16 i') : i = i' := by
  obtain ⟨hi, -, -⟩ := firstState_of_numbered hw hn hblock
  obtain ⟨hi', -, -⟩ := firstState_of_numbered hw hn hblock'
  have hnat := congrArg BitVec.toNat h
  rwa [BitVec.toNat_ofNat, BitVec.toNat_ofNat, Nat.mod_eq_of_lt hi, Nat.mod_eq_of_lt hi'] at hnat

/-- INTERNAL: **the states of a block are those between its first one and the next block**.
SOURCE: generator/block_states.py:134-137,164-170 -/
theorem owner_iff {i : ℕ} {block : BlockStates.Block} (hblock : blocks[i]? = some block) (s : ℕ) :
    t.stateBlock[s]? = some (BitVec.ofNat 16 i) ↔
      stateCount (blocks.take i) ≤ s ∧ s < stateCount (blocks.take i) + block.states.length := by
  constructor
  · intro howner
    have hs := (List.getElem?_eq_some_iff.mp howner).1
    rw [length_stateBlock hw] at hs
    obtain ⟨i', block', j, hblock', hj, rfl⟩ := exists_state_of_lt hs
    have hsame := (owner_of_place hw hn hblock' hj).2
    rw [howner, Option.some.injEq] at hsame
    obtain rfl := ofNat_inj hw hn hblock hblock' hsame
    obtain rfl := Option.some.inj (hblock.symm.trans hblock')
    omega
  · rintro ⟨hle, hlt⟩
    obtain ⟨j, rfl⟩ := Nat.exists_eq_add_of_le hle
    exact (owner_of_place hw hn hblock (by omega)).2

/-- INTERNAL: the states of a block are side by side when one of another block comes next. -/
theorem sideBySide_of_next {i : ℕ} {block : BlockStates.Block} (hblock : blocks[i]? = some block)
    {other : BitVec 16} (hother : other ≠ BitVec.ofNat 16 i)
    (hnext : t.stateBlock[(stateCount (blocks.take i) + block.states.length) % 2 ^ 16]? =
      some other) : SideBySide t (BitVec.ofNat 16 i) := by
  obtain ⟨-, -, hfirst⟩ := firstState_of_numbered hw hn hblock
  have hplace : ∀ j, (stateBehind (t.firstState (BitVec.ofNat 16 i)) j).toNat =
      (stateCount (blocks.take i) + j) % 2 ^ 16 := by
    intro j
    rw [toNat_stateBehind, hfirst]
  refine ⟨block.states.length, ?_, ⟨other, hother, ?_⟩, ?_⟩
  · intro j hj
    obtain ⟨hlt, howner⟩ := owner_of_place hw hn hblock hj
    rw [hplace, Nat.mod_eq_of_lt hlt]
    exact howner
  · rw [hplace]
    exact hnext
  · intro state hstate
    obtain ⟨hle, hlt⟩ := (owner_iff hw hn hblock _).mp hstate
    refine ⟨state.toNat - stateCount (blocks.take i), by omega, ?_⟩
    apply BitVec.eq_of_toNat_eq
    rw [hplace, Nat.add_sub_cancel' hle, Nat.mod_eq_of_lt state.isLt]

/-- INTERNAL: at the end of a table that is not full, no state comes next. -/
theorem not_sideBySide_of_last {i : ℕ} {block : BlockStates.Block}
    (hblock : blocks[i]? = some block)
    (hlast : stateCount (blocks.take i) + block.states.length = stateCount blocks)
    (hfull : stateCount blocks < 2 ^ 16) : ¬SideBySide t (BitVec.ofNat 16 i) := by
  rintro ⟨n, hown, ⟨other, hother, hnext⟩, -⟩
  obtain ⟨-, -, hfirst⟩ := firstState_of_numbered hw hn hblock
  have hnone : t.stateBlock[(stateBehind (t.firstState (BitVec.ofNat 16 i))
      block.states.length).toNat]? = none := by
    rw [toNat_stateBehind, hfirst, hlast, Nat.mod_eq_of_lt hfull, List.getElem?_eq_none_iff,
      length_stateBlock hw]
  rcases Nat.lt_trichotomy n block.states.length with hlt | rfl | hgt
  · obtain ⟨hplace, howner⟩ := owner_of_place hw hn hblock hlt
    rw [toNat_stateBehind, hfirst, Nat.mod_eq_of_lt hplace, howner] at hnext
    exact hother (Option.some.inj hnext).symm
  · rw [hnone] at hnext
    cases hnext
  · have h := hown _ hgt
    rw [hnone] at h
    cases h

/-- INTERNAL: nor is there one of another block when there is no other block. -/
theorem not_sideBySide_of_only {block : BlockStates.Block} (hblock : blocks[0]? = some block)
    (hfull : block.states.length = 2 ^ 16) : ¬SideBySide t (BitVec.ofNat 16 0) := by
  rintro ⟨n, -, ⟨other, hother, hnext⟩, -⟩
  have hlt := (stateBehind (t.firstState (BitVec.ofNat 16 0)) n).isLt
  have howner := (owner_iff hw hn hblock _).mpr (by simpa [stateCount, hfull] using hlt)
  rw [hnext] at howner
  exact hother (Option.some.inj howner)

/-- INTERNAL: **in a numbered table a state of another block follows** on every block but the last,
and on this when there are so many states that the first one of all comes next. -/
theorem sideBySide_iff {i : ℕ} {block : BlockStates.Block} (hblock : blocks[i]? = some block) :
    SideBySide t (BitVec.ofNat 16 i) ↔
      i + 1 < blocks.length ∨ stateCount blocks = 2 ^ 16 ∧ 1 < blocks.length := by
  have hi := (List.getElem?_eq_some_iff.mp hblock).1
  have htake := stateCount_take_succ hblock
  by_cases hmiddle : i + 1 < blocks.length
  · simp only [hmiddle, true_or, iff_true]
    have hblock' := List.getElem?_eq_getElem hmiddle
    obtain ⟨-, hpos, -⟩ := firstState_of_numbered hw hn hblock'
    obtain ⟨hplace, howner⟩ := owner_of_place hw hn hblock' hpos
    rw [Nat.add_zero, htake] at hplace howner
    apply sideBySide_of_next hw hn hblock (mt (ofNat_inj hw hn hblock' hblock) i.succ_ne_self)
    rw [Nat.mod_eq_of_lt hplace]
    exact howner
  · have hlength : i + 1 = blocks.length := by omega
    rw [hlength, List.take_length] at htake
    simp only [hmiddle, false_or]
    constructor
    · intro hside
      have hfull : stateCount blocks = 2 ^ 16 := by
        by_contra hne
        have hfits := hn.fits
        exact not_sideBySide_of_last hw hn hblock htake.symm (by omega) hside
      refine ⟨hfull, ?_⟩
      by_contra hone
      obtain rfl : i = 0 := by omega
      apply not_sideBySide_of_only hw hn hblock _ hside
      simp [stateCount] at htake hfull
      omega
    · rintro ⟨hfull, hmany⟩
      have hblock' := List.getElem?_eq_getElem (Nat.zero_lt_of_lt hmany)
      obtain ⟨-, hpos, -⟩ := firstState_of_numbered hw hn hblock'
      obtain ⟨-, howner⟩ := owner_of_place hw hn hblock' hpos
      apply sideBySide_of_next hw hn hblock (mt (ofNat_inj hw hn hblock' hblock) (by omega))
      rw [← htake, hfull, Nat.mod_self]
      simpa [stateCount] using howner

end Numbered

/-- INTERNAL: the ids of the two blocks are their places. -/
theorem numbered_shortBlocks : Numbered shortBlocks where
  blockIds := by
    intro i block hblock
    match i, hblock with
    | 0, hblock => cases hblock; rfl
    | 1, hblock => cases hblock; rfl
  fits := by decide
  stateIds := by
    intro i block hblock j state hstate
    match i, hblock with
    | 0, hblock =>
      cases hblock
      match j, hstate with
      | 0, hstate => cases hstate; rfl
    | 1, hblock =>
      cases hblock
      match j, hstate with
      | 0, hstate => cases hstate; rfl

end Mccpp.Analysis
