import Mathlib.Tactic.Ring
import Mccpp.Interface.Varint
import Mccpp.Analysis.Sending

/-!
# The encoding of variable length integers and strings

With `position` bits read, the loop of the reader holds the sum of the groups so far, cut to the
width (`toNat_addGroup_mod`), so bytes that announce one another and a last one give the sum of all
of them (`run_varintReadLoop`), and as many as there can be groups are refused
(`run_varintReadLoop_invalid`). The writer stops at the first group above which there is nothing
left (`length_writeVarintLoop_le`), and a longer encoding of the same integer is accepted by the
reader all the same.
-/

set_option autoImplicit false

namespace Mccpp.Analysis

open Mccpp.Library Mccpp.Model Mccpp.Interface

variable {w : ℕ}

/-! ## Reading -/

/-- INTERNAL: one group behind the bits there are, cut to the width.
SOURCE: src/proto/varint.hh:48 -/
theorem addGroup_eq (hw : 8 ≤ w) {position n : ℕ} (hn : n < 2 ^ position) (b : Byte) :
    BitVec.ofNat w n ||| (b &&& segmentBits).setWidth w <<< position =
      BitVec.ofNat w (n + 2 ^ position * (b.toNat % 128)) := by
  have hgroup : ((b &&& segmentBits).setWidth w).toNat = b.toNat % 128 := by
    have hbyte : (b &&& segmentBits).toNat = b.toNat % 128 := by
      have hmask := toNat_segmentBits (le_refl 8) b
      rwa [BitVec.setWidth_eq] at hmask
    rw [BitVec.toNat_setWidth, hbyte]
    apply Nat.mod_eq_of_lt
    calc b.toNat % 128 < 2 ^ 8 := by omega
      _ ≤ 2 ^ w := Nat.pow_le_pow_right (by omega) hw
  apply BitVec.eq_of_toNat_eq
  rw [BitVec.toNat_or, BitVec.toNat_shiftLeft, hgroup, BitVec.toNat_ofNat, BitVec.toNat_ofNat,
    ← Nat.or_mod_two_pow, Nat.shiftLeft_eq, Nat.mul_comm, Nat.or_comm,
    ← Nat.two_pow_add_eq_or_of_lt hn, Nat.add_comm]

/-- INTERNAL: **bytes that announce one another and a last one are the sum of their groups**.
SOURCE: src/proto/varint.hh:37-61 -/
theorem run_varintReadLoop (hw : 8 ≤ w) {fuel position n : ℕ} (hn : n < 2 ^ position)
    {used : List Byte} {last : Byte} (hused : ∀ b ∈ used, Continues b) (hlast : ¬ Continues last)
    (hposition : position + 7 * used.length < w) (hfuel : used.length < fuel) (rest : List Byte) :
    (varintReadLoop w fuel (BitVec.ofNat w n) position).run (used ++ last :: rest) =
      some (.ok (BitVec.ofNat w (n + 2 ^ position * groupSum (used ++ [last]))), rest) := by
  induction used generalizing fuel position n with
  | nil =>
    obtain ⟨fuel, rfl⟩ := Nat.exists_eq_succ_of_ne_zero (Nat.ne_of_gt hfuel)
    have hdone : last &&& continueBit = 0 := not_not.mp hlast
    rw [varintReadLoop, List.nil_append, Pull.run_pull_cons, asyncReadStep, addGroup_eq hw hn,
      if_pos hdone]
    simp [groupSum]
  | cons b used ih =>
    obtain ⟨fuel, rfl⟩ := Nat.exists_eq_succ_of_ne_zero (Nat.ne_of_gt (Nat.zero_lt_of_lt hfuel))
    simp only [List.mem_cons, forall_eq_or_imp] at hused
    simp only [List.length_cons] at hposition hfuel
    have hnext : n + 2 ^ position * (b.toNat % 128) < 2 ^ (position + 7) := by
      have hgroup : b.toNat % 128 < 128 := Nat.mod_lt _ (by omega)
      calc n + 2 ^ position * (b.toNat % 128) < 2 ^ position + 2 ^ position * (b.toNat % 128) := by
            omega
        _ = 2 ^ position * (b.toNat % 128 + 1) := by ring
        _ ≤ 2 ^ position * 128 := Nat.mul_le_mul_left _ hgroup
        _ = 2 ^ (position + 7) := by rw [Nat.pow_add]
    have hsum : n + 2 ^ position * groupSum (b :: (used ++ [last])) =
        n + 2 ^ position * (b.toNat % 128) + 2 ^ (position + 7) * groupSum (used ++ [last]) := by
      rw [groupSum]
      ring
    have hrest := ih hnext hused.2 (by omega) (Nat.lt_of_succ_lt_succ hfuel)
    rw [varintReadLoop, List.cons_append, Pull.run_pull_cons, asyncReadStep, addGroup_eq hw hn,
      if_neg hused.1, if_neg (by omega), List.cons_append, hsum]
    exact hrest

/-- INTERNAL: **as many bytes that announce another as there can be groups are refused**.
SOURCE: src/proto/varint.hh:53-56 -/
theorem run_varintReadLoop_invalid {fuel position : ℕ} {value : BitVec w} {used : List Byte}
    (hused : ∀ b ∈ used, Continues b) (hnonempty : used ≠ [])
    (hposition : position + 7 * used.length < w + 7) (hend : w ≤ position + 7 * used.length)
    (hfuel : used.length ≤ fuel) (rest : List Byte) :
    (varintReadLoop w fuel value position).run (used ++ rest) =
      some (.error (.decodeError "invalid varint"), rest) := by
  induction used generalizing fuel position value with
  | nil => exact absurd rfl hnonempty
  | cons b used ih =>
    simp only [List.mem_cons, forall_eq_or_imp] at hused
    simp only [List.length_cons] at hposition hend hfuel
    obtain ⟨fuel, rfl⟩ := Nat.exists_eq_succ_of_ne_zero (by omega : fuel ≠ 0)
    rw [varintReadLoop, List.cons_append, Pull.run_pull_cons, asyncReadStep, if_neg hused.1]
    cases used with
    | nil =>
      rw [if_pos (by simpa using hend)]
      rfl
    | cons b' used =>
      simp only [List.length_cons] at hposition hend hfuel ih
      rw [if_neg (by omega)]
      exact ih hused.2 (by simp) (by omega) (by omega) (by omega)

/-- INTERNAL: a stream that ends before is asked for more. -/
theorem run_varintReadLoop_none {fuel position : ℕ} {value : BitVec w} {used : List Byte}
    (hused : ∀ b ∈ used, Continues b) (hposition : position + 7 * used.length < w)
    (hfuel : used.length < fuel) : (varintReadLoop w fuel value position).run used = none := by
  induction used generalizing fuel position value with
  | nil =>
    obtain ⟨fuel, rfl⟩ := Nat.exists_eq_succ_of_ne_zero (Nat.ne_of_gt hfuel)
    rfl
  | cons b used ih =>
    simp only [List.mem_cons, forall_eq_or_imp] at hused
    simp only [List.length_cons] at hposition hfuel
    obtain ⟨fuel, rfl⟩ := Nat.exists_eq_succ_of_ne_zero (by omega : fuel ≠ 0)
    rw [varintReadLoop, Pull.run_pull_cons, asyncReadStep, if_neg hused.1, if_neg (by omega)]
    exact ih hused.2 (by omega) (by omega)

/-- INTERNAL: a stream goes on announcing bytes, or stops. -/
theorem all_continue_or_last (bs : List Byte) : (∀ b ∈ bs, Continues b) ∨
    ∃ used last rest, bs = used ++ last :: rest ∧ (∀ b ∈ used, Continues b) ∧ ¬ Continues last := by
  induction bs with
  | nil => exact Or.inl (by simp)
  | cons b bs ih =>
    by_cases hb : Continues b
    · rcases ih with hall | ⟨used, last, rest, rfl, hused, hlast⟩
      · exact Or.inl (by simpa [hb] using hall)
      · exact Or.inr ⟨b :: used, last, rest, rfl, by simpa [hb] using hused, hlast⟩
    · exact Or.inr ⟨[], b, bs, rfl, by simp, hb⟩

/-- The three ways in which a stream can begin. -/
inductive Beginning (w : ℕ) (bs : List Byte) : Prop where
  /-- With a last byte in time. -/
  | complete (used : List Byte) (last : Byte) (rest : List Byte) (eq : bs = used ++ last :: rest)
      (continues : ∀ b ∈ used, Continues b) (stops : ¬ Continues last)
      (short : used.length < groupCount w)
      (run : (varintRead w).run bs =
        some (.ok (BitVec.ofNat w (groupSum (used ++ [last]))), rest))
  /-- With too many bytes that announce another. -/
  | invalid (used rest : List Byte) (eq : bs = used ++ rest) (continues : ∀ b ∈ used, Continues b)
      (long : used.length = groupCount w)
      (run : (varintRead w).run bs = some (.error (.decodeError "invalid varint"), rest))
  /-- With too few bytes. -/
  | cut (continues : ∀ b ∈ bs, Continues b) (short : bs.length < groupCount w)
      (run : (varintRead w).run bs = none)

/-- INTERNAL: **what the reader does with any stream**. -/
theorem beginning (hw : 8 ≤ w) (bs : List Byte) : Beginning w bs := by
  have hcount : w ≤ 7 * groupCount w ∧ 7 * groupCount w < w + 7 := by
    unfold groupCount
    omega
  have hmany (used rest : List Byte) (hused : ∀ b ∈ used, Continues b)
      (hlong : used.length = groupCount w) :
      (varintRead w).run (used ++ rest) = some (.error (.decodeError "invalid varint"), rest) := by
    apply run_varintReadLoop_invalid hused
    · rintro rfl
      simp only [List.length_nil] at hlong
      omega
    · omega
    · omega
    · omega
  rcases all_continue_or_last bs with hall | ⟨used, last, rest, rfl, hused, hlast⟩
  · by_cases hshort : bs.length < groupCount w
    · exact Beginning.cut hall hshort (run_varintReadLoop_none hall (by omega) (by omega))
    · have hsplit := List.take_append_drop (groupCount w) bs
      have htake : ∀ b ∈ bs.take (groupCount w), Continues b := fun b hb =>
        hall b (List.mem_of_mem_take hb)
      have hlong : (bs.take (groupCount w)).length = groupCount w := by
        rw [List.length_take]
        omega
      have hrun := hmany _ (bs.drop (groupCount w)) htake hlong
      rw [hsplit] at hrun
      exact Beginning.invalid _ _ hsplit.symm htake hlong hrun
  · by_cases hshort : used.length < groupCount w
    · have hrun : (varintReadLoop w w (BitVec.ofNat w 0) 0).run (used ++ last :: rest) =
          some (.ok (BitVec.ofNat w (0 + 2 ^ 0 * groupSum (used ++ [last]))), rest) :=
        run_varintReadLoop hw (by simp) hused hlast (by omega) (by omega) rest
      rw [Nat.zero_add, Nat.pow_zero, Nat.one_mul] at hrun
      exact Beginning.complete used last rest rfl hused hlast hshort hrun
    · have hsplit := List.take_append_drop (groupCount w) used
      have htake : ∀ b ∈ used.take (groupCount w), Continues b := fun b hb =>
        hused b (List.mem_of_mem_take hb)
      have hlong : (used.take (groupCount w)).length = groupCount w := by
        rw [List.length_take]
        omega
      have heq : used ++ last :: rest =
          used.take (groupCount w) ++ (used.drop (groupCount w) ++ last :: rest) := by
        rw [← List.append_assoc, hsplit]
      have hrun := hmany _ (used.drop (groupCount w) ++ last :: rest) htake hlong
      rw [← heq] at hrun
      exact Beginning.invalid _ _ heq htake hlong hrun

/-! ## Writing -/

/-- INTERNAL: the sum of groups is bounded by their number. -/
theorem groupSum_lt (bs : List Byte) : groupSum bs < 2 ^ (7 * bs.length) := by
  induction bs with
  | nil => simp [groupSum]
  | cons b bs ih =>
    have hb : b.toNat % 128 < 128 := Nat.mod_lt _ (by omega)
    have hpow : 2 ^ (7 * (b :: bs).length) = 128 * 2 ^ (7 * bs.length) := by
      rw [List.length_cons, Nat.mul_succ, Nat.pow_add, Nat.mul_comm]
    rw [groupSum, hpow]
    omega

/-- INTERNAL: **the writer needs no more groups than the value**.
SOURCE: src/proto/varint.hh:19-35 -/
theorem length_writeVarintLoop_le (hw : 8 ≤ w) {fuel n : ℕ} {value : BitVec w}
    (hvalue : value.toNat < 2 ^ (7 * (n + 1))) :
    (writeVarintLoop fuel value).length ≤ n + 1 := by
  induction n generalizing fuel value with
  | zero =>
    cases fuel with
    | zero => simp [writeVarintLoop]
    | succ fuel =>
      rw [writeVarintLoop, if_pos ((no_more_groups_iff hw value).mpr (by omega))]
      simp
  | succ n ih =>
    cases fuel with
    | zero => simp [writeVarintLoop]
    | succ fuel =>
      rw [writeVarintLoop]
      split_ifs with hlast
      · simp
      · have hpow : 2 ^ (7 * (n + 1 + 1)) = 128 * 2 ^ (7 * (n + 1)) := by ring
        have hshift : (value >>> 7).toNat < 2 ^ (7 * (n + 1)) := by
          rw [BitVec.toNat_ushiftRight, Nat.shiftRight_eq_div_pow]
          omega
        have hle : (writeVarintLoop fuel (value >>> 7)).length ≤ n + 1 := ih hshift
        simp only [List.length_cons]
        omega

/-- INTERNAL: the reader takes the bytes that spell a value.
SOURCE: src/proto/varint.hh:37-61 -/
theorem run_of_spells {fuel position : ℕ} {value : BitVec w} {bs : List Byte} {v : BitVec w}
    (h : SpellsVarint value position bs v) (hfuel : w ≤ position + 7 * fuel)
    (hposition : position < w) (rest : List Byte) :
    (varintReadLoop w fuel value position).run (bs ++ rest) = some (.ok v, rest) := by
  induction bs generalizing fuel value position with
  | nil => exact h.elim
  | cons b bs ih =>
    obtain ⟨fuel, rfl⟩ := Nat.exists_eq_succ_of_ne_zero (by omega : fuel ≠ 0)
    rw [spells_varint_cons] at h
    rw [varintReadLoop, List.cons_append, Pull.run_pull_cons]
    cases hb : asyncReadStep value position b with
    | done value =>
      rw [hb] at h
      obtain ⟨rfl, rfl⟩ := h
      rfl
    | more value position =>
      rw [hb] at h
      obtain ⟨hp, hlt⟩ := asyncReadStep_more hb
      exact ih h (by omega) hlt
    | invalid =>
      rw [hb] at h
      exact h.elim

/-! ## The encoding -/

/-- INTERNAL: the encoding of integers of any width.
SOURCE: src/proto/varint.hh:19-80 -/
theorem varintCodec (hw : 8 ≤ w) : VarintCodec w (writeVarintLoop w) (varintRead w) where
  roundTrip := by
    intro v rest
    have hspells : SpellsVarint (0 : BitVec w) 0 (writeVarintLoop w v) v :=
      spells_writeVarintLoop hw v (by simp [Nat.mod_one]) (by simp) (by omega) (by omega)
    exact run_of_spells hspells (by omega) (by omega) rest
  minimal := by
    intro bs rest v h
    cases beginning hw (bs ++ rest) with
    | complete used last rest' heq _ _ _ hrun =>
      rw [h] at hrun
      simp only [Option.some.injEq, Prod.mk.injEq, Except.ok.injEq] at hrun
      obtain ⟨rfl, rfl⟩ := hrun
      have hbs : bs = used ++ [last] := by
        apply List.append_cancel_right
        rw [heq, List.append_assoc, List.singleton_append]
      have hsum := groupSum_lt (used ++ [last])
      rw [List.length_append, List.length_singleton] at hsum
      rw [hbs, List.length_append, List.length_singleton]
      apply length_writeVarintLoop_le hw
      exact lt_of_le_of_lt (BitVec.toNat_ofNat _ _ ▸ Nat.mod_le _ _) hsum
    | invalid used rest' heq _ _ hrun => simp [h] at hrun
    | cut _ _ hrun => simp [h] at hrun
  bounded := by
    intro bs r rest h
    cases beginning hw bs with
    | complete used last rest' heq _ _ hshort hrun =>
      rw [h] at hrun
      simp only [Option.some.injEq, Prod.mk.injEq] at hrun
      refine ⟨used ++ [last], ?_, ?_⟩
      · rw [heq, hrun.2, List.append_assoc, List.singleton_append]
      · rw [List.length_append, List.length_singleton]
        omega
    | invalid used rest' heq _ hlong hrun =>
      rw [h] at hrun
      simp only [Option.some.injEq, Prod.mk.injEq] at hrun
      exact ⟨used, by rw [heq, hrun.2], by omega⟩
    | cut _ _ hrun => simp [h] at hrun
  rejects := by
    intro bs
    cases beginning hw bs with
    | complete used last rest heq _ hstops hshort hrun =>
      constructor
      · rintro ⟨what, rest', h⟩
        simp [h] at hrun
      · rintro ⟨_, hall⟩
        refine absurd (hall last ?_) hstops
        rw [heq]
        apply List.mem_of_getElem? (i := used.length)
        rw [List.getElem?_take_of_lt hshort, List.getElem?_append_right (le_refl _), Nat.sub_self]
        rfl
    | invalid used rest heq hcontinues hlong hrun =>
      constructor
      · intro _
        rw [heq, ← hlong, List.take_left]
        exact ⟨by simp, hcontinues⟩
      · intro _
        exact ⟨_, _, hrun⟩
    | cut _ hshort hrun =>
      constructor
      · rintro ⟨what, rest', h⟩
        simp [h] at hrun
      · rintro ⟨hlong, _⟩
        omega
  returns := by
    rintro bs ⟨b, hb, hstops⟩
    cases beginning hw bs with
    | complete used last rest heq hcontinues hlast _ hrun =>
      exact ⟨used, last, rest, heq, hcontinues, hlast, hrun⟩
    | invalid used rest heq hcontinues hcount _ =>
      rw [heq, ← hcount, List.take_left] at hb
      exact absurd (hcontinues b hb) hstops
    | cut hcontinues _ _ => exact absurd (hcontinues b (List.mem_of_mem_take hb)) hstops

/-- SOURCE: src/proto/varint.hh:19-80, test/proto/varint.cc:16-72 — **integers of 32 and of 64 bits
come back from their shortest encoding, and every other stream is read up to its last group or
refused**. -/
theorem varint_codec : VarintCodec 32 varintWrite (varintRead 32) ∧
    VarintCodec 64 varlongWrite (varintRead 64) :=
  ⟨varintCodec (by omega), varintCodec (by omega)⟩

/-! ## Strings -/

/-- INTERNAL: the reader returns only strings of at most so many bytes.
SOURCE: src/proto/packet.cc:195-217 -/
theorem length_of_returns {max : ℕ} (hmax : max ≤ 32767) {bs s : List Byte}
    (h : ReturnsString max bs s) : s.length ≤ max := by
  obtain ⟨rest, hrun⟩ := h
  obtain ⟨-, used, -, _, hspells, heq⟩ := ((follows_readString hmax).sound () bs _ _ hrun).1 s rfl
  obtain rfl := (Prod.mk.inj heq).1
  obtain ⟨_, chars, length, -, -, hchars⟩ := hspells
  beta_reduce at hchars
  split_ifs at hchars with hnegative hlong
  · exact hchars.elim
  · exact hchars.elim
  · obtain ⟨rfl, hlength⟩ := hchars
    omega

/-- SOURCE: src/proto/packet.cc:63-81,195-217 — **the writer and the reader agree about a string if
and only if it has at most as many bytes as the limit has code points, or more than four times as
many**. -/
theorem string_limits_agree_iff {max : ℕ} (hmax : max ≤ 32767) (s : List Byte) :
    LimitsAgree max s ↔ s.length ≤ max ∨ 4 * max < s.length := by
  constructor
  · rintro ⟨haccepted, -⟩
    by_contra hbetween
    have hwrites := writes_writeString hmax (v := s) (by omega) []
    have hle := length_of_returns hmax (haccepted _ hwrites)
    omega
  · intro hagree
    constructor
    · intro bs hwritten
      have hshort : s.length ≤ max := by
        by_contra hlong
        obtain ⟨what, hrefused⟩ := refuses_writeString hmax (v := s) (by omega) []
        rw [hrefused] at hwritten
        cases hwritten
      rw [writes_writeString hmax (by omega), List.nil_append] at hwritten
      simp only [Except.ok.injEq, Prod.mk.injEq, true_and] at hwritten
      have hread := reads_readString (σ := Unit) hmax hshort () bs.length [] (by rw [hwritten])
      rw [List.append_nil, hwritten, Nat.sub_self] at hread
      exact ⟨[], hread⟩
    · intro bs hreturns
      have hshort := length_of_returns hmax hreturns
      exact ⟨_, writes_writeString hmax (by omega) []⟩

/-- Sixteen letters are within a limit of `16`. -/
theorem limits_agree_of_sixteen : LimitsAgree 16 (List.replicate 16 0x61) := by
  apply (string_limits_agree_iff (by omega) _).mpr
  simp

/-- SOURCE: src/proto/packet.cc:63-81,195-217 — nine letters of two bytes each are written under a
limit of `16` and not read. -/
theorem limits_disagree_of_nine : ¬ LimitsAgree 16 ((List.replicate 9 [0xc3, 0xa4]).flatten) := by
  rintro ⟨haccepted, -⟩
  obtain ⟨rest, hrun⟩ := haccepted (18 :: (List.replicate 9 [0xc3, 0xa4]).flatten) rfl
  have hlength := length_of_returns (by omega) ⟨rest, hrun⟩
  simp at hlength

end Mccpp.Analysis
