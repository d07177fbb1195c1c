import Mccpp.Analysis.ReaderBalance
import Mathlib.Data.Int.Basic

/-!
# Skipping a bitset

`discard_bitset` computes the number of bytes to skip as the product of an `int32_t` with eight. The
product is right for counts below `2 ^ 28`. From there on it leaves the type, and what is skipped is
the product as two's complement has it: nothing at all for `2 ^ 29`.
-/

set_option autoImplicit false

namespace Mccpp.Analysis

open Mccpp.Library Mccpp.Model Mccpp.Model.PacketM

variable {σ : Type}

/-- Behind a count that left `n` bytes of the packet, those of `left`: a negative count is thrown
out; any other is multiplied by eight without overflow, and that many bytes are skipped, unless the
packet is shorter. -/
structure SkipsBitset (count : BitVec 32) (n : ℕ) (left : List Byte)
    (outcome : Option (Ended σ Unit × List Byte)) : Prop where
  rejected : count.toInt < 0 → ∃ r, outcome = some (r, left) ∧
    r.1 = .error (.decodeError "invalid count for bitset")
  exact : 0 ≤ count.toInt → (count * 8).toInt = 8 * count.toInt
  skipped : 0 ≤ count.toInt → 8 * count.toNat ≤ n → ∃ r,
    outcome = some (r, left.drop (8 * count.toNat)) ∧ r.1 = .ok () ∧ r.2.2 = n - 8 * count.toNat
  short : 0 ≤ count.toInt → n < 8 * count.toNat → ∃ r left' condition,
    outcome = some (r, left') ∧ r.1 = .error (.assertFailed condition)

/-- INTERNAL: skipping bytes that are there, and failing where they are not.
SOURCE: proto/packet.cc:83-89 -/
theorem run_discard (s : σ) (k n : ℕ) (bs : List Byte) (h : n ≤ bs.length) :
    (discard k s n).run bs =
      if k ≤ n then some ((.ok (), s, n - k), bs.drop k)
      else some ((.error (.assertFailed "m_remaining >= n"), s, n), bs) := by
  have hprepaid := prepaid_apply k "m_remaining >= n" (fun _ => (pure () : PacketM σ Unit)) s n
  unfold PacketM.discard
  rw [hprepaid]
  split
  · rename_i hk
    have hlength : (bs.take k).length = k := by
      rw [List.length_take]
      omega
    have hpull := run_times_pullByte (bs.take k) (bs.drop k) s (n - k)
    rw [hlength, List.take_append_drop] at hpull
    rw [bind_apply, Pull.run_bind, hpull]
    rfl
  · rfl

section Product

variable {count : BitVec 32}

/-- INTERNAL: the product of a count that is not negative stays in its type below `2 ^ 28` alone. -/
theorem product_exact_iff (h : 0 ≤ count.toInt) :
    (count * 8).toInt = 8 * count.toInt ↔ count.toInt < 2 ^ 28 := by
  constructor
  · intro hexact
    have hrange : (count * 8).toInt < 2 ^ 31 := BitVec.toInt_lt
    omega
  · intro hsmall
    have height : (8 : BitVec 32).toInt = 8 := rfl
    rw [BitVec.toInt_mul, height, Int.mul_comm]
    exact Int.bmod_eq_of_le (by omega) (by omega)

/-- INTERNAL: as a `size_t` it is then the number of bytes. -/
theorem product_toNat (h : 0 ≤ count.toInt) (hsmall : count.toInt < 2 ^ 28) :
    ((count * 8).signExtend 64).toNat = 8 * count.toNat := by
  have hproduct := (product_exact_iff h).mpr hsmall
  have hcount : count.toInt = count.toNat := by
    rw [BitVec.toInt_eq_toNat_cond] at h ⊢
    split
    · rfl
    · have := count.isLt
      omega
  have hextended : ((count * 8).signExtend 64).toInt = 8 * count.toNat := by
    rw [BitVec.toInt_signExtend_of_le (by omega), hproduct, hcount]
  rw [BitVec.toInt_eq_toNat_cond] at hextended
  split at hextended
  · omega
  · have := ((count * 8).signExtend 64).isLt
    omega

end Product

/-- SOURCE: proto/packet.hh:120-127, proto/packet.cc:83-89 — **when a bitset is skipped right**. For
every packet that starts with a count, `discard_bitset` throws a negative count out, and skips
exactly eight bytes for each of any other, or fails where the packet is shorter, without an overflow
of the product: if and only if the count is below `2 ^ 28`. -/
theorem discardBitset_iff (s s' : σ) (n n' : ℕ) (bs left : List Byte) (count : BitVec 32)
    (hn : n ≤ bs.length) (hread : (readVarint s n).run bs = some ((.ok count, s', n'), left)) :
    SkipsBitset count n' left ((discardBitset s n).run bs) ↔ count.toInt < 2 ^ 28 := by
  have hwithin := metered_readVarint (n + 1) s n (Nat.lt_succ_self n)
  obtain ⟨used, m, rfl, hbudget, hacc⟩ := Pull.split_of_run _ _ _ _ _ _ hwithin hread
  obtain rfl := accounted_ok.mp hacc
  rw [List.length_append] at hn
  have hrun : (discardBitset s n).run (used ++ left) =
      if count.toInt < 0 then
        some ((.error (.decodeError "invalid count for bitset"), s', n'), left)
      else (discard ((count * 8).signExtend 64).toNat s' n').run left := by
    unfold discardBitset
    rw [bind_apply, Pull.run_bind, hread]
    dsimp only [Option.bind_some, andThen_ok]
    split
    · rfl
    · rfl
  rw [hrun]
  constructor
  · intro hskips
    by_cases hneg : count.toInt < 0
    · omega
    · exact (product_exact_iff (by omega)).mp (hskips.exact (by omega))
  · intro hsmall
    by_cases hneg : count.toInt < 0
    · rw [if_pos hneg]
      exact ⟨fun _ => ⟨_, rfl, rfl⟩, fun h => by omega, fun h => by omega, fun h => by omega⟩
    · rw [if_neg hneg, product_toNat (by omega) hsmall, run_discard _ _ _ _ (by omega)]
      refine ⟨fun h => absurd h hneg, fun h => (product_exact_iff h).mpr hsmall, fun _ hlong => ?_,
        fun _ hshort => ?_⟩
      · rw [if_pos hlong]
        exact ⟨_, rfl, rfl, rfl⟩
      · rw [if_neg (by omega)]
        exact ⟨_, _, _, rfl, rfl⟩

/-- INTERNAL: a bitset of one word, with a byte behind it. -/
theorem discardBitset_of_one :
    SkipsBitset 1 9 [1, 2, 3, 4, 5, 6, 7, 8, 9]
      ((discardBitset () 10).run [1, 1, 2, 3, 4, 5, 6, 7, 8, 9]) :=
  (discardBitset_iff () () 10 9 [1, 1, 2, 3, 4, 5, 6, 7, 8, 9] [1, 2, 3, 4, 5, 6, 7, 8, 9] 1
    (by decide) rfl).mpr (by decide)

/-- INTERNAL: the count `2 ^ 29`, with a byte behind it: nothing is skipped and nothing fails. -/
theorem discardBitset_skips_nothing :
    ¬∀ (n n' : ℕ) (bs left : List Byte) (count : BitVec 32), n ≤ bs.length →
      (readVarint () n).run bs = some ((.ok count, (), n'), left) →
        SkipsBitset count n' left ((discardBitset () n).run bs) := by
  intro h
  have hskips := h 6 1 [0x80, 0x80, 0x80, 0x80, 0x02, 7] [7] (BitVec.ofNat 32 (2 ^ 29)) (by decide) rfl
  have hrun : (discardBitset () 6).run [0x80, 0x80, 0x80, 0x80, 0x02, 7] =
      some ((.ok (), (), 1), [7]) := rfl
  obtain ⟨r, left', condition, houtcome, hfailed⟩ := hskips.short (by decide) (by decide)
  rw [hrun] at houtcome
  cases houtcome
  cases hfailed

end Mccpp.Analysis
