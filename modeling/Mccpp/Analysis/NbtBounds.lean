import Mccpp.Analysis.NbtEvents
import Mccpp.Analysis.NbtShapes

/-!
# What reading a document costs

`Costs c p`, for a reader that counts what it begins: what `p` begins is paid for by the bytes it
pulls, with `c` of them to spare, and where it failed one thing it began may be unpaid. Every tag and
every element of an array takes a byte, so the count stays below the bytes pulled, whatever lengths
are declared.
-/

set_option autoImplicit false

namespace Mccpp.Analysis

open Mccpp.Library Mccpp.Model Mccpp.Model.PacketM Mccpp.Interface

variable {α β : Type}

/-- What may be unpaid at the end. -/
def slack : Except Failure α → ℕ
  | .ok _ => 0
  | .error _ => 1

/-- What is begun is paid for with the bytes pulled, and `c` of these are to spare. -/
def Paid (c before budget : ℕ) (r : Ended ℕ α) (left : ℕ) : Prop :=
  (∀ a, r.1 = .ok a → r.2.2 = left) ∧ r.2.1 + left + c ≤ before + budget + slack r.1

def Costs (c : ℕ) (p : PacketM ℕ α) : Prop :=
  ∀ before n, (p before n).Within (Paid c before n) n

theorem costs_pure (a : α) : Costs 0 (pure a : PacketM ℕ α) := by
  intro before n
  rw [pure_apply, Pull.within_done]
  exact ⟨fun _ _ => rfl, Nat.le_refl _⟩

theorem costs_fail (e : Failure) : Costs 1 (fail e : PacketM ℕ α) := by
  intro before n
  rw [fail_apply, Pull.within_done]
  exact ⟨fun _ h => (nomatch h), Nat.le_refl _⟩

theorem Costs.weaken {c : ℕ} {p : PacketM ℕ α} (hp : Costs c p) : Costs 0 p := by
  intro before n
  refine (hp before n).mono ?_
  rintro r m _ ⟨hcount, hle⟩
  exact ⟨hcount, by omega⟩

/-- INTERNAL: **sequencing**. What the first computation has to spare is to spare at the end. -/
theorem Costs.bind {c : ℕ} {p : PacketM ℕ α} {f : α → PacketM ℕ β} (hp : Costs c p)
    (hf : ∀ a, Costs 0 (f a)) : Costs c (p >>= f) := by
  intro before n
  rw [bind_apply, Pull.within_bind]
  refine (hp before n).mono ?_
  rintro ⟨e | a, begun, n'⟩ m _ ⟨hcount, hle⟩
  · rw [andThen_error, Pull.within_done]
    exact ⟨fun _ h => (nomatch h), hle⟩
  · obtain rfl : n' = m := hcount a rfl
    rw [andThen_ok]
    refine (hf a begun n').mono ?_
    rintro r m' _ ⟨hcount', hle'⟩
    refine ⟨hcount', ?_⟩
    simp only [slack] at hle
    omega

theorem Costs.times {p : PacketM ℕ α} (hp : Costs 0 p) (k : ℕ) : Costs 0 (times k p) := by
  induction k with
  | zero => exact costs_pure []
  | succ k ih => exact hp.bind fun a => ih.bind fun as => costs_pure (a :: as)

/-- INTERNAL: what is begun is paid for by what follows. -/
theorem costs_begin {event : NbtEvent} (hevent : event = .tag ∨ event = .element)
    {p : PacketM ℕ α} (hp : Costs 1 p) : Costs 0 (do counting event; p) := by
  intro before n
  have hnote : (do counting event; p) before n = p (before + 1) n := by
    rcases hevent with rfl | rfl <;> rfl
  rw [hnote]
  refine (hp (before + 1) n).mono ?_
  rintro r m _ ⟨hcount, hle⟩
  exact ⟨hcount, by omega⟩

theorem costs_readByte : Costs 1 (readByte : PacketM ℕ Byte) := by
  intro before n
  cases n with
  | zero => exact ⟨fun _ h => (nomatch h), Nat.le_refl _⟩
  | succ n =>
    rw [readByte_succ, Pull.within_pull_succ]
    intro b
    rw [Pull.within_done]
    exact ⟨fun _ _ => rfl, Nat.le_refl _⟩

theorem costs_readIntN {w : ℕ} (hw : 8 ≤ w) : Costs 1 (readIntN w : PacketM ℕ (BitVec w)) := by
  have hloop : ∀ k (v : BitVec w), Costs 0 (readIntLoop w k v : PacketM ℕ (BitVec w)) := by
    intro k
    induction k with
    | zero => exact fun v => costs_pure v
    | succ k ih => exact fun v => costs_readByte.weaken.bind fun b => ih _
  obtain ⟨k, hk⟩ := Nat.exists_eq_succ_of_ne_zero (by omega : w / 8 ≠ 0)
  unfold readIntN
  rw [hk]
  exact costs_readByte.bind fun b => hloop k _

theorem costs_readFloatN {w : ℕ} (hw : 8 ≤ w) : Costs 1 (readFloatN w : PacketM ℕ (BitVec w)) := by
  intro before n
  unfold readFloatN
  rw [prepaid_apply]
  split
  · rename_i hle
    rw [bind_apply, Pull.within_bind]
    refine (times_pullByte_within (w / 8) n hle before (n - w / 8)).mono ?_
    rintro r m _ ⟨⟨bs, rfl⟩, hsum⟩
    rw [andThen_ok, pure_apply, Pull.within_done]
    obtain rfl : m = n - w / 8 := by omega
    refine ⟨fun _ _ => rfl, ?_⟩
    simp only [slack]
    omega
  · rw [Pull.within_done]
    exact ⟨fun _ h => (nomatch h), Nat.le_refl _⟩

theorem costs_readName : Costs 1 (Nbt.readName : PacketM ℕ (List Byte)) :=
  (costs_readIntN (by omega)).bind fun _ => costs_readByte.weaken.times _

/-! ## The constructors -/

theorem costs_tagArrayNoting {w : ℕ} (hw : 8 ≤ w) : Costs 1 (Nbt.tagArrayNoting counting w) := by
  refine (costs_readIntN (by omega)).bind fun length => ?_
  split
  · exact costs_pure []
  · exact (costs_begin (Or.inr rfl) (costs_readIntN hw)).times _

theorem costs_tagListNoting {create : Option TagType → PacketM ℕ Tag}
    (hcreate : ∀ type, Costs 0 (create type)) : Costs 1 (Nbt.tagListNoting counting create) := by
  refine costs_readByte.bind fun type => (costs_readIntN (by omega)).weaken.bind fun length => ?_
  split
  · exact costs_pure _
  · exact ((hcreate _).times _).bind fun _ => costs_pure _

theorem costs_compoundLoop {create : Option TagType → PacketM ℕ Tag}
    (hcreate : ∀ type, Costs 0 (create type)) (rounds : ℕ) :
    Costs 1 (Nbt.compoundLoop create rounds) := by
  induction rounds with
  | zero => exact costs_fail _
  | succ rounds ih =>
    refine costs_readByte.bind fun type => ?_
    split
    · exact costs_pure []
    · exact costs_readName.weaken.bind fun name => (hcreate _).bind fun child =>
        ih.weaken.bind fun container => costs_pure _

/-- INTERNAL: **every tag and every element takes a byte**, by induction on the nesting.
SOURCE: nbt.cc:26-43, 105-187 -/
theorem costs_createNoting (fuel : ℕ) (type : Option TagType) :
    Costs 0 (Nbt.createNoting counting fuel type) := by
  induction fuel generalizing type with
  | zero => exact (costs_fail _).weaken
  | succ fuel ih =>
    have hint : ∀ {w : ℕ} (wrap : BitVec w → Tag), 8 ≤ w →
        Costs 1 (do pure (wrap (← readIntN w)) : PacketM ℕ Tag) := fun _ hw =>
      (costs_readIntN hw).bind fun _ => costs_pure _
    have hfloat : ∀ {w : ℕ} (wrap : BitVec w → Tag), 8 ≤ w →
        Costs 1 (do pure (wrap (← readFloatN w)) : PacketM ℕ Tag) := fun _ hw =>
      (costs_readFloatN hw).bind fun _ => costs_pure _
    apply costs_begin (Or.inl rfl)
    cases type with
    | none => exact costs_fail _
    | some type =>
      cases type with
      | tagEnd => exact costs_fail _
      | tagByte => exact hint .byte (by omega)
      | tagShort => exact hint .short (by omega)
      | tagInt => exact hint .int (by omega)
      | tagLong => exact hint .long (by omega)
      | tagFloat => exact hfloat .float (by omega)
      | tagDouble => exact hfloat .double (by omega)
      | tagByteArray => exact costs_fail _
      | tagString => exact costs_readName.bind fun _ => costs_pure _
      | tagList => exact costs_tagListNoting ih
      | tagCompound => exact (costs_compoundLoop ih _).bind fun _ => costs_pure _
      | tagIntArray => exact (costs_tagArrayNoting (by omega)).bind fun _ => costs_pure _
      | tagLongArray => exact (costs_tagArrayNoting (by omega)).bind fun _ => costs_pure _

theorem costs_nbtNoting : Costs 1 (Nbt.nbtNoting counting) := by
  refine costs_readByte.bind fun type => ?_
  split
  · exact costs_pure none
  · refine costs_readName.weaken.bind fun _ => ?_
    intro before n
    exact ((costs_createNoting (n + 1) _).bind fun _ => costs_pure _) before n

/-! ## The result -/

/-- INTERNAL: counting has no part in the reading. -/
theorem alike_counting {σ : Type} (event : NbtEvent) :
    ReadsAlike (counting event) (pure () : PacketM σ Unit) := by
  intro begun s n
  cases event <;> exact .done ⟨rfl, rfl⟩

theorem size_root_le {bytes : List Byte} {root : Tag} (h : Document bytes (some root)) :
    WellFormed root ∧ size root ≤ bytes.length := by
  cases h with
  | root type name payload _ hname h =>
    refine ⟨wellFormed_of_payload h, ?_⟩
    have hsize := size_le_length h
    rw [List.length_append]
    omega

/-- SOURCE: nbt.cc:26-43, 138-199 — **reading a document ends, in a tree no larger than its bytes**.
With any bytes behind the packet, the constructor ends within the packet. A root it returns is
well-formed: each list has the type of all its items for its item type, and is compatible with that
type alone unless it is empty, and no tag is a `TAG_END`. The tags of the root and the elements of its
arrays are no more than the bytes consumed, and neither is its depth; and whether the reading succeeds
or not, no more tags and elements are begun than bytes are consumed, whatever the declared lengths. -/
theorem nbt_well_formed {σ : Type} (s : σ) (body rest : List Byte) :
    ∃ r used left, (Nbt.nbt s body.length).run (body ++ rest) = some (r, left) ∧
      body ++ rest = used ++ left ∧ used.length ≤ body.length ∧ r.1 ≠ .error .diverged ∧
      (∀ root, r.1 = .ok (some root) →
        WellFormed root ∧ size root ≤ used.length ∧ depth root ≤ used.length) ∧
      ∃ begun, (Nbt.nbtNoting counting 0 body.length).run (body ++ rest) =
          some ((r.1, begun, r.2.2), left) ∧ begun ≤ used.length := by
  obtain ⟨r, left, hrun, hdiverged⟩ := metered_nbt.run s body
  obtain ⟨⟨result, begun, n⟩, hnoting, hresult, hn⟩ :=
    (alike_nbtNoting alike_counting 0 s body.length).symm.run hrun
  obtain ⟨used, m, hsplit, hlength, -, hpaid⟩ :=
    Pull.split_of_run _ _ _ _ _ _ (costs_nbtNoting 0 body.length) hnoting
  refine ⟨r, used, left ++ rest, Pull.run_append _ _ rest _ _ hrun, ?_, by omega, hdiverged, ?_,
    begun, ?_, ?_⟩
  · rw [hsplit, List.append_assoc]
  · intro root hroot
    obtain ⟨-, used', hused, hspells⟩ := (sound_nbt s body r left hrun).1 _ hroot
    obtain rfl : used = used' := List.append_cancel_right (hsplit.symm.trans hused)
    obtain ⟨hwell, hsize⟩ := size_root_le hspells
    exact ⟨hwell, hsize, Nat.le_trans (depth_le_size root) hsize⟩
  · have hend : (r.1, begun, r.2.2) = (result, begun, n) := by
      rw [← show result = r.1 from hresult, ← show n = r.2.2 from hn]
    rw [hend]
    exact Pull.run_append _ _ rest _ _ hnoting
  · have hslack : slack result ≤ 1 := by cases result <;> simp [slack]
    simp only at hpaid
    omega

/-- INTERNAL: a compound with a list of two bytes. -/
theorem nbt_well_formed_nested :
    WellFormed (.compound [([], .list [.byte 3, .byte 4])]) ∧
      size (.compound [([], .list [.byte 3, .byte 4])]) ≤ 14 := by
  obtain ⟨r, used, left, hrun, hsplit, hlength, -, hwell, -⟩ :=
    nbt_well_formed () [10, 0, 0, 9, 0, 0, 1, 0, 0, 0, 2, 3, 4, 0] []
  have hroot : r.1 = .ok (some (.compound [([], .list [.byte 3, .byte 4])])) := by
    cases hrun
    rfl
  obtain ⟨hshape, hsize, -⟩ := hwell _ hroot
  exact ⟨hshape, Nat.le_trans hsize hlength⟩

end Mccpp.Analysis
