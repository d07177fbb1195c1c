import Mccpp.Library.Lockstep
import Mccpp.Model.NbtEvents
import Mccpp.Analysis.NbtBreakdown

/-!
# The hook of the tag reader

A hook that has no part in the reading leaves the reading as it is (`alike_createNoting`), and one
that does nothing gives back the reader without a hook (`createNoting_silent`).
-/

set_option autoImplicit false

namespace Mccpp.Analysis

open Mccpp.Library Mccpp.Model Mccpp.Model.PacketM Mccpp.Interface

variable {σ τ α β : Type}

/-! ## Readers that differ in their data -/

/-- The same result and the same count. -/
def SameEnd (r : Ended σ α) (r' : Ended τ α) : Prop := r.1 = r'.1 ∧ r.2.2 = r'.2.2

/-- `p` and `q` read alike, whatever their data are. -/
def ReadsAlike (p : PacketM σ α) (q : PacketM τ α) : Prop :=
  ∀ s t n, Pull.Lockstep SameEnd (p s n) (q t n)

theorem alike_pure (a : α) : ReadsAlike (pure a : PacketM σ α) (pure a : PacketM τ α) :=
  fun _ _ _ => .done ⟨rfl, rfl⟩

theorem alike_fail (e : Failure) : ReadsAlike (fail e : PacketM σ α) (fail e : PacketM τ α) :=
  fun _ _ _ => .done ⟨rfl, rfl⟩

theorem alike_setRemaining (m : ℕ) :
    ReadsAlike (setRemaining m : PacketM σ Unit) (setRemaining m : PacketM τ Unit) :=
  fun _ _ _ => .done ⟨rfl, rfl⟩

theorem alike_remaining : ReadsAlike (remaining : PacketM σ ℕ) (remaining : PacketM τ ℕ) :=
  fun _ _ _ => .done ⟨rfl, rfl⟩

theorem alike_pullByte : ReadsAlike (pullByte : PacketM σ Byte) (pullByte : PacketM τ Byte) :=
  fun _ _ _ => .pull fun _ => .done ⟨rfl, rfl⟩

theorem alike_require (condition : Bool) (text : String) :
    ReadsAlike (require condition text : PacketM σ Unit) (require condition text : PacketM τ Unit) := by
  unfold require
  split
  · exact alike_pure ()
  · exact alike_fail _

/-- INTERNAL: code in sequence. -/
theorem ReadsAlike.bind {p : PacketM σ α} {q : PacketM τ α} {f : α → PacketM σ β}
    {g : α → PacketM τ β} (hp : ReadsAlike p q) (hf : ∀ a, ReadsAlike (f a) (g a)) :
    ReadsAlike (p >>= f) (q >>= g) := by
  intro s t n
  rw [bind_apply, bind_apply]
  refine (hp s t n).bind ?_
  rintro ⟨e | a, s', n'⟩ ⟨_, t', _⟩ ⟨rfl, rfl⟩
  · exact .done ⟨rfl, rfl⟩
  · exact hf a s' t' n'

theorem ReadsAlike.times {p : PacketM σ α} {q : PacketM τ α} (hp : ReadsAlike p q) (k : ℕ) :
    ReadsAlike (times k p) (times k q) := by
  induction k with
  | zero => exact alike_pure []
  | succ k ih => exact hp.bind fun a => ih.bind fun as => alike_pure (a :: as)

theorem alike_readByte : ReadsAlike (readByte : PacketM σ Byte) (readByte : PacketM τ Byte) :=
  alike_remaining.bind fun _ => (alike_require _ _).bind fun _ =>
    (alike_setRemaining _).bind fun _ => alike_pullByte

theorem alike_readIntN (w : ℕ) :
    ReadsAlike (readIntN w : PacketM σ (BitVec w)) (readIntN w : PacketM τ (BitVec w)) := by
  have hloop : ∀ k (v : BitVec w), ReadsAlike (readIntLoop w k v : PacketM σ (BitVec w))
      (readIntLoop w k v : PacketM τ (BitVec w)) := by
    intro k
    induction k with
    | zero => exact fun v => alike_pure v
    | succ k ih => exact fun v => alike_readByte.bind fun b => ih _
  exact hloop _ _

theorem alike_readFloatN (w : ℕ) :
    ReadsAlike (readFloatN w : PacketM σ (BitVec w)) (readFloatN w : PacketM τ (BitVec w)) :=
  alike_remaining.bind fun _ => (alike_require _ _).bind fun _ =>
    (alike_setRemaining _).bind fun _ => (alike_pullByte.times _).bind fun _ => alike_pure _

theorem alike_readName :
    ReadsAlike (Nbt.readName : PacketM σ (List Byte)) (Nbt.readName : PacketM τ (List Byte)) :=
  (alike_readIntN 16).bind fun _ => alike_readByte.times _

/-! ## The reader with a hook -/

section Hook

variable {note : NbtEvent → PacketM σ Unit}
  (hnote : ∀ event, ReadsAlike (note event) (pure () : PacketM τ Unit))
include hnote

/-- INTERNAL: a call of the hook in front of other code. -/
theorem alike_note (event : NbtEvent) {p : PacketM σ α} {q : PacketM τ α} (h : ReadsAlike p q) :
    ReadsAlike (do note event; p) q :=
  (hnote event).bind fun _ => h

theorem alike_tagArrayNoting (w : ℕ) :
    ReadsAlike (Nbt.tagArrayNoting note w) (Nbt.tagArray w : PacketM τ (List (BitVec w))) := by
  refine (alike_readIntN 32).bind fun length => ?_
  split
  · exact alike_pure []
  · exact alike_note hnote _ ((alike_note hnote _ (alike_readIntN w)).times _)

theorem alike_tagListNoting {create : Option TagType → PacketM σ Tag}
    {create' : Option TagType → PacketM τ Tag} (h : ∀ type, ReadsAlike (create type) (create' type)) :
    ReadsAlike (Nbt.tagListNoting note create) (Nbt.tagList create') := by
  refine alike_readByte.bind fun type => (alike_readIntN 32).bind fun length => ?_
  split
  · exact alike_pure _
  · exact alike_note hnote _ (((h _).times _).bind fun _ => alike_pure _)

omit hnote in
theorem alike_compoundLoop {create : Option TagType → PacketM σ Tag}
    {create' : Option TagType → PacketM τ Tag} (h : ∀ type, ReadsAlike (create type) (create' type))
    (rounds : ℕ) : ReadsAlike (Nbt.compoundLoop create rounds) (Nbt.compoundLoop create' rounds) := by
  induction rounds with
  | zero => exact alike_fail _
  | succ rounds ih =>
    refine alike_readByte.bind fun type => ?_
    split
    · exact alike_pure []
    · exact alike_readName.bind fun name => (h _).bind fun child => ih.bind fun container =>
        alike_pure _

/-- INTERNAL: **the hook has no part in the reading**. -/
theorem alike_createNoting (fuel : ℕ) (type : Option TagType) :
    ReadsAlike (Nbt.createNoting note fuel type) (Nbt.create fuel type : PacketM τ Tag) := by
  induction fuel generalizing type with
  | zero => exact alike_fail _
  | succ fuel ih =>
    refine alike_note hnote _ ?_
    cases type with
    | none => exact alike_fail _
    | some type =>
      cases type with
      | tagEnd => exact alike_fail _
      | tagByte => exact (alike_readIntN 8).bind fun _ => alike_pure _
      | tagShort => exact (alike_readIntN 16).bind fun _ => alike_pure _
      | tagInt => exact (alike_readIntN 32).bind fun _ => alike_pure _
      | tagLong => exact (alike_readIntN 64).bind fun _ => alike_pure _
      | tagFloat => exact (alike_readFloatN 32).bind fun _ => alike_pure _
      | tagDouble => exact (alike_readFloatN 64).bind fun _ => alike_pure _
      | tagByteArray => exact alike_fail _
      | tagString => exact alike_readName.bind fun _ => alike_pure _
      | tagList => exact alike_tagListNoting hnote ih
      | tagCompound => exact (alike_compoundLoop ih _).bind fun _ => alike_pure _
      | tagIntArray => exact (alike_tagArrayNoting hnote 32).bind fun _ => alike_pure _
      | tagLongArray => exact (alike_tagArrayNoting hnote 64).bind fun _ => alike_pure _

theorem alike_nbtNoting :
    ReadsAlike (Nbt.nbtNoting note) (Nbt.nbt : PacketM τ (Option Tag)) := by
  refine alike_readByte.bind fun type => ?_
  split
  · exact alike_pure none
  · exact alike_readName.bind fun _ => alike_remaining.bind fun fuel =>
      (alike_createNoting hnote _ _).bind fun _ => alike_pure _

end Hook

/-- INTERNAL: a hook that does nothing.
SOURCE: nbt.cc:26-43, 138-187 -/
theorem createNoting_silent (fuel : ℕ) (type : Option TagType) :
    Nbt.createNoting (fun _ => (pure () : PacketM σ Unit)) fuel type = Nbt.create fuel type := by
  have harray : ∀ w, Nbt.tagArrayNoting (fun _ => (pure () : PacketM σ Unit)) w = Nbt.tagArray w :=
    fun _ => rfl
  have hlist : ∀ create : Option TagType → PacketM σ Tag,
      Nbt.tagListNoting (fun _ => pure ()) create = Nbt.tagList create := fun _ => rfl
  induction fuel generalizing type with
  | zero => rfl
  | succ fuel ih =>
    have hcreate : Nbt.createNoting (fun _ => (pure () : PacketM σ Unit)) fuel = Nbt.create fuel :=
      funext ih
    unfold Nbt.createNoting Nbt.create
    rw [pure_bind_eq, hcreate, hlist, harray, harray] <;> rfl

end Mccpp.Analysis
