import Mccpp.Library.BigEndian
import Mccpp.Model.PacketReader
import Mathlib.Tactic.Common

/-!
# Rules for code that reads from a packet

Two judgements about a `PacketM` computation, each with a rule for every operation of the
packet reader and one for sequencing, so that no later proof unfolds a read.

* `MeteredBelow bound p`: started with fewer than `bound` bytes remaining, `p` pulls no
  byte it has not counted, never reaches a recursion bound of the model, and unless the
  process ends its count and the source lose the same number of bytes.
* `Reads p bs a`: on a source that starts with `bs`, `p` takes exactly `bs` and returns `a`.
-/

set_option autoImplicit false

namespace Mccpp.Analysis

open Mccpp.Library Mccpp.Model Mccpp.Model.PacketM

variable {σ α β : Type}

/-! ## Equations of the monad -/

theorem bind_apply (p : PacketM σ α) (f : α → PacketM σ β) (s : σ) (n : ℕ) :
    (p >>= f) s n = (p s n).bind (andThen f) := rfl

@[simp] theorem pure_apply (a : α) (s : σ) (n : ℕ) :
    (pure a : PacketM σ α) s n = .done (.ok a, s, n) := rfl

@[simp] theorem fail_apply (e : Failure) (s : σ) (n : ℕ) :
    (fail e : PacketM σ α) s n = .done (.error e, s, n) := rfl

@[simp] theorem pullByte_apply (s : σ) (n : ℕ) :
    (pullByte : PacketM σ Byte) s n = .pull fun b => .done (.ok b, s, n) := rfl

@[simp] theorem andThen_ok (f : α → PacketM σ β) (a : α) (s : σ) (n : ℕ) :
    andThen f (.ok a, s, n) = f a s n := rfl

@[simp] theorem andThen_error (f : α → PacketM σ β) (e : Failure) (s : σ) (n : ℕ) :
    andThen f (.error e, s, n) = .done (.error e, s, n) := rfl

theorem pure_bind_eq (a : α) (f : α → PacketM σ β) : (pure a >>= f) = f a := rfl

theorem bind_assoc_eq {γ : Type} (p : PacketM σ α) (f : α → PacketM σ β)
    (g : β → PacketM σ γ) : (p >>= f) >>= g = p >>= fun a => f a >>= g := by
  funext s n
  simp only [bind_apply, Pull.bind_assoc]
  congr 1
  funext r
  obtain ⟨a | e, s', n'⟩ := r <;> rfl

/-- INTERNAL: reading a byte with none remaining fails its assert before anything is pulled. -/
@[simp] theorem readByte_zero (s : σ) :
    (readByte : PacketM σ Byte) s 0 = .done (.error (.assertFailed "m_remaining > 0"), s, 0) :=
  rfl

@[simp] theorem readByte_succ (s : σ) (n : ℕ) :
    (readByte : PacketM σ Byte) s (n + 1) = .pull fun b => .done (.ok b, s, n) := rfl

/-- INTERNAL: an operation that counts `k` bytes first and pulls them afterwards.
SOURCE: proto/packet.cc:83-89, 152-160 -/
theorem prepaid_apply (k : ℕ) (text : String) (f : List Byte → PacketM σ α) (s : σ) (n : ℕ) :
    (do
      let remaining ← remaining
      require (k ≤ remaining) text
      setRemaining (remaining - k)
      let bytes ← times k pullByte
      f bytes : PacketM σ α) s n =
    if k ≤ n then (times k pullByte >>= f) s (n - k)
    else .done (.error (.assertFailed text), s, n) := by
  by_cases hk : k ≤ n
  · rw [if_pos hk]
    simp only [bind_apply, remaining, require, setRemaining, hk, decide_true, if_true,
      Pull.bind_done, andThen_ok, pure_apply]
  · rw [if_neg hk]
    simp only [bind_apply, remaining, require, hk, decide_false, Bool.false_eq_true, if_false,
      Pull.bind_done, andThen_ok, fail_apply, andThen_error]

/-! ## Metering -/

/-- The count at the end is what is left of the budget, unless the process ended; and no
recursion bound of the model was reached. -/
def Accounted (r : Ended σ α) (m : ℕ) : Prop :=
  r.1 ≠ .error .diverged ∧ ((∀ e, r.1 = .error e → e.isException = true) → r.2.2 = m)

/-- Started with fewer than `bound` bytes remaining, `p` is accounted for. -/
def MeteredBelow (bound : ℕ) (p : PacketM σ α) : Prop :=
  ∀ s n, n < bound → (p s n).Within Accounted n

/-- `p` is accounted for, whatever remains. -/
def Metered (p : PacketM σ α) : Prop := ∀ bound, MeteredBelow bound p

theorem accounted_ok {a : α} {s : σ} {n m : ℕ} : Accounted (.ok a, s, n) m ↔ n = m := by
  simp [Accounted]

theorem accounted_error {e : Failure} {s : σ} {n m : ℕ} :
    Accounted ((.error e, s, n) : Ended σ α) m ↔
      e ≠ .diverged ∧ (e.isException = true → n = m) := by
  simp [Accounted]

theorem meteredBelow_pure (bound : ℕ) (a : α) : MeteredBelow bound (pure a : PacketM σ α) :=
  fun s n _ => by simp [accounted_ok]

theorem meteredBelow_fail (bound : ℕ) {e : Failure} (he : e ≠ .diverged) :
    MeteredBelow bound (fail e : PacketM σ α) :=
  fun s n _ => by simp [accounted_error, he]

/-- INTERNAL: **sequencing**. The second computation starts with no more bytes than the
first did. -/
theorem MeteredBelow.bind {bound : ℕ} {p : PacketM σ α} {f : α → PacketM σ β}
    (hp : MeteredBelow bound p) (hf : ∀ a, MeteredBelow bound (f a)) :
    MeteredBelow bound (p >>= f) := by
  intro s n hn
  rw [bind_apply, Pull.within_bind]
  refine (hp s n hn).mono ?_
  rintro ⟨a | e, s', n'⟩ m hm hacc
  · rw [andThen_error, Pull.within_done]
    exact accounted_error.mpr (accounted_error.mp hacc)
  · obtain rfl := accounted_ok.mp hacc
    exact hf _ s' n' (by omega)

/-- INTERNAL: what follows a byte starts with one byte less. -/
theorem meteredBelow_readByte_bind {bound : ℕ} {f : Byte → PacketM σ α}
    (hf : ∀ b, MeteredBelow bound (f b)) : MeteredBelow (bound + 1) (readByte >>= f) := by
  intro s n hn
  rw [bind_apply]
  cases n with
  | zero => simp [accounted_error, Failure.isException]
  | succ n => exact fun b => hf b s n (by omega)

theorem Metered.bind {p : PacketM σ α} {f : α → PacketM σ β} (hp : Metered p)
    (hf : ∀ a, Metered (f a)) : Metered (p >>= f) :=
  fun bound => (hp bound).bind fun a => hf a bound

theorem MeteredBelow.anti {bound bound' : ℕ} {p : PacketM σ α} (hp : MeteredBelow bound p)
    (h : bound' ≤ bound) : MeteredBelow bound' p :=
  fun s n hn => hp s n (Nat.lt_of_lt_of_le hn h)

theorem metered_pure (a : α) : Metered (pure a : PacketM σ α) :=
  fun bound => meteredBelow_pure bound a

theorem metered_fail {e : Failure} (he : e ≠ .diverged) : Metered (fail e : PacketM σ α) :=
  fun bound => meteredBelow_fail bound he

theorem metered_readByte : Metered (readByte : PacketM σ Byte) := by
  intro bound s n _
  cases n with
  | zero => simp [accounted_error, Failure.isException]
  | succ n => exact fun b => by simp [accounted_ok]

/-- INTERNAL: a computation that looks at the count starts with exactly that many bytes. -/
theorem metered_remaining_bind {f : ℕ → PacketM σ α} (hf : ∀ n, MeteredBelow (n + 1) (f n)) :
    Metered (remaining >>= f) :=
  fun _ s n _ => hf n s n (Nat.lt_succ_self n)

theorem metered_require (condition : Bool) (text : String) :
    Metered (require condition text : PacketM σ Unit) := by
  unfold require
  split
  · exact metered_pure ()
  · exact metered_fail (by simp)

theorem MeteredBelow.times {bound : ℕ} {p : PacketM σ α} (hp : MeteredBelow bound p) (k : ℕ) :
    MeteredBelow bound (times k p) := by
  induction k with
  | zero => exact meteredBelow_pure bound []
  | succ k ih => exact hp.bind fun a => ih.bind fun as => meteredBelow_pure bound (a :: as)

theorem Metered.times {p : PacketM σ α} (hp : Metered p) (k : ℕ) : Metered (times k p) :=
  fun bound => (hp bound).times k

/-- INTERNAL: `k` calls of the callback alone take `k` bytes and touch nothing else. -/
theorem times_pullByte_within (k n : ℕ) (hk : k ≤ n) (s : σ) (r : ℕ) :
    ((times k pullByte : PacketM σ (List Byte)) s r).Within
      (fun e m => (∃ bs : List Byte, e = (.ok bs, s, r)) ∧ m + k = n) n := by
  induction k generalizing n with
  | zero => exact ⟨⟨[], rfl⟩, rfl⟩
  | succ k ih =>
    obtain ⟨n, rfl⟩ := Nat.exists_eq_succ_of_ne_zero (Nat.ne_of_gt (by omega : 0 < n))
    intro b
    show ((times k pullByte >>= fun bs => pure (b :: bs) : PacketM σ (List Byte)) s r).Within _ n
    rw [bind_apply, Pull.within_bind]
    refine (ih n (by omega)).mono ?_
    rintro e m hm ⟨⟨bs, rfl⟩, hsum⟩
    exact ⟨⟨b :: bs, rfl⟩, by omega⟩

/-- INTERNAL: counting the bytes before pulling them comes to the same.
SOURCE: proto/packet.cc:83-89, 152-160, 173-183 -/
theorem metered_prepaid (k : ℕ) (text : String) {f : List Byte → PacketM σ α}
    (hf : ∀ bs, Metered (f bs)) :
    Metered (do
      let remaining ← remaining
      require (k ≤ remaining) text
      setRemaining (remaining - k)
      let bytes ← PacketM.times k pullByte
      f bytes : PacketM σ α) := by
  intro bound s n hn
  rw [prepaid_apply]
  split
  · rename_i hk
    rw [bind_apply, Pull.within_bind]
    refine (times_pullByte_within k n hk s (n - k)).mono ?_
    rintro e m hm ⟨⟨bs, rfl⟩, hsum⟩
    obtain rfl : n - k = m := by omega
    exact hf bs bound s (n - k) (by omega)
  · simp [accounted_error, Failure.isException]

theorem metered_discard (k : ℕ) : Metered (discard k : PacketM σ Unit) :=
  metered_prepaid k _ fun _ => metered_pure ()

theorem metered_readFloatN (w : ℕ) : Metered (readFloatN w : PacketM σ (BitVec w)) :=
  metered_prepaid (w / 8) _ fun _ => metered_pure _

theorem metered_readCharArray (k : ℕ) : Metered (readCharArray k : PacketM σ (List Byte)) :=
  metered_readByte.times k

theorem metered_readIntLoop (w k : ℕ) (v : BitVec w) :
    Metered (readIntLoop w k v : PacketM σ (BitVec w)) := by
  induction k generalizing v with
  | zero => exact metered_pure v
  | succ k ih => exact metered_readByte.bind fun b => ih _

theorem metered_readIntN (w : ℕ) : Metered (readIntN w : PacketM σ (BitVec w)) :=
  metered_readIntLoop w (w / 8) 0

theorem metered_readBool : Metered (readBool : PacketM σ Bool) := by
  refine metered_readByte.bind fun b => ?_
  split
  · exact metered_pure false
  · split
    · exact metered_pure true
    · exact metered_fail (by simp)

/-- INTERNAL: the loop ends at a byte without continuation bit or when the position passes
the width, which is before `fuel` rounds when `w ≤ position + 7 * fuel`.
SOURCE: proto/varint.hh:37-61 -/
theorem metered_readVarintLoop (w fuel : ℕ) (value : BitVec w) (position : ℕ)
    (hfuel : w ≤ position + 7 * fuel) (hpos : position < w) :
    Metered (readVarintLoop w fuel value position : PacketM σ (BitVec w)) := by
  induction fuel generalizing value position with
  | zero => omega
  | succ fuel ih =>
    refine metered_readByte.bind fun b => ?_
    split
    · exact metered_pure _
    · rename_i v p hstep
      simp only [asyncReadStep] at hstep
      split at hstep
      · cases hstep
      · split at hstep
        · cases hstep
        · cases hstep
          exact ih _ _ (by omega) (by omega)
    · exact metered_fail (by simp)

theorem metered_readVarint : Metered (readVarint : PacketM σ (BitVec 32)) :=
  metered_readVarintLoop 32 32 0 0 (by omega) (by omega)

theorem metered_readString (max : ℕ) : Metered (readString max : PacketM σ (List Byte)) := by
  refine (metered_require _ _).bind fun _ => metered_readVarint.bind fun length => ?_
  split
  · exact metered_fail (by simp)
  · split
    · exact metered_fail (by simp)
    · exact metered_readCharArray _

theorem metered_readUuid : Metered (readUuid : PacketM σ (BitVec 64 × BitVec 64)) :=
  (metered_readIntN 64).bind fun _ => (metered_readIntN 64).bind fun _ => metered_pure _

/-- INTERNAL: a metered computation over all its bytes runs to an end that is no recursion
bound, within those bytes. -/
theorem Metered.run {p : PacketM σ α} (hp : Metered p) (s : σ) (bs : List Byte) :
    ∃ r left, (p s bs.length).run bs = some (r, left) ∧ r.1 ≠ .error .diverged := by
  obtain ⟨r, m, hrun, hacc, _⟩ :=
    Pull.run_of_within _ _ _ bs (hp (bs.length + 1) s bs.length (Nat.lt_succ_self _))
      (Nat.le_refl _)
  exact ⟨r, _, hrun, hacc.1⟩

/-! ## What is thrown -/

/-- Every failure `p` ends with satisfies `E`. -/
def FailsWith (E : Failure → Prop) (p : PacketM σ α) : Prop :=
  ∀ s n bs e s' n' left, (p s n).run bs = some ((.error e, s', n'), left) → E e

theorem failsWith_pure (E : Failure → Prop) (a : α) : FailsWith E (pure a : PacketM σ α) := by
  intro s n bs e s' n' left h
  cases h

theorem failsWith_fail {E : Failure → Prop} {e : Failure} (he : E e) :
    FailsWith E (fail e : PacketM σ α) := by
  intro s n bs e' s' n' left h
  cases h
  exact he

theorem FailsWith.bind {E : Failure → Prop} {p : PacketM σ α} {f : α → PacketM σ β}
    (hp : FailsWith E p) (hf : ∀ a, FailsWith E (f a)) : FailsWith E (p >>= f) := by
  intro s n bs e s' n' left h
  rw [bind_apply, Pull.run_bind] at h
  obtain ⟨⟨⟨e₁ | a, s₁, n₁⟩, left₁⟩, hrun₁, hrun₂⟩ := Option.bind_eq_some_iff.mp h
  · cases hrun₂
    exact hp _ _ _ _ _ _ _ hrun₁
  · exact hf a _ _ _ _ _ _ _ hrun₂

theorem FailsWith.times {E : Failure → Prop} {p : PacketM σ α} (hp : FailsWith E p) (k : ℕ) :
    FailsWith E (times k p) := by
  induction k with
  | zero => exact failsWith_pure E []
  | succ k ih => exact hp.bind fun a => ih.bind fun as => failsWith_pure E (a :: as)

section AssertsOnly

variable {E : Failure → Prop} (hE : ∀ text, E (.assertFailed text))
include hE

theorem failsWith_readByte : FailsWith E (readByte : PacketM σ Byte) := by
  intro s n bs e s' n' left h
  cases n with
  | zero =>
    cases h
    exact hE _
  | succ n => cases bs <;> cases h

theorem failsWith_readIntLoop (w k : ℕ) (v : BitVec w) :
    FailsWith E (readIntLoop w k v : PacketM σ (BitVec w)) := by
  induction k generalizing v with
  | zero => exact failsWith_pure E v
  | succ k ih => exact (failsWith_readByte hE).bind fun b => ih _

theorem failsWith_readCharArray (k : ℕ) :
    FailsWith E (readCharArray k : PacketM σ (List Byte)) :=
  (failsWith_readByte hE).times k

theorem failsWith_readFloatN (w : ℕ) : FailsWith E (readFloatN w : PacketM σ (BitVec w)) := by
  have hpull : FailsWith E (times (w / 8) pullByte : PacketM σ (List Byte)) := by
    apply FailsWith.times
    intro s n bs e s' n' left h
    cases bs <;> cases h
  intro s n bs e s' n' left h
  rw [readFloatN, prepaid_apply] at h
  split at h
  · exact hpull.bind (fun _ => failsWith_pure E _) _ _ _ _ _ _ _ h
  · cases h
    exact hE _

end AssertsOnly

/-! ## Exact reads -/

/-- On a source that starts with `bs`, `p` takes exactly `bs` and returns `a`. -/
def Reads (p : PacketM σ α) (bs : List Byte) (a : α) : Prop :=
  ∀ s n rest, bs.length ≤ n →
    (p s n).run (bs ++ rest) = some ((.ok a, s, n - bs.length), rest)

theorem reads_pure (a : α) : Reads (pure a : PacketM σ α) [] a := fun _ _ _ _ => rfl

theorem Reads.bind {p : PacketM σ α} {f : α → PacketM σ β} {bs cs : List Byte} {a : α} {b : β}
    (hp : Reads p bs a) (hf : Reads (f a) cs b) : Reads (p >>= f) (bs ++ cs) b := by
  intro s n rest hn
  rw [List.length_append] at hn
  rw [bind_apply, Pull.run_bind, List.append_assoc, hp s n (cs ++ rest) (by omega),
    Option.bind_some, andThen_ok, hf s (n - bs.length) rest (by omega), List.length_append,
    Nat.sub_sub]

/-- INTERNAL: a computation that reads `bs` and hands its result to a pure function. -/
theorem Reads.map {p : PacketM σ α} {bs : List Byte} {a : α} (hp : Reads p bs a) (g : α → β) :
    Reads (do let a ← p; pure (g a)) bs (g a) := by
  simpa using hp.bind (f := fun a => pure (g a)) (reads_pure (g a))

/-- INTERNAL: a computation that looks at the count finds at least what it is about to read. -/
theorem Reads.remaining_bind {f : ℕ → PacketM σ α} {bs : List Byte} {a : α}
    (hf : ∀ n, bs.length ≤ n → Reads (f n) bs a) : Reads (remaining >>= f) bs a :=
  fun s n rest hn => hf n hn s n rest hn

theorem reads_readByte (b : Byte) : Reads (readByte : PacketM σ Byte) [b] b := by
  intro s n rest hn
  obtain ⟨n, rfl⟩ := Nat.exists_eq_succ_of_ne_zero (Nat.ne_of_gt hn)
  rfl

theorem Reads.times {p : PacketM σ α} {bss : List (List Byte)} {as : List α}
    (h : List.Forall₂ (Reads p) bss as) :
    Reads (PacketM.times as.length p) bss.flatten as := by
  induction h with
  | nil => exact reads_pure []
  | cons hhead _ ih =>
    rw [List.flatten_cons]
    exact hhead.bind (ih.map _)

theorem reads_readCharArray (bs : List Byte) :
    Reads (readCharArray bs.length : PacketM σ (List Byte)) bs bs := by
  induction bs with
  | nil => exact reads_pure []
  | cons b bs ih => exact (reads_readByte b).bind (ih.map _)

/-- INTERNAL: `k` bytes pulled behind the count's back. -/
theorem run_times_pullByte (bs rest : List Byte) (s : σ) (n : ℕ) :
    ((times bs.length pullByte : PacketM σ (List Byte)) s n).run (bs ++ rest) =
      some ((.ok bs, s, n), rest) := by
  induction bs with
  | nil => rfl
  | cons b bs ih =>
    show ((times bs.length pullByte >>= fun as => pure (b :: as) : PacketM σ (List Byte)) s n).run
      (bs ++ rest) = _
    rw [bind_apply, Pull.run_bind, ih]
    rfl

theorem reads_prepaid (bs : List Byte) (text : String) (g : List Byte → α) :
    Reads (do
      let remaining ← remaining
      require (bs.length ≤ remaining) text
      setRemaining (remaining - bs.length)
      let bytes ← PacketM.times bs.length pullByte
      pure (g bytes) : PacketM σ α) bs (g bs) := by
  intro s n rest hn
  rw [prepaid_apply, if_pos hn, bind_apply, Pull.run_bind, run_times_pullByte]
  rfl

theorem reads_readIntLoop (w k m : ℕ) (v : BitVec w) :
    Reads (readIntLoop w k v : PacketM σ (BitVec w)) (bigEndian k m)
      (v + BitVec.ofNat w (m % 256 ^ k)) := by
  induction k generalizing v with
  | zero =>
    rw [pow_zero, Nat.mod_one, BitVec.add_zero]
    exact reads_pure v
  | succ k ih =>
    rw [← ofNat_shift_add, ← BitVec.add_assoc]
    exact (reads_readByte _).bind (ih _)

/-- INTERNAL: an integer of `8 * k` bits is read from its big-endian bytes.
SOURCE: proto/packet.cc:162-171 -/
theorem reads_readIntN {w : ℕ} (k : ℕ) (hw : w = 8 * k) (v : BitVec w) :
    Reads (readIntN w : PacketM σ (BitVec w)) (bigEndian k v.toNat) v := by
  have hk : w / 8 = k := by omega
  have hlt : v.toNat % 256 ^ k = v.toNat := by
    apply Nat.mod_eq_of_lt
    calc v.toNat < 2 ^ w := v.isLt
      _ = 256 ^ k := by rw [hw, pow_mul]; norm_num
  have h := reads_readIntLoop (σ := σ) w k v.toNat 0
  rw [hlt, BitVec.ofNat_toNat, BitVec.setWidth_eq] at h
  rw [readIntN, hk]
  simpa using h

/-- INTERNAL: bytes stored from the last to the first and then taken as native memory are
the number they are big-endian for.
SOURCE: proto/packet.cc:173-183 -/
theorem bitCastBytes_reverse (w k m : ℕ) (hw : 8 * k ≤ w) :
    bitCastBytes w (bigEndian k m).reverse = BitVec.ofNat w (m % 256 ^ k) := by
  induction k generalizing m with
  | zero => rw [pow_zero, Nat.mod_one]; rfl
  | succ k ih =>
    have hpow : (256 : ℕ) ^ k * 256 ≤ 2 ^ w := by
      calc (256 : ℕ) ^ k * 256 = 2 ^ (8 * (k + 1)) := by rw [pow_mul, pow_succ]; norm_num
        _ ≤ 2 ^ w := Nat.pow_le_pow_right (by omega) hw
    have hhigh : m / 256 % 256 ^ k < 256 ^ k := Nat.mod_lt _ (Nat.pow_pos (by omega))
    have hlow : m % 2 ^ 8 < 2 ^ 8 := Nat.mod_lt _ (by omega)
    have hmod : m % 256 ^ (k + 1) = 2 ^ 8 * (m / 256 % 256 ^ k) + m % 2 ^ 8 := by
      rw [pow_succ, Nat.mul_comm, Nat.mod_mul, Nat.add_comm]; norm_num
    rw [bigEndian_succ_last, List.reverse_append, List.reverse_singleton, List.singleton_append,
      bitCastBytes, ih _ (by omega)]
    apply BitVec.eq_of_toNat_eq
    rw [hmod, BitVec.toNat_or, BitVec.toNat_shiftLeft, BitVec.toNat_setWidth, BitVec.toNat_ofNat,
      BitVec.toNat_ofNat, BitVec.toNat_ofNat, Nat.shiftLeft_eq, Nat.mul_comm _ (2 ^ 8),
      Nat.mod_eq_of_lt (a := m / 256 % 256 ^ k) (by omega),
      Nat.mod_eq_of_lt (a := m % 2 ^ 8) (by omega),
      Nat.mod_eq_of_lt (a := 2 ^ 8 * (m / 256 % 256 ^ k)) (by omega),
      Nat.mod_eq_of_lt (b := 2 ^ w) (by omega), Nat.or_comm, Nat.two_pow_add_eq_or_of_lt hlow]

theorem reads_readFloatN {w : ℕ} (k : ℕ) (hw : w = 8 * k) (v : BitVec w) :
    Reads (readFloatN w : PacketM σ (BitVec w)) (bigEndian k v.toNat) v := by
  have hlt : v.toNat % 256 ^ k = v.toNat := by
    apply Nat.mod_eq_of_lt
    calc v.toNat < 2 ^ w := v.isLt
      _ = 256 ^ k := by rw [hw, pow_mul]; norm_num
  have hk : w / 8 = (bigEndian k v.toNat).length := by rw [length_bigEndian]; omega
  have h := reads_prepaid (σ := σ) (bigEndian k v.toNat) "m_remaining >= sizeof(T)"
    fun bytes => bitCastBytes w bytes.reverse
  rw [bitCastBytes_reverse w k _ (by omega), hlt, BitVec.ofNat_toNat, BitVec.setWidth_eq, ← hk] at h
  exact h

end Mccpp.Analysis
