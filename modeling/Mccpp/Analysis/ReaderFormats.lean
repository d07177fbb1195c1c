import Mccpp.Interface.ByteFormat
import Mccpp.Analysis.ReaderRules

/-!
# What readers make of a format

`Sound p F`: over any bytes, what `p` returns is spelled by the bytes it took, and when it
brings the process down the format says so. `Fails p bs k`: over the bytes `bs`, `p` brings
the process down in the way `k`. Together with `Reads` they compare a reader with a format in
both directions, step by step.
-/

set_option autoImplicit false

namespace Mccpp.Analysis

open Mccpp.Library Mccpp.Model Mccpp.Model.PacketM Mccpp.Interface

variable {σ α β : Type}

/-- Over any bytes, `p` returns what the bytes it took spell, and breaks down only where the
format does. -/
def Sound (p : PacketM σ α) (F : ByteFormat α) : Prop :=
  ∀ s bs r left, (p s bs.length).run bs = some (r, left) →
    (∀ a, r.1 = .ok a →
      r.2 = (s, left.length) ∧ ∃ used, bs = used ++ left ∧ F.Spells used a) ∧
    ∀ e k, r.1 = .error e → breakdownOf e = some k → F.Breaks bs k

/-- Over these bytes, `p` brings the process down. -/
def Fails (p : PacketM σ α) (bs : List Byte) (k : Breakdown) : Prop :=
  ∀ s, ∃ e s' n left, (p s bs.length).run bs = some ((.error e, s', n), left) ∧
    breakdownOf e = some k

/-! ## Soundness -/

theorem sound_pure (a : α) : Sound (pure a : PacketM σ α) (.pure a) := by
  intro s bs r left h
  cases h
  refine ⟨fun b hb => ?_, fun e k he => nomatch he⟩
  cases hb
  exact ⟨rfl, [], rfl, rfl, rfl⟩

/-- INTERNAL: a C++ exception is sound for every format. -/
theorem sound_throw {e : Failure} (he : breakdownOf e = none) (F : ByteFormat α) :
    Sound (fail e : PacketM σ α) F := by
  intro s bs r left h
  cases h
  refine ⟨fun b hb => (nomatch hb), fun e' k he' hk => ?_⟩
  cases he'
  rw [he] at hk
  cases hk

theorem sound_abort : Sound (fail .abort : PacketM σ α) (.breakdown .aborts) := by
  intro s bs r left h
  cases h
  refine ⟨fun b hb => (nomatch hb), fun e k he hk => ?_⟩
  cases he
  cases hk
  rfl

theorem Sound.mono {p : PacketM σ α} {F G : ByteFormat α} (hp : Sound p F) (h : F.Within G) :
    Sound p G := by
  intro s bs r left hrun
  obtain ⟨hok, herror⟩ := hp s bs r left hrun
  refine ⟨fun a ha => ?_, fun e k he hk => h.breaks _ _ (herror e k he hk)⟩
  obtain ⟨hend, used, hbs, hspells⟩ := hok a ha
  exact ⟨hend, used, hbs, h.spells _ _ hspells⟩

/-- INTERNAL: **soundness of a sequence**. -/
theorem Sound.bind {p : PacketM σ α} {f : α → PacketM σ β} {F : ByteFormat α}
    {G : α → ByteFormat β} (hp : Sound p F) (hf : ∀ a, Sound (f a) (G a)) :
    Sound (p >>= f) (F.bind G) := by
  intro s bs r left hrun
  rw [bind_apply, Pull.run_bind] at hrun
  obtain ⟨⟨r₁, left₁⟩, hrun₁, hrun₂⟩ := Option.bind_eq_some_iff.mp hrun
  obtain ⟨hok, herror⟩ := hp s bs r₁ left₁ hrun₁
  obtain ⟨e | a, s₁, n₁⟩ := r₁
  · -- the first computation failed, and its failure is the result
    cases hrun₂
    refine ⟨fun b hb => (nomatch hb), fun e' k he' hk => ?_⟩
    cases he'
    exact Or.inl (herror _ k rfl hk)
  · obtain ⟨hend, used₁, rfl, hspells₁⟩ := hok a rfl
    cases hend
    obtain ⟨hok₂, herror₂⟩ := hf a s left₁ r left hrun₂
    refine ⟨fun b hb => ?_, fun e k he hk => ?_⟩
    · obtain ⟨hend₂, used₂, rfl, hspells₂⟩ := hok₂ b hb
      exact ⟨hend₂, used₁ ++ used₂, (List.append_assoc _ _ _).symm,
        used₁, used₂, a, rfl, hspells₁, hspells₂⟩
    · exact Or.inr ⟨used₁, left₁, a, rfl, hspells₁, herror₂ e k he hk⟩

/-- INTERNAL: a computation that hands its result to a pure function. -/
theorem Sound.map {p : PacketM σ α} {F : ByteFormat α} (hp : Sound p F) (g : α → β) :
    Sound (do let a ← p; pure (g a)) (F.map g) := by
  refine (hp.bind (f := fun a => pure (g a)) fun a => sound_pure (g a)).mono ⟨?_, ?_⟩
  · rintro _ _ ⟨us, vs, a, rfl, hspells, rfl, rfl⟩
    exact ⟨a, by rwa [List.append_nil], rfl⟩
  · rintro _ _ (hbreaks | ⟨_, _, _, _, _, hfalse⟩)
    · exact hbreaks
    · exact hfalse.elim

theorem Sound.times {p : PacketM σ α} {F : ByteFormat α} (hp : Sound p F) (n : ℕ) :
    Sound (times n p) (F.times n) := by
  induction n with
  | zero => exact sound_pure []
  | succ n ih => exact hp.bind fun a => ih.map _

theorem Sound.remaining_bind {f : ℕ → PacketM σ α} {F : ByteFormat α} (hf : ∀ n, Sound (f n) F) :
    Sound (remaining >>= f) F :=
  fun s bs r left hrun => hf bs.length s bs r left hrun

/-- INTERNAL: a reader of which every run is known is sound. -/
theorem sound_of_cases {p : PacketM σ α} {F : ByteFormat α}
    (h : ∀ bs, (∃ used left a, bs = used ++ left ∧ F.Spells used a ∧ Reads p used a) ∨
      ∃ k, F.Breaks bs k ∧ Fails p bs k) : Sound p F := by
  intro s bs r left hrun
  rcases h bs with ⟨used, rest, a, rfl, hspells, hreads⟩ | ⟨k, hbreaks, hfails⟩
  · have hlen : (used ++ rest).length - used.length = rest.length := by
      rw [List.length_append, Nat.add_sub_cancel_left]
    rw [hreads s _ rest (by simp), hlen] at hrun
    cases hrun
    refine ⟨fun b hb => ?_, fun e k he => nomatch he⟩
    cases hb
    exact ⟨rfl, used, rfl, hspells⟩
  · obtain ⟨e, s', n, left', hfail, hk⟩ := hfails s
    rw [hfail] at hrun
    cases hrun
    refine ⟨fun b hb => (nomatch hb), fun e' k' he' hk' => ?_⟩
    cases he'
    rw [hk] at hk'
    cases hk'
    exact hbreaks

/-! ## Failing -/

theorem Fails.bind {p : PacketM σ α} {f : α → PacketM σ β} {bs : List Byte} {k : Breakdown}
    (hp : Fails p bs k) : Fails (p >>= f) bs k := by
  intro s
  obtain ⟨e, s', n, left, hrun, hk⟩ := hp s
  refine ⟨e, s', n, left, ?_, hk⟩
  rw [bind_apply, Pull.run_bind, hrun]
  rfl

/-- INTERNAL: a failure behind what is read before it. -/
theorem Reads.bind_fails {p : PacketM σ α} {f : α → PacketM σ β} {us vs : List Byte} {a : α}
    {k : Breakdown} (hp : Reads p us a) (hf : Fails (f a) vs k) :
    Fails (p >>= f) (us ++ vs) k := by
  intro s
  obtain ⟨e, s', n, left, hrun, hk⟩ := hf s
  refine ⟨e, s', n, left, ?_, hk⟩
  rw [bind_apply, Pull.run_bind, hp s _ vs (by simp), Option.bind_some, andThen_ok,
    List.length_append, Nat.add_sub_cancel_left]
  exact hrun

theorem fails_abort (bs : List Byte) : Fails (fail .abort : PacketM σ α) bs .aborts :=
  fun s => ⟨.abort, s, bs.length, bs, rfl, rfl⟩

theorem Fails.remaining_bind {f : ℕ → PacketM σ α} {bs : List Byte} {k : Breakdown}
    (hf : Fails (f bs.length) bs k) : Fails (remaining >>= f) bs k :=
  fun s => hf s

/-- INTERNAL: a repetition fails behind fewer results than it is to collect. -/
theorem fails_times {p : PacketM σ α} {bs : List Byte} {k : Breakdown} {n : ℕ}
    {bss : List (List Byte)} {as : List α} (hp : List.Forall₂ (Reads p) bss as)
    (hlen : as.length < n) (hfail : Fails p bs k) : Fails (times n p) (bss.flatten ++ bs) k := by
  induction hp generalizing n with
  | nil =>
    obtain ⟨n, rfl⟩ := Nat.exists_eq_succ_of_ne_zero (Nat.ne_of_gt hlen)
    exact hfail.bind
  | cons hhead _ ih =>
    obtain ⟨n, rfl⟩ := Nat.exists_eq_succ_of_ne_zero (Nat.ne_of_gt (Nat.zero_lt_of_lt hlen))
    rw [List.flatten_cons, List.append_assoc]
    apply hhead.bind_fails
    exact (ih (Nat.lt_of_succ_lt_succ hlen)).bind

/-! ## The operations of the packet reader -/

theorem fails_readByte : Fails (readByte : PacketM σ Byte) [] .cutOff :=
  fun s => ⟨_, s, 0, [], rfl, rfl⟩

theorem sound_readByte : Sound (readByte : PacketM σ Byte) byteFormat := by
  apply sound_of_cases
  intro bs
  cases bs with
  | nil => exact Or.inr ⟨.cutOff, ⟨rfl, rfl⟩, fails_readByte⟩
  | cons b bs => exact Or.inl ⟨[b], bs, b, rfl, rfl, reads_readByte b⟩

/-- INTERNAL: reading bytes one by one fails its assert where the bytes end.
SOURCE: proto/packet.cc:185-193 -/
theorem fails_readCharArray {bs : List Byte} {k : ℕ} (h : bs.length < k) :
    Fails (readCharArray k : PacketM σ (List Byte)) bs .cutOff := by
  have hall : List.Forall₂ (Reads (readByte : PacketM σ Byte)) (bs.map fun b => [b]) bs := by
    rw [List.forall₂_map_left_iff, List.forall₂_same]
    exact fun b _ => reads_readByte b
  have hflat : (bs.map fun b => [b]).flatten ++ [] = bs := by
    rw [List.append_nil, ← List.flatMap_def, List.flatMap_singleton']
  rw [← hflat]
  exact fails_times hall h fails_readByte

/-- INTERNAL: a read of `k` bytes is sound when it takes any `k` bytes and fails on fewer. -/
theorem sound_of_width {p : PacketM σ α} {F : ByteFormat α} (k : ℕ)
    (hshort : ∀ bs : List Byte, bs.length < k → F.Breaks bs .cutOff ∧ Fails p bs .cutOff)
    (hlong : ∀ bs : List Byte, bs.length = k → ∃ a, F.Spells bs a ∧ Reads p bs a) :
    Sound p F := by
  apply sound_of_cases
  intro bs
  by_cases hk : bs.length < k
  · obtain ⟨hbreaks, hfails⟩ := hshort bs hk
    exact Or.inr ⟨.cutOff, hbreaks, hfails⟩
  · obtain ⟨a, hspells, hreads⟩ := hlong (bs.take k) (by rw [List.length_take]; omega)
    exact Or.inl ⟨bs.take k, bs.drop k, a, (List.take_append_drop k bs).symm, hspells, hreads⟩

theorem sound_readCharArray (k : ℕ) :
    Sound (readCharArray k : PacketM σ (List Byte)) (bytesFormat k) := by
  apply sound_of_width k
  · intro bs hk
    exact ⟨⟨rfl, hk⟩, fails_readCharArray hk⟩
  · rintro bs rfl
    exact ⟨bs, ⟨rfl, rfl⟩, reads_readCharArray bs⟩

theorem fails_readIntLoop {w k : ℕ} {bs : List Byte} (v : BitVec w) (h : bs.length < k) :
    Fails (readIntLoop w k v : PacketM σ (BitVec w)) bs .cutOff := by
  induction k generalizing bs v with
  | zero => omega
  | succ k ih =>
    cases bs with
    | nil => exact fails_readByte.bind
    | cons b bs => exact (reads_readByte b).bind_fails (ih _ (Nat.lt_of_succ_lt_succ h))

/-- INTERNAL: every string of `k` bytes is the number of `8 * k` bits it is big-endian for. -/
theorem spells_numberFormat {w k : ℕ} (hw : w = 8 * k) {bs : List Byte} (h : bs.length = k) :
    ∃ v : BitVec w, bs = bigEndian k v.toNat := by
  obtain ⟨m, hm, hbs⟩ := exists_bigEndian bs
  have hpow : 256 ^ k = 2 ^ w := by rw [hw, pow_mul]; norm_num
  refine ⟨BitVec.ofNat w m, ?_⟩
  rw [BitVec.toNat_ofNat, ← hpow, Nat.mod_eq_of_lt (h ▸ hm), ← h, hbs]

/-- INTERNAL: a reader that reads the numbers of `w` bits and fails on fewer bytes. -/
theorem sound_of_number {w : ℕ} (k : ℕ) (hw : w = 8 * k) {p : PacketM σ (BitVec w)}
    (hreads : ∀ v : BitVec w, Reads p (bigEndian k v.toNat) v)
    (hfails : ∀ bs : List Byte, bs.length < k → Fails p bs .cutOff) :
    Sound p (numberFormat w) := by
  have hk : w / 8 = k := by omega
  apply sound_of_width k
  · intro bs hlen
    exact ⟨⟨rfl, hk ▸ hlen⟩, hfails bs hlen⟩
  · intro bs hlen
    obtain ⟨v, rfl⟩ := spells_numberFormat hw hlen
    exact ⟨v, by rw [← hk]; rfl, hreads v⟩

theorem fails_readIntN {w k : ℕ} (hw : w = 8 * k) {bs : List Byte} (h : bs.length < k) :
    Fails (readIntN w : PacketM σ (BitVec w)) bs .cutOff := by
  have hk : w / 8 = k := by omega
  rw [readIntN, hk]
  exact fails_readIntLoop 0 h

theorem sound_readIntN {w : ℕ} (k : ℕ) (hw : w = 8 * k) :
    Sound (readIntN w : PacketM σ (BitVec w)) (numberFormat w) :=
  sound_of_number k hw (reads_readIntN k hw) fun _ h => fails_readIntN hw h

/-- INTERNAL: counting more bytes than there are fails the assert before any is pulled.
SOURCE: proto/packet.cc:83-89, 152-160, 173-183 -/
theorem fails_prepaid {k : ℕ} {bs : List Byte} (h : bs.length < k) (text : String)
    (f : List Byte → PacketM σ α) :
    Fails (do
      let remaining ← remaining
      require (k ≤ remaining) text
      setRemaining (remaining - k)
      let bytes ← PacketM.times k pullByte
      f bytes : PacketM σ α) bs .cutOff := by
  intro s
  refine ⟨.assertFailed text, s, bs.length, bs, ?_, rfl⟩
  rw [prepaid_apply, if_neg (by omega)]
  rfl

theorem fails_readFloatN {w k : ℕ} (hw : w = 8 * k) {bs : List Byte} (h : bs.length < k) :
    Fails (readFloatN w : PacketM σ (BitVec w)) bs .cutOff :=
  fails_prepaid (by omega) _ _

theorem sound_readFloatN {w : ℕ} (k : ℕ) (hw : w = 8 * k) :
    Sound (readFloatN w : PacketM σ (BitVec w)) (numberFormat w) :=
  sound_of_number k hw (reads_readFloatN k hw) fun _ h => fails_readFloatN hw h

end Mccpp.Analysis
