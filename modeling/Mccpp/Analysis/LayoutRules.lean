import Mccpp.Interface.Layout
import Mccpp.Analysis.ReaderFormats

/-!
# Code that follows a layout

`Follows p F`: over the bytes that are left of a packet, and whatever data it works on, `p`
returns exactly what the layout `F` says they spell, and brings the process down exactly where
the layout breaks. Whatever neither spells a value nor breaks ends in a C++ exception. There is
a rule for each way of putting code together, so that a handler is compared with its layout
field by field.
-/

set_option autoImplicit false

namespace Mccpp.Analysis

open Mccpp.Library Mccpp.Model Mccpp.Model.PacketM Mccpp.Interface

variable {σ α β : Type}

/-- `p` does over any bytes what the layout says about them. -/
structure Follows (p : PacketM σ α) (F : Layout σ α) : Prop where
  sound : ∀ s bs r left, (p s bs.length).run bs = some (r, left) →
    (∀ a, r.1 = .ok a →
      r.2.2 = left.length ∧ ∃ used, bs = used ++ left ∧ (F s).Spells used (a, r.2.1)) ∧
    ∀ e k, r.1 = .error e → breakdownOf e = some k → (F s).Breaks bs k
  reads : ∀ s us left a s', (F s).Spells us (a, s') →
    (p s (us ++ left).length).run (us ++ left) = some ((.ok a, s', left.length), left)
  fails : ∀ s bs k, (F s).Breaks bs k →
    ∃ e s' n left, (p s bs.length).run bs = some ((.error e, s', n), left) ∧
      breakdownOf e = some k

/-! ## Putting code together -/

theorem follows_pure (a : α) : Follows (pure a : PacketM σ α) (.pure a) where
  sound := by
    intro s bs r left h
    cases h
    refine ⟨fun b hb => ?_, fun e k he => nomatch he⟩
    cases hb
    exact ⟨rfl, [], rfl, rfl, rfl⟩
  reads := by
    rintro s _ left b s' ⟨rfl, hb⟩
    cases hb
    rfl
  fails := fun _ _ _ h => h.elim

theorem follows_set (t : σ) : Follows (set t : PacketM σ Unit) (.set t) where
  sound := by
    intro s bs r left h
    cases h
    refine ⟨fun b hb => ?_, fun e k he => nomatch he⟩
    cases hb
    exact ⟨rfl, [], rfl, rfl, rfl⟩
  reads := by
    rintro s _ left b s' ⟨rfl, hb⟩
    cases hb
    rfl
  fails := fun _ _ _ h => h.elim

/-- INTERNAL: a C++ exception refuses every input. -/
theorem follows_throw {e : Failure} (he : breakdownOf e = none) :
    Follows (fail e : PacketM σ α) .refuse where
  sound := by
    intro s bs r left h
    cases h
    refine ⟨fun b hb => (nomatch hb), fun e' k he' hk => ?_⟩
    cases he'
    rw [he] at hk
    cases hk
  reads := fun _ _ _ _ _ h => h.elim
  fails := fun _ _ _ h => h.elim

theorem follows_abort : Follows (fail .abort : PacketM σ α) (.breakdown .aborts) where
  sound := by
    intro s bs r left h
    cases h
    refine ⟨fun b hb => (nomatch hb), fun e k he hk => ?_⟩
    cases he
    cases hk
    rfl
  reads := fun _ _ _ _ _ h => h.elim
  fails := by
    rintro s bs _ rfl
    exact ⟨.abort, s, bs.length, bs, rfl, rfl⟩

/-- `p` does over everything that is left of a packet what the layout says about it. -/
structure Ends (p : PacketM σ α) (F : Layout σ α) : Prop where
  sound : ∀ s bs r left, (p s bs.length).run bs = some (r, left) →
    (∀ a, r.1 = .ok a →
      r.2.2 = left.length ∧ ∃ used, bs = used ++ left ∧ (F s).Spells used (a, r.2.1)) ∧
    ∀ e k, r.1 = .error e → breakdownOf e = some k → (F s).Breaks bs k
  fails : ∀ s bs k, (F s).Breaks bs k →
    ∃ e s' n left, (p s bs.length).run bs = some ((.error e, s', n), left) ∧
      breakdownOf e = some k

theorem Follows.ends {p : PacketM σ α} {F : Layout σ α} (hp : Follows p F) : Ends p F :=
  ⟨hp.sound, hp.fails⟩

/-- INTERNAL: **code in sequence**, the last of a packet. Where the second part breaks, the first
has to leave it exactly these bytes. -/
theorem Ends.bind {p : PacketM σ α} {f : α → PacketM σ β} {F : Layout σ α}
    {G : α → Layout σ β} (hp : Ends p F) (hf : ∀ a, Ends (f a) (G a))
    (hleaves : ∀ s us vs a s' k, (F s).Spells us (a, s') → (G a s').Breaks vs k →
      (p s (us ++ vs).length).run (us ++ vs) = some ((.ok a, s', vs.length), vs)) :
    Ends (p >>= f) (F.bind G) where
  sound := by
    intro s bs r left hrun
    rw [bind_apply, Pull.run_bind] at hrun
    obtain ⟨⟨r₁, left₁⟩, hrun₁, hrun₂⟩ := Option.bind_eq_some_iff.mp hrun
    obtain ⟨hok, herror⟩ := hp.sound s bs r₁ left₁ hrun₁
    obtain ⟨e | a, s₁, n₁⟩ := r₁
    · cases hrun₂
      refine ⟨fun b hb => (nomatch hb), fun e' k he' hk => ?_⟩
      cases he'
      exact Or.inl (herror _ k rfl hk)
    · obtain ⟨hcount, used₁, rfl, hspells₁⟩ := hok a rfl
      cases hcount
      obtain ⟨hok₂, herror₂⟩ := (hf a).sound s₁ left₁ r left hrun₂
      refine ⟨fun b hb => ?_, fun e k he hk => ?_⟩
      · obtain ⟨hcount₂, used₂, rfl, hspells₂⟩ := hok₂ b hb
        exact ⟨hcount₂, used₁ ++ used₂, (List.append_assoc _ _ _).symm,
          used₁, used₂, (a, s₁), rfl, hspells₁, hspells₂⟩
      · exact Or.inr ⟨used₁, left₁, (a, s₁), rfl, hspells₁, herror₂ e k he hk⟩
  fails := by
    rintro s bs k (hbreaks | ⟨us, vs, ⟨a, s₁⟩, rfl, hspells, hbreaks⟩)
    · obtain ⟨e, s', n, left, hrun, hk⟩ := hp.fails s bs k hbreaks
      refine ⟨e, s', n, left, ?_, hk⟩
      rw [bind_apply, Pull.run_bind, hrun]
      rfl
    · obtain ⟨e, s', n, left, hrun, hk⟩ := (hf a).fails s₁ vs k hbreaks
      refine ⟨e, s', n, left, ?_, hk⟩
      rw [bind_apply, Pull.run_bind, hleaves s us vs a s₁ k hspells hbreaks, Option.bind_some,
        andThen_ok]
      exact hrun

theorem Follows.bind_ends {p : PacketM σ α} {f : α → PacketM σ β} {F : Layout σ α}
    {G : α → Layout σ β} (hp : Follows p F) (hf : ∀ a, Ends (f a) (G a)) :
    Ends (p >>= f) (F.bind G) :=
  hp.ends.bind hf fun s us vs a s' _ hspells _ => hp.reads s us vs a s' hspells

/-- INTERNAL: **code in sequence**. -/
theorem Follows.bind {p : PacketM σ α} {f : α → PacketM σ β} {F : Layout σ α}
    {G : α → Layout σ β} (hp : Follows p F) (hf : ∀ a, Follows (f a) (G a)) :
    Follows (p >>= f) (F.bind G) where
  sound := (hp.bind_ends fun a => (hf a).ends).sound
  reads := by
    rintro s _ left b s' ⟨us, vs, ⟨a, s₁⟩, rfl, hspells₁, hspells₂⟩
    rw [bind_apply, Pull.run_bind, List.append_assoc, hp.reads s us (vs ++ left) a s₁ hspells₁,
      Option.bind_some, andThen_ok]
    exact (hf a).reads s₁ vs left b s' hspells₂
  fails := (hp.bind_ends fun a => (hf a).ends).fails

theorem Follows.times {p : PacketM σ α} {F : Layout σ α} (hp : Follows p F) (n : ℕ) :
    Follows (times n p) (F.times n) := by
  induction n with
  | zero => exact follows_pure []
  | succ n ih => exact hp.bind fun a => ih.bind fun as => follows_pure (a :: as)

/-- INTERNAL: code that does not touch the data, compared with a format in both directions. -/
theorem follows_lift {p : PacketM σ α} {F : ByteFormat α} (hsound : Sound p F)
    (hreads : ∀ us a, F.Spells us a → Reads p us a)
    (hfails : ∀ bs k, F.Breaks bs k → Fails p bs k) : Follows p (.lift F) where
  sound := by
    intro s bs r left hrun
    obtain ⟨hok, herror⟩ := hsound s bs r left hrun
    refine ⟨fun a ha => ?_, herror⟩
    obtain ⟨hend, used, hbs, hspells⟩ := hok a ha
    rw [hend]
    exact ⟨rfl, used, hbs, a, hspells, rfl⟩
  reads := by
    rintro s us left _ _ ⟨a, hspells, hpair⟩
    cases hpair
    have hrun := hreads us _ hspells s (us ++ left).length left (by simp)
    rwa [List.length_append, Nat.add_sub_cancel_left, ← List.length_append] at hrun
  fails := fun s bs k hbreaks => hfails bs k hbreaks s

/-- Formats are equal when they say the same. -/
theorem format_ext {F G : ByteFormat α} (hspells : ∀ bs a, F.Spells bs a ↔ G.Spells bs a)
    (hbreaks : ∀ bs k, F.Breaks bs k ↔ G.Breaks bs k) : F = G :=
  congrArg₂ Format.mk (funext₂ fun bs a => propext (hspells bs a))
    (funext₂ fun bs k => propext (hbreaks bs k))

theorem lift_bind (F : ByteFormat α) (G : α → ByteFormat β) :
    ((Layout.lift F).bind fun a => .lift (G a) : Layout σ β) = .lift (F.bind G) := by
  funext s
  refine format_ext ?_ ?_
  · intro bs r
    constructor
    · rintro ⟨us, vs, _, rfl, ⟨a, hspells₁, rfl⟩, b, hspells₂, rfl⟩
      exact ⟨b, ⟨us, vs, a, rfl, hspells₁, hspells₂⟩, rfl⟩
    · rintro ⟨b, ⟨us, vs, a, rfl, hspells₁, hspells₂⟩, rfl⟩
      exact ⟨us, vs, (a, s), rfl, ⟨a, hspells₁, rfl⟩, b, hspells₂, rfl⟩
  · intro bs k
    constructor
    · rintro (hbreaks | ⟨us, vs, _, rfl, ⟨a, hspells, rfl⟩, hbreaks⟩)
      · exact Or.inl hbreaks
      · exact Or.inr ⟨us, vs, a, rfl, hspells, hbreaks⟩
    · rintro (hbreaks | ⟨us, vs, a, rfl, hspells, hbreaks⟩)
      · exact Or.inl hbreaks
      · exact Or.inr ⟨us, vs, (a, s), rfl, ⟨a, hspells, rfl⟩, hbreaks⟩

theorem lift_pure (a : α) : (Layout.lift (.pure a) : Layout σ α) = .pure a := by
  funext s
  refine format_ext (fun bs r => ?_) fun bs k => Iff.rfl
  constructor
  · rintro ⟨_, ⟨rfl, rfl⟩, rfl⟩
    exact ⟨rfl, rfl⟩
  · rintro ⟨rfl, rfl⟩
    exact ⟨a, ⟨rfl, rfl⟩, rfl⟩

theorem lift_refuse : (Layout.lift .refuse : Layout σ α) = .refuse := by
  funext s
  exact format_ext (fun bs r => ⟨fun ⟨_, h, _⟩ => h, False.elim⟩) fun bs k => Iff.rfl

theorem bind_pure_eq_map (F : ByteFormat α) (g : α → β) : F.bind (fun a => .pure (g a)) = F.map g := by
  refine format_ext (fun bs b => ?_) fun bs k => ?_
  · constructor
    · rintro ⟨us, _, a, rfl, hspells, rfl, rfl⟩
      exact ⟨a, by rwa [List.append_nil], rfl⟩
    · rintro ⟨a, hspells, rfl⟩
      exact ⟨bs, [], a, (List.append_nil bs).symm, hspells, rfl, rfl⟩
  · constructor
    · rintro (hbreaks | ⟨_, _, _, _, _, hfalse⟩)
      · exact hbreaks
      · exact hfalse.elim
    · exact Or.inl

/-- INTERNAL: code in sequence that does not touch the data. -/
theorem Follows.lift_bind {p : PacketM σ α} {f : α → PacketM σ β} {F : ByteFormat α}
    {G : α → ByteFormat β} (hp : Follows p (.lift F)) (hf : ∀ a, Follows (f a) (.lift (G a))) :
    Follows (p >>= f) (.lift (F.bind G)) := by
  rw [← Analysis.lift_bind]
  exact hp.bind hf

theorem follows_lift_pure (a : α) : Follows (pure a : PacketM σ α) (.lift (.pure a)) := by
  rw [lift_pure]
  exact follows_pure a

theorem follows_lift_throw {e : Failure} (he : breakdownOf e = none) :
    Follows (fail e : PacketM σ α) (.lift .refuse) := by
  rw [lift_refuse]
  exact follows_throw he

/-- INTERNAL: a pure function of what was read. -/
theorem Follows.lift_map {p : PacketM σ α} {F : ByteFormat α} (hp : Follows p (.lift F))
    (g : α → β) : Follows (do let a ← p; pure (g a)) (.lift (F.map g)) := by
  rw [← bind_pure_eq_map]
  exact hp.lift_bind fun a => follows_lift_pure (g a)

theorem Follows.lift_times {p : PacketM σ α} {F : ByteFormat α} (hp : Follows p (.lift F))
    (n : ℕ) : Follows (PacketM.times n p) (.lift (F.times n)) := by
  induction n with
  | zero => exact follows_lift_pure []
  | succ n ih => exact hp.lift_bind fun a => ih.lift_map _

/-! ## The operations of the packet reader -/

theorem follows_readByte : Follows (readByte : PacketM σ Byte) (.lift byteFormat) := by
  refine follows_lift sound_readByte ?_ ?_
  · rintro _ b rfl
    exact reads_readByte b
  · rintro _ _ ⟨rfl, rfl⟩
    exact fails_readByte

theorem follows_readIntN {w : ℕ} (k : ℕ) (hw : w = 8 * k) :
    Follows (readIntN w : PacketM σ (BitVec w)) (.lift (numberFormat w)) := by
  have hk : w / 8 = k := by omega
  refine follows_lift (sound_readIntN k hw) ?_ ?_
  · rintro _ v rfl
    rw [hk]
    exact reads_readIntN k hw v
  · rintro bs _ ⟨rfl, hbreaks⟩
    rw [hk] at hbreaks
    exact fails_readIntN hw hbreaks

theorem follows_readCharArray (k : ℕ) :
    Follows (readCharArray k : PacketM σ (List Byte)) (.lift (bytesFormat k)) := by
  refine follows_lift (sound_readCharArray k) ?_ ?_
  · rintro us _ ⟨hbytes, rfl⟩
    rw [hbytes]
    exact reads_readCharArray us
  · rintro bs _ ⟨rfl, hbreaks⟩
    exact fails_readCharArray hbreaks

theorem follows_readBool : Follows (readBool : PacketM σ Bool) (.lift boolFormat) := by
  refine follows_readByte.lift_bind fun b => ?_
  split
  · exact follows_lift_pure false
  · split
    · exact follows_lift_pure true
    · exact follows_lift_throw rfl

theorem follows_readUuid : Follows (readUuid : PacketM σ (BitVec 64 × BitVec 64))
    (.lift uuidFormat) :=
  (follows_readIntN 8 rfl).lift_bind fun _ => (follows_readIntN 8 rfl).lift_map _

/-! ## Variable length integers -/

/-- INTERNAL: the loop goes on only below the width. -/
theorem asyncReadStep_more {w : ℕ} {value value' : BitVec w} {position position' : ℕ} {b : Byte}
    (h : asyncReadStep value position b = .more value' position') :
    position' = position + 7 ∧ position' < w := by
  simp only [asyncReadStep] at h
  split at h
  · cases h
  · split at h
    · cases h
    · cases h
      exact ⟨rfl, by omega⟩

/-- What a step of the loop leaves to be read. -/
def afterStep {w : ℕ} : VarintStep w → ByteFormat (BitVec w)
  | .done value => .pure value
  | .more value position => varintFrom value position
  | .invalid => .refuse

theorem spells_varint_cons {w : ℕ} (value : BitVec w) (position : ℕ) (b : Byte) (bs : List Byte)
    (v : BitVec w) : SpellsVarint value position (b :: bs) v ↔
      (afterStep (asyncReadStep value position b)).Spells bs v := by
  rw [SpellsVarint]
  cases asyncReadStep value position b <;> exact Iff.rfl

theorem cuts_varint_cons {w : ℕ} (value : BitVec w) (position : ℕ) (b : Byte) (bs : List Byte)
    (k : Breakdown) : k = .cutOff ∧ CutsVarint value position (b :: bs) ↔
      (afterStep (asyncReadStep value position b)).Breaks bs k := by
  rw [CutsVarint]
  cases asyncReadStep value position b with
  | done v => exact ⟨fun h => h.2, False.elim⟩
  | more v p => exact Iff.rfl
  | invalid => exact ⟨fun h => h.2, False.elim⟩

/-- INTERNAL: one byte of a variable length integer, and the rest of it. -/
theorem varintFrom_eq {w : ℕ} (value : BitVec w) (position : ℕ) :
    varintFrom value position =
      byteFormat.bind fun byte => afterStep (asyncReadStep value position byte) := by
  refine format_ext (fun bs v => ?_) fun bs k => ?_
  · constructor
    · intro h
      cases bs with
      | nil => exact h.elim
      | cons b bs => exact ⟨[b], bs, b, rfl, rfl, (spells_varint_cons _ _ _ _ _).mp h⟩
    · rintro ⟨_, bs, b, rfl, rfl, h⟩
      exact (spells_varint_cons _ _ _ _ _).mpr h
  · constructor
    · intro h
      cases bs with
      | nil => exact Or.inl ⟨h.1, rfl⟩
      | cons b bs => exact Or.inr ⟨[b], bs, b, rfl, rfl, (cuts_varint_cons _ _ _ _ _).mp h⟩
    · rintro (⟨rfl, rfl⟩ | ⟨_, bs, b, rfl, rfl, h⟩)
      · exact ⟨rfl, trivial⟩
      · exact (cuts_varint_cons _ _ _ _ _).mpr h

/-- INTERNAL: **the loop follows the format**; it ends before its bound.
SOURCE: proto/varint.hh:37-61 -/
theorem follows_readVarintLoop {w fuel : ℕ} (value : BitVec w) (position : ℕ)
    (hfuel : w ≤ position + 7 * fuel) (hpos : position < w) :
    Follows (readVarintLoop w fuel value position : PacketM σ (BitVec w))
      (.lift (varintFrom value position)) := by
  induction fuel generalizing value position with
  | zero => omega
  | succ fuel ih =>
    rw [varintFrom_eq]
    refine follows_readByte.lift_bind fun b => ?_
    cases hb : asyncReadStep value position b with
    | done v => exact follows_lift_pure v
    | more v p =>
      obtain ⟨hp, hlt⟩ := asyncReadStep_more hb
      exact ih v p (by omega) hlt
    | invalid => exact follows_lift_throw rfl

theorem follows_readVarint : Follows (readVarint : PacketM σ (BitVec 32)) (.lift varintFormat) :=
  follows_readVarintLoop 0 0 (by omega) (by omega)

/-- INTERNAL: **a string** of a limit that `read_string` admits.
SOURCE: proto/packet.cc:195-217 -/
theorem follows_readString {max : ℕ} (hmax : max ≤ 32767) :
    Follows (readString max : PacketM σ (List Byte)) (.lift (stringFormat max)) := by
  have hrequire : (require (max ≤ 32767) "max_code_points <= 32767" : PacketM σ Unit) = pure () := by
    unfold require
    rw [if_pos (decide_eq_true hmax)]
  unfold readString
  rw [hrequire, pure_bind_eq]
  refine follows_readVarint.lift_bind fun length => ?_
  split
  · exact follows_lift_throw rfl
  · split
    · exact follows_lift_throw rfl
    · exact follows_readCharArray _

end Mccpp.Analysis
