import Mccpp.Interface.Reserves
import Mccpp.Analysis.NbtEvents

/-!
# Rules for readers that keep a log

`LogsBelow bound p F`, for a reader `p` over fewer than `bound` bytes: it ends, it returns what the
format `F` says the bytes spell, and what it adds to its log is what `F` says "breaks" it: here a
format does not tell where a reader fails but which calls of `reserve` it comes to. One judgement for
both is what sequencing needs, since a reader comes to a later call behind what it read before.
-/

set_option autoImplicit false

namespace Mccpp.Analysis

open Mccpp.Library Mccpp.Model Mccpp.Model.PacketM Mccpp.Interface

variable {σ α β : Type}

/-! ## Code that leaves its data alone -/

/-- However `p` ends, the data are what they were. -/
def Quiet (p : PacketM σ α) : Prop :=
  ∀ s n bs r left, (p s n).run bs = some (r, left) → r.2.1 = s

theorem quiet_pure (a : α) : Quiet (pure a : PacketM σ α) := by
  intro s n bs r left h
  cases h
  rfl

theorem Quiet.bind {p : PacketM σ α} {f : α → PacketM σ β} (hp : Quiet p)
    (hf : ∀ a, Quiet (f a)) : Quiet (p >>= f) := by
  intro s n bs r left h
  rw [bind_apply, Pull.run_bind] at h
  obtain ⟨⟨⟨e | a, s₁, n₁⟩, left₁⟩, hrun₁, hrun₂⟩ := Option.bind_eq_some_iff.mp h
  · cases hrun₂
    exact hp _ _ _ _ _ hrun₁
  · have hs₁ : s₁ = s := hp _ _ _ _ _ hrun₁
    rw [hs₁] at hrun₂
    exact hf a _ _ _ _ _ hrun₂

theorem Quiet.times {p : PacketM σ α} (hp : Quiet p) (k : ℕ) : Quiet (times k p) := by
  induction k with
  | zero => exact quiet_pure []
  | succ k ih => exact hp.bind fun a => ih.bind fun as => quiet_pure (a :: as)

theorem quiet_readByte : Quiet (readByte : PacketM σ Byte) := by
  intro s n bs r left h
  cases n with
  | zero =>
    cases h
    rfl
  | succ n =>
    cases bs with
    | nil => cases h
    | cons b bs =>
      cases h
      rfl

theorem quiet_pullByte : Quiet (pullByte : PacketM σ Byte) := by
  intro s n bs r left h
  cases bs with
  | nil => cases h
  | cons b bs =>
    cases h
    rfl

theorem quiet_readIntN (w : ℕ) : Quiet (readIntN w : PacketM σ (BitVec w)) := by
  have hloop : ∀ k (v : BitVec w), Quiet (readIntLoop w k v : PacketM σ (BitVec w)) := by
    intro k
    induction k with
    | zero => exact fun v => quiet_pure v
    | succ k ih => exact fun v => quiet_readByte.bind fun b => ih _
  exact hloop _ _

theorem quiet_readFloatN (w : ℕ) : Quiet (readFloatN w : PacketM σ (BitVec w)) := by
  intro s n bs r left h
  unfold readFloatN at h
  rw [prepaid_apply] at h
  split at h
  · exact ((quiet_pullByte.times _).bind fun _ => quiet_pure _) _ _ _ _ _ h
  · cases h
    rfl

theorem quiet_readName : Quiet (Nbt.readName : PacketM σ (List Byte)) :=
  (quiet_readIntN 16).bind fun _ => quiet_readByte.times _

/-! ## Logs -/

/-- A run from the log `log` over the bytes `bs` does what the format says. -/
structure Logged (F : Format Byte (ℕ × ℕ) α) (log : List (ℕ × ℕ)) (bs : List Byte)
    (r : Ended (List (ℕ × ℕ)) α) (left : List Byte) : Prop where
  events : ∃ events, r.2.1 = log ++ events ∧ ∀ event, event ∈ events ↔ F.Breaks bs event
  spells : ∀ a, r.1 = .ok a → r.2.2 = left.length ∧ ∃ used, bs = used ++ left ∧ F.Spells used a
  returns : ∀ used rest a, bs = used ++ rest → F.Spells used a → r.1 = .ok a ∧ left = rest

def LogsBelow (bound : ℕ) (p : PacketM (List (ℕ × ℕ)) α) (F : Format Byte (ℕ × ℕ) α) : Prop :=
  ∀ log bs, bs.length < bound →
    ∃ r left, (p log bs.length).run bs = some (r, left) ∧ Logged F log bs r left

theorem logs_pure (bound : ℕ) (a : α) : LogsBelow bound (pure a) (.pure a) := by
  intro log bs _
  refine ⟨(.ok a, log, bs.length), bs, rfl, ⟨⟨[], (List.append_nil log).symm, ?_⟩, ?_, ?_⟩⟩
  · exact fun event => ⟨fun h => (nomatch h), False.elim⟩
  · intro b hb
    cases hb
    exact ⟨rfl, [], rfl, rfl, rfl⟩
  · rintro _ rest b rfl ⟨rfl, rfl⟩
    exact ⟨rfl, rfl⟩

theorem logs_fail (bound : ℕ) (e : Failure) :
    LogsBelow bound (fail e : PacketM (List (ℕ × ℕ)) α) .refuse := by
  intro log bs _
  refine ⟨(.error e, log, bs.length), bs, rfl, ⟨⟨[], (List.append_nil log).symm, ?_⟩, ?_, ?_⟩⟩
  · exact fun event => ⟨fun h => (nomatch h), False.elim⟩
  · exact fun _ h => nomatch h
  · exact fun _ _ _ _ h => h.elim

/-- INTERNAL: **sequencing**. The second reader adds to the log what its format says of the bytes that
the first one left, which are fewer by what that one took. -/
theorem LogsBelow.bind_behind {bound bound' : ℕ} {p : PacketM (List (ℕ × ℕ)) α}
    {f : α → PacketM (List (ℕ × ℕ)) β} {F : Format Byte (ℕ × ℕ) α} {G : α → Format Byte (ℕ × ℕ) β}
    (hp : LogsBelow bound p F) (hf : ∀ a, LogsBelow bound' (f a) (G a))
    (htaken : ∀ used a, F.Spells used a → bound ≤ bound' + used.length) :
    LogsBelow bound (p >>= f) (F.bind G) := by
  intro log bs hbound
  obtain ⟨⟨result, log₁, n₁⟩, left₁, hrun₁, ⟨events₁, hlog₁, hevents₁⟩, hspells₁, hreturns₁⟩ :=
    hp log bs hbound
  cases result with
  | error e =>
    have hnone : ∀ used rest a, bs = used ++ rest → ¬F.Spells used a := by
      intro used rest a hbs hspells
      exact nomatch (hreturns₁ used rest a hbs hspells).1
    refine ⟨(.error e, log₁, n₁), left₁, ?_, ⟨⟨events₁, hlog₁, ?_⟩, ?_, ?_⟩⟩
    · rw [bind_apply, Pull.run_bind, hrun₁]
      rfl
    · intro event
      refine (hevents₁ event).trans ⟨Or.inl, ?_⟩
      rintro (h | ⟨used, rest, a, hbs, hspells, _⟩)
      · exact h
      · exact absurd hspells (hnone used rest a hbs)
    · exact fun _ h => nomatch h
    · rintro _ rest b hbs ⟨used, vs, a, rfl, hspells, _⟩
      rw [List.append_assoc] at hbs
      exact absurd hspells (hnone used _ a hbs)
  | ok a =>
    obtain ⟨rfl, used₁, rfl, hused₁⟩ := hspells₁ a rfl
    have hunique : ∀ used rest a', used₁ ++ left₁ = used ++ rest → F.Spells used a' →
        a = a' ∧ left₁ = rest := by
      intro used rest a' hbs hspells
      obtain ⟨ha, hleft⟩ := hreturns₁ used rest a' hbs hspells
      cases ha
      exact ⟨rfl, hleft⟩
    rw [List.length_append] at hbound
    have hleft₁ := htaken used₁ a hused₁
    obtain ⟨r, left, hrun, ⟨events, hlog, hevents⟩, hspells, hreturns⟩ :=
      hf a log₁ left₁ (by omega)
    refine ⟨r, left, ?_, ⟨⟨events₁ ++ events, ?_, ?_⟩, ?_, ?_⟩⟩
    · rw [bind_apply, Pull.run_bind, hrun₁]
      exact hrun
    · rw [hlog, show log₁ = log ++ events₁ from hlog₁, List.append_assoc]
    · intro event
      rw [List.mem_append, hevents₁ event, hevents event]
      refine or_congr_right ⟨fun h => ⟨used₁, left₁, a, rfl, hused₁, h⟩, ?_⟩
      rintro ⟨used, rest, a', hbs, hspells', h⟩
      obtain ⟨rfl, rfl⟩ := hunique used rest a' hbs hspells'
      exact h
    · intro b hb
      obtain ⟨hcount, used, rfl, hused⟩ := hspells b hb
      exact ⟨hcount, used₁ ++ used, (List.append_assoc _ _ _).symm, used₁, used, a, rfl, hused₁, hused⟩
    · rintro _ rest b hbs ⟨used, vs, a', rfl, hspells', hvs⟩
      rw [List.append_assoc] at hbs
      obtain ⟨rfl, rfl⟩ := hunique used _ a' hbs hspells'
      exact hreturns vs rest b rfl hvs

theorem LogsBelow.bind {bound : ℕ} {p : PacketM (List (ℕ × ℕ)) α}
    {f : α → PacketM (List (ℕ × ℕ)) β} {F : Format Byte (ℕ × ℕ) α} {G : α → Format Byte (ℕ × ℕ) β}
    (hp : LogsBelow bound p F) (hf : ∀ a, LogsBelow bound (f a) (G a)) :
    LogsBelow bound (p >>= f) (F.bind G) :=
  hp.bind_behind hf fun _ _ _ => Nat.le_add_right _ _

/-- INTERNAL: a format that says the same of the bytes in question. -/
theorem LogsBelow.congr {bound : ℕ} {p : PacketM (List (ℕ × ℕ)) α} {F G : Format Byte (ℕ × ℕ) α}
    (hp : LogsBelow bound p F) (hspells : ∀ bs a, F.Spells bs a ↔ G.Spells bs a)
    (hbreaks : ∀ bs event, F.Breaks bs event ↔ G.Breaks bs event) : LogsBelow bound p G := by
  intro log bs hbound
  obtain ⟨r, left, hrun, ⟨events, hlog, hevents⟩, hok, hreturns⟩ := hp log bs hbound
  refine ⟨r, left, hrun, ⟨events, hlog, fun event => (hevents event).trans (hbreaks bs event)⟩, ?_, ?_⟩
  · intro a ha
    obtain ⟨hcount, used, hbs, hused⟩ := hok a ha
    exact ⟨hcount, used, hbs, (hspells used a).mp hused⟩
  · exact fun used rest a hbs hused => hreturns used rest a hbs ((hspells used a).mpr hused)

theorem LogsBelow.map {bound : ℕ} {p : PacketM (List (ℕ × ℕ)) α} {F : Format Byte (ℕ × ℕ) α}
    (hp : LogsBelow bound p F) (g : α → β) :
    LogsBelow bound (do let a ← p; pure (g a)) (F.map g) := by
  refine (hp.bind (f := fun a => pure (g a)) fun a => logs_pure bound (g a)).congr ?_ ?_
  · intro bs b
    constructor
    · rintro ⟨used, _, a, rfl, hused, rfl, rfl⟩
      rw [List.append_nil]
      exact ⟨a, hused, rfl⟩
    · rintro ⟨a, hused, rfl⟩
      exact ⟨bs, [], a, (List.append_nil bs).symm, hused, rfl, rfl⟩
  · intro bs event
    constructor
    · rintro (h | ⟨_, _, _, _, _, h⟩)
      · exact h
      · exact h.elim
    · exact Or.inl

theorem LogsBelow.times {bound : ℕ} {p : PacketM (List (ℕ × ℕ)) α} {F : Format Byte (ℕ × ℕ) α}
    (hp : LogsBelow bound p F) (k : ℕ) : LogsBelow bound (times k p) (F.times k) := by
  induction k with
  | zero => exact logs_pure bound []
  | succ k ih => exact hp.bind fun a => ih.map _

theorem logs_remaining_bind {bound : ℕ} {f : ℕ → PacketM (List (ℕ × ℕ)) α}
    {F : Format Byte (ℕ × ℕ) α} (hf : ∀ n, LogsBelow (n + 1) (f n) F) :
    LogsBelow bound (remaining >>= f) F :=
  fun log bs _ => hf bs.length log bs (Nat.lt_succ_self _)

/-- INTERNAL: code that leaves the log alone and reads a format exactly. -/
theorem logs_of_quiet (bound : ℕ) {p : PacketM (List (ℕ × ℕ)) α} {F : ByteFormat α} (hquiet : Quiet p)
    (hmetered : Metered p) (hsound : Sound p F)
    (hreads : ∀ bs a, F.Spells bs a → Reads p bs a) : LogsBelow bound p F.unbroken := by
  intro log bs _
  obtain ⟨r, left, hrun, -⟩ := hmetered.run log bs
  refine ⟨r, left, hrun, ⟨⟨[], ?_, fun event => ⟨fun h => (nomatch h), False.elim⟩⟩, ?_, ?_⟩⟩
  · rw [hquiet _ _ _ _ _ hrun, List.append_nil]
  · intro a ha
    obtain ⟨hend, hused⟩ := (hsound log bs r left hrun).1 a ha
    exact ⟨congrArg Prod.snd hend, hused⟩
  · rintro used rest a rfl hused
    rw [hreads used a hused log _ rest (by simp)] at hrun
    cases hrun
    exact ⟨rfl, rfl⟩

/-- INTERNAL: what a reader with a log returns is what the reader without one does. -/
theorem LogsBelow.respell {bound : ℕ} {p : PacketM (List (ℕ × ℕ)) α} {F : Format Byte (ℕ × ℕ) α}
    {q : PacketM Unit α} {G : ByteFormat α} {B : List Byte → ℕ × ℕ → Prop} (hp : LogsBelow bound p F)
    (halike : ReadsAlike p q) (hsound : Sound q G)
    (hreads : ∀ bs a, bs.length < bound → G.Spells bs a → Reads q bs a)
    (hbreaks : ∀ bs event, bs.length < bound → (F.Breaks bs event ↔ B bs event)) :
    LogsBelow bound p ⟨G.Spells, B⟩ := by
  intro log bs hbound
  obtain ⟨⟨result, log', n⟩, left, hrun, ⟨events, hlog, hevents⟩, -, -⟩ := hp log bs hbound
  obtain ⟨⟨_, _, _⟩, hplain, rfl, rfl⟩ := (halike log () bs.length).run hrun
  refine ⟨(result, log', n), left, hrun, ⟨⟨events, hlog, fun event =>
    (hevents event).trans (hbreaks bs event hbound)⟩, ?_, ?_⟩⟩
  · intro a ha
    obtain ⟨hend, hused⟩ := (hsound () bs _ left hplain).1 a ha
    exact ⟨congrArg Prod.snd hend, hused⟩
  · rintro used rest a rfl hused
    rw [List.length_append] at hbound
    rw [hreads used a (by omega) hused () _ rest (by simp)] at hplain
    cases hplain
    exact ⟨rfl, rfl⟩

/-- The call of `reserve` in front of what the format says. -/
def reserving (count : ℕ) (F : Format Byte (ℕ × ℕ) α) : Format Byte (ℕ × ℕ) α where
  Spells := F.Spells
  Breaks bs event := event = (count, bs.length) ∨ F.Breaks bs event

theorem logs_reserve {bound : ℕ} {p : PacketM (List (ℕ × ℕ)) α} {F : Format Byte (ℕ × ℕ) α}
    (hp : LogsBelow bound p F) (count : ℕ) :
    LogsBelow bound (do logging (.reserve count); p) (reserving count F) := by
  intro log bs hbound
  obtain ⟨r, left, hrun, ⟨events, hlog, hevents⟩, hok, hreturns⟩ :=
    hp (log ++ [(count, bs.length)]) bs hbound
  refine ⟨r, left, hrun, ⟨⟨(count, bs.length) :: events, ?_, ?_⟩, hok, hreturns⟩⟩
  · rw [hlog, List.append_assoc, List.singleton_append]
  · intro event
    rw [List.mem_cons, hevents event]
    rfl

end Mccpp.Analysis
