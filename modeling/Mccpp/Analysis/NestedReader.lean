import Mccpp.Interface.PacketLayout
import Mccpp.Analysis.SectionFraming

/-!
# A reader inside a reader

The sections of a chunk packet are read by a reader of its own, with a declared count of bytes,
whose callback reads from the packet. The declared count may be more than the packet holds. Code
that only asks whether its count is zero (`Blind`) does the same with a larger count, up to where
it would have stopped: there it goes on, and it is the packet's reader that finds nothing.
-/

set_option autoImplicit false

namespace Mccpp.Analysis

open Mccpp.Library Mccpp.Model Mccpp.Model.PacketM Mccpp.Interface

variable {σ α β : Type}

/-! ## Code that does not look at its count -/

/-- With `d` more bytes on its count than there are, `p` returns and throws the same; where its
own count would have stopped it, it runs out of bytes. -/
structure Blind (p : PacketM σ α) : Prop where
  returns : ∀ s bs d a s' n left, (p s bs.length).run bs = some ((.ok a, s', n), left) →
    n = left.length ∧
      (p s (bs.length + d)).run bs = some ((.ok a, s', left.length + d), left)
  throws : ∀ s bs d e s' n left, (p s bs.length).run bs = some ((.error e, s', n), left) →
    breakdownOf e = none → ∃ m, (p s (bs.length + d)).run bs = some ((.error e, s', m), left)
  stops : ∀ s bs d e s' n left k, (p s bs.length).run bs = some ((.error e, s', n), left) →
    breakdownOf e = some k → k = .cutOff ∧ (0 < d → (p s (bs.length + d)).run bs = none)

theorem blind_pure (a : α) : Blind (pure a : PacketM σ α) where
  returns := by
    intro s bs d b s' n left h
    cases h
    exact ⟨rfl, rfl⟩
  throws := fun _ _ _ _ _ _ _ h => nomatch h
  stops := fun _ _ _ _ _ _ _ _ h => nomatch h

theorem blind_set (t : σ) : Blind (set t : PacketM σ Unit) where
  returns := by
    intro s bs d b s' n left h
    cases h
    exact ⟨rfl, rfl⟩
  throws := fun _ _ _ _ _ _ _ h => nomatch h
  stops := fun _ _ _ _ _ _ _ _ h => nomatch h

theorem blind_throw {e : Failure} (he : breakdownOf e = none) : Blind (fail e : PacketM σ α) where
  returns := fun _ _ _ _ _ _ _ h => nomatch h
  throws := by
    intro s bs d e' s' n left h _
    cases h
    exact ⟨bs.length + d, rfl⟩
  stops := by
    intro s bs d e' s' n left k h hk
    cases h
    rw [he] at hk
    cases hk

theorem blind_readByte : Blind (readByte : PacketM σ Byte) where
  returns := by
    intro s bs d b s' n left h
    cases bs with
    | nil => cases h
    | cons x bs =>
      cases h
      refine ⟨rfl, ?_⟩
      rw [List.length_cons, Nat.add_right_comm]
      rfl
  throws := by
    intro s bs d e s' n left h hk
    cases bs with
    | nil =>
      cases h
      cases hk
    | cons x bs => cases h
  stops := by
    intro s bs d e s' n left k h hk
    cases bs with
    | nil =>
      cases h
      cases hk
      refine ⟨rfl, fun hd => ?_⟩
      obtain ⟨d, rfl⟩ := Nat.exists_eq_succ_of_ne_zero (Nat.ne_of_gt hd)
      rfl
    | cons x bs => cases h

/-- INTERNAL: blind code in sequence. -/
theorem Blind.bind {p : PacketM σ α} {f : α → PacketM σ β} (hp : Blind p)
    (hf : ∀ a, Blind (f a)) : Blind (p >>= f) where
  returns := by
    intro s bs d b s' n left h
    rw [bind_apply, Pull.run_bind] at h
    obtain ⟨⟨⟨e | a, s₁, n₁⟩, left₁⟩, hrun₁, hrun₂⟩ := Option.bind_eq_some_iff.mp h
    · cases hrun₂
    · obtain ⟨rfl, hmore⟩ := hp.returns s bs d a s₁ n₁ left₁ hrun₁
      obtain ⟨hn, hrest⟩ := (hf a).returns s₁ left₁ d b s' n left hrun₂
      refine ⟨hn, ?_⟩
      rw [bind_apply, Pull.run_bind, hmore]
      exact hrest
  throws := by
    intro s bs d e s' n left h hk
    rw [bind_apply, Pull.run_bind] at h
    obtain ⟨⟨⟨e₁ | a, s₁, n₁⟩, left₁⟩, hrun₁, hrun₂⟩ := Option.bind_eq_some_iff.mp h
    · cases hrun₂
      obtain ⟨m, hmore⟩ := hp.throws s bs d _ _ _ _ hrun₁ hk
      refine ⟨m, ?_⟩
      rw [bind_apply, Pull.run_bind, hmore]
      rfl
    · obtain ⟨rfl, hmore⟩ := hp.returns s bs d a s₁ n₁ left₁ hrun₁
      obtain ⟨m, hrest⟩ := (hf a).throws s₁ left₁ d e s' n left hrun₂ hk
      refine ⟨m, ?_⟩
      rw [bind_apply, Pull.run_bind, hmore]
      exact hrest
  stops := by
    intro s bs d e s' n left k h hk
    rw [bind_apply, Pull.run_bind] at h
    obtain ⟨⟨⟨e₁ | a, s₁, n₁⟩, left₁⟩, hrun₁, hrun₂⟩ := Option.bind_eq_some_iff.mp h
    · cases hrun₂
      obtain ⟨hcut, hnone⟩ := hp.stops s bs d _ _ _ _ k hrun₁ hk
      refine ⟨hcut, fun hd => ?_⟩
      rw [bind_apply, Pull.run_bind, hnone hd]
      rfl
    · obtain ⟨rfl, hmore⟩ := hp.returns s bs d a s₁ n₁ left₁ hrun₁
      obtain ⟨hcut, hnone⟩ := (hf a).stops s₁ left₁ d e s' n left k hrun₂ hk
      refine ⟨hcut, fun hd => ?_⟩
      rw [bind_apply, Pull.run_bind, hmore]
      exact hnone hd

theorem Blind.times {p : PacketM σ α} (hp : Blind p) (k : ℕ) : Blind (times k p) := by
  induction k with
  | zero => exact blind_pure []
  | succ k ih => exact hp.bind fun a => ih.bind fun as => blind_pure (a :: as)

theorem blind_readIntN (w : ℕ) : Blind (readIntN w : PacketM σ (BitVec w)) := by
  have hloop : ∀ k (v : BitVec w), Blind (readIntLoop w k v : PacketM σ (BitVec w)) := by
    intro k
    induction k with
    | zero => exact fun v => blind_pure v
    | succ k ih => exact fun v => blind_readByte.bind fun b => ih _
  exact hloop _ _

theorem blind_readVarint : Blind (readVarint : PacketM σ (BitVec 32)) := by
  have hloop : ∀ fuel (value : BitVec 32) position,
      Blind (readVarintLoop 32 fuel value position : PacketM σ (BitVec 32)) := by
    intro fuel
    induction fuel with
    | zero => exact fun _ _ => blind_throw rfl
    | succ fuel ih =>
      intro value position
      refine blind_readByte.bind fun b => ?_
      split
      · exact blind_pure _
      · exact ih _ _
      · exact blind_throw rfl
  exact hloop _ _ _

theorem blind_load : Blind Chunk.load := by
  have hblocks : Blind loadBlocks := by
    unfold loadBlocks
    refine (blind_readIntN 8).bind fun bits => ?_
    split
    · exact blind_readVarint.bind fun value => (blind_set _).bind fun _ =>
        blind_readVarint.bind fun _ => blind_pure ()
    · split
      · refine blind_readVarint.bind fun count => ?_
        split
        · exact blind_throw rfl
        · exact (blind_readVarint.times _).bind fun _ => blind_readVarint.bind fun _ =>
            ((blind_readIntN 64).times _).bind fun _ => blind_pure ()
      · exact blind_pure ()
  exact (blind_readIntN 16).bind fun _ => hblocks.bind fun _ => blind_pure ()

/-! ## The reader inside -/

/-- INTERNAL: what the nested reader pulls is read from the packet, as long as there is something.
SOURCE: client/handlers/play/level_chunk_with_light_packet.cc:20-22 -/
theorem run_serve (t : Pull Byte (Ended σ α)) (s : σ) (bs : List Byte) :
    (serve t s bs.length).run bs =
      match t.run bs with
      | some ((result, s', _), left) => some ((result, s', left.length), left)
      | none => some ((.error (.assertFailed "m_remaining > 0"), s, 0), []) := by
  induction t generalizing bs with
  | done r => rfl
  | pull k ih =>
    cases bs with
    | nil => rfl
    | cons b bs => exact ih b bs

/-- INTERNAL: skipping the rest of the count.
SOURCE: proto/packet.cc:83-89 -/
theorem run_discardRest (s : σ) (n : ℕ) (bs : List Byte) :
    (discardRest s n).run bs =
      if n ≤ bs.length then some ((.ok (), s, 0), bs.drop n) else none := by
  have hpulls : ∀ (k : ℕ) (bs : List Byte) (m : ℕ),
      ((times k pullByte : PacketM σ (List Byte)) s m).run bs =
        if k ≤ bs.length then some ((.ok (bs.take k), s, m), bs.drop k) else none := by
    intro k
    induction k with
    | zero =>
      intro bs m
      rw [if_pos (Nat.zero_le _)]
      rfl
    | succ k ih =>
      intro bs m
      cases bs with
      | nil => rfl
      | cons b bs =>
        show ((times k pullByte >>= fun as => pure (b :: as) : PacketM σ (List Byte)) s m).run bs = _
        rw [bind_apply, Pull.run_bind, ih]
        by_cases hk : k ≤ bs.length
        · rw [if_pos hk, if_pos (by simpa using hk)]
          rfl
        · rw [if_neg hk, if_neg (by simpa using hk)]
          rfl
  have hdiscard : discardRest s n = (discard n : PacketM σ Unit) s n := rfl
  have hprepaid := prepaid_apply n "m_remaining >= n" (fun _ => (pure () : PacketM σ Unit)) s n
  rw [if_pos (le_refl n), Nat.sub_self] at hprepaid
  rw [hdiscard]
  unfold PacketM.discard
  rw [hprepaid, bind_apply, Pull.run_bind, hpulls]
  by_cases hn : n ≤ bs.length
  · rw [if_pos hn, if_pos hn]
    rfl
  · rw [if_neg hn, if_neg hn]
    rfl

section Runs

variable {q : PacketM σ Unit} (hblind : Blind q) {n : ℕ} {s s' : σ} {bs left : List Byte} {m : ℕ}
include hblind

/-- INTERNAL: **the run of a nested reader** whose code returns over the bytes of its window: what
is left of the window is skipped, if it is there.
SOURCE: client/handlers/play/level_chunk_with_light_packet.cc:20-30 -/
theorem run_nested_returns
    (hrun : (q s (bs.take n).length).run (bs.take n) = some ((.ok (), s', m), left)) :
    (nested n (do q; discardRest) s bs.length).run bs =
      if n ≤ bs.length then some ((.ok (), s', (bs.drop n).length), bs.drop n)
      else some ((.error (.assertFailed "m_remaining > 0"), s, 0), []) := by
  have hserve : (nested n (do q; discardRest) s bs.length).run bs = _ :=
    run_serve ((do q; discardRest : PacketM σ Unit) s n) s bs
  rw [hserve, bind_apply, Pull.run_bind]
  by_cases hn : n ≤ bs.length
  · have hlength : (bs.take n).length = n := by
      rw [List.length_take]
      omega
    have hlong := Pull.run_append _ _ (bs.drop n) _ _ hrun
    rw [hlength, List.take_append_drop] at hlong
    obtain ⟨rfl, _⟩ := hblind.returns s _ 0 _ s' m left hrun
    have hskip := run_discardRest s' left.length (left ++ bs.drop n)
    rw [if_pos (by simp), List.drop_left] at hskip
    rw [hlong, if_pos hn]
    simp only [Option.bind_some, andThen_ok, hskip]
  · have htake : bs.take n = bs := List.take_of_length_le (by omega)
    obtain ⟨d, hd⟩ := Nat.exists_eq_add_of_lt (by omega : bs.length < n)
    rw [htake] at hrun
    obtain ⟨rfl, hmore⟩ := hblind.returns s bs (d + 1) _ s' m left hrun
    have hskip := run_discardRest s' (left.length + (d + 1)) left
    rw [if_neg (by omega)] at hskip
    rw [if_neg hn, hd, Nat.add_assoc, hmore]
    simp only [Option.bind_some, andThen_ok, hskip]

/-- INTERNAL: **the run of a nested reader** whose code fails over the bytes of its window. A
failed assert of its own becomes one of the packet's reader where the window is not all there. -/
theorem run_nested_fails {e : Failure}
    (hrun : (q s (bs.take n).length).run (bs.take n) = some ((.error e, s', m), left)) :
    (nested n (do q; discardRest) s bs.length).run bs =
      if n ≤ bs.length ∨ breakdownOf e = none then
        some ((.error e, s', (left ++ bs.drop n).length), left ++ bs.drop n)
      else some ((.error (.assertFailed "m_remaining > 0"), s, 0), []) := by
  have hserve : (nested n (do q; discardRest) s bs.length).run bs = _ :=
    run_serve ((do q; discardRest : PacketM σ Unit) s n) s bs
  rw [hserve, bind_apply, Pull.run_bind]
  by_cases hn : n ≤ bs.length
  · have hlength : (bs.take n).length = n := by
      rw [List.length_take]
      omega
    have hlong := Pull.run_append _ _ (bs.drop n) _ _ hrun
    rw [hlength, List.take_append_drop] at hlong
    rw [hlong, if_pos (Or.inl hn)]
    rfl
  · have htake : bs.take n = bs := List.take_of_length_le (by omega)
    have hdrop : bs.drop n = [] := List.drop_of_length_le (by omega)
    obtain ⟨d, hd⟩ := Nat.exists_eq_add_of_lt (by omega : bs.length < n)
    rw [htake] at hrun
    rw [hdrop, List.append_nil, hd, Nat.add_assoc]
    cases hk : breakdownOf e with
    | none =>
      obtain ⟨m', hmore⟩ := hblind.throws s bs (d + 1) e s' m left hrun hk
      rw [hmore, if_pos (Or.inr rfl)]
      rfl
    | some k =>
      have hnone := (hblind.stops s bs (d + 1) e s' m left k hrun hk).2 (Nat.succ_pos d)
      have hneither : ¬(bs.length + (d + 1) ≤ bs.length ∨ some k = none) := by
        rintro (hle | hk)
        · omega
        · cases hk
      rw [hnone, if_neg hneither]
      rfl

end Runs

/-- INTERNAL: **a nested reader follows a window**.
SOURCE: client/handlers/play/level_chunk_with_light_packet.cc:20-30 -/
theorem follows_nested {q : PacketM σ Unit} {F : Layout σ Unit} (hq : Follows q F)
    (hblind : Blind q) (hmetered : Metered q) (n : ℕ) :
    Follows (nested n (do q; discardRest)) (.window n F) where
  sound := by
    intro s bs r left hrun
    obtain ⟨⟨e | a, s', m⟩, left', hinner, _⟩ := hmetered.run s (bs.take n)
    · rw [run_nested_fails hblind hinner] at hrun
      have hbreaks : ∀ k, breakdownOf e = some k → (F s).Breaks (bs.take n) k := fun k hk =>
        (hq.sound s _ _ _ hinner).2 e k rfl hk
      split at hrun
      · cases hrun
        refine ⟨fun b hb => (nomatch hb), fun e' k he hk => ?_⟩
        cases he
        exact Or.inl (hbreaks k hk)
      · rename_i hnot
        cases hrun
        refine ⟨fun b hb => (nomatch hb), fun e' k he hk => ?_⟩
        cases he
        cases hk
        cases hk' : breakdownOf e with
        | none => exact absurd (Or.inr hk') hnot
        | some k =>
          obtain ⟨rfl, _⟩ := hblind.stops s _ 0 e s' m left' k hinner hk'
          exact Or.inl (hbreaks _ hk')
    · rw [run_nested_returns hblind hinner] at hrun
      obtain ⟨_, used, hused, hspells⟩ := (hq.sound s _ _ _ hinner).1 a rfl
      split at hrun
      · rename_i hn
        cases hrun
        refine ⟨fun b hb => ?_, fun e k he => (nomatch he)⟩
        cases hb
        refine ⟨rfl, bs.take n, (List.take_append_drop n bs).symm, ?_, used, left', hused, hspells⟩
        rw [List.length_take]
        omega
      · rename_i hn
        cases hrun
        refine ⟨fun b hb => (nomatch hb), fun e k he hk => ?_⟩
        cases he
        cases hk
        rw [List.take_of_length_le (by omega)] at hused
        exact Or.inr ⟨rfl, by omega, used, left', _, hused, hspells⟩
  reads := by
    rintro s us left a s' ⟨hlength, used, skipped, rfl, hspells⟩
    have htake : (used ++ skipped ++ left).take n = used ++ skipped := by
      rw [← hlength, List.take_left]
    have hdrop : (used ++ skipped ++ left).drop n = left := by
      rw [← hlength, List.drop_left]
    have hinner := hq.reads s used skipped a s' hspells
    rw [← htake] at hinner
    rw [run_nested_returns hblind hinner, if_pos (by rw [List.length_append]; omega), hdrop]
  fails := by
    rintro s bs k (hbreaks | ⟨rfl, hshort, used, left, ⟨_, s'⟩, rfl, hspells⟩)
    · obtain ⟨e, s', m, left, hinner, hk⟩ := hq.fails s _ k hbreaks
      rw [run_nested_fails hblind hinner]
      split
      · exact ⟨e, s', _, _, rfl, hk⟩
      · obtain ⟨rfl, _⟩ := hblind.stops s _ 0 e s' m left k hinner hk
        exact ⟨_, s, 0, [], rfl, rfl⟩
    · have htake : (used ++ left).take n = used ++ left := List.take_of_length_le (by omega)
      have hinner := hq.reads s used left () s' hspells
      rw [← htake] at hinner
      rw [run_nested_returns hblind hinner, if_neg (by omega)]
      exact ⟨_, s, 0, [], rfl, rfl⟩

theorem within_serve {t : Pull Byte (Ended σ α)} {n : ℕ}
    (ht : t.Within (fun r _ => r.1 ≠ .error .diverged) n) (s : σ) (m : ℕ) :
    (serve t s m).Within Accounted m := by
  induction t generalizing n m with
  | done r =>
    rw [Pull.within_done] at ht
    exact (Pull.within_done _ _ _).mpr ⟨ht, fun _ => rfl⟩
  | pull k ih =>
    cases n with
    | zero => exact ht.elim
    | succ n =>
      cases m with
      | zero => exact (Pull.within_done _ _ _).mpr (accounted_error.mpr ⟨by simp, by simp⟩)
      | succ m => exact fun b => ih b (ht b) m

theorem metered_nested {p : PacketM σ α} (hp : Metered p) (n : ℕ) : Metered (nested n p) := by
  intro bound s m _
  refine within_serve (n := n) ((hp (n + 1) s n (Nat.lt_succ_self n)).mono ?_) s m
  exact fun r _ _ hacc => hacc.1

end Mccpp.Analysis
