import Mccpp.Interface.ReaderRun
import Mccpp.Analysis.ReaderRules

/-!
# The balance of a packet reader

Some operations count each byte as they pull it, others count all of them first and go past the
count. Either way the count and the source lose the same number of bytes, also where an exception
ends the operation in the middle, and so over any sequence of operations (`run_performAll`). A byte
that a nested reader delivers is on both counts (`within_serveKeeping`, `run_performBoth`).
-/

set_option autoImplicit false

namespace Mccpp.Analysis

open Mccpp.Library Mccpp.Model Mccpp.Model.PacketM Mccpp.Interface

variable {σ α β : Type}

/-! ## Every operation is metered -/

theorem bind_pure_eq (p : PacketM σ α) : (p >>= fun a => pure a) = p := by
  funext s n
  rw [bind_apply]
  have hdone : ∀ t : Pull Byte (Ended σ α), (t.bind (andThen fun a => pure a)) = t := by
    intro t
    induction t with
    | done r => obtain ⟨e | a, s', n'⟩ := r <;> rfl
    | pull k ih =>
      rw [Pull.bind_pull]
      congr 1
      funext b
      exact ih b
  exact hdone _

theorem metered_readByteArray (k : ℕ) : Metered (readByteArray k : PacketM σ (List Byte)) := by
  have h := metered_prepaid (σ := σ) k "m_remaining >= n" (f := fun bs => pure bs)
    fun bs => metered_pure bs
  simp only [bind_pure_eq] at h
  exact h

theorem metered_discardBitset : Metered (discardBitset : PacketM σ Unit) := by
  refine metered_readVarint.bind fun count => ?_
  split
  · exact metered_fail (by simp)
  · exact metered_discard _

theorem metered_readPosition : Metered (readPosition : PacketM σ Position) :=
  (metered_readIntN 64).bind fun _ => metered_pure _

theorem Metered.ignoring {p : PacketM σ α} (hp : Metered p) : Metered (ignoring p) :=
  hp.bind fun _ => metered_pure ()

/-- INTERNAL: **every operation keeps the balance** on its own.
SOURCE: proto/packet.cc:83-219, proto/packet.hh:118-158 -/
theorem metered_perform (operation : Operation) : Metered (operation.perform : PacketM σ Unit) := by
  cases operation with
  | discard n => exact metered_discard n
  | discardBitset => exact metered_discardBitset
  | readByte => exact metered_readByte.ignoring
  | readVarint => exact metered_readVarint.ignoring
  | readBool => exact metered_readBool.ignoring
  | readU8 => exact (metered_readIntN 8).ignoring
  | readU16 => exact (metered_readIntN 16).ignoring
  | readU32 => exact (metered_readIntN 32).ignoring
  | readU64 => exact (metered_readIntN 64).ignoring
  | readI8 => exact (metered_readIntN 8).ignoring
  | readI16 => exact (metered_readIntN 16).ignoring
  | readI32 => exact (metered_readIntN 32).ignoring
  | readI64 => exact (metered_readIntN 64).ignoring
  | readFloat => exact (metered_readFloatN 32).ignoring
  | readDouble => exact (metered_readFloatN 64).ignoring
  | readIdentifier => exact (metered_readString 32767).ignoring
  | readPosition => exact metered_readPosition.ignoring
  | readUuid => exact metered_readUuid.ignoring
  | readString max => exact (metered_readString max).ignoring
  | readByteArray n => exact (metered_readByteArray n).ignoring
  | readCharArray n => exact (metered_readCharArray n).ignoring

/-! ## Behind a handler of exceptions -/

theorem caught_error (e : Failure) :
    caught (.error e) = if e.isException then .ok () else .error e := rfl

theorem caught_eq_error {r : Except Failure Unit} {e : Failure} (h : caught r = .error e) :
    r = .error e ∧ e.isException = false := by
  cases r with
  | ok _ => cases h
  | error e' =>
    rw [caught_error] at h
    by_cases hexception : e'.isException
    · rw [if_pos hexception] at h
      cases h
    · rw [if_neg hexception] at h
      cases h
      exact ⟨rfl, Bool.eq_false_iff.mpr hexception⟩

/-- INTERNAL: code that returns behind the handler returned or threw. -/
theorem exception_of_caught {r : Except Failure Unit} (h : caught r = .ok ()) :
    ∀ e, r = .error e → e.isException = true := by
  rintro e rfl
  by_contra hexception
  rw [caught_error, if_neg hexception] at h
  cases h

theorem run_attempt {p : PacketM σ Unit} {s s' : σ} {n n' : ℕ} {bs left : List Byte}
    {r : Except Failure Unit} (h : (attempt p s n).run bs = some ((r, s', n'), left)) :
    ∃ r', (p s n).run bs = some ((r', s', n'), left) ∧ r = caught r' := by
  unfold attempt at h
  rw [Pull.run_bind] at h
  obtain ⟨⟨⟨r', s₁, n₁⟩, left₁⟩, hrun, hdone⟩ := Option.bind_eq_some_iff.mp h
  cases hdone
  exact ⟨r', hrun, rfl⟩

theorem Metered.attempt {p : PacketM σ Unit} (hp : Metered p) : Metered (attempt p) := by
  intro bound s n hn
  show ((p s n).bind fun r => Pull.done (caught r.1, r.2)).Within Accounted n
  rw [Pull.within_bind]
  refine (hp bound s n hn).mono ?_
  rintro ⟨r, s', n'⟩ m _ ⟨hdiverged, hcount⟩
  rw [Pull.within_done]
  refine ⟨fun h => hdiverged (caught_eq_error h).1, fun hexception => hcount ?_⟩
  cases hr : caught r with
  | ok _ => exact exception_of_caught hr
  | error e =>
    have hthrown := (caught_eq_error hr).2
    rw [hexception e hr] at hthrown
    cases hthrown

theorem metered_performAll (operations : List Operation) :
    Metered (performAll operations : PacketM σ Unit) := by
  induction operations with
  | nil => exact metered_pure ()
  | cons operation operations ih => exact (metered_perform operation).attempt.bind fun _ => ih

/-- INTERNAL: **the balance of a sequence**.
SOURCE: proto/packet.cc:83-219 -/
theorem run_performAll {operations : List Operation} {s s' : σ} {packetLength remaining : ℕ}
    {bs left : List Byte}
    (h : (performAll operations s packetLength).run bs = some ((.ok (), s', remaining), left)) :
    ∃ pulled, bs = pulled ++ left ∧ packetLength = remaining + pulled.length := by
  have hwithin := metered_performAll operations (packetLength + 1) s packetLength
    (Nat.lt_succ_self _)
  obtain ⟨pulled, m, hsplit, hlength, hacc⟩ := Pull.split_of_run _ _ _ _ _ _ hwithin h
  obtain rfl := accounted_ok.mp hacc
  exact ⟨pulled, hsplit, hlength⟩

/-! ## Failures -/

/-- How an operation of the reader fails. -/
def OperationFailure (e : Failure) : Prop :=
  (∃ what, e = .decodeError what) ∨ (∃ condition, e = .assertFailed condition) ∨ e = .diverged

theorem operationFailure_assert (condition : String) : OperationFailure (.assertFailed condition) :=
  Or.inr (Or.inl ⟨condition, rfl⟩)

theorem failsWith_decodeError (what : String) :
    FailsWith OperationFailure (fail (.decodeError what) : PacketM σ α) :=
  failsWith_fail (Or.inl ⟨what, rfl⟩)

theorem failsWith_require (condition : Bool) (text : String) :
    FailsWith OperationFailure (require condition text : PacketM σ Unit) := by
  unfold require
  split
  · exact failsWith_pure _ ()
  · exact failsWith_fail (operationFailure_assert text)

theorem FailsWith.ignoring {p : PacketM σ α} (hp : FailsWith OperationFailure p) :
    FailsWith OperationFailure (ignoring p) :=
  hp.bind fun _ => failsWith_pure _ ()

/-- INTERNAL: an operation that counts its bytes first.
SOURCE: proto/packet.cc:83-89, 152-160, 173-183 -/
theorem failsWith_prepaid (k : ℕ) (text : String) {f : List Byte → PacketM σ α}
    (hf : ∀ bs, FailsWith OperationFailure (f bs)) :
    FailsWith OperationFailure (do
      let remaining ← remaining
      require (k ≤ remaining) text
      setRemaining (remaining - k)
      let bytes ← PacketM.times k pullByte
      f bytes : PacketM σ α) := by
  have hpull : FailsWith OperationFailure (times k pullByte : PacketM σ (List Byte)) := by
    apply FailsWith.times
    intro s n bs e s' n' left h
    cases bs <;> cases h
  intro s n bs e s' n' left h
  rw [prepaid_apply] at h
  split at h
  · exact hpull.bind hf _ _ _ _ _ _ _ h
  · cases h
    exact operationFailure_assert text

theorem failsWith_discard (k : ℕ) : FailsWith OperationFailure (discard k : PacketM σ Unit) :=
  failsWith_prepaid k _ fun _ => failsWith_pure _ ()

theorem failsWith_readByteArray (k : ℕ) :
    FailsWith OperationFailure (readByteArray k : PacketM σ (List Byte)) := by
  have h := failsWith_prepaid (σ := σ) k "m_remaining >= n" (f := fun bs => pure bs)
    fun bs => failsWith_pure _ bs
  simp only [bind_pure_eq] at h
  exact h

theorem failsWith_readIntN (w : ℕ) :
    FailsWith OperationFailure (readIntN w : PacketM σ (BitVec w)) :=
  failsWith_readIntLoop operationFailure_assert w (w / 8) 0

theorem failsWith_readBool : FailsWith OperationFailure (readBool : PacketM σ Bool) := by
  refine (failsWith_readByte operationFailure_assert).bind fun b => ?_
  split
  · exact failsWith_pure _ false
  · split
    · exact failsWith_pure _ true
    · exact failsWith_decodeError _

theorem failsWith_readVarint : FailsWith OperationFailure (readVarint : PacketM σ (BitVec 32)) := by
  have hloop : ∀ fuel (value : BitVec 32) position,
      FailsWith OperationFailure (readVarintLoop 32 fuel value position : PacketM σ _) := by
    intro fuel
    induction fuel with
    | zero => exact fun _ _ => failsWith_fail (Or.inr (Or.inr rfl))
    | succ fuel ih =>
      intro value position
      refine (failsWith_readByte operationFailure_assert).bind fun b => ?_
      split
      · exact failsWith_pure _ _
      · exact ih _ _
      · exact failsWith_decodeError _
  exact hloop _ _ _

theorem failsWith_readString (max : ℕ) :
    FailsWith OperationFailure (readString max : PacketM σ (List Byte)) := by
  refine (failsWith_require _ _).bind fun _ => failsWith_readVarint.bind fun length => ?_
  split
  · exact failsWith_decodeError _
  · split
    · exact failsWith_decodeError _
    · exact failsWith_readCharArray operationFailure_assert _

theorem failsWith_discardBitset : FailsWith OperationFailure (discardBitset : PacketM σ Unit) := by
  refine failsWith_readVarint.bind fun count => ?_
  split
  · exact failsWith_decodeError _
  · exact failsWith_discard _

/-- INTERNAL: an operation throws decode errors and fails asserts, and nothing else.
SOURCE: proto/packet.cc:83-219, proto/packet.hh:118-158 -/
theorem failsWith_perform (operation : Operation) :
    FailsWith OperationFailure (operation.perform : PacketM σ Unit) := by
  have hfloat : ∀ w, FailsWith OperationFailure (readFloatN w : PacketM σ (BitVec w)) :=
    failsWith_readFloatN operationFailure_assert
  cases operation with
  | discard n => exact failsWith_discard n
  | discardBitset => exact failsWith_discardBitset
  | readByte => exact (failsWith_readByte operationFailure_assert).ignoring
  | readVarint => exact failsWith_readVarint.ignoring
  | readBool => exact failsWith_readBool.ignoring
  | readU8 => exact (failsWith_readIntN 8).ignoring
  | readU16 => exact (failsWith_readIntN 16).ignoring
  | readU32 => exact (failsWith_readIntN 32).ignoring
  | readU64 => exact (failsWith_readIntN 64).ignoring
  | readI8 => exact (failsWith_readIntN 8).ignoring
  | readI16 => exact (failsWith_readIntN 16).ignoring
  | readI32 => exact (failsWith_readIntN 32).ignoring
  | readI64 => exact (failsWith_readIntN 64).ignoring
  | readFloat => exact (hfloat 32).ignoring
  | readDouble => exact (hfloat 64).ignoring
  | readIdentifier => exact (failsWith_readString 32767).ignoring
  | readPosition => exact ((failsWith_readIntN 64).bind fun _ => failsWith_pure _ _).ignoring
  | readUuid =>
    exact ((failsWith_readIntN 64).bind fun _ => (failsWith_readIntN 64).bind fun _ =>
      failsWith_pure _ _).ignoring
  | readString max => exact (failsWith_readString max).ignoring
  | readByteArray n => exact (failsWith_readByteArray n).ignoring
  | readCharArray n => exact (failsWith_readCharArray operationFailure_assert n).ignoring

/-- INTERNAL: behind the handlers only the end of the process is left. -/
theorem failsWith_performAll (operations : List Operation) :
    FailsWith (fun e => OperationFailure e ∧ e.isException = false)
      (performAll operations : PacketM σ Unit) := by
  induction operations with
  | nil => exact failsWith_pure _ ()
  | cons operation operations ih =>
    refine FailsWith.bind ?_ fun _ => ih
    intro s n bs e s' n' left h
    obtain ⟨r, hrun, hcaught⟩ := run_attempt h
    obtain ⟨rfl, hexception⟩ := caught_eq_error hcaught.symm
    exact ⟨failsWith_perform operation _ _ _ _ _ _ _ hrun, hexception⟩

/-! ## A reader on a reader -/

/-- Started with `k` on the count of the nested reader and `n` on that of the packet's: unless the
process ended, both counts lost what the budget lost. -/
def BothLost (k n : ℕ) (r : Ended (σ × ℕ) α) (m : ℕ) : Prop :=
  (∀ e, r.1 = .error e → e.isException = true) → r.2.2 = m ∧ r.2.1.2 + n = k + m

/-- INTERNAL: **each byte that a nested reader delivers is on both counts**.
SOURCE: client/handlers/play/level_chunk_with_light_packet.cc:20-22 -/
theorem within_serveKeeping {t : Pull Byte (Ended σ α)} {k : ℕ} (ht : t.Within Accounted k)
    (s : σ × ℕ) (n : ℕ) : (serveKeeping t s n).Within (BothLost k n) n := by
  induction t generalizing k n with
  | done r =>
    rw [Pull.within_done] at ht
    refine (Pull.within_done _ _ _).mpr fun hexception => ⟨rfl, ?_⟩
    rw [← ht.2 hexception]
  | pull f ih =>
    cases k with
    | zero => exact ht.elim
    | succ k =>
      cases n with
      | zero =>
        refine (Pull.within_done _ _ _).mpr fun hexception => ?_
        cases hexception _ rfl
      | succ n =>
        intro b
        refine (ih b (ht b) n).mono fun r m _ hlost hexception => ?_
        obtain ⟨hcount, hboth⟩ := hlost hexception
        exact ⟨hcount, by omega⟩

/-- INTERNAL: the code of the handlers over a nested reader is this, with the count dropped.
SOURCE: client/handlers/play/level_chunk_with_light_packet.cc:20-30 -/
theorem nested_eq_onNested (k : ℕ) (p : PacketM σ α) (s : σ) (n : ℕ) :
    nested k p s n = (onNested p (s, k) n).bind fun r => .done (r.1, r.2.1.1, r.2.2) := by
  have hserve : ∀ (t : Pull Byte (Ended σ α)) (n : ℕ),
      serve t s n = (serveKeeping t (s, k) n).bind fun r => .done (r.1, r.2.1.1, r.2.2) := by
    intro t
    induction t with
    | done r => exact fun n => rfl
    | pull f ih =>
      intro n
      cases n with
      | zero => rfl
      | succ n => exact congrArg Pull.pull (funext fun b => ih b n)
  exact hserve _ n

/-- What one step does to the two counts. -/
def StepLost (side : ReaderSide) (k n : ℕ) (r : Ended (σ × ℕ) Unit) (m : ℕ) : Prop :=
  (∀ e, r.1 = .error e → e.isException = true) →
    r.2.2 = m ∧ (side = .packet → r.2.1.2 = k) ∧ (side = .nested → r.2.1.2 + n = k + m)

theorem within_performOn (side : ReaderSide) (operation : Operation) (s : σ) (k n : ℕ) :
    (performOn side operation (s, k) n).Within (StepLost side k n) n := by
  cases side with
  | packet =>
    show ((operation.perform s n).bind fun r => .done (r.1, (r.2.1, k), r.2.2)).Within _ n
    rw [Pull.within_bind]
    refine (metered_perform operation (n + 1) s n (Nat.lt_succ_self n)).mono fun r m _ hacc => ?_
    refine (Pull.within_done _ _ _).mpr fun hexception => ⟨hacc.2 hexception, fun _ => rfl, ?_⟩
    intro h
    cases h
  | nested =>
    have hinner := metered_perform operation (k + 1) s k (Nat.lt_succ_self k)
    refine (within_serveKeeping hinner (s, k) n).mono fun r m _ hlost hexception => ?_
    obtain ⟨hcount, hboth⟩ := hlost hexception
    refine ⟨hcount, fun h => ?_, fun _ => hboth⟩
    cases h

/-- INTERNAL: **the balance of two readers**, by induction on the steps.
SOURCE: client/handlers/play/level_chunk_with_light_packet.cc:17-31 -/
theorem run_performBoth {steps : List (ReaderSide × Operation)} {s s' : σ} {k k' n n' : ℕ}
    {bs left : List Byte}
    (h : (performBoth steps (s, k) n).run bs = some ((.ok (), (s', k'), n'), left)) :
    ∃ pulled : List (ReaderSide × List Byte), pulled.map Prod.fst = steps.map Prod.fst ∧
      bs = pulled.flatMap Prod.snd ++ left ∧ n = n' + (pulled.flatMap Prod.snd).length ∧
      k = k' + (deliveredByNested pulled).length := by
  induction steps generalizing s k n bs with
  | nil =>
    cases h
    exact ⟨[], rfl, rfl, rfl, rfl⟩
  | cons step steps ih =>
    obtain ⟨side, operation⟩ := step
    unfold performBoth at h
    rw [bind_apply, Pull.run_bind] at h
    obtain ⟨⟨⟨r, ⟨s₁, k₁⟩, n₁⟩, left₁⟩, hstep, hrest⟩ := Option.bind_eq_some_iff.mp h
    cases r with
    | error e => cases hrest
    | ok _ =>
      obtain ⟨r', hrun, hcaught⟩ := run_attempt hstep
      obtain ⟨used, m, rfl, hbudget, hlost⟩ :=
        Pull.split_of_run _ _ _ _ _ _ (within_performOn side operation s k n) hrun
      obtain ⟨hcount, hpacket, hnested⟩ := hlost (exception_of_caught hcaught.symm)
      dsimp only at hcount hpacket hnested
      obtain ⟨pulled, hsides, rfl, rfl, rfl⟩ := ih hrest
      refine ⟨(side, used) :: pulled, ?_, ?_, ?_, ?_⟩
      · rw [List.map_cons, List.map_cons, hsides]
      · rw [List.flatMap_cons, List.append_assoc]
      · rw [List.flatMap_cons, List.length_append]
        dsimp only
        omega
      · cases side with
        | packet =>
          have hsame : deliveredByNested ((ReaderSide.packet, used) :: pulled) =
              deliveredByNested pulled := rfl
          rw [hsame, hpacket rfl]
        | nested =>
          have hmore : deliveredByNested ((ReaderSide.nested, used) :: pulled) =
              used ++ deliveredByNested pulled := rfl
          have hlower := hnested rfl
          rw [hmore, List.length_append]
          omega

/-- SOURCE: proto/packet.cc:83-219, proto/packet.hh:110-172,
client/handlers/play/level_chunk_with_light_packet.cc:17-31 — **the count of a reader is what it has
not pulled**. Any sequence of operations over a source that holds the packet ends, at a failed assert
or behind the last operation; and if no assert fails, whether the operations return or throw,
`packet_length - remaining()` is the number of bytes pulled. With a reader nested on the reader, and
operations on both in any order, this stays so, and each byte that the nested reader delivers lowers
its count by one as well. -/
theorem reader_balance (s : σ) (packetLength : ℕ) :
    (∀ operations bs, packetLength ≤ bs.length → ∃ r left,
      (performAll operations s packetLength).run bs = some (r, left) ∧
        (r.1 = .ok () ∨ ∃ condition, r.1 = .error (.assertFailed condition))) ∧
    (∀ operations bs s' remaining left,
      (performAll operations s packetLength).run bs = some ((.ok (), s', remaining), left) →
        ∃ pulled, bs = pulled ++ left ∧ remaining ≤ packetLength ∧
          packetLength - remaining = pulled.length) ∧
    (∀ steps nestedLength bs s' nestedRemaining remaining left,
      (performBoth steps (s, nestedLength) packetLength).run bs =
          some ((.ok (), (s', nestedRemaining), remaining), left) →
        ∃ pulled : List (ReaderSide × List Byte), pulled.map Prod.fst = steps.map Prod.fst ∧
          bs = pulled.flatMap Prod.snd ++ left ∧ remaining ≤ packetLength ∧
          packetLength - remaining = (pulled.flatMap Prod.snd).length ∧
          nestedRemaining ≤ nestedLength ∧
          nestedLength - nestedRemaining = (deliveredByNested pulled).length) := by
  refine ⟨fun operations bs hlong => ?_, fun operations bs s' remaining left h => ?_,
    fun steps nestedLength bs s' nestedRemaining remaining left h => ?_⟩
  · have hwithin := metered_performAll operations (packetLength + 1) s packetLength
      (Nat.lt_succ_self _)
    obtain ⟨⟨r, s', n'⟩, m, hrun, hacc, _⟩ := Pull.run_of_within _ _ _ bs hwithin hlong
    refine ⟨_, _, hrun, ?_⟩
    cases r with
    | ok _ => exact Or.inl rfl
    | error e =>
      obtain ⟨⟨what, rfl⟩ | ⟨condition, rfl⟩ | rfl, hexception⟩ :=
        failsWith_performAll operations _ _ _ _ _ _ _ hrun
      · cases hexception
      · exact Or.inr ⟨condition, rfl⟩
      · exact absurd rfl hacc.1
  · obtain ⟨pulled, hsplit, hlength⟩ := run_performAll h
    exact ⟨pulled, hsplit, by omega, by omega⟩
  · obtain ⟨pulled, hsides, hsplit, hlength, hnested⟩ := run_performBoth h
    exact ⟨pulled, hsides, hsplit, by omega, by omega, by omega, by omega⟩

/-- INTERNAL: a boolean that throws and a byte behind it. -/
theorem reader_balance_behind_throw :
    ∃ pulled, ([2, 5, 9] : List Byte) = pulled ++ [9] ∧ 1 ≤ 3 ∧ 3 - 1 = pulled.length :=
  (reader_balance () 3).2.1 [.readBool, .readByte] [2, 5, 9] () 1 [9] rfl

end Mccpp.Analysis
