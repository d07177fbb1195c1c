import Mccpp.Analysis.FieldCodec
import Mccpp.Analysis.NestedReader
import Mccpp.Analysis.Reserves

/-!
# When what is reserved is there

`reserve` is called with the count that a container declares, whatever is behind it, so that it stays
within the bytes that are left exactly when no container declares more than those.
-/

set_option autoImplicit false

namespace Mccpp.Analysis

open Mccpp.Library Mccpp.Model Mccpp.Model.PacketM Mccpp.Interface

/-! ## Documents -/

/-- A document, as its constructor reads it. -/
def documentReserveFormat : Format Byte (ℕ × ℕ) (Option Tag) :=
  byteFormat.unbroken.bind fun type =>
    if TagType.ofByte type = some .tagEnd then .pure none
    else nameFormat.unbroken.bind fun _ => (reserveFormat (TagType.ofByte type)).map some

theorem logs_nbtNoting (bound : ℕ) :
    LogsBelow bound (Nbt.nbtNoting logging) documentReserveFormat := by
  refine (logs_readByte bound).bind fun type => ?_
  split
  · exact logs_pure bound none
  · exact (logs_readName bound).bind fun _ => logs_remaining_bind fun n =>
      (logs_createNoting (n + 1) _).map some

theorem documentReserved_iff (bs : List Byte) (event : ℕ × ℕ) :
    documentReserveFormat.Breaks bs event ↔ DocumentReserved bs event := by
  constructor
  · rintro (h | ⟨_, later, type, rfl, rfl, h⟩)
    · exact h.elim
    · beta_reduce at h
      split at h
      · exact h.elim
      · rename_i hend
        rcases h with h | ⟨_, rest, name, rfl, ⟨rfl, hname⟩, h⟩
        · exact h.elim
        · obtain ⟨root, rfl, hreserved⟩ := breaks_reserveFormat h
          refine ⟨root, name, rest, ?_, hname, rfl, hreserved⟩
          rintro rfl
          exact hend (TagType.ofByte_toByte _)
  · rintro ⟨type, name, later, htype, hname, rfl, h⟩
    refine Or.inr ⟨[type.toByte], nameBytes name ++ later, type.toByte, rfl, rfl, ?_⟩
    beta_reduce
    rw [TagType.ofByte_toByte, if_neg (by simpa using htype)]
    exact Or.inr ⟨nameBytes name, later, name, rfl, ⟨rfl, hname⟩, h⟩

/-- INTERNAL: **the log of a document**, with anything behind it.
SOURCE: nbt.cc:138-199 -/
theorem run_nbtNoting (body following : List Byte) :
    ∃ r left, (Nbt.nbtNoting logging [] body.length).run (body ++ following) = some (r, left) ∧
      ∀ event, event ∈ r.2.1 ↔ DocumentReserved body event := by
  obtain ⟨r, left, hrun, ⟨events, hlog, hevents⟩, -, -⟩ :=
    logs_nbtNoting (body.length + 1) [] body (Nat.lt_succ_self _)
  refine ⟨r, left ++ following, Pull.run_append _ _ following _ _ hrun, fun event => ?_⟩
  rw [show r.2.1 = events from hlog, hevents, documentReserved_iff]

theorem reservesProperly_iff (body following : List Byte) :
    ReservesProperly body following ↔ ¬Overdeclares body := by
  obtain ⟨r, left, hrun, hevents⟩ := run_nbtNoting body following
  constructor
  · rintro ⟨r', left', hrun', hbounded, -⟩ ⟨count, rest, hreserved, hlt⟩
    rw [hrun] at hrun'
    cases hrun'
    have hle := hbounded count rest ((hevents _).mpr hreserved)
    omega
  · intro hnot
    refine ⟨r, left, hrun, fun count rest hmem => ?_, fun h => absurd h hnot⟩
    by_contra hlt
    exact hnot ⟨count, rest, (hevents _).mp hmem, by omega⟩

/-! ## Palettes -/

variable {σ α β : Type}

/-- With any count, `p` leaves the data alone, and what it returns is spelled by what it took. -/
def Consumes (p : PacketM σ α) (F : ByteFormat α) : Prop :=
  ∀ s n bs r left, (p s n).run bs = some (r, left) →
    r.2.1 = s ∧ ∀ a, r.1 = .ok a →
      ∃ used, bs = used ++ left ∧ n = r.2.2 + used.length ∧ F.Spells used a

theorem consumes_pure (a : α) : Consumes (pure a : PacketM σ α) (.pure a) := by
  intro s n bs r left h
  cases h
  refine ⟨rfl, fun b hb => ?_⟩
  cases hb
  exact ⟨[], rfl, rfl, rfl, rfl⟩

theorem consumes_fail (e : Failure) (F : ByteFormat α) : Consumes (fail e : PacketM σ α) F := by
  intro s n bs r left h
  cases h
  exact ⟨rfl, fun _ h => nomatch h⟩

theorem consumes_readByte : Consumes (readByte : PacketM σ Byte) byteFormat := by
  intro s n bs r left h
  refine ⟨quiet_readByte _ _ _ _ _ h, fun b hb => ?_⟩
  cases n with
  | zero =>
    cases h
    cases hb
  | succ n =>
    cases bs with
    | nil => cases h
    | cons b' bs =>
      cases h
      cases hb
      exact ⟨[b'], rfl, rfl, rfl⟩

/-- INTERNAL: a run of a sequence fails in its first part, or goes on behind what that took. -/
theorem Consumes.run_bind {p : PacketM σ α} {F : ByteFormat α} {f : α → PacketM σ β} {s : σ} {n : ℕ}
    {bs left : List Byte} {r : Ended σ β} (hp : Consumes p F)
    (h : ((p >>= f) s n).run bs = some (r, left)) :
    (r.2.1 = s ∧ ∃ e, r.1 = .error e) ∨ ∃ used rest m a, bs = used ++ rest ∧ n = m + used.length ∧
      F.Spells used a ∧ (f a s m).run rest = some (r, left) := by
  rw [bind_apply, Pull.run_bind] at h
  obtain ⟨⟨⟨e | a, s₁, n₁⟩, rest⟩, hrun₁, hrun₂⟩ := Option.bind_eq_some_iff.mp h
  · cases hrun₂
    exact Or.inl ⟨(hp _ _ _ _ _ hrun₁).1, e, rfl⟩
  · obtain ⟨hs, hok⟩ := hp _ _ _ _ _ hrun₁
    obtain rfl : s₁ = s := hs
    obtain ⟨used, hbs, hn, hspells⟩ := hok a rfl
    exact Or.inr ⟨used, rest, n₁, a, hbs, hn, hspells, hrun₂⟩

theorem Consumes.bind {p : PacketM σ α} {F : ByteFormat α} {f : α → PacketM σ β}
    {G : α → ByteFormat β} (hp : Consumes p F) (hf : ∀ a, Consumes (f a) (G a)) :
    Consumes (p >>= f) (F.bind G) := by
  intro s n bs r left h
  rcases hp.run_bind h with ⟨hs, e, he⟩ | ⟨used, rest, m, a, rfl, rfl, hspells, hrun⟩
  · exact ⟨hs, fun _ hb => nomatch he.symm.trans hb⟩
  · obtain ⟨hs, hok⟩ := hf a _ _ _ _ _ hrun
    refine ⟨hs, fun b hb => ?_⟩
    obtain ⟨used', rfl, rfl, hspells'⟩ := hok b hb
    refine ⟨used ++ used', (List.append_assoc _ _ _).symm, ?_, used, used', a, rfl, hspells, hspells'⟩
    rw [List.length_append]
    omega

theorem consumes_readU8 : Consumes (readU8 : PacketM σ (BitVec 8)) byteFormat := by
  intro s n bs r left h
  obtain ⟨hs, hok⟩ := (consumes_readByte.bind fun b => consumes_pure (0#8 + b.setWidth 8 <<< (8 * 0)))
    s n bs r left h
  refine ⟨hs, fun b hb => ?_⟩
  obtain ⟨_, rfl, hn, _, _, b', rfl, rfl, rfl, rfl⟩ := hok b hb
  refine ⟨[b'], rfl, hn, ?_⟩
  simp [byteFormat, Format.symbol]

/-- INTERNAL: with any count, the loop of a variable length integer takes what spells its value.
SOURCE: proto/varint.hh:37-61 -/
theorem consumes_readVarintLoop {w : ℕ} (fuel : ℕ) (value : BitVec w) (position : ℕ) :
    Consumes (readVarintLoop w fuel value position : PacketM σ (BitVec w)) (varintFrom value position) := by
  induction fuel generalizing value position with
  | zero => exact consumes_fail _ _
  | succ fuel ih =>
    rw [varintFrom_eq]
    refine consumes_readByte.bind fun b => ?_
    cases asyncReadStep value position b with
    | done v => exact consumes_pure v
    | more v p => exact ih v p
    | invalid => exact consumes_fail _ _

/-- INTERNAL: where loading a section stops at `palette.reserve`, the section declares that.
SOURCE: world/chunk.cc:20-40 -/
theorem declares_of_stopped {c : Chunk} {n count : ℕ} {bs left : List Byte}
    {r : Ended (Chunk × Option ℕ) Unit}
    (h : (loadBlocksNoting fillNoting stopping (c, none) n).run bs = some (r, left))
    (hcount : r.2.1.2 = some count) : DeclaresPalette n bs count left := by
  have hnone : ∀ {c' : Chunk}, r.2.1 ≠ (c', none) := by
    intro c' heq
    rw [heq] at hcount
    cases hcount
  have hvarint : Consumes (readVarint : PacketM (Chunk × Option ℕ) (BitVec 32)) varintFormat :=
    consumes_readVarintLoop 32 0 0
  rcases consumes_readU8.run_bind h with ⟨hs, -⟩ | ⟨_, rest, m, bits, rfl, rfl, rfl, hbody⟩
  · exact absurd hs hnone
  · split at hbody
    · -- one value for the whole section: the data are `(gpb, none)` from there on
      rcases hvarint.run_bind hbody with ⟨hs, -⟩ | ⟨_, _, _, value, rfl, rfl, -, hfilled⟩
      · exact absurd hs hnone
      · rcases hvarint.run_bind (s := (⟨fun _ => blockFromGlobalPalette value⟩, none)) hfilled with
          ⟨hs, -⟩ | ⟨_, _, _, _, rfl, rfl, -, hend⟩
        · exact absurd hs hnone
        · cases hend
          exact absurd rfl hnone
    · rename_i hbits
      split at hbody
      · rename_i hfew
        rcases hvarint.run_bind hbody with
          ⟨hs, -⟩ | ⟨spelling, rest, m, length, rfl, rfl, hspells, hlength⟩
        · exact absurd hs hnone
        · split at hlength
          · cases hlength
            exact absurd rfl hnone
          · cases hlength
            cases hcount
            refine ⟨bits, length, spelling, rfl, hbits, hfew, hspells, by omega, rfl, ?_⟩
            rw [List.length_singleton]
            omega
      · cases hbody
        exact absurd rfl hnone

/-- INTERNAL: loading a section that declares a palette comes to `palette.reserve`.
SOURCE: world/chunk.cc:20-40 -/
theorem stopped_of_declares (c : Chunk) {n count : ℕ} {bs rest : List Byte}
    (h : DeclaresPalette n bs count rest) :
    ∃ m, (loadBlocksNoting fillNoting stopping (c, none) n).run bs =
      some ((.error .diverged, (c, some count), m), rest) := by
  obtain ⟨bits, length, spelling, rfl, hbits, hfew, hspells, hnonneg, rfl, hn⟩ := h
  have hfirst : Reads (readU8 : PacketM (Chunk × Option ℕ) (BitVec 8)) [bits] bits := by
    have hreads := reads_readIntN (σ := Chunk × Option ℕ) (w := 8) 1 rfl bits
    rwa [show bigEndian 1 bits.toNat = [bits] from spells_bits.mpr rfl |>.symm] at hreads
  have hsecond : Reads (readVarint : PacketM (Chunk × Option ℕ) (BitVec 32)) spelling length :=
    reads_readVarintLoop hspells (by omega) (by omega)
  refine ⟨n - 1 - spelling.length, ?_⟩
  unfold loadBlocksNoting
  rw [show bits :: spelling ++ rest = [bits] ++ (spelling ++ rest) from rfl, bind_apply, Pull.run_bind,
    hfirst _ _ _ (by rw [List.length_singleton]; omega), Option.bind_some, andThen_ok, if_neg hbits,
    if_pos hfew, bind_apply, Pull.run_bind,
    hsecond _ _ _ (by rw [List.length_singleton]; omega), Option.bind_some, andThen_ok,
    if_neg (by omega)]
  rfl

theorem reservesPaletteProperly_iff (c : Chunk) (n : ℕ) (bs : List Byte) :
    ReservesPaletteProperly c n bs ↔ ¬OverdeclaresPalette n bs := by
  have hserve : (nested n (loadBlocksNoting fillNoting stopping) (c, none) bs.length).run bs = _ :=
    run_serve (loadBlocksNoting fillNoting stopping (c, none) n) (c, none) bs
  unfold ReservesPaletteProperly
  rw [hserve]
  constructor
  · rintro ⟨r, left, hrun, hbounded, -⟩ ⟨count, rest, hdeclares, hlt⟩
    obtain ⟨m, hstopped⟩ := stopped_of_declares c hdeclares
    rw [hstopped] at hrun
    cases hrun
    have hle := hbounded count rfl
    omega
  · intro hnot
    cases hrun : (loadBlocksNoting fillNoting stopping (c, none) n).run bs with
    | none => exact ⟨_, _, rfl, fun _ h => (nomatch h), fun h => absurd h hnot⟩
    | some end' =>
      obtain ⟨⟨result, kept, m⟩, left⟩ := end'
      refine ⟨(result, kept, left.length), left, rfl, fun count hcount => ?_,
        fun h => absurd h hnot⟩
      by_contra hlt
      exact hnot ⟨count, left, declares_of_stopped hrun hcount, by omega⟩

/-! ## The result -/

/-- SOURCE: nbt.cc:138-187; world/chunk.cc:20-44 — **when what is reserved is there**. Over every body of
a packet, with anything behind it, reading a document calls `reserve` with no more than the bytes
that are left each time, and rejects what declares more, exactly when no list or array that the
reader comes to declares more elements than there are bytes behind its length. Loading a section, from
a nested reader of any size, does the same exactly when the palette does not declare more values than
the packet has bytes behind its length. -/
theorem reserves_within_iff (body following : List Byte) (c : Chunk) (n : ℕ) (bytes : List Byte) :
    (ReservesProperly body following ↔ ¬Overdeclares body) ∧
      (ReservesPaletteProperly c n bytes ↔ ¬OverdeclaresPalette n bytes) :=
  ⟨reservesProperly_iff body following, reservesPaletteProperly_iff c n bytes⟩

/-- INTERNAL: an array of `2 ^ 31 - 1` numbers of which none is there. -/
theorem reserves_for_missing_array :
    ¬∀ body following : List Byte, ReservesProperly body following := by
  intro h
  obtain ⟨r, left, hrun, hbounded, -⟩ := h [11, 0, 0, 127, 255, 255, 255] []
  have hlog : (2147483647, 0) ∈ r.2.1 := by
    obtain ⟨r', left', hrun', hevents⟩ := run_nbtNoting [11, 0, 0, 127, 255, 255, 255] []
    rw [hrun'] at hrun
    cases hrun
    refine (hevents _).mpr ⟨.tagIntArray, [], [127, 255, 255, 255], by simp, by simp, rfl, ?_⟩
    exact ⟨_, _, .here _ _, .intArray 2147483647#32 (by decide) []⟩
  have hle := hbounded _ _ hlog
  omega

end Mccpp.Analysis
