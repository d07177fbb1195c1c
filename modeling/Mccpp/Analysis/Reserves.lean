import Mccpp.Analysis.LogRules

/-!
# What is reserved

Every container that a reader of a document comes to has `reserve` called with the count it declares,
and nothing else does (`logs_createNoting`, by induction on the nesting). The count is compared with
zero alone, so it is within the bytes that are left exactly when what is declared is.
-/

set_option autoImplicit false

namespace Mccpp.Analysis

open Mccpp.Library Mccpp.Model Mccpp.Model.PacketM Mccpp.Interface

variable {α : Type}

/-! ## The fields -/

theorem logs_readByte (bound : ℕ) : LogsBelow bound readByte byteFormat.unbroken := by
  apply logs_of_quiet bound quiet_readByte metered_readByte sound_readByte
  rintro _ b rfl
  exact reads_readByte b

theorem logs_readIntN (bound : ℕ) {w : ℕ} (k : ℕ) (hw : w = 8 * k) :
    LogsBelow bound (readIntN w) (numberFormat w).unbroken := by
  apply logs_of_quiet bound (quiet_readIntN w) (metered_readIntN w) (sound_readIntN k hw)
  rintro _ v rfl
  rw [show w / 8 = k by omega]
  exact reads_readIntN k hw v

theorem logs_readFloatN (bound : ℕ) {w : ℕ} (k : ℕ) (hw : w = 8 * k) :
    LogsBelow bound (readFloatN w) (numberFormat w).unbroken := by
  apply logs_of_quiet bound (quiet_readFloatN w) (metered_readFloatN w) (sound_readFloatN k hw)
  rintro _ v rfl
  rw [show w / 8 = k by omega]
  exact reads_readFloatN k hw v

theorem logs_readName (bound : ℕ) : LogsBelow bound Nbt.readName nameFormat.unbroken := by
  apply logs_of_quiet bound quiet_readName metered_readName sound_readName
  rintro _ name ⟨rfl, hname⟩
  exact reads_readName name hname

/-- INTERNAL: the first byte is one less for what follows. -/
theorem logs_readByte_bind {bound : ℕ} {f : Byte → PacketM (List (ℕ × ℕ)) α}
    {G : Byte → Format Byte (ℕ × ℕ) α} (hf : ∀ b, LogsBelow bound (f b) (G b)) :
    LogsBelow (bound + 1) (readByte >>= f) (byteFormat.unbroken.bind G) := by
  apply (logs_readByte _).bind_behind hf
  rintro _ _ rfl
  exact Nat.le_refl _

/-- INTERNAL: the log does not keep where tags and elements are begun. -/
theorem logs_begin {bound : ℕ} {event : NbtEvent} (hevent : event = .tag ∨ event = .element)
    {p : PacketM (List (ℕ × ℕ)) α} {F : Format Byte (ℕ × ℕ) α} (hp : LogsBelow bound p F) :
    LogsBelow bound (do logging event; p) F := by
  rcases hevent with rfl | rfl
  · exact hp
  · exact hp

theorem alike_logging {σ : Type} (event : NbtEvent) :
    ReadsAlike (logging event) (pure () : PacketM σ Unit) := by
  intro log s n
  cases event <;> exact .done ⟨rfl, rfl⟩

/-! ## The containers -/

/-- What is reserved for a payload whose type byte names this type. -/
def reserveFormat : Option TagType → Format Byte (ℕ × ℕ) Tag
  | some type => ⟨Payload type, Reserved type⟩
  | none => .refuse

/-- A list, as its constructor reads it. -/
def listReserveFormat : Format Byte (ℕ × ℕ) Tag :=
  byteFormat.unbroken.bind fun type => (numberFormat 32).unbroken.bind fun length =>
    if length.toInt ≤ 0 then .pure (.list [])
    else reserving length.toNat (((reserveFormat (TagType.ofByte type)).times length.toNat).map .list)

/-- An array, as its constructor reads it. -/
def arrayReserveFormat (w : ℕ) : Format Byte (ℕ × ℕ) (List (BitVec w)) :=
  (numberFormat 32).unbroken.bind fun length =>
    if length.toInt ≤ 0 then .pure []
    else reserving length.toNat ((numberFormat w).unbroken.times length.toNat)

/-- The children of a compound, as its loop reads them. -/
def loopReserveFormat : ℕ → Format Byte (ℕ × ℕ) (List (List Byte × Tag))
  | 0 => .refuse
  | rounds + 1 => byteFormat.unbroken.bind fun type =>
    if TagType.ofByte type = some .tagEnd then .pure []
    else nameFormat.unbroken.bind fun name => (reserveFormat (TagType.ofByte type)).bind fun child =>
      (loopReserveFormat rounds).map ((name, child) :: ·)

theorem logs_tagListNoting {bound : ℕ} {create : Option TagType → PacketM (List (ℕ × ℕ)) Tag}
    (hcreate : ∀ type, LogsBelow bound (create type) (reserveFormat type)) :
    LogsBelow (bound + 1) (Nbt.tagListNoting logging create) listReserveFormat := by
  refine logs_readByte_bind fun type => (logs_readIntN bound 4 rfl).bind fun length => ?_
  split
  · exact logs_pure bound _
  · exact logs_reserve (((hcreate _).times _).map _) _

theorem logs_tagArrayNoting (bound : ℕ) {w : ℕ} (k : ℕ) (hw : w = 8 * k) :
    LogsBelow bound (Nbt.tagArrayNoting logging w) (arrayReserveFormat w) := by
  refine (logs_readIntN bound 4 rfl).bind fun length => ?_
  split
  · exact logs_pure bound []
  · exact logs_reserve ((logs_begin (Or.inr rfl) (logs_readIntN bound k hw)).times _) _

theorem logs_compoundLoop {create : Option TagType → PacketM (List (ℕ × ℕ)) Tag} {rounds : ℕ}
    (hcreate : ∀ bound, bound < rounds → ∀ type,
      LogsBelow bound (create type) (reserveFormat type)) :
    LogsBelow rounds (Nbt.compoundLoop create rounds) (loopReserveFormat rounds) := by
  induction rounds with
  | zero => exact fun _ _ h => absurd h (Nat.not_lt_zero _)
  | succ rounds ih =>
    apply logs_readByte_bind
    intro type
    split
    · exact logs_pure rounds []
    · refine (logs_readName rounds).bind fun name => ?_
      refine (hcreate rounds (Nat.lt_succ_self rounds) _).bind fun child => ?_
      exact (ih fun bound h => hcreate bound (Nat.lt_succ_of_lt h)).map _

/-! ## What is reserved is what is declared -/

theorem not_reserved {type : TagType} {bs : List Byte} {event : ℕ × ℕ} (hlist : type ≠ .tagList)
    (hcompound : type ≠ .tagCompound) (hint : type ≠ .tagIntArray) (hlong : type ≠ .tagLongArray) :
    ¬Reserved type bs event := by
  rintro ⟨_, _, hcomes, hdeclares⟩
  cases hcomes with
  | here =>
    cases hdeclares with
    | list => exact hlist rfl
    | intArray => exact hint rfl
    | longArray => exact hlong rfl
  | item => exact hlist rfl
  | child => exact hcompound rfl

theorem reserved_of_comes {type type' : TagType} {bytes bytes' : List Byte} {event : ℕ × ℕ}
    (h : Comes type bytes type' bytes') (hreserved : Reserved type' bytes' event) :
    Reserved type bytes event := by
  obtain ⟨type'', bytes'', hcomes, hdeclares⟩ := hreserved
  exact ⟨type'', bytes'', Comes.trans h hcomes, hdeclares⟩

theorem breaks_reserveFormat {b : Byte} {bs : List Byte} {event : ℕ × ℕ}
    (h : (reserveFormat (TagType.ofByte b)).Breaks bs event) :
    ∃ type, b = type.toByte ∧ Reserved type bs event := by
  cases htype : TagType.ofByte b with
  | none =>
    rw [htype] at h
    exact h.elim
  | some type =>
    rw [htype] at h
    exact ⟨type, ofByte_eq_some htype, h⟩

theorem spells_reserveFormat {b : Byte} {bs : List Byte} {tag : Tag}
    (h : (reserveFormat (TagType.ofByte b)).Spells bs tag) :
    ∃ type, b = type.toByte ∧ Payload type bs tag := by
  cases htype : TagType.ofByte b with
  | none =>
    rw [htype] at h
    exact h.elim
  | some type =>
    rw [htype] at h
    exact ⟨type, ofByte_eq_some htype, h⟩

/-- INTERNAL: an array reserves for its own declaration.
SOURCE: nbt.cc:169-187 -/
theorem breaks_arrayReserveFormat (w : ℕ) (bs : List Byte) (event : ℕ × ℕ) :
    (arrayReserveFormat w).Breaks bs event ↔ ∃ (length : BitVec 32) (rest : List Byte),
      0 < length.toInt ∧ bs = lengthBytes length ++ rest ∧ event = (length.toNat, rest.length) := by
  constructor
  · rintro (h | ⟨_, rest, length, rfl, rfl, h⟩)
    · exact h.elim
    · beta_reduce at h
      split at h
      · exact h.elim
      · rename_i hpos
        rcases h with rfl | h
        · exact ⟨length, rest, by omega, rfl, rfl⟩
        · obtain ⟨_, _, _, _, _, _, _, h⟩ := (Format.times_breaks _ _ _ _).mp h
          exact h.elim
  · rintro ⟨length, rest, hpos, rfl, rfl⟩
    refine Or.inr ⟨lengthBytes length, rest, length, rfl, rfl, ?_⟩
    beta_reduce
    rw [if_neg (by omega)]
    exact Or.inl rfl

theorem reserved_intArray (bs : List Byte) (event : ℕ × ℕ) :
    (arrayReserveFormat 32).Breaks bs event ↔ Reserved .tagIntArray bs event := by
  rw [breaks_arrayReserveFormat]
  constructor
  · rintro ⟨length, rest, hpos, rfl, rfl⟩
    exact ⟨_, _, .here _ _, .intArray length hpos rest⟩
  · rintro ⟨_, _, hcomes, hdeclares⟩
    cases hcomes
    cases hdeclares with
    | intArray length hpos rest => exact ⟨length, rest, hpos, rfl, rfl⟩

theorem reserved_longArray (bs : List Byte) (event : ℕ × ℕ) :
    (arrayReserveFormat 64).Breaks bs event ↔ Reserved .tagLongArray bs event := by
  rw [breaks_arrayReserveFormat]
  constructor
  · rintro ⟨length, rest, hpos, rfl, rfl⟩
    exact ⟨_, _, .here _ _, .longArray length hpos rest⟩
  · rintro ⟨_, _, hcomes, hdeclares⟩
    cases hcomes
    cases hdeclares with
    | longArray length hpos rest => exact ⟨length, rest, hpos, rfl, rfl⟩

/-- INTERNAL: a list reserves for its own declaration, and its items for theirs.
SOURCE: nbt.cc:138-147 -/
theorem reserved_list (bs : List Byte) (event : ℕ × ℕ) :
    listReserveFormat.Breaks bs event ↔ Reserved .tagList bs event := by
  constructor
  · rintro (h | ⟨_, _, type, rfl, rfl, h | ⟨_, rest, length, rfl, rfl, h⟩⟩)
    · exact h.elim
    · exact h.elim
    · beta_reduce at h
      split at h
      · exact h.elim
      · rename_i hpos
        rcases h with rfl | h
        · exact ⟨_, _, .here _ _, .list type length (by omega) rest⟩
        · obtain ⟨earlier, later, tags, count, rfl, hcount, hspells, hbreaks⟩ :=
            (Format.times_breaks _ _ _ _).mp h
          obtain ⟨item, rfl, hitem⟩ := breaks_reserveFormat hbreaks
          rw [TagType.ofByte_toByte] at hspells
          obtain ⟨bss, rfl, hforall, rfl⟩ := (Format.times_spells _ _ _ _).mp hspells
          have hcomes := Comes.item item length (by omega) _ hcount _ later tags _ _
            (items_of_forall₂ hforall) (.here item later)
          rw [List.append_assoc] at hcomes
          exact reserved_of_comes hcomes hitem
  · rintro ⟨type', bytes', hcomes, hdeclares⟩
    cases hcomes with
    | here =>
      cases hdeclares with
      | list item length hpos rest =>
        refine Or.inr ⟨[item], _, item, rfl, rfl, Or.inr ⟨lengthBytes length, rest, length, rfl, rfl, ?_⟩⟩
        beta_reduce
        rw [if_neg (by omega)]
        exact Or.inl rfl
    | item item length hpos count hcount earlier later tags _ _ items next =>
      obtain ⟨bss, rfl, hforall, rfl⟩ := forall₂_of_items items
      refine Or.inr ⟨[item.toByte], _, item.toByte, List.append_assoc _ _ _, rfl,
        Or.inr ⟨lengthBytes length, bss.flatten ++ later, length, rfl, rfl, ?_⟩⟩
      beta_reduce
      rw [if_neg (by omega), TagType.ofByte_toByte]
      refine Or.inr ((Format.times_breaks _ _ _ _).mpr ⟨bss.flatten, later, tags, tags.length, rfl,
        hcount, ?_, ⟨type', bytes', next, hdeclares⟩⟩)
      exact (Format.times_spells _ _ _ _).mpr ⟨bss, rfl, hforall, rfl⟩

/-- INTERNAL: a compound reserves for its children, one behind the other.
SOURCE: nbt.cc:157-167 -/
theorem reserved_compound {rounds : ℕ} {bs : List Byte} (event : ℕ × ℕ) (hbs : bs.length < rounds) :
    (loopReserveFormat rounds).Breaks bs event ↔ Reserved .tagCompound bs event := by
  induction rounds generalizing bs with
  | zero => exact absurd hbs (Nat.not_lt_zero _)
  | succ rounds ih =>
    constructor
    · rintro (h | ⟨_, later, type, rfl, rfl, h⟩)
      · exact h.elim
      · beta_reduce at h
        split at h
        · exact h.elim
        · rename_i hend
          rcases h with h | ⟨_, _, name, rfl, ⟨rfl, hname⟩, h | ⟨used, rest, child, rfl, hchild, h⟩⟩
          · exact h.elim
          · obtain ⟨childType, rfl, hreserved⟩ := breaks_reserveFormat h
            refine reserved_of_comes (.child childType ?_ name hname [] _ [] _ _ .nil
              (.here childType _)) hreserved
            rintro rfl
            exact hend (TagType.ofByte_toByte _)
          · obtain ⟨childType, rfl, hpayload⟩ := spells_reserveFormat hchild
            simp only [List.length_append, List.length_cons, List.length_nil] at hbs
            obtain ⟨type', bytes', hcomes, hdeclares⟩ := (ih (by omega)).mp h
            rcases comes_entries_append (.cons childType name used [] child [] hname hpayload .nil)
              hcomes with ⟨rfl, rfl⟩ | hcomes
            · cases hdeclares
            · refine ⟨type', bytes', ?_, hdeclares⟩
              simpa only [List.append_assoc, List.append_nil, List.cons_append, List.nil_append]
                using hcomes
    · rintro ⟨type', bytes', hcomes, hdeclares⟩
      cases hcomes with
      | here => cases hdeclares
      | child childType hchild name hname earlier later children _ _ entries next =>
        cases entries with
        | nil =>
          refine Or.inr ⟨[childType.toByte], nameBytes name ++ later, childType.toByte, rfl, rfl, ?_⟩
          beta_reduce
          rw [TagType.ofByte_toByte, if_neg (by simpa using hchild)]
          exact Or.inr ⟨nameBytes name, later, name, rfl, ⟨rfl, hname⟩, Or.inl ⟨type', bytes', next,
            hdeclares⟩⟩
        | cons type name' used rest child children hname' head tail =>
          simp only [List.length_append, List.length_cons] at hbs
          have hshorter : (rest ++ (childType.toByte :: nameBytes name ++ later)).length < rounds := by
            simp only [List.length_append, List.length_cons]
            omega
          have hrest := (ih hshorter).mpr ⟨type', bytes',
            .child childType hchild name hname rest later children _ _ tail next, hdeclares⟩
          refine Or.inr ⟨[type.toByte], nameBytes name' ++ (used ++ (rest ++
            (childType.toByte :: nameBytes name ++ later))), type.toByte, by simp, rfl, ?_⟩
          beta_reduce
          rw [TagType.ofByte_toByte, if_neg (by simpa using payload_ne_end head)]
          exact Or.inr ⟨nameBytes name', _, name', rfl, ⟨rfl, hname'⟩, Or.inr ⟨used, _, child, rfl, head,
            hrest⟩⟩

/-- INTERNAL: **`reserve` is called for what is declared**, at every depth and in the order in which
the reader comes to it.
SOURCE: nbt.cc:26-43, 138-187 -/
theorem logs_createNoting (fuel : ℕ) (type : Option TagType) :
    LogsBelow fuel (Nbt.createNoting logging fuel type) (reserveFormat type) := by
  induction fuel generalizing type with
  | zero => exact fun _ _ h => absurd h (Nat.not_lt_zero _)
  | succ fuel ih =>
    cases type with
    | none => exact logs_begin (Or.inl rfl) (logs_fail _ _)
    | some type =>
      -- what is returned is known from the reader without a log
      have hrespell : ∀ {F : Format Byte (ℕ × ℕ) Tag},
          LogsBelow (fuel + 1) (Nbt.createNoting logging (fuel + 1) (some type)) F →
          (∀ bs event, bs.length < fuel + 1 → (F.Breaks bs event ↔ Reserved type bs event)) →
          LogsBelow (fuel + 1) (Nbt.createNoting logging (fuel + 1) (some type))
            (reserveFormat (some type)) := by
        intro F hlogs hbreaks
        exact hlogs.respell (alike_createNoting alike_logging (fuel + 1) (some type))
          (sound_create (fuel + 1) (some type)) (fun bs tag hbs h => reads_create h fuel hbs) hbreaks
      have hnone : ∀ {F : Format Byte (ℕ × ℕ) Tag},
          (type ≠ .tagList ∧ type ≠ .tagCompound ∧ type ≠ .tagIntArray ∧ type ≠ .tagLongArray) →
          (∀ bs event, ¬F.Breaks bs event) →
          ∀ bs event, bs.length < fuel + 1 → (F.Breaks bs event ↔ Reserved type bs event) := by
        rintro F ⟨hlist, hcompound, hint, hlong⟩ hquiet bs event _
        exact iff_of_false (hquiet bs event) (not_reserved hlist hcompound hint hlong)
      cases type with
      | tagEnd =>
        exact hrespell (logs_begin (Or.inl rfl) (logs_fail _ _)) (hnone (by simp) fun _ _ h => h)
      | tagByte =>
        exact hrespell (logs_begin (Or.inl rfl) ((logs_readIntN _ 1 rfl).map _))
          (hnone (by simp) fun _ _ h => h)
      | tagShort =>
        exact hrespell (logs_begin (Or.inl rfl) ((logs_readIntN _ 2 rfl).map _))
          (hnone (by simp) fun _ _ h => h)
      | tagInt =>
        exact hrespell (logs_begin (Or.inl rfl) ((logs_readIntN _ 4 rfl).map _))
          (hnone (by simp) fun _ _ h => h)
      | tagLong =>
        exact hrespell (logs_begin (Or.inl rfl) ((logs_readIntN _ 8 rfl).map _))
          (hnone (by simp) fun _ _ h => h)
      | tagFloat =>
        exact hrespell (logs_begin (Or.inl rfl) ((logs_readFloatN _ 4 rfl).map _))
          (hnone (by simp) fun _ _ h => h)
      | tagDouble =>
        exact hrespell (logs_begin (Or.inl rfl) ((logs_readFloatN _ 8 rfl).map _))
          (hnone (by simp) fun _ _ h => h)
      | tagByteArray =>
        exact hrespell (logs_begin (Or.inl rfl) (logs_fail _ _)) (hnone (by simp) fun _ _ h => h)
      | tagString =>
        exact hrespell (logs_begin (Or.inl rfl) ((logs_readName _).map _))
          (hnone (by simp) fun _ _ h => h)
      | tagList =>
        exact hrespell (logs_begin (Or.inl rfl) (logs_tagListNoting ih)) fun bs event _ =>
          reserved_list bs event
      | tagCompound =>
        have hchildren : ∀ bound, bound < fuel + 1 → ∀ item,
            LogsBelow bound (Nbt.createNoting logging fuel item) (reserveFormat item) :=
          fun bound h item log bs hbs => ih item log bs (by omega)
        exact hrespell (logs_begin (Or.inl rfl) ((logs_compoundLoop hchildren).map _))
          fun bs event hbs => reserved_compound event hbs
      | tagIntArray =>
        exact hrespell (logs_begin (Or.inl rfl) ((logs_tagArrayNoting _ 4 rfl).map _))
          fun bs event _ => reserved_intArray bs event
      | tagLongArray =>
        exact hrespell (logs_begin (Or.inl rfl) ((logs_tagArrayNoting _ 8 rfl).map _))
          fun bs event _ => reserved_longArray bs event

end Mccpp.Analysis
