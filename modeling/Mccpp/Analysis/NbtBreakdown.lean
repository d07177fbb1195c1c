import Mccpp.Analysis.NbtDecoding
import Mccpp.Analysis.ReaderFormats

/-!
# When reading a document brings the process down

`nbt::nbt` reads the format of documents (`Mccpp.Interface.documentFormat`): it aborts where
a list declares a positive number of `TAG_END` items, it fails an assert where the bytes end
inside a field, and nowhere else does either happen. One direction follows the reader
(`sound_create`), the other what it comes to (`fails_of_comes`).
-/

set_option autoImplicit false

namespace Mccpp.Analysis

open Mccpp.Library Mccpp.Model Mccpp.Model.PacketM Mccpp.Interface

variable {σ : Type}

/-- A payload as a format. -/
def payloadFormat (type : TagType) : ByteFormat Tag where
  Spells := Payload type
  Breaks bytes
    | .cutOff => CutOff type bytes
    | .aborts => ∃ later, Comes type bytes .tagEnd later

theorem ofByte_eq_some {b : Byte} {type : TagType} (h : TagType.ofByte b = some type) :
    b = type.toByte := by
  unfold TagType.ofByte at h
  apply BitVec.eq_of_toNat_eq
  split at h <;> cases h <;> assumption

/-! ## Following what a reader comes to -/

theorem Comes.trans {type₁ type₂ type₃ : TagType} {bytes₁ bytes₂ bytes₃ : List Byte}
    (h₁₂ : Comes type₁ bytes₁ type₂ bytes₂) (h₂₃ : Comes type₂ bytes₂ type₃ bytes₃) :
    Comes type₁ bytes₁ type₃ bytes₃ := by
  induction h₁₂ with
  | here => exact h₂₃
  | item item length h count hcount earlier later tags _ _ items _ ih =>
    exact .item item length h count hcount earlier later tags _ _ items (ih h₂₃)
  | child childType hchild name hname earlier later children _ _ entries _ ih =>
    exact .child childType hchild name hname earlier later children _ _ entries (ih h₂₃)

/-- INTERNAL: a reader that comes to a payload breaks as that payload does. -/
theorem breaks_of_comes {type type' : TagType} {bytes bytes' : List Byte} {k : Breakdown}
    (h : Comes type bytes type' bytes') (hbreaks : (payloadFormat type').Breaks bytes' k) :
    (payloadFormat type).Breaks bytes k := by
  cases k with
  | cutOff =>
    obtain ⟨type'', bytes'', hcomes, hcut⟩ := hbreaks
    exact ⟨type'', bytes'', Comes.trans h hcomes, hcut⟩
  | aborts =>
    obtain ⟨later, hcomes⟩ := hbreaks
    exact ⟨later, Comes.trans h hcomes⟩

theorem breaks_of_fieldCut {type : TagType} {bytes : List Byte} (h : FieldCut type bytes) :
    (payloadFormat type).Breaks bytes .cutOff :=
  ⟨type, bytes, .here type bytes, h⟩

theorem items_of_forall₂ {item : TagType} {bss : List (List Byte)} {tags : List Tag}
    (h : List.Forall₂ (Payload item) bss tags) :
    Items item tags.length bss.flatten tags := by
  induction h with
  | nil => exact .nil item
  | cons hhead _ ih => exact .cons item _ _ _ _ _ hhead ih

theorem forall₂_of_items {item : TagType} {count : ℕ} {bytes : List Byte} {tags : List Tag}
    (h : Items item count bytes tags) :
    ∃ bss, bytes = bss.flatten ∧ List.Forall₂ (Payload item) bss tags ∧ tags.length = count := by
  induction count generalizing bytes tags with
  | zero =>
    cases h
    exact ⟨[], rfl, .nil, rfl⟩
  | succ count ih =>
    cases h with
    | cons _ _ bytes rest tag tags head tail =>
      obtain ⟨bss, rfl, hforall, rfl⟩ := ih tail
      exact ⟨bytes :: bss, rfl, .cons head hforall, rfl⟩

theorem Entries.append {bytes₁ bytes₂ : List Byte} {children₁ children₂ : List (List Byte × Tag)}
    (h₁ : Entries bytes₁ children₁) (h₂ : Entries bytes₂ children₂) :
    Entries (bytes₁ ++ bytes₂) (children₁ ++ children₂) := by
  induction children₁ generalizing bytes₁ with
  | nil =>
    cases h₁
    exact h₂
  | cons child children₁ ih =>
    cases h₁ with
    | cons type name bytes rest tag children h head tail =>
      rw [List.append_assoc (type.toByte :: nameBytes name ++ bytes)]
      exact .cons type name bytes _ tag _ h head (ih tail)

/-! ## The reader keeps to the format -/

/-- A name as a format. -/
def nameFormat : ByteFormat (List Byte) where
  Spells bs name := bs = nameBytes name ∧ name.length < 2 ^ 16
  Breaks bs k := k = .cutOff ∧ NameCut bs

theorem sound_readName : Sound (Nbt.readName : PacketM σ (List Byte)) nameFormat := by
  refine ((sound_readIntN 2 rfl).bind fun length => sound_readCharArray length.toNat).mono ⟨?_, ?_⟩
  · rintro _ name ⟨_, _, length, rfl, rfl, rfl, hlen⟩
    refine ⟨?_, hlen ▸ length.isLt⟩
    rw [nameBytes, hlen]
  · rintro _ k (⟨rfl, hlen⟩ | ⟨_, _, length, rfl, rfl, rfl, hlen⟩)
    · exact ⟨rfl, .length _ hlen⟩
    · exact ⟨rfl, .text length _ hlen⟩

theorem fails_readName {bs : List Byte} (h : NameCut bs) :
    Fails (Nbt.readName : PacketM σ (List Byte)) bs .cutOff := by
  cases h with
  | length bs h => exact (fails_readIntN (k := 2) rfl h).bind
  | text length bytes h => exact (reads_readIntN 2 rfl length).bind_fails (fails_readCharArray h)

/-- An array as a format. -/
def arrayFormat (w : ℕ) : ByteFormat (List (BitVec w)) where
  Spells bs vs := vs = [] ∧ (∃ length : BitVec 32, length.toInt ≤ 0 ∧ bs = lengthBytes length) ∨
    vs.length < 2 ^ 31 ∧ bs = lengthBytes (BitVec.ofNat 32 vs.length) ++
      vs.flatMap fun v => bigEndian (w / 8) v.toNat
  Breaks bs k := k = .cutOff ∧ ArrayCut (w / 8) bs

theorem numbers_flatten {w : ℕ} {bss : List (List Byte)} {vs : List (BitVec w)}
    (h : List.Forall₂ (numberFormat w).Spells bss vs) :
    bss.flatten = vs.flatMap (fun v => bigEndian (w / 8) v.toNat) ∧
      bss.flatten.length = w / 8 * vs.length := by
  induction h with
  | nil => exact ⟨rfl, rfl⟩
  | @cons bs v bss vs hhead _ ih =>
    obtain ⟨hflat, hlen⟩ := ih
    have hbs : bs = bigEndian (w / 8) v.toNat := hhead
    refine ⟨by rw [List.flatten_cons, List.flatMap_cons, hflat, hbs], ?_⟩
    rw [List.flatten_cons, List.length_append, hlen, hbs, length_bigEndian, List.length_cons,
      Nat.mul_succ, Nat.add_comm]

/-- INTERNAL: an array is as many numbers as its length says.
SOURCE: nbt.cc:169-187 -/
theorem sound_tagArray {w : ℕ} (k : ℕ) (hw : w = 8 * k) :
    Sound (Nbt.tagArray w : PacketM σ (List (BitVec w))) (arrayFormat w) := by
  have hbody : ∀ length : BitVec 32,
      Sound (if length.toInt ≤ 0 then pure [] else times length.toNat (readIntN w) :
          PacketM σ (List (BitVec w)))
        (if length.toInt ≤ 0 then .pure [] else (numberFormat w).times length.toNat) := by
    intro length
    split
    · exact sound_pure []
    · exact (sound_readIntN k hw).times length.toNat
  refine ((sound_readIntN (w := 32) 4 rfl).bind hbody).mono ⟨?_, ?_⟩
  · rintro _ vs ⟨_, later, length, rfl, rfl, hspells⟩
    beta_reduce at hspells
    split at hspells
    · rename_i hle
      obtain ⟨rfl, rfl⟩ := hspells
      exact Or.inl ⟨rfl, length, hle, List.append_nil _⟩
    · rename_i hpos
      obtain ⟨bss, rfl, hforall, hlen⟩ := (Format.times_spells _ _ _ _).mp hspells
      have hlt := (toNat_lt_of_toInt_pos hpos).2
      refine Or.inr ⟨by omega, ?_⟩
      rw [(numbers_flatten hforall).1, hlen, BitVec.ofNat_toNat, BitVec.setWidth_eq]
      rfl
  · rintro _ k' (⟨rfl, hlen⟩ | ⟨_, later, length, rfl, rfl, hbreaks⟩)
    · exact ⟨rfl, .length _ hlen⟩
    · beta_reduce at hbreaks
      split at hbreaks
      · exact hbreaks.elim
      · rename_i hpos
        obtain ⟨us, vs, as, m, rfl, hm, hspells, rfl, hshort⟩ :=
          (Format.times_breaks _ _ _ _).mp hbreaks
        obtain ⟨bss, rfl, hforall, rfl⟩ := (Format.times_spells _ _ _ _).mp hspells
        refine ⟨rfl, .items length (toNat_lt_of_toInt_pos hpos).1 _ ?_⟩
        calc (bss.flatten ++ vs).length = w / 8 * as.length + vs.length := by
              rw [List.length_append, (numbers_flatten hforall).2]
          _ < w / 8 * (as.length + 1) := by rw [Nat.mul_succ]; omega
          _ ≤ w / 8 * length.toNat := Nat.mul_le_mul_left _ hm

theorem fails_times_readIntN {w : ℕ} (k : ℕ) (hw : w = 8 * k) {n : ℕ} {bs : List Byte}
    (h : bs.length < k * n) :
    Fails (times n (readIntN w) : PacketM σ (List (BitVec w))) bs .cutOff := by
  induction n generalizing bs with
  | zero => omega
  | succ n ih =>
    by_cases hk : bs.length < k
    · exact (fails_readIntN hw hk).bind
    · have hlen : (bs.take k).length = k := by rw [List.length_take]; omega
      obtain ⟨v, hv⟩ := spells_numberFormat hw hlen
      rw [← List.take_append_drop k bs, hv]
      apply (reads_readIntN k hw v).bind_fails
      refine (ih ?_).bind
      rw [Nat.mul_succ] at h
      rw [List.length_drop]
      omega

theorem fails_tagArray {w : ℕ} (k : ℕ) (hw : w = 8 * k) {bs : List Byte} (h : ArrayCut k bs) :
    Fails (Nbt.tagArray w : PacketM σ (List (BitVec w))) bs .cutOff := by
  cases h with
  | length bs h => exact (fails_readIntN (k := 4) rfl h).bind
  | items length h bytes hbytes =>
    apply (reads_readI32 length).bind_fails
    rw [if_neg (by omega)]
    exact fails_times_readIntN k hw hbytes

/-- INTERNAL: a tag that is one number.
SOURCE: nbt.cc:105-127 -/
theorem within_payload_number {type : TagType} {k w : ℕ} (hw : w / 8 = k) (wrap : BitVec w → Tag)
    (hspells : ∀ v, Payload type (bigEndian k v.toNat) (wrap v))
    (htype : numberWidth type = some k) :
    ((numberFormat w).map wrap).Within (payloadFormat type) := by
  constructor
  · rintro _ _ ⟨v, rfl, rfl⟩
    rw [hw]
    exact hspells v
  · rintro bs e ⟨rfl, hlen⟩
    exact breaks_of_fieldCut (.number type k htype bs (hw ▸ hlen))

/-! ### Lists -/

/-- The format an item type selects; a type byte that names no type is refused. -/
def itemFormat : Option TagType → ByteFormat Tag
  | some type => payloadFormat type
  | none => .refuse

theorem spells_itemFormat {b : Byte} {bytes : List Byte} {tag : Tag}
    (h : (itemFormat (TagType.ofByte b)).Spells bytes tag) :
    ∃ type, b = type.toByte ∧ Payload type bytes tag := by
  cases htype : TagType.ofByte b with
  | none =>
    rw [htype] at h
    exact h.elim
  | some type =>
    rw [htype] at h
    exact ⟨type, ofByte_eq_some htype, h⟩

theorem breaks_itemFormat {b : Byte} {bytes : List Byte} {k : Breakdown}
    (h : (itemFormat (TagType.ofByte b)).Breaks bytes k) :
    ∃ type, b = type.toByte ∧ (payloadFormat type).Breaks bytes k := by
  cases htype : TagType.ofByte b with
  | none =>
    rw [htype] at h
    exact h.elim
  | some type =>
    rw [htype] at h
    exact ⟨type, ofByte_eq_some htype, h⟩

/-- INTERNAL: the constructor of a list keeps to the format when the one of its items does.
SOURCE: nbt.cc:138-147 -/
theorem sound_tagList {create : Option TagType → PacketM σ Tag}
    (hcreate : ∀ type, Sound (create type) (itemFormat type)) :
    Sound (Nbt.tagList create) (payloadFormat .tagList) := by
  have hbody : ∀ (type : Byte) (length : BitVec 32),
      Sound (if length.toInt ≤ 0 then pure (.list []) else do
          let container ← times length.toNat (create (TagType.ofByte type))
          pure (.list container) : PacketM σ Tag)
        (if length.toInt ≤ 0 then .pure (.list [])
          else ((itemFormat (TagType.ofByte type)).times length.toNat).map .list) := by
    intro type length
    split
    · exact sound_pure _
    · exact ((hcreate _).times length.toNat).map _
  refine (sound_readByte.bind fun type =>
    (sound_readIntN (w := 32) 4 rfl).bind (hbody type)).mono ⟨?_, ?_⟩
  · rintro _ tag ⟨_, _, type, rfl, rfl, _, later, length, rfl, rfl, hspells⟩
    beta_reduce at hspells
    split at hspells
    · rename_i hle
      obtain ⟨rfl, rfl⟩ := hspells
      rw [List.append_nil]
      exact .empty _ _ _ (.list type length hle)
    · rename_i hpos
      have hlength := (toNat_lt_of_toInt_pos hpos).1
      obtain ⟨tags, hspells, rfl⟩ := hspells
      obtain ⟨bss, rfl, hforall, hlen⟩ := (Format.times_spells _ _ _ _).mp hspells
      cases htype : TagType.ofByte type with
      | none =>
        -- an item of no type is never read, and the list has one
        rw [htype] at hforall
        cases hforall with
        | nil =>
          have hzero : length = 0#32 := BitVec.eq_of_toNat_eq hlen.symm
          rw [hzero] at hlength
          exact absurd hlength (by decide)
        | cons hhead _ => exact hhead.elim
      | some item =>
        rw [htype] at hforall
        rw [ofByte_eq_some htype]
        refine .list item length hlength _ tags ?_
        rw [← hlen]
        exact items_of_forall₂ hforall
  · rintro _ k (⟨rfl, rfl⟩ | ⟨_, _, type, rfl, rfl, ⟨rfl, hlen⟩ | hbreaks⟩)
    · exact breaks_of_fieldCut (.list [] (by decide))
    · refine breaks_of_fieldCut (.list _ ?_)
      rw [List.length_append, List.length_singleton]
      omega
    · obtain ⟨_, later, length, rfl, rfl, hbreaks⟩ := hbreaks
      beta_reduce at hbreaks
      split at hbreaks
      · exact hbreaks.elim
      · rename_i hpos
        obtain ⟨us, vs, tags, m, rfl, hm, hspells, hlater⟩ :=
          (Format.times_breaks _ _ _ _).mp hbreaks
        obtain ⟨item, rfl, hitem⟩ := breaks_itemFormat hlater
        rw [TagType.ofByte_toByte] at hspells
        obtain ⟨bss, rfl, hforall, rfl⟩ := (Format.times_spells _ _ _ _).mp hspells
        have hcomes := Comes.item item length (toNat_lt_of_toInt_pos hpos).1 tags.length hm bss.flatten vs
          tags item vs (items_of_forall₂ hforall) (.here item vs)
        rw [List.append_assoc] at hcomes
        exact breaks_of_comes hcomes hitem

/-! ### Compounds -/

/-- Children up to the `TAG_END` behind them. -/
def entriesFormat : ByteFormat (List (List Byte × Tag)) where
  Spells bs children :=
    ∃ entries, bs = entries ++ [TagType.tagEnd.toByte] ∧ Entries entries children
  Breaks bs k := (payloadFormat .tagCompound).Breaks bs k

theorem fieldCut_entries_append {entries rest : List Byte} {children : List (List Byte × Tag)}
    (h : Entries entries children) (hcut : FieldCut .tagCompound rest) :
    FieldCut .tagCompound (entries ++ rest) := by
  cases hcut with
  | number _ k htype => exact absurd htype (by simp [numberWidth])
  | childType _ children' h' => exact .childType _ _ (Entries.append h h')
  | childName earlier children' h' childType htype later hname =>
    rw [← List.append_assoc]
    exact .childName _ _ (Entries.append h h') childType htype later hname

theorem comes_entries_append {entries rest bytes : List Byte} {children : List (List Byte × Tag)}
    {type : TagType} (h : Entries entries children) (hcomes : Comes .tagCompound rest type bytes) :
    (type = .tagCompound ∧ bytes = rest) ∨ Comes .tagCompound (entries ++ rest) type bytes := by
  cases hcomes with
  | here => exact Or.inl ⟨rfl, rfl⟩
  | child childType hchild name hname earlier later children' _ _ h' next =>
    rw [← List.append_assoc entries earlier]
    exact Or.inr (.child childType hchild name hname _ later _ _ _ (Entries.append h h') next)

/-- INTERNAL: what breaks the rest of a compound breaks it behind more children. -/
theorem breaks_entries_append {entries rest : List Byte} {children : List (List Byte × Tag)}
    {k : Breakdown} (h : Entries entries children)
    (hbreaks : (payloadFormat .tagCompound).Breaks rest k) :
    (payloadFormat .tagCompound).Breaks (entries ++ rest) k := by
  cases k with
  | cutOff =>
    obtain ⟨type, bytes, hcomes, hcut⟩ := hbreaks
    rcases comes_entries_append h hcomes with ⟨rfl, rfl⟩ | hcomes
    · exact breaks_of_fieldCut (fieldCut_entries_append h hcut)
    · exact ⟨type, bytes, hcomes, hcut⟩
  | aborts =>
    obtain ⟨later, hcomes⟩ := hbreaks
    rcases comes_entries_append h hcomes with ⟨htype, _⟩ | hcomes
    · cases htype
    · exact ⟨later, hcomes⟩

/-- INTERNAL: the loop of a compound keeps to the format when the constructor of its children
does: one round reads `TAG_END`, or a child and what the next round reads.
SOURCE: nbt.cc:157-167 -/
theorem sound_compoundLoop {create : Option TagType → PacketM σ Tag}
    (hcreate : ∀ type, Sound (create type) (itemFormat type)) (rounds : ℕ) :
    Sound (Nbt.compoundLoop create rounds) entriesFormat := by
  induction rounds with
  | zero => exact sound_throw rfl _
  | succ rounds ih =>
    have hround : ∀ type : Byte,
        Sound (if TagType.ofByte type = some .tagEnd then pure [] else do
            let name ← Nbt.readName
            let child ← create (TagType.ofByte type)
            let container ← Nbt.compoundLoop create rounds
            pure ((name, child) :: container) : PacketM σ (List (List Byte × Tag)))
          (if TagType.ofByte type = some .tagEnd then .pure []
            else nameFormat.bind fun name => (itemFormat (TagType.ofByte type)).bind fun child =>
              entriesFormat.map ((name, child) :: ·)) := by
      intro type
      split
      · exact sound_pure []
      · exact sound_readName.bind fun name => (hcreate _).bind fun child => ih.map _
    refine (sound_readByte.bind hround).mono ⟨?_, ?_⟩
    · rintro _ children ⟨_, later, type, rfl, rfl, hspells⟩
      beta_reduce at hspells
      split at hspells
      · rename_i hend
        obtain ⟨rfl, rfl⟩ := hspells
        exact ⟨[], by rw [ofByte_eq_some hend]; rfl, .nil⟩
      · obtain ⟨_, _, name, rfl, ⟨rfl, hname⟩, us, _, child, rfl, hchild, _, hrest, rfl⟩ := hspells
        obtain ⟨entries, rfl, hentries⟩ := hrest
        obtain ⟨childType, rfl, hpayload⟩ := spells_itemFormat hchild
        refine ⟨childType.toByte :: nameBytes name ++ us ++ entries, ?_, ?_⟩
        · simp only [List.append_assoc, List.cons_append, List.nil_append]
        · exact .cons childType name us entries child _ hname hpayload hentries
    · rintro _ k (⟨rfl, rfl⟩ | ⟨_, later, type, rfl, rfl, hbreaks⟩)
      · exact breaks_of_fieldCut (.childType [] [] .nil)
      · beta_reduce at hbreaks
        split at hbreaks
        · exact hbreaks.elim
        · rename_i hend
          rcases hbreaks with ⟨rfl, hname⟩ | ⟨_, _, name, rfl, ⟨rfl, hname⟩, hbreaks⟩
          · refine breaks_of_fieldCut (.childName [] [] .nil type ?_ later hname)
            rintro rfl
            exact hend (TagType.ofByte_toByte _)
          · rcases hbreaks with hfirst | ⟨us, _, child, rfl, hfirst, hrest⟩
            · obtain ⟨childType, rfl, hchild⟩ := breaks_itemFormat hfirst
              refine breaks_of_comes (.child childType ?_ name hname [] _ [] _ _ .nil
                (.here childType _)) hchild
              rintro rfl
              exact hend (TagType.ofByte_toByte _)
            · obtain ⟨childType, rfl, hchild⟩ := spells_itemFormat hfirst
              have hentries := breaks_entries_append (.cons childType name us [] child [] hname
                hchild .nil) hrest
              show (payloadFormat .tagCompound).Breaks _ k
              simpa only [List.append_assoc, List.append_nil, List.cons_append,
                List.nil_append] using hentries

/-! ### The recursion -/

/-- INTERNAL: **`tag::create` keeps to the format**, at every depth.
SOURCE: nbt.cc:26-43 -/
theorem sound_create (fuel : ℕ) (type : Option TagType) :
    Sound (Nbt.create fuel type : PacketM σ Tag) (itemFormat type) := by
  induction fuel generalizing type with
  | zero => exact sound_throw rfl _
  | succ fuel ih =>
    cases type with
    | none => exact sound_throw rfl _
    | some type =>
      cases type with
      | tagEnd =>
        refine sound_abort.mono ⟨fun _ _ hfalse => hfalse.elim, ?_⟩
        rintro bs _ rfl
        exact ⟨bs, .here .tagEnd bs⟩
      | tagByte =>
        exact ((sound_readIntN 1 rfl).map _).mono (within_payload_number rfl _ .byte rfl)
      | tagShort =>
        exact ((sound_readIntN 2 rfl).map _).mono (within_payload_number rfl _ .short rfl)
      | tagInt =>
        exact ((sound_readIntN 4 rfl).map _).mono (within_payload_number rfl _ .int rfl)
      | tagLong =>
        exact ((sound_readIntN 8 rfl).map _).mono (within_payload_number rfl _ .long rfl)
      | tagFloat =>
        exact ((sound_readFloatN 4 rfl).map _).mono (within_payload_number rfl _ .float rfl)
      | tagDouble =>
        exact ((sound_readFloatN 8 rfl).map _).mono (within_payload_number rfl _ .double rfl)
      | tagByteArray => exact sound_throw rfl _
      | tagString =>
        refine (sound_readName.map _).mono ⟨?_, ?_⟩
        · rintro _ _ ⟨s, ⟨rfl, hs⟩, rfl⟩
          exact .string s hs
        · rintro bs _ ⟨rfl, hcut⟩
          exact breaks_of_fieldCut (.string bs hcut)
      | tagList => exact sound_tagList ih
      | tagCompound =>
        refine ((sound_compoundLoop ih (fuel + 1)).map _).mono ⟨?_, fun _ _ h => h⟩
        rintro _ _ ⟨children, ⟨entries, rfl, hentries⟩, rfl⟩
        exact .compound entries children hentries
      | tagIntArray =>
        refine ((sound_tagArray 4 rfl).map _).mono ⟨?_, ?_⟩
        · rintro _ _ ⟨vs, ⟨rfl, length, hle, rfl⟩ | ⟨hlen, rfl⟩, rfl⟩
          · exact .empty _ _ _ (.intArray length hle)
          · exact .intArray vs hlen
        · rintro bs _ ⟨rfl, hcut⟩
          exact breaks_of_fieldCut (.intArray bs hcut)
      | tagLongArray =>
        refine ((sound_tagArray 8 rfl).map _).mono ⟨?_, ?_⟩
        · rintro _ _ ⟨vs, ⟨rfl, length, hle, rfl⟩ | ⟨hlen, rfl⟩, rfl⟩
          · exact .empty _ _ _ (.longArray length hle)
          · exact .longArray vs hlen
        · rintro bs _ ⟨rfl, hcut⟩
          exact breaks_of_fieldCut (.longArray bs hcut)

/-! ## What the reader comes to brings it down -/

theorem reads_forall₂ {item : TagType} {bss : List (List Byte)} {tags : List Tag}
    (h : List.Forall₂ (Payload item) bss tags) (fuel : ℕ) (hfuel : bss.flatten.length < fuel + 1) :
    List.Forall₂ (Reads (Nbt.create (fuel + 1) (some item) : PacketM σ Tag)) bss tags := by
  induction h with
  | nil => exact .nil
  | cons hhead _ ih =>
    rw [List.flatten_cons, List.length_append] at hfuel
    exact .cons (reads_create hhead fuel (by omega)) (ih (by omega))

/-- INTERNAL: what fails behind some children fails behind all of them.
SOURCE: nbt.cc:157-167 -/
theorem fails_entries {earlier later : List Byte} {children : List (List Byte × Tag)}
    {k : Breakdown} (fuel : ℕ) (h : Entries earlier children) (hfuel : earlier.length ≤ fuel)
    (hlater : ∀ rounds, Fails (Nbt.compoundLoop (Nbt.create fuel) (rounds + 1) :
      PacketM σ _) later k) (rounds : ℕ) (hrounds : earlier.length < rounds) :
    Fails (Nbt.compoundLoop (Nbt.create fuel) rounds : PacketM σ _) (earlier ++ later) k := by
  obtain ⟨rounds, rfl⟩ := Nat.exists_eq_succ_of_ne_zero (Nat.ne_of_gt (Nat.zero_lt_of_lt hrounds))
  induction children generalizing earlier rounds with
  | nil =>
    cases h
    exact hlater rounds
  | cons child children ih =>
    cases h with
    | cons type name bytes rest tag children h head tail =>
      simp only [List.cons_append, List.length_cons, List.length_append] at hfuel hrounds
      obtain ⟨rounds, rfl⟩ := Nat.exists_eq_succ_of_ne_zero (Nat.ne_of_gt (by omega : 0 < rounds))
      obtain ⟨fuel, rfl⟩ := Nat.exists_eq_succ_of_ne_zero (Nat.ne_of_gt (by omega : 0 < fuel))
      rw [List.append_assoc, List.append_assoc, List.cons_append]
      apply (reads_readByte type.toByte).bind_fails
      rw [TagType.ofByte_toByte, if_neg (by simpa using payload_ne_end head)]
      apply (reads_readName name h).bind_fails
      apply (reads_create head fuel (by omega)).bind_fails
      exact (ih tail (by omega) rounds (by omega)).bind

/-- INTERNAL: **what a payload fails with, every payload that comes to it fails with**. The
levels of recursion allowed are more than there are bytes, so they last.
SOURCE: nbt.cc:138-167 -/
theorem fails_of_comes {type type' : TagType} {bytes bytes' : List Byte} {k : Breakdown}
    (h : Comes type bytes type' bytes')
    (hfails : ∀ fuel, bytes'.length < fuel + 1 →
      Fails (Nbt.create (fuel + 1) (some type') : PacketM σ Tag) bytes' k) :
    ∀ fuel, bytes.length < fuel + 1 →
      Fails (Nbt.create (fuel + 1) (some type) : PacketM σ Tag) bytes k := by
  induction h with
  | here => exact hfails
  | item item length h count hcount earlier later tags _ _ items _ ih =>
    intro fuel hfuel
    simp only [List.cons_append, List.length_cons, List.length_append, lengthBytes,
      length_bigEndian] at hfuel
    obtain ⟨fuel, rfl⟩ := Nat.exists_eq_succ_of_ne_zero (Nat.ne_of_gt (by omega : 0 < fuel))
    obtain ⟨bss, rfl, hforall, rfl⟩ := forall₂_of_items items
    rw [List.cons_append, List.cons_append, List.append_assoc]
    apply (reads_readByte item.toByte).bind_fails
    apply (reads_readI32 length).bind_fails
    rw [if_neg (by omega), TagType.ofByte_toByte]
    exact (fails_times (reads_forall₂ hforall fuel (by omega)) hcount
      (ih hfails fuel (by omega))).bind
  | child childType hchild name hname earlier later children _ _ entries _ ih =>
    intro fuel hfuel
    simp only [List.cons_append, List.length_cons, List.length_append] at hfuel
    obtain ⟨fuel, rfl⟩ := Nat.exists_eq_succ_of_ne_zero (Nat.ne_of_gt (by omega : 0 < fuel))
    refine (fails_entries (fuel + 1) entries (by omega) ?_ (fuel + 2) (by omega)).bind
    intro rounds
    apply (reads_readByte childType.toByte).bind_fails
    rw [TagType.ofByte_toByte, if_neg (by simpa using hchild)]
    apply (reads_readName name hname).bind_fails
    exact (ih hfails fuel (by omega)).bind

/-- INTERNAL: a field that the bytes end in fails an assert.
SOURCE: nbt.cc:105-187 -/
theorem fails_of_fieldCut {type : TagType} {bytes : List Byte} (h : FieldCut type bytes)
    (fuel : ℕ) (hfuel : bytes.length < fuel + 1) :
    Fails (Nbt.create (fuel + 1) (some type) : PacketM σ Tag) bytes .cutOff := by
  cases h with
  | number _ k htype _ h =>
    cases type <;> simp only [numberWidth, Option.some.injEq, reduceCtorEq] at htype <;>
      subst htype
    · exact (fails_readIntN (k := 1) rfl h).bind
    · exact (fails_readIntN (k := 2) rfl h).bind
    · exact (fails_readIntN (k := 4) rfl h).bind
    · exact (fails_readIntN (k := 8) rfl h).bind
    · exact (fails_readFloatN (k := 4) rfl h).bind
    · exact (fails_readFloatN (k := 8) rfl h).bind
  | string _ h => exact (fails_readName h).bind
  | list _ h =>
    cases bytes with
    | nil => exact fails_readByte.bind
    | cons b bytes =>
      have hbytes : bytes.length < 4 := by rw [List.length_cons] at h; omega
      exact (reads_readByte b).bind_fails (fails_readIntN (k := 4) rfl hbytes).bind
  | childType _ children entries =>
    rw [← List.append_nil bytes]
    refine (fails_entries fuel entries (by omega) ?_ (fuel + 1) hfuel).bind
    exact fun rounds => fails_readByte.bind
  | childName earlier children entries childType htype later h =>
    simp only [List.length_append, List.length_cons] at hfuel
    refine (fails_entries fuel entries (by omega) ?_ (fuel + 1) (by omega)).bind
    intro rounds
    apply (reads_readByte childType).bind_fails
    rw [if_neg (mt ofByte_eq_some htype)]
    exact (fails_readName h).bind
  | intArray _ h => exact (fails_tagArray 4 rfl h).bind
  | longArray _ h => exact (fails_tagArray 8 rfl h).bind

/-- INTERNAL: reading a payload breaks wherever its format says.
SOURCE: nbt.cc:26-43, 105-187 -/
theorem fails_create {type : TagType} {bytes : List Byte} {k : Breakdown}
    (h : (payloadFormat type).Breaks bytes k) (fuel : ℕ) (hfuel : bytes.length < fuel + 1) :
    Fails (Nbt.create (fuel + 1) (some type) : PacketM σ Tag) bytes k := by
  cases k with
  | cutOff =>
    obtain ⟨type', bytes', hcomes, hcut⟩ := h
    exact fails_of_comes hcomes (fails_of_fieldCut hcut) fuel hfuel
  | aborts =>
    obtain ⟨later, hcomes⟩ := h
    exact fails_of_comes hcomes (fun _ _ => fails_abort later) fuel hfuel

/-! ## Documents -/

/-- INTERNAL: only a list of `TAG_END` items makes a reader come to one.
SOURCE: nbt.cc:138-167 -/
theorem comes_tagEnd_iff {type : TagType} (htype : type ≠ .tagEnd) (bytes : List Byte) :
    (∃ later, Comes type bytes .tagEnd later) ↔ DeclaresEndItems type bytes := by
  constructor
  · rintro ⟨later, h⟩
    generalize hend : TagType.tagEnd = type' at h
    induction h with
    | here => exact absurd hend.symm htype
    | item item length h count hcount earlier later tags _ _ items next ih =>
      by_cases hitem : item = .tagEnd
      · subst hitem
        refine ⟨length, earlier ++ later, h, ?_⟩
        rw [List.append_assoc]
        exact .here _ _
      · obtain ⟨length', later', h', hcomes⟩ := ih hitem hend
        exact ⟨length', later', h', .item item length h count hcount earlier later tags _ _ items
          hcomes⟩
    | child childType hchild name hname earlier later children _ _ entries next ih =>
      obtain ⟨length', later', h', hcomes⟩ := ih hchild hend
      exact ⟨length', later', h', .child childType hchild name hname earlier later children _ _
        entries hcomes⟩
  · rintro ⟨length, later, h, hcomes⟩
    have hitem := Comes.item .tagEnd length h 0 (by
      have := toNat_of_toInt_pos h
      omega) [] later [] .tagEnd later (.nil .tagEnd) (.here .tagEnd later)
    rw [List.append_nil] at hitem
    exact ⟨later, Comes.trans hcomes hitem⟩

/-- INTERNAL: **the constructor of a document keeps to the format**.
SOURCE: nbt.cc:189-199 -/
theorem sound_nbt : Sound (Nbt.nbt : PacketM σ (Option Tag)) documentFormat := by
  have hroot : ∀ type : Byte,
      Sound (if TagType.ofByte type = some .tagEnd then pure none else do
          let _name ← Nbt.readName
          let fuel ← remaining
          let root ← Nbt.create (fuel + 1) (TagType.ofByte type)
          pure (some root) : PacketM σ (Option Tag))
        (if TagType.ofByte type = some .tagEnd then .pure none
          else nameFormat.bind fun _ => (itemFormat (TagType.ofByte type)).map some) := by
    intro type
    split
    · exact sound_pure none
    · exact sound_readName.bind fun _ => .remaining_bind fun n => (sound_create (n + 1) _).map some
  refine (sound_readByte.bind hroot).mono ⟨?_, ?_⟩
  · rintro _ tree ⟨_, later, type, rfl, rfl, hspells⟩
    beta_reduce at hspells
    split at hspells
    · rename_i hend
      obtain ⟨rfl, rfl⟩ := hspells
      rw [ofByte_eq_some hend]
      exact .empty
    · obtain ⟨_, bytes, name, rfl, ⟨rfl, hname⟩, root, hroot, rfl⟩ := hspells
      obtain ⟨rootType, rfl, hpayload⟩ := spells_itemFormat hroot
      exact .root rootType name bytes root hname hpayload
  · rintro _ k (⟨rfl, rfl⟩ | ⟨_, later, type, rfl, rfl, hbreaks⟩)
    · exact DocumentCutOff.type
    · beta_reduce at hbreaks
      split at hbreaks
      · exact hbreaks.elim
      · rename_i hend
        rcases hbreaks with ⟨rfl, hname⟩ | ⟨_, bytes, name, rfl, ⟨rfl, hname⟩, hroot⟩
        · refine DocumentCutOff.name type ?_ later hname
          rintro rfl
          exact hend (TagType.ofByte_toByte _)
        · obtain ⟨rootType, rfl, hbreaks⟩ := breaks_itemFormat hroot
          have hne : rootType ≠ .tagEnd := by
            rintro rfl
            exact hend (TagType.ofByte_toByte _)
          cases k with
          | cutOff => exact DocumentCutOff.root rootType hne name hname bytes hbreaks
          | aborts => exact ⟨rootType, name, bytes, hne, hname, rfl,
              (comes_tagEnd_iff hne bytes).mp hbreaks⟩

theorem fails_root {type : TagType} (htype : type ≠ .tagEnd) {name bytes : List Byte}
    (hname : name.length < 2 ^ 16) {k : Breakdown} (h : (payloadFormat type).Breaks bytes k) :
    Fails (Nbt.nbt : PacketM σ (Option Tag)) (type.toByte :: nameBytes name ++ bytes) k := by
  rw [List.cons_append]
  apply (reads_readByte type.toByte).bind_fails
  rw [TagType.ofByte_toByte, if_neg (by simpa using htype)]
  apply (reads_readName name hname).bind_fails
  apply Fails.remaining_bind
  exact (fails_create h bytes.length (Nat.lt_succ_self _)).bind

/-- INTERNAL: reading a document breaks wherever its format says.
SOURCE: nbt.cc:189-199 -/
theorem fails_nbt {bytes : List Byte} {k : Breakdown} (h : documentFormat.Breaks bytes k) :
    Fails (Nbt.nbt : PacketM σ (Option Tag)) bytes k := by
  cases k with
  | cutOff =>
    cases h with
    | type => exact fails_readByte.bind
    | name type h later hlater =>
      apply (reads_readByte type).bind_fails
      rw [if_neg (mt ofByte_eq_some h)]
      exact (fails_readName hlater).bind
    | root type htype name hname later h => exact fails_root htype hname h
  | aborts =>
    obtain ⟨type, name, later, htype, hname, rfl, h⟩ := h
    exact fails_root htype hname ((comes_tagEnd_iff htype later).mpr h)

/-! ## Reading a document ends -/

theorem metered_readName : Metered (Nbt.readName : PacketM σ (List Byte)) :=
  (metered_readIntN 16).bind fun _ => metered_readCharArray _

theorem metered_tagArray (w : ℕ) : Metered (Nbt.tagArray w : PacketM σ (List (BitVec w))) := by
  refine (metered_readIntN 32).bind fun length => ?_
  split
  · exact metered_pure []
  · exact (metered_readIntN w).times _

/-- INTERNAL: every round of the loop starts with a byte, so more rounds than bytes last.
SOURCE: nbt.cc:157-167 -/
theorem meteredBelow_compoundLoop {create : Option TagType → PacketM σ Tag} {rounds : ℕ}
    (hcreate : ∀ bound, bound < rounds → ∀ type, MeteredBelow bound (create type)) :
    MeteredBelow rounds (Nbt.compoundLoop create rounds) := by
  induction rounds with
  | zero => exact fun s n hn => absurd hn (Nat.not_lt_zero n)
  | succ rounds ih =>
    apply meteredBelow_readByte_bind
    intro type
    split
    · exact meteredBelow_pure rounds []
    · refine (metered_readName rounds).bind fun name => ?_
      refine (hcreate rounds (Nat.lt_succ_self rounds) _).bind fun child => ?_
      refine (ih fun bound h => hcreate bound (Nat.lt_succ_of_lt h)).bind fun container => ?_
      exact meteredBelow_pure rounds _

/-- INTERNAL: **nesting costs bytes**: every call of `tag::create` from inside another one is
behind a byte of the outer, so more levels than bytes last.
SOURCE: nbt.cc:26-43 -/
theorem meteredBelow_create (fuel : ℕ) (type : Option TagType) :
    MeteredBelow fuel (Nbt.create fuel type : PacketM σ Tag) := by
  induction fuel generalizing type with
  | zero => exact fun s n hn => absurd hn (Nat.not_lt_zero n)
  | succ fuel ih =>
    cases type with
    | none => exact meteredBelow_fail _ (by simp)
    | some type =>
      cases type with
      | tagEnd => exact meteredBelow_fail _ (by simp)
      | tagByte => exact ((metered_readIntN 8).bind fun _ => metered_pure _) _
      | tagShort => exact ((metered_readIntN 16).bind fun _ => metered_pure _) _
      | tagInt => exact ((metered_readIntN 32).bind fun _ => metered_pure _) _
      | tagLong => exact ((metered_readIntN 64).bind fun _ => metered_pure _) _
      | tagFloat => exact ((metered_readFloatN 32).bind fun _ => metered_pure _) _
      | tagDouble => exact ((metered_readFloatN 64).bind fun _ => metered_pure _) _
      | tagByteArray => exact meteredBelow_fail _ (by simp)
      | tagString => exact (metered_readName.bind fun _ => metered_pure _) _
      | tagList =>
        apply meteredBelow_readByte_bind
        intro item
        refine (metered_readIntN 32 fuel).bind fun length => ?_
        split
        · exact meteredBelow_pure fuel _
        · exact ((ih _).times _).bind fun _ => meteredBelow_pure fuel _
      | tagCompound =>
        refine (meteredBelow_compoundLoop ?_).bind fun _ => meteredBelow_pure _ _
        exact fun bound h item => (ih item).anti (Nat.le_of_lt_succ h)
      | tagIntArray => exact ((metered_tagArray 32).bind fun _ => metered_pure _) _
      | tagLongArray => exact ((metered_tagArray 64).bind fun _ => metered_pure _) _

theorem metered_nbt : Metered (Nbt.nbt : PacketM σ (Option Tag)) := by
  refine metered_readByte.bind fun type => ?_
  split
  · exact metered_pure none
  · refine metered_readName.bind fun _ => metered_remaining_bind fun n => ?_
    exact (meteredBelow_create (n + 1) _).bind fun _ => meteredBelow_pure _ _

/-! ## What reading a document throws -/

/-- The failures of the constructors of tags. -/
inductive NbtFailure : Failure → Prop
  | parseError (what : String) : NbtFailure (.parseError what)
  | assertFailed (condition : String) : NbtFailure (.assertFailed condition)
  | abort : NbtFailure .abort
  | diverged : NbtFailure .diverged

theorem failsWith_readName : FailsWith NbtFailure (Nbt.readName : PacketM σ (List Byte)) :=
  (failsWith_readIntLoop .assertFailed 16 2 0).bind fun _ => failsWith_readCharArray .assertFailed _

theorem failsWith_tagArray (w : ℕ) :
    FailsWith NbtFailure (Nbt.tagArray w : PacketM σ (List (BitVec w))) := by
  refine (failsWith_readIntLoop .assertFailed 32 4 0).bind fun length => ?_
  split
  · exact failsWith_pure _ []
  · exact (failsWith_readIntLoop .assertFailed w (w / 8) 0).times _

theorem failsWith_compoundLoop {create : Option TagType → PacketM σ Tag}
    (hcreate : ∀ type, FailsWith NbtFailure (create type)) (rounds : ℕ) :
    FailsWith NbtFailure (Nbt.compoundLoop create rounds) := by
  induction rounds with
  | zero => exact failsWith_fail .diverged
  | succ rounds ih =>
    refine (failsWith_readByte .assertFailed).bind fun type => ?_
    split
    · exact failsWith_pure _ []
    · refine failsWith_readName.bind fun name => (hcreate _).bind fun child => ?_
      exact ih.bind fun container => failsWith_pure _ _

/-- INTERNAL: `tag::create` throws nothing but parse errors.
SOURCE: nbt.cc:26-43, 129-131 -/
theorem failsWith_create (fuel : ℕ) (type : Option TagType) :
    FailsWith NbtFailure (Nbt.create fuel type : PacketM σ Tag) := by
  have hint : ∀ w, FailsWith NbtFailure (readIntN w : PacketM σ (BitVec w)) := fun w =>
    failsWith_readIntLoop .assertFailed w (w / 8) 0
  have hfloat : ∀ w, FailsWith NbtFailure (readFloatN w : PacketM σ (BitVec w)) :=
    failsWith_readFloatN .assertFailed
  induction fuel generalizing type with
  | zero => exact failsWith_fail .diverged
  | succ fuel ih =>
    cases type with
    | none => exact failsWith_fail (.parseError _)
    | some type =>
      cases type with
      | tagEnd => exact failsWith_fail .abort
      | tagByte => exact (hint 8).bind fun _ => failsWith_pure _ _
      | tagShort => exact (hint 16).bind fun _ => failsWith_pure _ _
      | tagInt => exact (hint 32).bind fun _ => failsWith_pure _ _
      | tagLong => exact (hint 64).bind fun _ => failsWith_pure _ _
      | tagFloat => exact (hfloat 32).bind fun _ => failsWith_pure _ _
      | tagDouble => exact (hfloat 64).bind fun _ => failsWith_pure _ _
      | tagByteArray => exact failsWith_fail (.parseError _)
      | tagString => exact failsWith_readName.bind fun _ => failsWith_pure _ _
      | tagList =>
        refine (failsWith_readByte .assertFailed).bind fun item => (hint 32).bind fun length => ?_
        split
        · exact failsWith_pure _ _
        · exact ((ih _).times _).bind fun _ => failsWith_pure _ _
      | tagCompound => exact (failsWith_compoundLoop ih _).bind fun _ => failsWith_pure _ _
      | tagIntArray => exact (failsWith_tagArray 32).bind fun _ => failsWith_pure _ _
      | tagLongArray => exact (failsWith_tagArray 64).bind fun _ => failsWith_pure _ _

theorem failsWith_nbt : FailsWith NbtFailure (Nbt.nbt : PacketM σ (Option Tag)) := by
  refine (failsWith_readByte .assertFailed).bind fun type => ?_
  split
  · exact failsWith_pure _ none
  · refine failsWith_readName.bind fun _ => ?_
    intro s n bs e s' n' left h
    exact (failsWith_create (n + 1) _).bind (fun _ => failsWith_pure _ _) s n bs e s' n' left h

/-! ## The result -/

/-- Reading a document over these bytes, with anything behind them, ends; and if no read ran
out of bytes it ends in a tree, a parse error or a decode error. -/
def NbtEndsProperly (s : σ) (body rest : List Byte) : Prop :=
  ∃ r left, (Nbt.nbt s body.length).run (body ++ rest) = some (r, left) ∧
    ((∀ condition, r.1 ≠ .error (.assertFailed condition)) →
      (∃ root, r.1 = .ok root) ∨ (∃ what, r.1 = .error (.parseError what)) ∨
        ∃ what, r.1 = .error (.decodeError what))

/-- SOURCE: nbt.cc:26-43, 138-147, 157-167, 189-199 — **exactly when reading a document does
not abort**. Of all bodies in which no read runs out of bytes, the ones that do not end in a
tree or an exception are those with a list that declares a positive number of `TAG_END` items,
at a place the reader comes to. -/
theorem nbt_ends_properly_iff (s : σ) (body rest : List Byte) :
    NbtEndsProperly s body rest ↔ ¬DocumentDeclaresEndItems body := by
  obtain ⟨r, left, hrun, hdiverged⟩ := metered_nbt.run s body
  have hlong := Pull.run_append _ _ rest _ _ hrun
  constructor
  · rintro ⟨r', left', hrun', hproper⟩ hdeclares
    obtain ⟨e, s', n', left'', hfail, hk⟩ := fails_nbt (k := .aborts) hdeclares s
    have hlong' := Pull.run_append _ _ rest _ _ hfail
    rw [hlong'] at hrun'
    cases hrun'
    cases e <;> cases hk
    rcases hproper (by simp) with ⟨_, h⟩ | ⟨_, h⟩ | ⟨_, h⟩ <;> cases h
  · intro hnot
    refine ⟨r, left ++ rest, hlong, fun hassert => ?_⟩
    obtain ⟨e | root, s', n'⟩ := r
    · cases failsWith_nbt s _ _ _ _ _ _ hrun with
      | parseError what => exact Or.inr (Or.inl ⟨what, rfl⟩)
      | assertFailed condition => exact absurd rfl (hassert condition)
      | abort => exact absurd ((sound_nbt s body _ left hrun).2 .abort .aborts rfl rfl) hnot
      | diverged => exact absurd rfl hdiverged
    · exact Or.inl ⟨root, rfl⟩

/-- INTERNAL: a root list of one `TAG_END`: no read runs out of bytes, and `abort()` is called. -/
theorem nbt_aborts_on_end_list :
    ¬∀ body rest : List Byte, NbtEndsProperly () body rest := by
  intro h
  obtain ⟨r, left, hrun, hproper⟩ := h [9, 0, 0, 0, 0, 0, 0, 1] []
  have habort : (Nbt.nbt () 8).run [9, 0, 0, 0, 0, 0, 0, 1] =
      some ((.error .abort, (), 0), []) := rfl
  rw [List.append_nil] at hrun
  cases habort.symm.trans hrun
  rcases hproper (by simp) with ⟨_, h⟩ | ⟨_, h⟩ | ⟨_, h⟩ <;> cases h

end Mccpp.Analysis
