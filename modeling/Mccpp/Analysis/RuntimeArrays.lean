import Mathlib.Data.List.OfFn
import Mccpp.Interface.ArrayOwnership
import Mccpp.Library.PartialRun
import Mccpp.Model.Texture

/-!
# Runtime arrays own what they say

Every operation leaves each pointer with one holder (`owned_of_step`), and nothing is deleted twice
(`step_isSome_iff`). But `release()` leaves the size as it was, so the range of an array object that had
any elements is not valid behind it (`sufficient_of_step`). And `empty()` is whether the pointer is not null,
which among valid ranges agrees with the size only of arrays without elements (`emptyBlocks_iff`). This
says which runs keep both (`runtime_array_iff`).
-/

set_option autoImplicit false

namespace Mccpp.Analysis

open Mccpp.Library Mccpp.Model Mccpp.Interface

variable {T : Type} {s s' : ArrayHeap T}

/-! ## What an action does -/

@[simp] theorem setArray_callers (s : ArrayHeap T) (this : ℕ) (o : Option RuntimeArrayObject) :
    (s.setArray this o).callers = s.callers := rfl

@[simp] theorem setArray_arrays (s : ArrayHeap T) (this : ℕ) (o : Option RuntimeArrayObject) :
    (s.setArray this o).arrays = Function.update s.arrays this o := rfl

/-- The actions that are not refused, and their effects. -/
inductive Stepped [Inhabited T] (s : ArrayHeap T) : ArrayAction T → ArrayHeap T → Prop where
  | construct {this : ℕ} (hfree : s.arrays this = none) :
      Stepped s (.construct this) (s.setArray this (some .unnamed))
  | constructSized {this size address : ℕ} (hfree : s.arrays this = none)
      (hnew : s.blocks address = none) :
      Stepped s (.constructSized this size address)
        { (s.setArray this (some (.ofSize address size))) with
          blocks := Function.update s.blocks address (some (List.replicate size default)) }
  | moveConstruct {this other : ℕ} {o : RuntimeArrayObject} (hfree : s.arrays this = none)
      (hother : s.arrays other = some o) :
      Stepped s (.moveConstruct this other)
        ((s.setArray other (some ⟨none, 0⟩)).setArray this (some ⟨o.mData, o.mSize⟩))
  | moveAssign {this other : ℕ} {o o' : RuntimeArrayObject} {blocks : ℕ → Option (List T)}
      (hdifferent : this ≠ other) (hthis : s.arrays this = some o) (hother : s.arrays other = some o')
      (hdelete : ArrayHeap.deleteBlock s.blocks o.mData = some blocks) :
      Stepped s (.moveAssign this other)
        { ((s.setArray other (some ⟨none, 0⟩)).setArray this (some ⟨o'.mData, o'.mSize⟩)) with
          blocks := blocks }
  | release {this : ℕ} {o : RuntimeArrayObject} (hthis : s.arrays this = some o) :
      Stepped s (.release this)
        { (s.setArray this (some ⟨none, o.mSize⟩)) with
          callers := o.mData.elim s.callers fun address => insert address s.callers }
  | reset {this size : ℕ} {ptr : Option ℕ} {o : RuntimeArrayObject} {blocks : ℕ → Option (List T)}
      (hthis : s.arrays this = some o) (hheld : s.CallerHolds ptr size)
      (hdelete : ArrayHeap.deleteBlock s.blocks o.mData = some blocks) :
      Stepped s (.reset this ptr size)
        { (s.setArray this (some ⟨ptr, size⟩)) with
          blocks := blocks
          callers := ptr.elim s.callers fun address => s.callers.erase address }
  | destruct {this : ℕ} {o : RuntimeArrayObject} {blocks : ℕ → Option (List T)}
      (hthis : s.arrays this = some o)
      (hdelete : ArrayHeap.deleteBlock s.blocks o.mData = some blocks) :
      Stepped s (.destruct this) { (s.setArray this none) with blocks := blocks }
  | allocate {address : ℕ} {elements : List T} (hnew : s.blocks address = none) :
      Stepped s (.allocate address elements)
        { s with
          blocks := Function.update s.blocks address (some elements)
          callers := insert address s.callers }
  | deallocate {address : ℕ} {blocks : ℕ → Option (List T)} (hheld : address ∈ s.callers)
      (hdelete : ArrayHeap.deleteBlock s.blocks (some address) = some blocks) :
      Stepped s (.deallocate address)
        { s with blocks := blocks, callers := s.callers.erase address }

/-- INTERNAL: **what a step can do**.
SOURCE: src/utility/runtime_array.hh:10-71. -/
theorem stepped_of_step [Inhabited T] {action : ArrayAction T} (h : s.step action = some s') :
    Stepped s action s' := by
  cases action with
  | construct this =>
    obtain ⟨hfree, h⟩ := Option.ite_none_right_eq_some.mp h
    obtain rfl := Option.some.inj h
    exact .construct hfree
  | constructSized this size address =>
    obtain ⟨⟨hfree, hnew⟩, h⟩ := Option.ite_none_right_eq_some.mp h
    obtain rfl := Option.some.inj h
    exact .constructSized hfree hnew
  | moveConstruct this other =>
    obtain ⟨hfree, h⟩ := Option.ite_none_right_eq_some.mp h
    obtain ⟨o, hother, h⟩ := Option.bind_eq_some_iff.mp h
    obtain rfl := Option.some.inj h
    exact .moveConstruct hfree hother
  | moveAssign this other =>
    obtain ⟨hdifferent, h⟩ := Option.ite_none_right_eq_some.mp h
    obtain ⟨o, hthis, h⟩ := Option.bind_eq_some_iff.mp h
    obtain ⟨o', hother, h⟩ := Option.bind_eq_some_iff.mp h
    obtain ⟨blocks, hdelete, h⟩ := Option.bind_eq_some_iff.mp h
    obtain rfl := Option.some.inj h
    exact .moveAssign hdifferent hthis hother hdelete
  | release this =>
    obtain ⟨o, hthis, h⟩ := Option.bind_eq_some_iff.mp h
    obtain rfl := Option.some.inj h
    exact .release hthis
  | reset this ptr size =>
    obtain ⟨o, hthis, h⟩ := Option.bind_eq_some_iff.mp h
    obtain ⟨hheld, h⟩ := Option.ite_none_right_eq_some.mp h
    obtain ⟨blocks, hdelete, h⟩ := Option.bind_eq_some_iff.mp h
    obtain rfl := Option.some.inj h
    exact .reset hthis hheld hdelete
  | destruct this =>
    obtain ⟨o, hthis, h⟩ := Option.bind_eq_some_iff.mp h
    obtain ⟨blocks, hdelete, h⟩ := Option.bind_eq_some_iff.mp h
    obtain rfl := Option.some.inj h
    exact .destruct hthis hdelete
  | allocate address elements =>
    obtain ⟨hnew, h⟩ := Option.ite_none_right_eq_some.mp h
    obtain rfl := Option.some.inj h
    exact .allocate hnew
  | deallocate address =>
    obtain ⟨hheld, h⟩ := Option.ite_none_right_eq_some.mp h
    obtain ⟨blocks, hdelete, h⟩ := Option.bind_eq_some_iff.mp h
    obtain rfl := Option.some.inj h
    exact .deallocate hheld hdelete

/-! ## Ownership -/

theorem hasPointer_setArray (s : ArrayHeap T) (this : ℕ) (x : Option RuntimeArrayObject) (h : Holder)
    (p : ℕ) :
    HasPointer (s.setArray this x) h p ↔
      h = .array this ∧ (∃ o, x = some o ∧ o.data = some p) ∨ h ≠ .array this ∧ HasPointer s h p := by
  cases h with
  | array b =>
    by_cases hb : b = this
    · subst hb
      simp [HasPointer]
    · simp [HasPointer, hb]
  | caller => simp [HasPointer]

theorem hasPointer_blocks (s : ArrayHeap T) (blocks : ℕ → Option (List T)) (h : Holder) (p : ℕ) :
    HasPointer { s with blocks := blocks } h p ↔ HasPointer s h p := by
  cases h <;> rfl

theorem hasPointer_callers (s : ArrayHeap T) (blocks : ℕ → Option (List T)) (callers : Finset ℕ) (h : Holder)
    (p : ℕ) :
    HasPointer { s with blocks := blocks, callers := callers } h p ↔
      h = .caller ∧ p ∈ callers ∨ h ≠ .caller ∧ HasPointer s h p := by
  cases h <;> simp [HasPointer]

/-- INTERNAL: `delete[]` leaves all other arrays. -/
theorem deleteBlock_frame {blocks blocks' : ℕ → Option (List T)} {ptr : Option ℕ}
    (hdelete : ArrayHeap.deleteBlock blocks ptr = some blocks') {p : ℕ} (hp : ptr ≠ some p) :
    blocks' p = blocks p := by
  cases ptr with
  | none =>
    obtain rfl := Option.some.inj hdelete
    rfl
  | some address =>
    obtain ⟨_, h⟩ := Option.ite_none_right_eq_some.mp hdelete
    obtain rfl := Option.some.inj h
    exact Function.update_of_ne (fun heq => hp (congrArg some heq.symm)) _ _

/-- INTERNAL: what another holder has outlives the deletion of what this one had. -/
theorem outlives (howned : Owned s) {g : Holder} {ptr : Option ℕ}
    (hheld : ∀ p, ptr = some p → HasPointer s g p) {blocks : ℕ → Option (List T)}
    (hdelete : ArrayHeap.deleteBlock s.blocks ptr = some blocks) {h : Holder} {p : ℕ}
    (hp : HasPointer s h p) (hother : h ≠ g) : blocks p = s.blocks p := by
  apply deleteBlock_frame hdelete
  intro hsame
  exact hother (howned.unique h g p hp (hheld p hsame))

theorem hasPointer_of_arrays {this : ℕ} {o : RuntimeArrayObject} (hthis : s.arrays this = some o) (p : ℕ)
    (hp : o.mData = some p) : HasPointer s (.array this) p := ⟨o, hthis, hp⟩

theorem owned_init : Owned (ArrayHeap.init : ArrayHeap T) where
  live_of_holds h p hp := by cases h <;> simp [HasPointer, ArrayHeap.init] at hp
  unique h h' p hp _ := by cases h <;> simp [HasPointer, ArrayHeap.init] at hp

/-- INTERNAL: the new object has what the other one had. -/
theorem hasPointer_move {this other : ℕ} {o : RuntimeArrayObject} (hdifferent : this ≠ other)
    (hother : s.arrays other = some o) {h : Holder} {p : ℕ}
    (hp : HasPointer ((s.setArray other (some ⟨none, 0⟩)).setArray this (some ⟨o.mData, o.mSize⟩)) h p) :
    ∃ k, k ≠ .array this ∧ HasPointer s k p ∧ (if k = .array other then .array this else k) = h := by
  rcases (hasPointer_setArray ..).mp hp with ⟨rfl, new, hnew, hdata⟩ | ⟨hthis, hp⟩
  · obtain rfl := Option.some.inj hnew
    refine ⟨.array other, ?_, ⟨o, hother, hdata⟩, if_pos rfl⟩
    intro heq
    exact hdifferent (Holder.array.inj heq).symm
  · rcases (hasPointer_setArray ..).mp hp with ⟨_, left, hleft, hdata⟩ | ⟨hnot, hold⟩
    · obtain rfl := Option.some.inj hleft
      cases hdata
    · exact ⟨h, hthis, hold, if_neg hnot⟩

theorem owned_moveConstruct (howned : Owned s) {this other : ℕ} {o : RuntimeArrayObject}
    (hfree : s.arrays this = none) (hother : s.arrays other = some o) :
    Owned ((s.setArray other (some ⟨none, 0⟩)).setArray this (some ⟨o.mData, o.mSize⟩)) := by
  have hdifferent : this ≠ other := by
    rintro rfl
    rw [hfree] at hother
    cases hother
  apply Exclusive.handOver howned fun k _ => if k = .array other then .array this else k
  · intro h p hp
    obtain ⟨k, _, hk, hto⟩ := hasPointer_move hdifferent hother hp
    exact ⟨k, hk, hto⟩
  · intro h p hp
    obtain ⟨k, _, hk, _⟩ := hasPointer_move hdifferent hother hp
    exact howned.live_of_holds k p hk

theorem owned_moveAssign (howned : Owned s) {this other : ℕ} {o o' : RuntimeArrayObject}
    {blocks : ℕ → Option (List T)} (hdifferent : this ≠ other) (hthis : s.arrays this = some o)
    (hother : s.arrays other = some o')
    (hdelete : ArrayHeap.deleteBlock s.blocks o.mData = some blocks) :
    Owned { ((s.setArray other (some ⟨none, 0⟩)).setArray this (some ⟨o'.mData, o'.mSize⟩)) with
      blocks := blocks } := by
  apply Exclusive.handOver howned fun k _ => if k = .array other then .array this else k
  · intro h p hp
    obtain ⟨k, _, hk, hto⟩ := hasPointer_move hdifferent hother ((hasPointer_blocks ..).mp hp)
    exact ⟨k, hk, hto⟩
  · intro h p hp
    obtain ⟨k, hnot, hk, _⟩ := hasPointer_move hdifferent hother ((hasPointer_blocks ..).mp hp)
    simp only [outlives howned (hasPointer_of_arrays hthis) hdelete hk hnot]
    exact howned.live_of_holds k p hk

theorem hasPointer_release {this : ℕ} {o : RuntimeArrayObject} (hthis : s.arrays this = some o) {h : Holder}
    {p : ℕ}
    (hp : HasPointer { (s.setArray this (some ⟨none, o.mSize⟩)) with
      callers := o.mData.elim s.callers fun address => insert address s.callers } h p) :
    ∃ k, HasPointer s k p ∧ (if k = .array this then .caller else k) = h := by
  rcases (hasPointer_callers ..).mp hp with ⟨rfl, hmem⟩ | ⟨_, hp⟩
  · cases hdata : o.mData with
    | none =>
      rw [hdata] at hmem
      exact ⟨.caller, hmem, if_neg (by simp)⟩
    | some address =>
      rw [hdata] at hmem
      rcases Finset.mem_insert.mp hmem with rfl | hbefore
      · exact ⟨.array this, ⟨o, hthis, hdata⟩, if_pos rfl⟩
      · exact ⟨.caller, hbefore, if_neg (by simp)⟩
  · rcases (hasPointer_setArray ..).mp hp with ⟨_, left, hleft, hdata⟩ | ⟨hnot, hold⟩
    · obtain rfl := Option.some.inj hleft
      cases hdata
    · exact ⟨h, hold, if_neg hnot⟩

theorem owned_release (howned : Owned s) {this : ℕ} {o : RuntimeArrayObject}
    (hthis : s.arrays this = some o) :
    Owned { (s.setArray this (some ⟨none, o.mSize⟩)) with
      callers := o.mData.elim s.callers fun address => insert address s.callers } := by
  apply Exclusive.handOver howned fun k _ => if k = .array this then .caller else k
  · intro h p hp
    exact hasPointer_release hthis hp
  · intro h p hp
    obtain ⟨k, hk, _⟩ := hasPointer_release hthis hp
    exact howned.live_of_holds k p hk

theorem hasPointer_reset {this size : ℕ} {ptr : Option ℕ} {blocks : ℕ → Option (List T)}
    (hheld : s.CallerHolds ptr size) {h : Holder} {p : ℕ}
    (hp : HasPointer { (s.setArray this (some ⟨ptr, size⟩)) with
      blocks := blocks
      callers := ptr.elim s.callers fun address => s.callers.erase address } h p) :
    ∃ k, k ≠ .array this ∧ HasPointer s k p ∧
      (if k = .caller ∧ ptr = some p then .array this else k) = h := by
  rcases (hasPointer_callers (s.setArray this (some ⟨ptr, size⟩)) _ _ h p).mp hp with
    ⟨rfl, hmem⟩ | ⟨hcaller, hp⟩
  · cases ptr with
    | none => exact ⟨.caller, by simp, hmem, if_neg (by simp)⟩
    | some address =>
      obtain ⟨hne, hbefore⟩ := Finset.mem_erase.mp hmem
      exact ⟨.caller, by simp, hbefore, if_neg (by simp [Ne.symm hne])⟩
  · rcases (hasPointer_setArray ..).mp hp with ⟨rfl, new, hnew, hdata⟩ | ⟨hnot, hold⟩
    · obtain rfl := Option.some.inj hnew
      obtain rfl : ptr = some p := hdata
      exact ⟨.caller, by simp, hheld.1, if_pos ⟨rfl, rfl⟩⟩
    · exact ⟨h, hnot, hold, if_neg fun hboth => hcaller hboth.1⟩

theorem owned_reset (howned : Owned s) {this size : ℕ} {ptr : Option ℕ} {o : RuntimeArrayObject}
    {blocks : ℕ → Option (List T)} (hthis : s.arrays this = some o) (hheld : s.CallerHolds ptr size)
    (hdelete : ArrayHeap.deleteBlock s.blocks o.mData = some blocks) :
    Owned { (s.setArray this (some ⟨ptr, size⟩)) with
      blocks := blocks
      callers := ptr.elim s.callers fun address => s.callers.erase address } := by
  apply Exclusive.handOver howned fun k p => if k = .caller ∧ ptr = some p then .array this else k
  · intro h p hp
    obtain ⟨k, _, hk, hto⟩ := hasPointer_reset hheld hp
    exact ⟨k, hk, hto⟩
  · intro h p hp
    obtain ⟨k, hnot, hk, _⟩ := hasPointer_reset hheld hp
    simp only [outlives howned (hasPointer_of_arrays hthis) hdelete hk hnot]
    exact howned.live_of_holds k p hk

theorem owned_destruct (howned : Owned s) {this : ℕ} {o : RuntimeArrayObject}
    {blocks : ℕ → Option (List T)} (hthis : s.arrays this = some o)
    (hdelete : ArrayHeap.deleteBlock s.blocks o.mData = some blocks) :
    Owned { (s.setArray this none) with blocks := blocks } := by
  have hfrom : ∀ h p, HasPointer (s.setArray this none) h p → h ≠ .array this ∧ HasPointer s h p := by
    intro h p hp
    rcases (hasPointer_setArray ..).mp hp with ⟨_, left, hleft, _⟩ | hold
    · cases hleft
    · exact hold
  apply Exclusive.handOver howned fun h _ => h
  · intro h p hp
    exact ⟨h, (hfrom h p ((hasPointer_blocks ..).mp hp)).2, rfl⟩
  · intro h p hp
    obtain ⟨hnot, hold⟩ := hfrom h p ((hasPointer_blocks ..).mp hp)
    simp only [outlives howned (hasPointer_of_arrays hthis) hdelete hold hnot]
    exact howned.live_of_holds h p hold

theorem owned_deallocate (howned : Owned s) {address : ℕ} {blocks : ℕ → Option (List T)}
    (hheld : address ∈ s.callers)
    (hdelete : ArrayHeap.deleteBlock s.blocks (some address) = some blocks) :
    Owned { s with blocks := blocks, callers := s.callers.erase address } := by
  have hfrom : ∀ h p, HasPointer { s with callers := s.callers.erase address } h p →
      p ≠ address ∧ HasPointer s h p := by
    intro h p hp
    rcases (hasPointer_callers ..).mp hp with ⟨rfl, hmem⟩ | ⟨hnot, hold⟩
    · exact Finset.mem_erase.mp hmem
    · refine ⟨?_, hold⟩
      rintro rfl
      exact hnot (howned.unique h .caller p hold hheld)
  apply Exclusive.handOver howned fun h _ => h
  · intro h p hp
    exact ⟨h, (hfrom h p ((hasPointer_blocks ..).mp hp)).2, rfl⟩
  · intro h p hp
    obtain ⟨hne, hold⟩ := hfrom h p ((hasPointer_blocks ..).mp hp)
    have hkept := deleteBlock_frame hdelete (p := p) fun heq => hne (Option.some.inj heq).symm
    simp only [hkept]
    exact howned.live_of_holds h p hold

/-- INTERNAL: memory that is given was not in use. -/
theorem owned_of_new (howned : Owned s) {address : ℕ} {block : List T} (hnew : s.blocks address = none)
    {g : Holder} (hblocks : s'.blocks = Function.update s.blocks address (some block))
    (hfrom : ∀ h p, HasPointer s' h p → HasPointer s h p ∨ h = g ∧ p = address) : Owned s' := by
  refine Exclusive.acquire howned (by simp [hnew]) hfrom ?_
  intro h p hp
  rw [hblocks]
  by_cases hp' : p = address
  · simp [hp']
  · rw [Function.update_of_ne hp']
    rcases hfrom h p hp with hold | ⟨_, heq⟩
    · exact howned.live_of_holds h p hold
    · exact absurd heq hp'

theorem owned_construct (howned : Owned s) (this : ℕ) : Owned (s.setArray this (some .unnamed)) := by
  have hfrom : ∀ h p, HasPointer (s.setArray this (some .unnamed)) h p → HasPointer s h p := by
    intro h p hp
    rcases (hasPointer_setArray ..).mp hp with ⟨_, o, ho, hdata⟩ | ⟨_, hold⟩
    · obtain rfl := Option.some.inj ho
      cases hdata
    · exact hold
  apply Exclusive.handOver howned fun h _ => h
  · intro h p hp
    exact ⟨h, hfrom h p hp, rfl⟩
  · intro h p hp
    exact howned.live_of_holds h p (hfrom h p hp)

/-- INTERNAL: **every pointer keeps one holder**.
SOURCE: src/utility/runtime_array.hh:10-71. -/
theorem owned_of_step [Inhabited T] {action : ArrayAction T} (howned : Owned s)
    (hstep : s.step action = some s') : Owned s' := by
  cases stepped_of_step hstep with
  | construct => exact owned_construct howned _
  | @constructSized this size address _ hnew =>
    apply owned_of_new howned hnew (g := .array this) rfl
    intro h p hp
    rcases (hasPointer_setArray ..).mp ((hasPointer_blocks ..).mp hp) with ⟨hthis, o, ho, hdata⟩ | ⟨_, hold⟩
    · obtain rfl := Option.some.inj ho
      exact Or.inr ⟨hthis, (Option.some.inj hdata).symm⟩
    · exact Or.inl hold
  | moveConstruct hfree hother => exact owned_moveConstruct howned hfree hother
  | moveAssign hdifferent hthis hother hdelete =>
    exact owned_moveAssign howned hdifferent hthis hother hdelete
  | release hthis => exact owned_release howned hthis
  | reset hthis hheld hdelete => exact owned_reset howned hthis hheld hdelete
  | destruct hthis hdelete => exact owned_destruct howned hthis hdelete
  | @allocate address elements hnew =>
    apply owned_of_new howned hnew (g := .caller) rfl
    intro h p hp
    rcases (hasPointer_callers s _ _ h p).mp hp with ⟨rfl, hmem⟩ | ⟨_, hold⟩
    · rcases Finset.mem_insert.mp hmem with rfl | hbefore
      · exact Or.inr ⟨rfl, rfl⟩
      · exact Or.inl hbefore
    · exact Or.inl hold
  | deallocate hheld hdelete => exact owned_deallocate howned hheld hdelete

/-- INTERNAL: what is owned can be deleted. -/
theorem exists_deleteBlock (howned : Owned s) {g : Holder} {ptr : Option ℕ}
    (hheld : ∀ p, ptr = some p → HasPointer s g p) :
    ∃ blocks, ArrayHeap.deleteBlock s.blocks ptr = some blocks := by
  cases ptr with
  | none => exact ⟨s.blocks, rfl⟩
  | some address =>
    have hlive := howned.live_of_holds g address (hheld address rfl)
    exact ⟨Function.update s.blocks address none, if_pos hlive⟩

/-- INTERNAL: **nothing is deleted twice**. An action is refused only where the caller has no right to
it.
SOURCE: src/utility/runtime_array.hh:10-71. -/
theorem step_isSome_iff [Inhabited T] (howned : Owned s) (action : ArrayAction T) :
    (s.step action).isSome ↔ Allowed s action := by
  have hdeleted : ∀ {this o}, s.arrays this = some o →
      ∃ blocks, ArrayHeap.deleteBlock s.blocks o.mData = some blocks :=
    fun hthis => exists_deleteBlock howned (hasPointer_of_arrays hthis)
  constructor
  · intro h
    obtain ⟨s', hstep⟩ := Option.isSome_iff_exists.mp h
    cases stepped_of_step hstep <;> simp_all [Allowed]
  · intro hallowed
    cases action with
    | construct this => simp_all [Allowed, ArrayHeap.step]
    | constructSized this size address => simp_all [Allowed, ArrayHeap.step]
    | moveConstruct this other =>
      obtain ⟨hfree, hother⟩ := hallowed
      obtain ⟨o, hother⟩ := Option.isSome_iff_exists.mp hother
      simp [ArrayHeap.step, hfree, hother]
    | moveAssign this other =>
      obtain ⟨hdifferent, hthis, hother⟩ := hallowed
      obtain ⟨o, hthis⟩ := Option.isSome_iff_exists.mp hthis
      obtain ⟨o', hother⟩ := Option.isSome_iff_exists.mp hother
      obtain ⟨blocks, hdelete⟩ := hdeleted hthis
      simp [ArrayHeap.step, hdifferent, hthis, hother, hdelete]
    | release this =>
      obtain ⟨o, hthis⟩ := Option.isSome_iff_exists.mp hallowed
      simp [ArrayHeap.step, hthis]
    | reset this ptr size =>
      obtain ⟨hthis, hheld⟩ := hallowed
      obtain ⟨o, hthis⟩ := Option.isSome_iff_exists.mp hthis
      obtain ⟨blocks, hdelete⟩ := hdeleted hthis
      simp [ArrayHeap.step, hthis, hheld, hdelete]
    | destruct this =>
      obtain ⟨o, hthis⟩ := Option.isSome_iff_exists.mp hallowed
      obtain ⟨blocks, hdelete⟩ := hdeleted hthis
      simp [ArrayHeap.step, hthis, hdelete]
    | allocate address elements => simp_all [Allowed, ArrayHeap.step]
    | deallocate address =>
      have hlive := howned.live_of_holds .caller address hallowed
      have hcaller : address ∈ s.callers := hallowed
      simp [ArrayHeap.step, ArrayHeap.deleteBlock, hcaller, hlive]

/-! ## Ranges -/

/-- The pointer is to as many elements as the size says. -/
def Sufficient (blocks : ℕ → Option (List T)) (o : RuntimeArrayObject) : Prop :=
  0 < o.size → ∃ address block, o.data = some address ∧ blocks address = some block ∧
    o.size ≤ block.length

/-- INTERNAL: ownership is what is left of a valid range. -/
theorem rangesValid_iff (howned : Owned s) :
    RangesValid s ↔ ∀ b o, s.arrays b = some o → Sufficient s.blocks o := by
  constructor
  · intro hvalid b o hb hsize
    obtain ⟨address, block, hdata, hblock, hlength, _⟩ := hvalid b o hb hsize
    exact ⟨address, block, hdata, hblock, hlength⟩
  · intro hsufficient b o hb hsize
    obtain ⟨address, block, hdata, hblock, hlength⟩ := hsufficient b o hb hsize
    have hheld : HasPointer s (.array b) address := ⟨o, hb, hdata⟩
    refine ⟨address, block, hdata, hblock, hlength, fun holder => ?_, ?_⟩
    · constructor
      · intro hholder
        exact howned.unique holder (.array b) address hholder hheld
      · rintro rfl
        exact hheld
    · simp [ArrayHeap.range, hdata, hblock, hlength]

theorem sufficient_of_size {blocks : ℕ → Option (List T)} {o : RuntimeArrayObject} (hsize : o.size = 0) :
    Sufficient blocks o := fun hpos => absurd hsize (Nat.ne_of_gt hpos)

theorem sufficient_frame {blocks blocks' : ℕ → Option (List T)} {o : RuntimeArrayObject}
    (hsufficient : Sufficient blocks o) (hkept : ∀ p, o.data = some p → blocks' p = blocks p) :
    Sufficient blocks' o := by
  intro hsize
  obtain ⟨address, block, hdata, hblock, hlength⟩ := hsufficient hsize
  exact ⟨address, block, hdata, (hkept address hdata).trans hblock, hlength⟩

theorem forall_update_arrays {P : RuntimeArrayObject → Prop} {arrays : ℕ → Option RuntimeArrayObject}
    {this : ℕ} {x : Option RuntimeArrayObject} :
    (∀ b o, Function.update arrays this x b = some o → P o) ↔
      (∀ o, x = some o → P o) ∧ ∀ b, b ≠ this → ∀ o, arrays b = some o → P o :=
  Function.forall_update_iff arrays fun _ v => ∀ o, v = some o → P o

section Steps

variable (howned : Owned s) (hsufficient : ∀ b o, s.arrays b = some o → Sufficient s.blocks o)

include howned hsufficient

/-- INTERNAL: the range of another object outlives the deletion of what this one had. -/
theorem sufficient_of_delete {g : Holder} {ptr : Option ℕ} (hheld : ∀ p, ptr = some p → HasPointer s g p)
    {blocks : ℕ → Option (List T)} (hdelete : ArrayHeap.deleteBlock s.blocks ptr = some blocks) {b : ℕ}
    (hother : .array b ≠ g) {o : RuntimeArrayObject} (hb : s.arrays b = some o) : Sufficient blocks o := by
  apply sufficient_frame (hsufficient b o hb)
  intro p hdata
  have hp : HasPointer s (.array b) p := ⟨o, hb, hdata⟩
  exact outlives howned hheld hdelete hp hother

theorem sufficient_of_new {address : ℕ} (hnew : s.blocks address = none) (block : List T) {b : ℕ}
    {o : RuntimeArrayObject} (hb : s.arrays b = some o) :
    Sufficient (Function.update s.blocks address (some block)) o := by
  apply sufficient_frame (hsufficient b o hb)
  intro p hdata
  apply Function.update_of_ne
  rintro rfl
  have hlive := howned.live_of_holds (.array b) p ⟨o, hb, hdata⟩
  simp [hnew] at hlive

/-- INTERNAL: **a range only becomes invalid by a release**.
SOURCE: src/utility/runtime_array.hh:10-71. -/
theorem sufficient_of_step [Inhabited T] {action : ArrayAction T} (hstep : s.step action = some s') :
    (∀ b o, s'.arrays b = some o → Sufficient s'.blocks o) ↔ ReleasesEmpty s action := by
  cases stepped_of_step hstep with
  | construct =>
    refine iff_of_true (forall_update_arrays.mpr ⟨?_, fun b _ => hsufficient b⟩) trivial
    rintro o ⟨⟩
    exact sufficient_of_size rfl
  | @constructSized this size address _ hnew =>
    refine iff_of_true (forall_update_arrays.mpr ⟨?_, ?_⟩) trivial
    · rintro o ⟨⟩ _
      exact ⟨address, List.replicate size default, rfl, Function.update_self .., by simp [
        RuntimeArrayObject.ofSize, RuntimeArrayObject.size]⟩
    · intro b _ o hb
      exact sufficient_of_new howned hsufficient hnew _ hb
  | @moveConstruct this other o hfree hother =>
    have hleft : ∀ b o, (s.setArray other (some ⟨none, 0⟩)).arrays b = some o → Sufficient s.blocks o := by
      refine forall_update_arrays.mpr ⟨?_, fun b _ => hsufficient b⟩
      rintro left ⟨⟩
      exact sufficient_of_size rfl
    refine iff_of_true (forall_update_arrays.mpr ⟨?_, fun b _ => hleft b⟩) trivial
    rintro new ⟨⟩
    exact hsufficient other o hother
  | @moveAssign this other o o' blocks hdifferent hthis hother hdelete =>
    have hkept : ∀ b, b ≠ this → ∀ o, s.arrays b = some o → Sufficient blocks o := by
      intro b hb o ho
      exact sufficient_of_delete howned hsufficient (hasPointer_of_arrays hthis) hdelete (by simpa using hb) ho
    refine iff_of_true (forall_update_arrays.mpr ⟨?_, ?_⟩) trivial
    · rintro new ⟨⟩
      exact hkept other hdifferent.symm o' hother
    · intro b hb o ho
      rw [setArray_arrays] at ho
      by_cases hleft : b = other
      · rw [hleft, Function.update_self] at ho
        obtain rfl := Option.some.inj ho
        exact sufficient_of_size rfl
      · rw [Function.update_of_ne hleft] at ho
        exact hkept b hb o ho
  | @release this o hthis =>
    refine forall_update_arrays.trans ⟨?_, ?_⟩
    · rintro ⟨hnow, _⟩ o' ho'
      obtain rfl := Option.some.inj (hthis.symm.trans ho')
      by_contra hsize
      obtain ⟨address, block, hdata, _⟩ := hnow ⟨none, o.mSize⟩ rfl (Nat.pos_of_ne_zero hsize)
      cases hdata
    · intro hempty
      refine ⟨?_, fun b _ => hsufficient b⟩
      rintro left ⟨⟩
      exact sufficient_of_size (hempty o hthis)
  | @reset this size ptr o blocks hthis hheld hdelete =>
    refine iff_of_true (forall_update_arrays.mpr ⟨?_, ?_⟩) trivial
    · rintro new ⟨⟩
      cases ptr with
      | none => exact sufficient_of_size hheld
      | some address =>
        obtain ⟨hcaller, hlength⟩ := hheld
        obtain ⟨block, hblock⟩ :=
          Option.isSome_iff_exists.mp (howned.live_of_holds .caller address hcaller)
        have hkept : blocks address = s.blocks address :=
          outlives howned (hasPointer_of_arrays hthis) hdelete (h := .caller) hcaller (by simp)
        rw [hblock, Option.getD_some] at hlength
        exact fun _ => ⟨address, block, rfl, hkept.trans hblock, hlength⟩
    · intro b hb o ho
      exact sufficient_of_delete howned hsufficient (hasPointer_of_arrays hthis) hdelete (by simpa using hb) ho
  | @destruct this o blocks hthis hdelete =>
    refine iff_of_true (forall_update_arrays.mpr ⟨?_, ?_⟩) trivial
    · rintro left ⟨⟩
    · intro b hb o ho
      exact sufficient_of_delete howned hsufficient (hasPointer_of_arrays hthis) hdelete (by simpa using hb) ho
  | allocate hnew =>
    refine iff_of_true ?_ trivial
    intro b o ho
    exact sufficient_of_new howned hsufficient hnew _ ho
  | @deallocate address blocks hheld hdelete =>
    refine iff_of_true ?_ trivial
    intro b o ho
    apply sufficient_of_delete howned hsufficient (g := .caller) _ hdelete (by simp) ho
    rintro p ⟨⟩
    exact hheld

end Steps

/-- INTERNAL: the elements of a new array of bytes are those of `RuntimeArray.ofSize`.
SOURCE: src/utility/runtime_array.hh:14-16. -/
theorem range_constructSized {s s' : ArrayHeap Byte} {this size address : ℕ}
    (hstep : s.step (.constructSized this size address) = some s') :
    ∃ o, s'.arrays this = some o ∧
      s'.range o = some (List.ofFn (RuntimeArray.ofSize size).mData) := by
  cases stepped_of_step hstep with
  | constructSized hfree hnew =>
    refine ⟨.ofSize address size, Function.update_self .., ?_⟩
    have hzeros : List.ofFn (RuntimeArray.ofSize size).mData = List.replicate size default :=
      List.ofFn_const size (default : Byte)
    rw [hzeros]
    simp [ArrayHeap.range, RuntimeArrayObject.ofSize, RuntimeArrayObject.data, RuntimeArrayObject.size]

/-! ## Empty arrays -/

/-- Every array object has a pointer that is not null, and size `0`. -/
def EmptyBlocks (s : ArrayHeap T) : Prop :=
  ∀ b o, s.arrays b = some o → o.data.isSome ∧ o.size = 0

/-- INTERNAL: with a valid range, `empty()` agrees with the size in no other case.
SOURCE: src/utility/runtime_array.hh:43-46. -/
theorem emptyBlocks_iff : RangesValid s ∧ EmptyTold s ↔ EmptyBlocks s := by
  constructor
  · rintro ⟨hvalid, htold⟩ b o hb
    have hsize : o.size = 0 := by
      by_contra hpos
      obtain ⟨address, block, hdata, _⟩ := hvalid b o hb (Nat.pos_of_ne_zero hpos)
      apply hpos
      apply (htold b o hb).mp
      rw [RuntimeArrayObject.empty, hdata, Option.isSome_some]
    exact ⟨(htold b o hb).mpr hsize, hsize⟩
  · intro hempty
    constructor
    · intro b o hb hpos
      exact absurd (hempty b o hb).2 (Nat.ne_of_gt hpos)
    · intro b o hb
      exact iff_of_true (hempty b o hb).1 (hempty b o hb).2

/-- INTERNAL: what a move leaves behind has no pointer. -/
theorem not_emptyBlocks_of_move {this other : ℕ} {new : RuntimeArrayObject} (hdifferent : this ≠ other)
    (harrays : s'.arrays =
      ((s.setArray other (some ⟨none, 0⟩)).setArray this (some new)).arrays) : ¬ EmptyBlocks s' := by
  intro hnow
  have hleft : s'.arrays other = some ⟨none, 0⟩ := by
    rw [harrays, setArray_arrays, Function.update_of_ne hdifferent.symm, setArray_arrays,
      Function.update_self]
  cases (hnow other _ hleft).1

/-- INTERNAL: **what keeps every array object empty with a pointer**.
SOURCE: src/utility/runtime_array.hh:10-71. -/
theorem emptyBlocks_of_step [Inhabited T] {action : ArrayAction T} (hempty : EmptyBlocks s)
    (hstep : s.step action = some s') : EmptyBlocks s' ↔ MakesEmptyBlocks action := by
  cases stepped_of_step hstep with
  | construct hfree =>
    refine iff_of_false (fun hnow => ?_) id
    have hnew := (forall_update_arrays.mp hnow).1 _ rfl
    cases hnew.1
  | @constructSized this size address hfree hnew =>
    refine forall_update_arrays.trans ⟨?_, ?_⟩
    · rintro ⟨hnow, _⟩
      exact (hnow _ rfl).2
    · intro hsize
      refine ⟨?_, fun b _ => hempty b⟩
      rintro o ⟨⟩
      exact ⟨rfl, hsize⟩
  | @moveConstruct this other o hfree hother =>
    refine iff_of_false (not_emptyBlocks_of_move ?_ rfl) id
    rintro rfl
    rw [hfree] at hother
    cases hother
  | moveAssign hdifferent hthis hother hdelete =>
    exact iff_of_false (not_emptyBlocks_of_move hdifferent rfl) id
  | @release this o hthis =>
    refine iff_of_false (fun hnow => ?_) id
    have hleft := (forall_update_arrays.mp hnow).1 _ rfl
    cases hleft.1
  | @reset this size ptr o blocks hthis hheld hdelete =>
    refine forall_update_arrays.trans ⟨?_, ?_⟩
    · rintro ⟨hnow, _⟩
      obtain ⟨hpointer, hsize⟩ := hnow _ rfl
      exact ⟨Option.isSome_iff_ne_none.mp hpointer, hsize⟩
    · rintro ⟨hpointer, hsize⟩
      refine ⟨?_, fun b _ => hempty b⟩
      rintro new ⟨⟩
      exact ⟨Option.isSome_iff_ne_none.mpr hpointer, hsize⟩
  | destruct hthis hdelete =>
    refine iff_of_true (forall_update_arrays.mpr ⟨?_, fun b _ => hempty b⟩) trivial
    rintro left ⟨⟩
  | allocate hnew => exact iff_of_true hempty trivial
  | deallocate hheld hdelete => exact iff_of_true hempty trivial

/-! ## Runs -/

/-- SOURCE: src/utility/runtime_array.hh:8-77 — **which sequences of operations keep arrays valid**. At
every point of a run, every array object with a size owns that many elements, if and only if only array
objects of size `0` are released. And `empty()` agrees with the size of all of them too, if and only if
every construction is one of size `0`, every `reset` is given a pointer that is not null and the size
`0`, and nothing is moved, released or constructed without a size. -/
theorem runtime_array_iff [Inhabited T] (actions : List (ArrayAction T)) :
    (Throughout ArrayHeap.step RangesValid .init actions ↔
      EachStep ArrayHeap.step ReleasesEmpty .init actions) ∧
    (Throughout ArrayHeap.step (fun s => RangesValid s ∧ EmptyTold s) .init actions ↔
      EachStep ArrayHeap.step (fun _ action => MakesEmptyBlocks action) .init actions) := by
  have hinit : EmptyBlocks (ArrayHeap.init : ArrayHeap T) := fun b o hb => nomatch hb
  have hboth := emptyBlocks_iff.mpr hinit
  constructor
  · apply throughout_iff_eachStep ArrayHeap.step Owned RangesValid _ _ _ _ _ owned_init hboth.1
    · intro s action s' howned hstep
      exact owned_of_step howned hstep
    · intro s action s' howned hvalid hstep
      rw [rangesValid_iff (owned_of_step howned hstep)]
      exact sufficient_of_step howned ((rangesValid_iff howned).mp hvalid) hstep
  · apply throughout_iff_eachStep ArrayHeap.step (fun _ => True) _ _ _ _ _ _ trivial hboth
    · exact fun _ _ _ _ _ => trivial
    · intro s action s' _ hvalid hstep
      rw [emptyBlocks_iff]
      exact emptyBlocks_of_step (emptyBlocks_iff.mp hvalid) hstep

/-- SOURCE: src/utility/runtime_array.hh:10-12,43-46,58-61 — an array object that is constructed without
a size is not `empty()`, one of size `1` is, and when this one is released it has the size `1` and a
null pointer. -/
theorem released_array_keeps_size :
    (∃ s, runActions ArrayHeap.step (.init : ArrayHeap ℕ) [.construct 0] = some s ∧
      s.arrays 0 = some ⟨none, 0⟩ ∧ ¬ EmptyTold s) ∧
    (∃ s, runActions ArrayHeap.step (.init : ArrayHeap ℕ) [.constructSized 0 1 7] = some s ∧
      s.arrays 0 = some ⟨some 7, 1⟩ ∧ ¬ EmptyTold s) ∧
    ∃ s, runActions ArrayHeap.step (.init : ArrayHeap ℕ) [.constructSized 0 1 7, .release 0] = some s ∧
      s.arrays 0 = some ⟨none, 1⟩ ∧ ¬ RangesValid s := by
  refine ⟨⟨_, rfl, rfl, ?_⟩, ⟨_, rfl, rfl, ?_⟩, ⟨_, rfl, rfl, ?_⟩⟩
  · intro htold
    have hempty := htold 0 ⟨none, 0⟩ rfl
    revert hempty
    decide
  · intro htold
    have hempty := htold 0 ⟨some 7, 1⟩ rfl
    revert hempty
    decide
  · intro hvalid
    obtain ⟨address, block, hdata, _⟩ := hvalid 0 ⟨none, 1⟩ rfl (by decide)
    cases hdata

end Mccpp.Analysis
