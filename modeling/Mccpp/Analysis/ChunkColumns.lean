import Mccpp.Model.ChunkManager

/-!
# The bounds of a column

The loop over a column runs from `begin()` to `end()`, that is over `m_count` chunks, but the
constructor never sets `m_count`. A column is whole when this is the number of chunks that were
allocated for it. Over every sequence of calls of `get`, all columns returned are whole exactly
when the memory of every new column happened to hold the height.
-/

set_option autoImplicit false

namespace Mccpp.Analysis

open Mccpp.Model

/-- The column shows its `h` chunks, each once and nothing else. -/
structure Whole (h : ℕ) (column : ChunkColumn) : Prop where
  count : column.count = h
  visited : column.pointers = List.range column.mChunks.length
  allocated : column.mChunks.length = h

/-- INTERNAL: a new column is whole if the memory held the height. -/
theorem whole_construct_iff (memory h : ℕ) : Whole h (.construct memory h) ↔ memory = h := by
  constructor
  · intro hwhole
    exact hwhole.count
  · rintro rfl
    refine ⟨rfl, ?_, List.length_replicate⟩
    unfold ChunkColumn.construct
    rw [List.length_replicate]
    rfl

/-- INTERNAL: different positions have different keys.
SOURCE: world/chunk.hh:85-87 -/
theorem chunkPosToIdx_inj {x y x' y' : BitVec 32}
    (h : ChunkManager.chunkPosToIdx x y = ChunkManager.chunkPosToIdx x' y') : x = x' ∧ y = y' := by
  have hbit : ∀ i, (ChunkManager.chunkPosToIdx x y).getLsbD i =
      (ChunkManager.chunkPosToIdx x' y').getLsbD i := fun i => by rw [h]
  unfold ChunkManager.chunkPosToIdx at hbit
  simp only [BitVec.getLsbD_or, BitVec.getLsbD_shiftLeft, BitVec.getLsbD_setWidth] at hbit
  constructor
  · apply BitVec.eq_of_getLsbD_eq
    intro i hi
    have hhigh := hbit (i + 32)
    have hy : y.getLsbD (i + 32) = false := BitVec.getLsbD_of_ge y _ (by omega)
    have hy' : y'.getLsbD (i + 32) = false := BitVec.getLsbD_of_ge y' _ (by omega)
    have hlt : i + 32 < 64 := by omega
    have hge : ¬i + 32 < 32 := by omega
    have hx : i < 64 := by omega
    simpa [hy, hy', hlt, hge, hx] using hhigh
  · apply BitVec.eq_of_getLsbD_eq
    intro i hi
    have hlow := hbit i
    have hlt : i < 64 := by omega
    simpa [hi, hlt] using hlow

/-! ## One call of `get` -/

theorem get_of_some {m : ChunkManager} {x y : BitVec 32} {column : ChunkColumn}
    (h : m.tryGet x y = some column) (memory : ℕ) : m.get memory x y = some (column, m) := by
  unfold ChunkManager.get
  rw [h]

theorem get_of_none {m : ChunkManager} {x y : BitVec 32} (h : m.tryGet x y = none) (memory : ℕ) :
    m.get memory x y = some (.construct memory m.mHeightInChunks, { m with
      mColumns := fun k => if k = ChunkManager.chunkPosToIdx x y then
        some (.construct memory m.mHeightInChunks) else m.mColumns k }) := by
  have hkey : m.mColumns (ChunkManager.chunkPosToIdx x y) = none := h
  unfold ChunkManager.get ChunkManager.emplace
  rw [h, hkey]
  simp

/-- The column of a position, behind a call that made one. -/
theorem tryGet_insert (m : ChunkManager) (x y x' y' : BitVec 32) (column : ChunkColumn) :
    ChunkManager.tryGet { m with
      mColumns := fun k => if k = ChunkManager.chunkPosToIdx x y then some column
        else m.mColumns k } x' y' =
      if (x', y') = (x, y) then some column else m.tryGet x' y' := by
  unfold ChunkManager.tryGet
  dsimp only
  by_cases hsame : (x', y') = (x, y)
  · cases hsame
    rw [if_pos rfl, if_pos rfl]
  · have hkey : ChunkManager.chunkPosToIdx x' y' ≠ ChunkManager.chunkPosToIdx x y := by
      intro hkey
      obtain ⟨rfl, rfl⟩ := chunkPosToIdx_inj hkey
      exact hsame rfl
    rw [if_neg hkey, if_neg hsame]

/-- Every column of the manager is whole. -/
def AllWhole (m : ChunkManager) : Prop :=
  ∀ x y column, m.tryGet x y = some column → Whole m.mHeightInChunks column

/-- INTERNAL: **one call of `get`** returns a column, which is there from then on. Among whole
columns it is whole unless it was made in memory that held something else than the height.
SOURCE: world/chunk.hh:70-76 -/
theorem get_spec (m : ChunkManager) (r : ChunkManager.Request) :
    ∃ column m', m.get r.memory r.x r.y = some (column, m') ∧
      m'.mHeightInChunks = m.mHeightInChunks ∧
      (∀ x y, m'.tryGet x y = none ↔ m.tryGet x y = none ∧ (x, y) ≠ (r.x, r.y)) ∧
      (AllWhole m →
        (Whole m.mHeightInChunks column ↔
          (m.tryGet r.x r.y = none → r.memory = m.mHeightInChunks)) ∧
        (Whole m.mHeightInChunks column → AllWhole m')) := by
  cases hget : m.tryGet r.x r.y with
  | some column =>
    refine ⟨column, m, get_of_some hget r.memory, rfl, fun x y => ?_, fun hwhole => ⟨?_, ?_⟩⟩
    · refine ⟨fun hnone => ⟨hnone, fun hsame => ?_⟩, fun h => h.1⟩
      cases hsame
      rw [hget] at hnone
      cases hnone
    · exact ⟨fun _ hnone => (nomatch hnone), fun _ => hwhole _ _ column hget⟩
    · intro _
      exact hwhole
  | none =>
    refine ⟨_, _, get_of_none hget r.memory, rfl, fun x y => ?_, fun hwhole => ⟨?_, ?_⟩⟩
    · rw [tryGet_insert]
      by_cases hsame : (x, y) = (r.x, r.y)
      · simp [hsame]
      · simp [hsame]
    · rw [whole_construct_iff]
      exact ⟨fun hmemory _ => hmemory, fun hmemory => hmemory rfl⟩
    · intro hnew x y column hcolumn
      rw [tryGet_insert] at hcolumn
      split at hcolumn
      · cases hcolumn
        exact hnew
      · exact hwhole x y column hcolumn

/-! ## All calls -/

/-- What holds at every place of a list, given what stands before it. -/
theorem forall_split_cons {α : Type} (p : List α → α → Prop) (a : α) (l : List α) :
    (∀ before b after, a :: l = before ++ b :: after → p before b) ↔
      p [] a ∧ ∀ before b after, l = before ++ b :: after → p (a :: before) b := by
  constructor
  · intro h
    refine ⟨h [] a l rfl, fun before b after hsplit => ?_⟩
    exact h (a :: before) b after (by rw [hsplit]; rfl)
  · rintro ⟨hhead, htail⟩ before b after hsplit
    cases before with
    | nil =>
      cases hsplit
      exact hhead
    | cons c before =>
      cases hsplit
      exact htail before b after rfl

/-- A call that makes a column, the calls before it being these, finds the height in the
memory. -/
def MadeWithHeight (m : ChunkManager) (before : List ChunkManager.Request)
    (r : ChunkManager.Request) : Prop :=
  m.tryGet r.x r.y = none → (∀ q ∈ before, (q.x, q.y) ≠ (r.x, r.y)) →
    r.memory = m.mHeightInChunks

/-- INTERNAL: the `assert` of `get` never fails.
SOURCE: world/chunk.hh:74 -/
theorem getAll_total (requests : List ChunkManager.Request) (m : ChunkManager) :
    ∃ columns m', m.getAll requests = some (columns, m') := by
  induction requests generalizing m with
  | nil => exact ⟨[], m, rfl⟩
  | cons r requests ih =>
    obtain ⟨column, m₁, hget, _⟩ := get_spec m r
    obtain ⟨columns, m₂, hall⟩ := ih m₁
    exact ⟨column :: columns, m₂, by simp [ChunkManager.getAll, hget, hall]⟩

/-- INTERNAL: the calls from a manager whose columns are all whole.
SOURCE: world/chunk.hh:63-76 -/
theorem getAll_whole_iff (requests : List ChunkManager.Request) (m : ChunkManager)
    (hwhole : AllWhole m) :
    ∃ columns m', m.getAll requests = some (columns, m') ∧
      ((∀ column ∈ columns, Whole m.mHeightInChunks column) ↔
        ∀ before r after, requests = before ++ r :: after → MadeWithHeight m before r) := by
  induction requests generalizing m with
  | nil => exact ⟨[], m, rfl, by simp⟩
  | cons r requests ih =>
    obtain ⟨column, m₁, hget, hheight, habsent, hspec⟩ := get_spec m r
    obtain ⟨hcolumn, hkept⟩ := hspec hwhole
    have hhead : MadeWithHeight m [] r ↔ Whole m.mHeightInChunks column := by
      rw [hcolumn]
      unfold MadeWithHeight
      simp
    have hlater : ∀ before q, MadeWithHeight m (r :: before) q ↔ MadeWithHeight m₁ before q := by
      intro before q
      unfold MadeWithHeight
      rw [habsent, hheight, List.forall_mem_cons]
      constructor
      · rintro h ⟨hnone, hne⟩ hfirst
        exact h hnone ⟨fun hsame => hne hsame.symm, hfirst⟩
      · rintro h hnone ⟨hne, hfirst⟩
        exact h ⟨hnone, fun hsame => hne hsame.symm⟩ hfirst
    by_cases hthis : Whole m.mHeightInChunks column
    · obtain ⟨columns, m₂, hall, hiff⟩ := ih m₁ (hkept hthis)
      refine ⟨column :: columns, m₂, by simp [ChunkManager.getAll, hget, hall], ?_⟩
      rw [forall_split_cons, List.forall_mem_cons, hhead]
      simp only [hlater, hthis, true_and]
      rw [hheight] at hiff
      exact hiff
    · obtain ⟨columns, m₂, hall⟩ := getAll_total requests m₁
      refine ⟨column :: columns, m₂, by simp [ChunkManager.getAll, hget, hall], ?_⟩
      rw [forall_split_cons, List.forall_mem_cons, hhead]
      simp only [hthis, false_and]

/-- SOURCE: world/chunk.hh:38-76 — **when the columns are whole**. Over every sequence of calls
of `get`, every column that is returned shows exactly its `h` chunks if and only if each call
that was the first for its position made the column where the memory held `h`. -/
theorem columns_whole_iff (h : ℕ) (requests : List ChunkManager.Request) :
    ∃ columns m, (ChunkManager.init h).getAll requests = some (columns, m) ∧
      ((∀ column ∈ columns, Whole h column) ↔
        ∀ before r after, requests = before ++ r :: after →
          (∀ q ∈ before, (q.x, q.y) ≠ (r.x, r.y)) → r.memory = h) := by
  have hwhole : AllWhole (.init h) := fun x y column hcolumn => (nomatch hcolumn)
  have hnone : ∀ x y, (ChunkManager.init h).tryGet x y = none := fun _ _ => rfl
  obtain ⟨columns, m, hall, hiff⟩ := getAll_whole_iff requests (.init h) hwhole
  refine ⟨columns, m, hall, hiff.trans ?_⟩
  simp only [MadeWithHeight, hnone, true_implies]
  rfl

/-- SOURCE: world/chunk.hh:38-55 — the first column of a world of height `384`, in memory that
held `25`: the loop goes past the end of its `24` chunks. -/
theorem column_shows_a_chunk_too_many :
    ∃ column m, (ChunkManager.init 24).get 25 0 0 = some (column, m) ∧
      column.mChunks.length = 24 ∧ 24 ∈ column.pointers ∧ ¬Whole 24 column := by
  refine ⟨_, _, get_of_none rfl 25, List.length_replicate, List.mem_range.mpr (by decide), ?_⟩
  intro hwhole
  have hcount := (whole_construct_iff _ _).mp hwhole
  cases hcount

end Mccpp.Analysis
