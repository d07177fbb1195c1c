import Mccpp.Library.Fallible
import Mccpp.Model.ChunkNodes
import Mccpp.Analysis.ChunkColumns

/-!
# The chunk manager is a map

Over every sequence of calls of `get`, with changes of columns in between, the manager has a column
for exactly the pairs that were asked for, and the references it returned are the same for the same
pair and different for different pairs (`columns_map`). One call keeps all pointers, and what they
point to (`get_nodes`). Without its nodes the manager is the one that the handlers work on
(`contents_get`).
-/

set_option autoImplicit false

namespace Mccpp.Analysis

open Mccpp.Library Mccpp.Model

/-! ## One call -/

theorem node_get_of_some {m : NodeManager} {x y : BitVec 32} {p : ℕ} (h : m.tryGet x y = some p)
    (memory : ℕ) : m.get memory x y = .ok (p, m) := by
  unfold NodeManager.get
  rw [h]

theorem node_get_of_none {m : NodeManager} {x y : BitVec 32} (h : m.tryGet x y = none)
    (memory : ℕ) :
    m.get memory x y = .ok (m.mColumns.nodes.length, { m with
      mColumns := (m.mColumns.emplace (ChunkManager.chunkPosToIdx x y)
        (.construct memory m.mHeightInChunks)).2 }) := by
  have hnode := (NodeMap.emplace_of_none h (.construct memory m.mHeightInChunks)).1
  unfold NodeManager.get
  rw [h]
  dsimp only
  rw [hnode, if_pos rfl]

/-- INTERNAL: **one call of `get`** never fails its `assert`; the column is found from then on under
its own pair, every other pair finds what it found before, and every pointer keeps its column.
SOURCE: world/chunk.hh:63-76 -/
theorem get_nodes (m : NodeManager) (memory : ℕ) (x y : BitVec 32) :
    ∃ column m', m.get memory x y = .ok (column, m') ∧
      m'.tryGet x y = some column ∧
      (∀ x' y', (x', y') ≠ (x, y) → m'.tryGet x' y' = m.tryGet x' y') ∧
      (∀ p, m.tryGet x y = some p → column = p) ∧
      ∀ p c, m.deref p = some c → m'.deref p = some c := by
  cases hfind : m.tryGet x y with
  | some p =>
    refine ⟨p, m, node_get_of_some hfind memory, hfind, fun _ _ _ => rfl, fun q hq => ?_,
      fun _ _ h => h⟩
    exact Option.some.inj hq
  | none =>
    have hinsert := NodeMap.find_emplace hfind (.construct memory m.mHeightInChunks)
    refine ⟨_, _, node_get_of_none hfind memory, ?_, ?_, ?_, ?_⟩
    · unfold NodeManager.tryGet
      rw [hinsert, if_pos rfl]
    · intro x' y' hne
      have hother : ChunkManager.chunkPosToIdx x' y' ≠ ChunkManager.chunkPosToIdx x y := by
        intro hsame
        obtain ⟨rfl, rfl⟩ := chunkPosToIdx_inj hsame
        exact hne rfl
      unfold NodeManager.tryGet
      rw [hinsert, if_neg hother]
    · intro p hp
      cases hp
    · intro p c hp
      exact NodeMap.deref_emplace hfind _ hp

/-- INTERNAL: a column has one pair.
SOURCE: world/chunk.hh:85-87 -/
theorem tryGet_inj {m : NodeManager} {x y x' y' : BitVec 32} {p : ℕ} (h : m.tryGet x y = some p)
    (h' : m.tryGet x' y' = some p) : (x, y) = (x', y') := by
  obtain ⟨rfl, rfl⟩ := chunkPosToIdx_inj (NodeMap.find_inj h h')
  rfl

/-- INTERNAL: **without its nodes** the manager is the one that the handlers work on.
SOURCE: world/chunk.hh:63-76 -/
theorem contents_get (m : NodeManager) (memory : ℕ) (x y : BitVec 32) :
    ∃ column m' c, m.get memory x y = .ok (column, m') ∧ m'.deref column = some c ∧
      m.contents.get memory x y = some (c, m'.contents) := by
  have hcontents : m.contents.tryGet x y = (m.tryGet x y).bind m.deref := rfl
  cases hfind : m.tryGet x y with
  | some p =>
    obtain ⟨c, hc⟩ := NodeMap.deref_of_find hfind
    refine ⟨p, m, c, node_get_of_some hfind memory, hc, get_of_some ?_ memory⟩
    rw [hcontents, hfind]
    exact hc
  | none =>
    have hinsert := NodeMap.find_emplace hfind (.construct memory m.mHeightInChunks)
    have hnew := NodeMap.deref_emplace_new hfind (.construct memory m.mHeightInChunks)
    refine ⟨_, _, _, node_get_of_none hfind memory, hnew, ?_⟩
    rw [get_of_none (by rw [hcontents, hfind, Option.bind_none])]
    congr 3
    funext key
    dsimp only [NodeManager.contents]
    rw [hinsert]
    split
    · rw [Option.bind_some, hnew]
    · cases hold : m.mColumns.find key with
      | none => rfl
      | some p =>
        obtain ⟨c, hc⟩ := NodeMap.deref_of_find hold
        rw [Option.bind_some, Option.bind_some, hc, NodeMap.deref_emplace hfind _ hc]

/-! ## All calls -/

/-- The calls of `get` among the actions. -/
def requestsOf (actions : List NodeManager.Action) : List ChunkManager.Request :=
  actions.filterMap fun
    | .get r => some r
    | .change _ _ => none

/-- What holds behind calls that returned these references, from a manager on. -/
structure Answered (m : NodeManager) (answers : List (ChunkManager.Request × ℕ))
    (m' : NodeManager) : Prop where
  absent : ∀ x y, m'.tryGet x y = none ↔
    m.tryGet x y = none ∧ ∀ a ∈ answers, (a.1.x, a.1.y) ≠ (x, y)
  kept : ∀ x y p, m.tryGet x y = some p → m'.tryGet x y = some p
  found : ∀ a ∈ answers, m'.tryGet a.1.x a.1.y = some a.2

theorem answered_get {m m₁ m' : NodeManager} {r : ChunkManager.Request} {column : ℕ}
    {answers : List (ChunkManager.Request × ℕ)} (hget : m.get r.memory r.x r.y = .ok (column, m₁))
    (h : Answered m₁ answers m') : Answered m ((r, column) :: answers) m' := by
  obtain ⟨_, _, hget', hthis, hothers, hsame, _⟩ := get_nodes m r.memory r.x r.y
  rw [hget] at hget'
  cases hget'
  constructor
  · intro x y
    rw [h.absent, List.forall_mem_cons]
    by_cases hpair : (r.x, r.y) = (x, y)
    · cases hpair
      constructor
      · rintro ⟨hnone, _⟩
        rw [hthis] at hnone
        cases hnone
      · rintro ⟨_, hne, _⟩
        exact absurd rfl hne
    · rw [hothers x y (fun hback => hpair hback.symm)]
      exact ⟨fun ⟨hnone, hrest⟩ => ⟨hnone, hpair, hrest⟩, fun ⟨hnone, _, hrest⟩ => ⟨hnone, hrest⟩⟩
  · intro x y p hp
    apply h.kept
    by_cases hpair : (x, y) = (r.x, r.y)
    · cases hpair
      rw [hthis, hsame p hp]
    · rw [hothers x y hpair, hp]
  · rw [List.forall_mem_cons]
    exact ⟨h.kept _ _ _ hthis, h.found⟩

/-- INTERNAL: the whole run, by induction on the actions.
SOURCE: world/chunk.hh:63-76 -/
theorem run_answered (actions : List NodeManager.Action) (m : NodeManager) :
    ∃ answers m', m.run actions = .ok (answers, m') ∧
      answers.map Prod.fst = requestsOf actions ∧ Answered m answers m' := by
  induction actions generalizing m with
  | nil =>
    refine ⟨[], m, rfl, rfl, fun x y => ?_, fun x y p h => h, fun a ha => (nomatch ha)⟩
    simp
  | cons action actions ih =>
    cases action with
    | get r =>
      obtain ⟨column, m₁, hget, _⟩ := get_nodes m r.memory r.x r.y
      obtain ⟨answers, m', hrun, hrequests, hanswered⟩ := ih m₁
      refine ⟨(r, column) :: answers, m', ?_, ?_, answered_get hget hanswered⟩
      · unfold NodeManager.run
        rw [hget]
        dsimp only [bind, Except.bind]
        rw [hrun]
      · rw [List.map_cons, hrequests]
        rfl
    | change p f =>
      have hfind : ∀ x y, NodeManager.tryGet { m with mColumns := m.mColumns.modify p f } x y =
          m.tryGet x y := fun x y => NodeMap.find_modify m.mColumns p f _
      obtain ⟨answers, m', hrun, hrequests, hanswered⟩ :=
        ih { m with mColumns := m.mColumns.modify p f }
      refine ⟨answers, m', hrun, hrequests, fun x y => ?_, fun x y q hq => ?_, hanswered.found⟩
      · rw [hanswered.absent, hfind]
      · apply hanswered.kept
        rw [hfind, hq]

/-- SOURCE: world/chunk.hh:57-91 — **the manager is a map with a pair for a key**. Behind any sequence
of calls of `get`, with changes of columns in between: no `assert` failed; `try_get` gives null for
exactly the pairs that were not asked for; two references are the same if and only if the pairs are,
and `try_get` gives the same one. A further call of `get` leaves every other pair its column, and
every column what it holds. -/
theorem columns_map (height : ℕ) (actions : List NodeManager.Action) :
    ∃ answers m, (NodeManager.init height).run actions = .ok (answers, m) ∧
      answers.map Prod.fst = requestsOf actions ∧
      (∀ x y, m.tryGet x y = none ↔ ∀ r ∈ requestsOf actions, (r.x, r.y) ≠ (x, y)) ∧
      (∀ a ∈ answers, m.tryGet a.1.x a.1.y = some a.2) ∧
      (∀ a ∈ answers, ∀ b ∈ answers, a.2 = b.2 ↔ (a.1.x, a.1.y) = (b.1.x, b.1.y)) ∧
      ∀ r : ChunkManager.Request, ∃ column m', m.get r.memory r.x r.y = .ok (column, m') ∧
        (∀ x y, (x, y) ≠ (r.x, r.y) → m'.tryGet x y = m.tryGet x y) ∧
        ∀ p c, m.deref p = some c → m'.deref p = some c := by
  obtain ⟨answers, m, hrun, hrequests, hanswered⟩ := run_answered actions (.init height)
  refine ⟨answers, m, hrun, hrequests, fun x y => ?_, hanswered.found, ?_, fun r => ?_⟩
  · have hempty : (NodeManager.init height).tryGet x y = none := rfl
    rw [hanswered.absent, ← hrequests, List.forall_mem_map]
    simp only [hempty, true_and]
  · intro a ha b hb
    have hfoundA := hanswered.found a ha
    have hfoundB := hanswered.found b hb
    constructor
    · intro hsame
      rw [← hsame] at hfoundB
      exact tryGet_inj hfoundA hfoundB
    · intro hpair
      obtain ⟨hx, hy⟩ := Prod.mk.inj hpair
      rw [hx, hy, hfoundB] at hfoundA
      exact (Option.some.inj hfoundA).symm
  · obtain ⟨column, m', hget, _, hothers, _, hkept⟩ := get_nodes m r.memory r.x r.y
    exact ⟨column, m', hget, hothers, hkept⟩

end Mccpp.Analysis
