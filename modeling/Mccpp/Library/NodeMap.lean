import Mathlib.Data.List.Basic
import Mathlib.Data.List.Nodup

/-!
# Maps of nodes

A map that keeps every value in a node of its own, as a hash table with chaining does. The nodes are
listed in the order they were made, and a pointer to a value is the place of its node, so it stays
good whatever is inserted later (`deref_emplace`). No two nodes have the same key.
-/

set_option autoImplicit false

namespace Mccpp.Library

/-- The nodes of a map from `κ` to `β`. -/
structure NodeMap (κ β : Type) where
  nodes : List (κ × β)
  nodup : (nodes.map Prod.fst).Nodup

namespace NodeMap

variable {κ β : Type}

/-- No nodes. -/
def empty : NodeMap κ β := ⟨[], List.nodup_nil⟩

/-- The keys, in the order of their nodes. -/
def keys (m : NodeMap κ β) : List κ := m.nodes.map Prod.fst

/-- What a pointer points to. -/
def deref (m : NodeMap κ β) (p : ℕ) : Option β := m.nodes[p]?.map Prod.snd

section Keys

variable [DecidableEq κ]

/-- The node of a key. -/
def find (m : NodeMap κ β) (k : κ) : Option ℕ := m.keys.findIdx? fun k' => k' = k

theorem find_eq_none_iff (m : NodeMap κ β) (k : κ) : m.find k = none ↔ k ∉ m.keys := by
  unfold find
  rw [List.findIdx?_eq_none_iff]
  constructor
  · intro h hk
    simpa using h k hk
  · intro h k' hk'
    apply decide_eq_false
    rintro rfl
    exact h hk'

/-- INTERNAL: a node is found by its key, and by no other. -/
theorem find_eq_some_iff (m : NodeMap κ β) (k : κ) (p : ℕ) :
    m.find k = some p ↔ m.keys[p]? = some k := by
  unfold find
  rw [List.findIdx?_eq_some_iff_getElem]
  constructor
  · rintro ⟨hp, hkey, _⟩
    rw [List.getElem?_eq_getElem hp]
    exact congrArg some (of_decide_eq_true hkey)
  · intro hkey
    obtain ⟨hp, hget⟩ := List.getElem?_eq_some_iff.mp hkey
    have hnodup : m.keys.Nodup := m.nodup
    refine ⟨hp, decide_eq_true hget, fun j hj => ?_⟩
    have hne : m.keys[j] ≠ k := by
      intro hsame
      have hplace : j = p := hnodup.getElem_inj_iff.mp (hsame.trans hget.symm)
      omega
    simpa using hne

theorem find_inj {m : NodeMap κ β} {k k' : κ} {p : ℕ} (h : m.find k = some p)
    (h' : m.find k' = some p) : k = k' := by
  rw [find_eq_some_iff] at h h'
  exact Option.some.inj (h.symm.trans h')

/-- What is found is there. -/
theorem deref_of_find {m : NodeMap κ β} {k : κ} {p : ℕ} (h : m.find k = some p) :
    ∃ c, m.deref p = some c := by
  rw [find_eq_some_iff] at h
  unfold keys at h
  rw [List.getElem?_map] at h
  obtain ⟨node, hnode, _⟩ := Option.map_eq_some_iff.mp h
  refine ⟨node.2, ?_⟩
  unfold deref
  rw [hnode, Option.map_some]

/-- Makes a node for the key, unless there is one. The first results are the node and whether it
was made. -/
def emplace (m : NodeMap κ β) (k : κ) (b : β) : (ℕ × Bool) × NodeMap κ β :=
  match h : m.find k with
  | some p => ((p, false), m)
  | none => ((m.nodes.length, true), {
      nodes := m.nodes ++ [(k, b)]
      nodup := by
        rw [List.map_append, List.map_singleton, List.nodup_append_comm, List.singleton_append,
          List.nodup_cons]
        exact ⟨(m.find_eq_none_iff k).mp h, m.nodup⟩ })

theorem emplace_of_none {m : NodeMap κ β} {k : κ} (h : m.find k = none) (b : β) :
    (m.emplace k b).1 = (m.nodes.length, true) ∧
      (m.emplace k b).2.nodes = m.nodes ++ [(k, b)] := by
  unfold emplace
  split
  · rename_i p hp
    rw [h] at hp
    cases hp
  · exact ⟨rfl, rfl⟩

/-- INTERNAL: **insertion**. The new node is found by its key, and every other key finds what it
found before. -/
theorem find_emplace {m : NodeMap κ β} {k : κ} (h : m.find k = none) (b : β) (k' : κ) :
    (m.emplace k b).2.find k' = if k' = k then some m.nodes.length else m.find k' := by
  have hkeys : (m.emplace k b).2.keys = m.keys ++ [k] := by
    unfold keys
    rw [(emplace_of_none h b).2, List.map_append, List.map_singleton]
  have hlength : m.keys.length = m.nodes.length := List.length_map _
  split
  · rename_i hsame
    rw [find_eq_some_iff, hkeys, hsame, ← hlength, List.getElem?_concat_length]
  · rename_i hother
    cases hfind : m.find k' with
    | none =>
      rw [find_eq_none_iff] at hfind ⊢
      rw [hkeys, List.mem_append, List.mem_singleton]
      rintro (hold | hnew)
      · exact hfind hold
      · exact hother hnew
    | some p =>
      rw [find_eq_some_iff] at hfind ⊢
      obtain ⟨hp, _⟩ := List.getElem?_eq_some_iff.mp hfind
      rw [hkeys, List.getElem?_append_left hp]
      exact hfind

/-- INTERNAL: **pointers stay good**, with what they point to. -/
theorem deref_emplace {m : NodeMap κ β} {k : κ} (h : m.find k = none) (b : β) {p : ℕ} {c : β}
    (hp : m.deref p = some c) : (m.emplace k b).2.deref p = some c := by
  unfold deref at hp ⊢
  obtain ⟨node, hnode, rfl⟩ := Option.map_eq_some_iff.mp hp
  obtain ⟨hlt, _⟩ := List.getElem?_eq_some_iff.mp hnode
  rw [(emplace_of_none h b).2, List.getElem?_append_left hlt, hnode, Option.map_some]

theorem deref_emplace_new {m : NodeMap κ β} {k : κ} (h : m.find k = none) (b : β) :
    (m.emplace k b).2.deref m.nodes.length = some b := by
  unfold deref
  rw [(emplace_of_none h b).2, List.getElem?_concat_length, Option.map_some]

end Keys

theorem map_fst_modify (nodes : List (κ × β)) (p : ℕ) (f : β → β) :
    (nodes.modify p fun node => (node.1, f node.2)).map Prod.fst = nodes.map Prod.fst := by
  apply List.ext_getElem?
  intro i
  rw [List.getElem?_map, List.getElem?_map, List.getElem?_modify]
  split
  · cases nodes[i]? <;> rfl
  · simp

/-- Changes the value that a pointer points to. -/
def modify (m : NodeMap κ β) (p : ℕ) (f : β → β) : NodeMap κ β where
  nodes := m.nodes.modify p fun node => (node.1, f node.2)
  nodup := by
    rw [map_fst_modify]
    exact m.nodup

/-- A change of a value leaves every key where it was. -/
theorem find_modify [DecidableEq κ] (m : NodeMap κ β) (p : ℕ) (f : β → β) (k : κ) :
    (m.modify p f).find k = m.find k := by
  unfold find keys modify
  rw [map_fst_modify]

end NodeMap

end Mccpp.Library
