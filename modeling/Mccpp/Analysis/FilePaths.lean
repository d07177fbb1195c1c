import Mccpp.Library.Segments
import Mccpp.Interface.FilePaths

/-!
# Paths and the nodes they lead to

`find_file` follows the components of any text from the root (`findFile_eq`), so names that are
joined by slashes lead where `find` leads one after another. `read_file` does not look at whether
they lead anywhere.
-/

set_option autoImplicit false

namespace Mccpp.Analysis

open Mccpp.Library Mccpp.Model Mccpp.Interface

variable {nodes : TreeNodes}

/-! ## Following names -/

/-- The node reached by one `find` after another. -/
def descend (nodes : TreeNodes) (node : ℕ) (path : List (List Char)) : Option ℕ :=
  path.foldlM nodes.find node

theorem leadsTo_iff {node last : ℕ} {names : List (List Char)} :
    LeadsTo nodes node names last ↔ descend nodes node names = some last := by
  induction names generalizing node with
  | nil =>
    constructor
    · rintro ⟨⟩
      rfl
    · intro h
      obtain rfl := Option.some.inj h
      exact .here node
  | cons name names ih =>
    unfold descend
    rw [List.foldlM_cons, Option.bind_eq_bind, Option.bind_eq_some_iff]
    constructor
    · rintro ⟨⟩
      next next hfind hrest => exact ⟨next, hfind, ih.mp hrest⟩
    · rintro ⟨next, hfind, hrest⟩
      exact .down hfind (ih.mpr hrest)

/-- INTERNAL: the names lead nowhere when one of them finds nothing. -/
theorem descend_eq_none_iff {node : ℕ} {names : List (List Char)} :
    descend nodes node names = none ↔ ∃ before name after stop,
      names = before ++ name :: after ∧ LeadsTo nodes node before stop ∧
        nodes.find stop name = none := by
  induction names generalizing node with
  | nil => simp [descend]
  | cons name names ih =>
    unfold descend
    rw [List.foldlM_cons, Option.bind_eq_bind]
    cases hfind : nodes.find node name with
    | none =>
      simp only [Option.bind_none, true_iff]
      exact ⟨[], name, names, node, rfl, .here node, hfind⟩
    | some next =>
      rw [Option.bind_some]
      refine Iff.trans ih ?_
      constructor
      · rintro ⟨before, other, after, stop, rfl, hleads, hnone⟩
        exact ⟨name :: before, other, after, stop, rfl, .down hfind hleads, hnone⟩
      · rintro ⟨before, other, after, stop, heq, hleads, hnone⟩
        cases hleads with
        | here =>
          obtain ⟨rfl, rfl⟩ := List.cons.inj heq
          rw [hfind] at hnone
          cases hnone
        | down hfind' hrest =>
          rw [List.cons_append] at heq
          obtain ⟨rfl, rfl⟩ := List.cons.inj heq
          rw [hfind] at hfind'
          obtain rfl := Option.some.inj hfind'
          exact ⟨_, other, after, stop, rfl, hrest, hnone⟩

/-! ## The components of a text -/

theorem dropEmptyEnd_cons {name : List Char} {names : List (List Char)} (hnames : names ≠ [])
    (hend : ¬(name = [] ∧ names = [[]])) :
    dropEmptyEnd (name :: names) = name :: dropEmptyEnd names := by
  rw [dropEmptyEnd]
  · exact fun _ h => hnames h
  · exact fun h h' => hend ⟨h, h'⟩

theorem dropEmptyEnd_pair (name : List Char) : dropEmptyEnd [name, []] = dropEmptyEnd [name] := by
  cases name <;> rfl

theorem length_dropEmptyEnd_le (names : List (List Char)) :
    (dropEmptyEnd names).length ≤ names.length := by
  fun_induction dropEmptyEnd names <;> simp_all

/-- INTERNAL: without empty names nothing is dropped. -/
theorem dropEmptyEnd_eq_self {names : List (List Char)} (hnames : ∀ name ∈ names, name ≠ []) :
    dropEmptyEnd names = names := by
  induction names with
  | nil => rfl
  | cons name names ih =>
    have hname := hnames name List.mem_cons_self
    have hrest := ih fun other hother => hnames other (List.mem_cons_of_mem name hother)
    cases names with
    | nil =>
      obtain ⟨c, name, rfl⟩ := List.exists_cons_of_ne_nil hname
      rfl
    | cons next names => rw [dropEmptyEnd_cons (by simp) (by simp [hname]), hrest]

/-- INTERNAL: an empty component behind others is dropped. -/
theorem dropEmptyEnd_append {names : List (List Char)} (hnames : ∀ name ∈ names, name ≠ []) :
    dropEmptyEnd (names ++ [[]]) = names := by
  induction names with
  | nil => rfl
  | cons name names ih =>
    have hname := hnames name List.mem_cons_self
    have hrest := ih fun other hother => hnames other (List.mem_cons_of_mem name hother)
    rw [List.cons_append, dropEmptyEnd_cons (by simp) (by simp [hname]), hrest]

theorem splitOn_eq_empty_iff {text : List Char} : text.splitOn '/' = [[]] ↔ text = [] := by
  constructor
  · intro h
    have hjoin : ['/'].intercalate (text.splitOn '/') = text := List.intercalate_splitOn '/'
    rw [h] at hjoin
    exact hjoin.symm
  · rintro rfl
    rfl

theorem length_splitOn_le (text : List Char) : (text.splitOn '/').length ≤ text.length + 1 := by
  induction text using @segments_induction Char _ '/' with
  | last text hmem =>
    rw [List.splitOn_eq_singleton hmem]
    simp
  | next first rest hfirst ih =>
    rw [List.splitOn_append_cons_self_of_not_mem hfirst, List.length_append, List.length_cons,
      List.length_cons]
    omega

/-- INTERNAL: the iterator goes on to the next component of what remains.
SOURCE: vfs/vfs.cc:54-64 -/
theorem dropEmptyEnd_advance (it : SplitStringIterator) :
    dropEmptyEnd (it.advance.part :: it.advance.remaining.splitOn '/') =
      dropEmptyEnd (it.remaining.splitOn '/') := by
  unfold SplitStringIterator.advance
  by_cases hmem : '/' ∈ it.remaining
  · rw [if_pos hmem, splitOn_of_mem hmem]
  · rw [if_neg hmem, List.splitOn_eq_singleton hmem]
    exact dropEmptyEnd_pair it.remaining

/-- INTERNAL: **the loop follows the components**, where there is one turn for each of them and one
for the end.
SOURCE: vfs/vfs.cc:88-99 -/
theorem findParts_eq {fuel node : ℕ} {it : SplitStringIterator}
    (hfuel : (dropEmptyEnd (it.part :: it.remaining.splitOn '/')).length < fuel) :
    nodes.findParts fuel node it =
      .ok (descend nodes node (dropEmptyEnd (it.part :: it.remaining.splitOn '/'))) := by
  induction fuel generalizing node it with
  | zero => exact absurd hfuel (Nat.not_lt_zero _)
  | succ fuel ih =>
    unfold TreeNodes.findParts
    by_cases hend : it.part = [] ∧ it.remaining = []
    · have hatEnd : it.atEnd = true := by simp [SplitStringIterator.atEnd, hend]
      rw [if_pos hatEnd, hend.1, hend.2]
      rfl
    · have hatEnd : ¬it.atEnd = true := by simpa [SplitStringIterator.atEnd] using hend
      have hcons : dropEmptyEnd (it.part :: it.remaining.splitOn '/') =
          it.part :: dropEmptyEnd (it.remaining.splitOn '/') := by
        apply dropEmptyEnd_cons (List.splitOn_ne_nil _ _)
        rw [splitOn_eq_empty_iff]
        exact hend
      rw [hcons, List.length_cons] at hfuel
      rw [if_neg hatEnd, hcons, descend, List.foldlM_cons]
      cases hfind : nodes.find node it.part with
      | none => rfl
      | some next =>
        have hnext := @ih next it.advance
        rw [dropEmptyEnd_advance] at hnext
        exact hnext (by omega)

/-- INTERNAL: **`find_file` follows the components of any text**.
SOURCE: vfs/vfs.cc:40-99 -/
theorem findFile_eq (nodes : TreeNodes) (path : List Char) :
    nodes.findFile path = .ok (descend nodes 0 (components path)) := by
  have hadvance := dropEmptyEnd_advance ⟨[], path⟩
  have hlength := length_splitOn_le path
  have hle := length_dropEmptyEnd_le (path.splitOn '/')
  unfold TreeNodes.findFile SplitStringIterator.create
  rw [findParts_eq, hadvance, components]
  rw [hadvance]
  exact Nat.lt_of_le_of_lt hle (by omega)

theorem components_joined {names : List (List Char)} (hnames : ∀ name ∈ names, ComponentName name) :
    components (joined names) = names := by
  unfold components joined
  cases names with
  | nil => rfl
  | cons name names =>
    rw [List.splitOn_intercalate '/' (fun part hpart => (hnames part hpart).2) (by simp)]
    exact dropEmptyEnd_eq_self fun part hpart => (hnames part hpart).1

theorem components_joined_slash {names : List (List Char)}
    (hnames : ∀ name ∈ names, ComponentName name) :
    components (joined names ++ ['/']) = names := by
  unfold components joined
  cases names with
  | nil => rfl
  | cons name names =>
    rw [List.splitOn_append_cons_self,
      List.splitOn_intercalate '/' (fun part hpart => (hnames part hpart).2) (by simp)]
    exact dropEmptyEnd_append fun part hpart => (hnames part hpart).1

theorem followsNames {path : List Char} : FollowsNames nodes path (components path) where
  found node := by
    rw [findFile_eq, Except.ok.injEq, leadsTo_iff]
  missing := by
    rw [findFile_eq, Except.ok.injEq]
    exact descend_eq_none_iff

/-- INTERNAL: the iterator comes to its end.
SOURCE: vfs/vfs.cc:54-68 -/
theorem exists_atEnd (it : SplitStringIterator) :
    ∃ n, (SplitStringIterator.advance^[n] it).atEnd = true := by
  by_cases hmem : '/' ∈ it.remaining
  · have hshorter : it.advance.remaining.length < it.remaining.length := by
      obtain ⟨first, rest, heq, hfirst⟩ := List.eq_append_cons_of_mem hmem
      have hrun : ∀ c ∈ first, decide (c ≠ '/') = true := by
        intro c hc
        exact decide_eq_true fun h => hfirst (h ▸ hc)
      unfold SplitStringIterator.advance
      rw [if_pos hmem, heq, List.dropWhile_append_of_pos hrun]
      simp
      omega
    obtain ⟨n, hn⟩ := exists_atEnd it.advance
    exact ⟨n + 1, hn⟩
  · refine ⟨2, ?_⟩
    have hlast : it.advance = ⟨it.remaining, []⟩ := by
      rw [SplitStringIterator.advance, if_neg hmem]
    rw [Function.iterate_succ_apply, Function.iterate_one, hlast]
    rfl
termination_by it.remaining.length

/-- SOURCE: vfs/vfs.cc:40-99, vfs/vfs.hh:49-55 — **`find_file` follows names that are joined by
slashes**, with or without one more at the end, in any nodes: it returns the node to which they
lead from the root, or null when one of them finds nothing. The empty path is that of the root, and
every text is cut into finitely many parts. -/
theorem find_file_follows (nodes : TreeNodes) :
    (∀ names, (∀ name ∈ names, ComponentName name) →
      FollowsNames nodes (joined names) names ∧
        FollowsNames nodes (joined names ++ ['/']) names) ∧
    nodes.findFile [] = .ok (some 0) ∧
    ∀ str, ∃ n, (SplitStringIterator.advance^[n] (.create str)).atEnd = true := by
  refine ⟨?_, rfl, fun str => exists_atEnd _⟩
  intro names hnames
  constructor
  · have h := @followsNames nodes (joined names)
    rwa [components_joined hnames] at h
  · have h := @followsNames nodes (joined names ++ ['/'])
    rwa [components_joined_slash hnames] at h

/-- Two directories `d` with a file `a`, one in the other. -/
def twoDirectories : TreeNodes :=
  [⟨none, [], none, [1]⟩, ⟨some 0, ['d'], none, [2]⟩, ⟨some 1, ['a'], some 0, []⟩]

theorem find_file_follows_two :
    twoDirectories.findFile ['d', '/', 'a', '/'] = .ok (some 2) ∧
      twoDirectories.findFile ['d', '/', 'b'] = .ok none := by
  have hnames : ∀ name ∈ [['d'], ['a']], ComponentName name := by simp [ComponentName]
  have hmissing : ∀ name ∈ [['d'], ['b']], ComponentName name := by simp [ComponentName]
  have hdirectory : LeadsTo twoDirectories 0 [['d']] 1 := .down rfl (.here 1)
  have hfile : LeadsTo twoDirectories 0 [['d'], ['a']] 2 := .down rfl (.down rfl (.here 2))
  have hfollows := (find_file_follows twoDirectories).1
  constructor
  · exact ((hfollows _ hnames).2.found 2).mpr hfile
  · apply (hfollows _ hmissing).1.missing.mpr
    exact ⟨[['d']], ['b'], [], 1, rfl, hdirectory, rfl⟩

/-! ## Reading a file -/

/-- INTERNAL: reading a file that is found.
SOURCE: vfs/vfs.cc:101-110 -/
theorem readFile_of_found {nodes : TreeNodes} {path : List Char} {node : ℕ}
    (hfind : nodes.findFile path = .ok (some node)) (content : StorageContent) :
    nodes.readFile content path =
      (nodes.storageOf node).elim (.ok []) fun s => .ok (content s path) := by
  unfold TreeNodes.readFile
  rw [hfind]
  cases h : nodes.storageOf node <;> simp [bind, Except.bind, h]

/-- A host with one storage, a directory with a file `a`. -/
def oneFile : Host := fun path =>
  if path = ['x', '/'] then some [⟨['a'], .other⟩] else none

end Mccpp.Analysis
