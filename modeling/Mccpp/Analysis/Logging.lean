import Mathlib.Data.List.Nodup
import Mccpp.Interface.Logging
import Mccpp.Library.Segments

/-!
# Messages reach their readers

The text in front of each line has no line break, so the lines of a message are the lines of what is written. The
callbacks are the objects that are no copies, in the order in which they were made.
-/

set_option autoImplicit false

namespace Mccpp.Analysis

open Mccpp.Library Mccpp.Interface Mccpp.Model.Logger

/-! ## Lines -/

theorem writeContent_of_notMem {start content : List Char} (h : '\n' ∉ content) :
    writeContent start content = if content = [] then [] else start ++ content := by
  rw [writeContent]
  by_cases hcontent : content = []
  · rw [dif_pos hcontent, if_pos hcontent]
  · rw [dif_neg hcontent, if_neg hcontent, List.idxOf?_eq_none_iff.mpr h]

theorem writeContent_append {start line : List Char} (h : '\n' ∉ line) (rest : List Char) :
    writeContent start (line ++ '\n' :: rest) = start ++ line ++ '\n' :: writeContent start rest := by
  have hne : line ++ '\n' :: rest ≠ [] := List.append_ne_nil_of_right_ne_nil _ (List.cons_ne_nil _ _)
  have hrest : (line ++ '\n' :: rest).drop (line.length + 1) = rest := by
    rw [List.drop_append, List.drop_of_length_le (Nat.le_succ _), Nat.add_sub_cancel_left]
    rfl
  rw [writeContent, dif_neg hne, idxOf?_append_cons h]
  simp only [List.take_left, hrest]

/-- INTERNAL: **each line has the text in front of it**.
SOURCE: logger.cc:37-49 -/
theorem writeContent_eq (start content : List Char) :
    writeContent start content = ['\n'].intercalate (startLines start (content.splitOn '\n')) := by
  induction content using @segments_induction Char _ '\n' with
  | last text h =>
    rw [writeContent_of_notMem h, List.splitOn_eq_singleton h, startLines, List.intercalate_singleton]
  | next first rest h ih =>
    obtain ⟨line, lines, hsplit⟩ := List.exists_cons_of_ne_nil (List.splitOn_ne_nil '\n' rest)
    have hlines : startLines start (first :: line :: lines) = (start ++ first) :: startLines start (line :: lines) := rfl
    have hne : startLines start (line :: lines) ≠ [] := by
      cases lines with
      | nil => exact List.cons_ne_nil _ _
      | cons => exact List.cons_ne_nil _ _
    rw [writeContent_append h, List.splitOn_append_cons_self_of_not_mem h, ih, hsplit, hlines,
      List.intercalate_cons_of_ne_nil hne, List.append_assoc (start ++ first)]
    rfl

/-- INTERNAL: **a message is read from what is written**. -/
theorem readLines_writeContent {start : List Char} (hstart : '\n' ∉ start) (content : List Char) :
    readLines start.length (writeContent start content) = content := by
  induction content using @segments_induction Char _ '\n' with
  | last text h =>
    rw [writeContent_of_notMem h, readLines]
    split_ifs with hempty
    · rw [hempty, List.splitOn_nil, List.map_singleton, List.drop_nil, List.intercalate_singleton]
    · have hnot : '\n' ∉ start ++ text := by
        rw [List.mem_append, not_or]
        exact ⟨hstart, h⟩
      rw [List.splitOn_eq_singleton hnot, List.map_singleton, List.drop_left, List.intercalate_singleton]
  | next first rest h ih =>
    have hnot : '\n' ∉ start ++ first := by
      rw [List.mem_append, not_or]
      exact ⟨hstart, h⟩
    have hne : ((writeContent start rest).splitOn '\n').map (List.drop start.length) ≠ [] :=
      mt List.map_eq_nil_iff.mp (List.splitOn_ne_nil _ _)
    rw [readLines] at ih
    rw [writeContent_append h, readLines, List.splitOn_append_cons_self_of_not_mem hnot, List.map_cons,
      List.drop_left, List.intercalate_cons_of_ne_nil hne, ih, List.append_assoc]
    rfl

/-! ## Callbacks -/

theorem originals_append (objects : LoggerObjects) (this : ℕ) (copied : Bool) :
    originals (objects ++ [(this, copied)]) = originals objects ++ if copied = true then [] else [this] := by
  cases copied with
  | true => simp [originals]
  | false => simp [originals]

theorem originals_filter (objects : LoggerObjects) (this : ℕ) :
    originals (objects.filter fun object => object.1 ≠ this) = (originals objects).filter (· ≠ this) := by
  rw [originals, originals, List.filter_map, List.filter_filter, List.filter_filter]
  congr 1
  apply List.filter_congr
  intro object _
  exact Bool.and_comm _ _

theorem nodup_originals {objects : LoggerObjects} (h : (objects.map Prod.fst).Nodup) : (originals objects).Nodup :=
  h.sublist (List.Sublist.map _ List.filter_sublist)

/-- INTERNAL: a new object is at an address of its own. -/
theorem nodup_addresses_append {objects : LoggerObjects} {this : ℕ} (h : (objects.map Prod.fst).Nodup)
    (hnew : this ∉ objects.map Prod.fst) (copied : Bool) :
    ((objects ++ [(this, copied)]).map Prod.fst).Nodup := by
  rw [List.map_append, List.map_singleton, List.nodup_append_comm]
  exact List.nodup_cons.mpr ⟨hnew, h⟩

theorem mem_originals {objects : LoggerObjects} {this : ℕ} : this ∈ originals objects ↔ (this, false) ∈ objects := by
  simp [originals]

/-- What the logger has to do with the objects that there are. -/
structure LoggerSound (objects : LoggerObjects) (s : State) : Prop where
  callbacks : s.callbacks = originals objects
  addresses : (objects.map Prod.fst).Nodup

/-- INTERNAL: the assertion fails for a copy.
SOURCE: logger.cc:62-66 -/
theorem step_isSome_iff_keeps {objects : LoggerObjects} {s : State} {e : Event} (h : LoggerSound objects s)
    (hobjects : OnObjects objects e) :
    (step s e).isSome = true ↔ ∀ this, e = .destruct this → (this, true) ∉ objects := by
  cases e with
  | construct this => exact iff_of_true rfl fun _ h => by cases h
  | copy this => exact iff_of_true rfl fun _ h => by cases h
  | message name source message => exact iff_of_true rfl fun _ h => by cases h
  | destruct this =>
    have hcallback : this ∈ s.callbacks ↔ (this, false) ∈ objects := by rw [h.callbacks, mem_originals]
    rw [step]
    constructor
    · intro hsome other hother hcopy
      obtain rfl := Event.destruct.inj hother
      split_ifs at hsome with hmem
      · have hsame := List.inj_on_of_nodup_map h.addresses (hcallback.mp hmem) hcopy rfl
        cases hsame
      · cases hsome
    · intro hnot
      obtain ⟨⟨_, copied⟩, hmem, rfl⟩ := List.mem_map.mp hobjects
      have hcopied : copied = false := by
        cases copied with
        | true => exact absurd hmem (hnot _ rfl)
        | false => rfl
      rw [hcopied] at hmem
      rw [if_pos (hcallback.mpr hmem)]
      rfl

/-- INTERNAL: **one event**.
SOURCE: logger.cc:58-78 -/
theorem loggerSound_step {objects : LoggerObjects} {s s' : State} {e : Event} (h : LoggerSound objects s)
    (hobjects : OnObjects objects e) (hstep : step s e = some s') : LoggerSound (objectsAfter objects e) s' := by
  cases e with
  | construct this =>
    obtain rfl := Option.some.inj hstep
    refine ⟨?_, ?_⟩
    · rw [objectsAfter, originals_append, ← h.callbacks]
      rfl
    · exact nodup_addresses_append h.addresses hobjects _
  | copy this =>
    obtain rfl := Option.some.inj hstep
    refine ⟨?_, ?_⟩
    · rw [objectsAfter, originals_append, ← h.callbacks]
      exact (List.append_nil _).symm
    · exact nodup_addresses_append h.addresses hobjects _
  | destruct this =>
    rw [step] at hstep
    split_ifs at hstep with hmem
    obtain rfl := Option.some.inj hstep
    refine ⟨?_, ?_⟩
    · rw [objectsAfter, originals_filter, ← h.callbacks]
      have hnodup := nodup_originals h.addresses
      rw [← h.callbacks] at hnodup
      rw [hnodup.erase_eq_filter]
      apply List.filter_congr
      intro other _
      by_cases hother : other = this
      · simp [hother]
      · simp [hother]
    · exact h.addresses.sublist (List.Sublist.map _ List.filter_sublist)
  | message name source message =>
    obtain rfl := Option.some.inj hstep
    exact ⟨h.callbacks, h.addresses⟩

theorem told_cons (objects : LoggerObjects) (e : Event) (events : List Event) :
    told objects (e :: events) = told objects [e] ++ told (objectsAfter objects e) events := by
  cases e with
  | construct | copy | destruct => rfl
  | message name source message =>
    rw [told, told, told, List.append_nil]
    rfl

theorem writtenLog_cons (e : Event) (events : List Event) :
    writtenLog (e :: events) = writtenLog [e] ++ writtenLog events := by
  cases e with
  | construct | copy | destruct => rfl
  | message name source message => rw [writtenLog, writtenLog, writtenLog, List.append_nil]

/-- INTERNAL: what is written, and what callbacks are given.
SOURCE: logger.cc:72-78 -/
theorem outputs_step {objects : LoggerObjects} {s s' : State} {e : Event} (h : LoggerSound objects s)
    (hstep : step s e = some s') :
    s'.received = s.received ++ told objects [e] ∧ s'.clog = s.clog ++ writtenLog [e] := by
  cases e with
  | construct | copy =>
    obtain rfl := Option.some.inj hstep
    exact ⟨(List.append_nil _).symm, (List.append_nil _).symm⟩
  | destruct this =>
    rw [step] at hstep
    split_ifs at hstep with hmem
    obtain rfl := Option.some.inj hstep
    exact ⟨(List.append_nil _).symm, (List.append_nil _).symm⟩
  | message name source message =>
    obtain rfl := Option.some.inj hstep
    refine ⟨?_, ?_⟩
    · rw [told, told, List.append_nil, ← h.callbacks]
    · rw [writtenLog, writtenLog, List.append_nil, ← writeContent_eq]
      rfl

/-- INTERNAL: **a whole run**, from objects on that there are. -/
theorem logger_run {objects : LoggerObjects} {s : State} {events : List Event} (h : LoggerSound objects s)
    (hlawful : LawfulEvents objects events) :
    ((runActions step s events).isSome = true ↔ KeepsCopies objects events) ∧
      ∀ s', runActions step s events = some s' →
        s'.callbacks = originals (events.foldl objectsAfter objects) ∧
          s'.received = s.received ++ told objects events ∧ s'.clog = s.clog ++ writtenLog events := by
  induction events generalizing objects s with
  | nil =>
    refine ⟨iff_of_true rfl trivial, fun s' hs' => ?_⟩
    obtain rfl := Option.some.inj hs'
    exact ⟨h.callbacks, (List.append_nil _).symm, (List.append_nil _).symm⟩
  | cons e events ih =>
    obtain ⟨hobjects, hlawful⟩ := hlawful
    have hsome := step_isSome_iff_keeps h hobjects
    rw [runActions_cons]
    cases hstep : step s e with
    | none =>
      rw [hstep] at hsome
      refine ⟨iff_of_false Bool.false_ne_true fun hkeeps => ?_, fun _ hs' => by cases hs'⟩
      exact absurd (hsome.mpr hkeeps.1) Bool.false_ne_true
    | some t =>
      rw [hstep] at hsome
      have hkeeps := hsome.mp rfl
      obtain ⟨hiff, hends⟩ := ih (loggerSound_step h hobjects hstep) hlawful
      rw [Option.bind_some]
      refine ⟨hiff.trans (and_iff_right hkeeps).symm, fun s' hs' => ?_⟩
      obtain ⟨hcallbacks, hreceived, hclog⟩ := hends s' hs'
      refine ⟨hcallbacks, ?_, ?_⟩
      · rw [hreceived, (outputs_step h hstep).1, List.append_assoc, ← told_cons]
      · rw [hclog, (outputs_step h hstep).2, List.append_assoc, ← writtenLog_cons]

theorem notMem_lineStart {name : List Char} {source : Source} (hname : '\n' ∉ name) (hfile : '\n' ∉ source.file)
    (level : Level) : '\n' ∉ lineStart name source level := by
  have hchar : level.char ≠ '\n' := by
    cases level <;> decide
  have hline : '\n' ∉ Nat.toDigits 10 source.line := by
    intro hmem
    have hdigit : Char.isDigit '\n' = true := Nat.isDigit_of_mem_toDigits (by decide) (by decide) hmem
    exact absurd hdigit (by decide)
  simp only [lineStart, List.mem_cons, List.mem_append, not_or]
  exact ⟨hchar.symm, by decide, hname, by decide, hfile, by decide, hline, by decide, List.not_mem_nil⟩

/-- SOURCE: logger.cc:20-78, logger.hh:28-34 — **messages reach their readers**. Whatever callbacks are made, copied
and destructed and whatever is logged, an assertion fails exactly where a copy is destructed. Until then each message
is written with the same text in front of each of its lines, and given once to each of the callbacks that are no
copies, in the order in which they were made. Where the names of the thread and the file have no line break, the
message can be read from what is written. -/
theorem messages_reach_callbacks {events : List Event} (hlawful : LawfulEvents [] events) :
    ((runActions step State.init events).isSome = true ↔ KeepsCopies [] events) ∧
      (∀ s, runActions step State.init events = some s →
        s.callbacks = originals (events.foldl objectsAfter []) ∧ s.received = told [] events ∧
          s.clog = writtenLog events) ∧
      ∀ name (source : Source) level content, '\n' ∉ name → '\n' ∉ source.file →
        readLines (lineStart name source level).length (writeContent (lineStart name source level) content) =
          content := by
  have hinit : LoggerSound [] State.init := ⟨rfl, List.nodup_nil⟩
  obtain ⟨hiff, hends⟩ := logger_run hinit hlawful
  refine ⟨hiff, fun s hs => hends s hs, fun name source level content hname hfile => ?_⟩
  exact readLines_writeContent (notMem_lineStart hname hfile level) content

/-- A callback at `1` and a copy of it at `2`, and a message of two lines. -/
def copiedCallback : List Event :=
  [.construct 1, .copy 2, .message "main".toList ⟨[], "a.cc".toList, 7⟩ ⟨"x\ny".toList, .info⟩]

/-- The message is given to the callback and not to its copy, which cannot be destructed. -/
theorem messages_reach_callbacks_copied :
    (∃ s, runActions step State.init copiedCallback = some s ∧
      s.received = [(1, ⟨[], "a.cc".toList, 7⟩, ⟨"x\ny".toList, .info⟩)] ∧
      s.clog = "\x1b[97mI main a.cc:7 x\nI main a.cc:7 y\x1b[0m\n".toList) ∧
      (runActions step State.init (copiedCallback ++ [.destruct 2])).isSome = false := by
  have hone : 1 ∉ ([] : List ℕ) := List.not_mem_nil
  have htwo : 2 ∉ [1] := by decide
  have hthere : 2 ∈ [1, 2] := by decide
  have hlawful : LawfulEvents [] copiedCallback := ⟨hone, htwo, trivial, trivial⟩
  have hlawful' : LawfulEvents [] (copiedCallback ++ [.destruct 2]) := ⟨hone, htwo, trivial, hthere, trivial⟩
  constructor
  · obtain ⟨_, hends, _⟩ := messages_reach_callbacks hlawful
    obtain ⟨_, hreceived, hclog⟩ := hends _ rfl
    exact ⟨_, rfl, hreceived, hclog⟩
  · obtain ⟨hiff, _, _⟩ := messages_reach_callbacks hlawful'
    rw [Bool.eq_false_iff]
    exact fun hsome => (hiff.mp hsome).2.2.2.1 2 rfl (by decide)

end Mccpp.Analysis
