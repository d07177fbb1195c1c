import Mccpp.Interface.Regeneration

/-!
# When outputs are of the present files

While the command runs, something is out of date, since files only get newer. So the outputs that it writes do not
count before the timestamp is touched, and then they do as long as no source has been changed since the command has
read it. What comes late is never noticed.
-/

set_option autoImplicit false

namespace Mccpp.Analysis

open Mccpp.Library Mccpp.Interface Mccpp.Model.Regenerate

variable {C : Type} {sourceFiles reads : List String}

/-! ## Arguments -/

/-- INTERNAL: the `--` that counts is the first one. -/
theorem parseArgs_append {files : List String} (h : "--" ∉ files) (command : List String) :
    parseArgs (files ++ "--" :: command) =
      files.getLast?.map fun timestampFile => ⟨files.dropLast, timestampFile, command⟩ := by
  have hfront : ∀ file ∈ files, decide (file ≠ "--") = true := by
    intro file hfile
    exact decide_eq_true fun heq => h (heq ▸ hfile)
  have htake : (files ++ "--" :: command).takeWhile (· ≠ "--") = files := by
    rw [List.takeWhile_append_of_pos hfront, List.takeWhile_cons_of_neg (by simp), List.append_nil]
  have hdrop : (files ++ "--" :: command).dropWhile (· ≠ "--") = "--" :: command := by
    rw [List.dropWhile_append_of_pos hfront, List.dropWhile_cons_of_neg (by simp)]
  have hmem : "--" ∈ files ++ "--" :: command := List.mem_append_right _ List.mem_cons_self
  rw [parseArgs, if_pos hmem, htake, hdrop, List.tail_cons]

/-- INTERNAL: **which command lines are accepted**.
SOURCE: generator/regenerate.py:26-34, 48-53 -/
theorem mainArgs_eq_some_iff {argv : List String} {args : Args} :
    mainArgs argv = some args ↔
      argv = args.sourceFiles ++ args.timestampFile :: "--" :: args.command ∧
        "--" ∉ args.sourceFiles ∧ isTimestampName (basename args.timestampFile.toList) = true := by
  rw [mainArgs, Option.filter_eq_some_iff]
  constructor
  · rintro ⟨hargs, hname⟩
    by_cases hmem : "--" ∈ argv
    · obtain ⟨files, command, rfl, hfiles⟩ := List.eq_append_cons_of_mem hmem
      rw [parseArgs_append hfiles, Option.map_eq_some_iff] at hargs
      obtain ⟨timestampFile, hlast, rfl⟩ := hargs
      have hsplit : files.dropLast ++ [timestampFile] = files := List.dropLast_append_getLast? _ hlast
      refine ⟨?_, fun h => hfiles (List.dropLast_subset files h), hname⟩
      calc files ++ "--" :: command
          = (files.dropLast ++ [timestampFile]) ++ "--" :: command := by rw [hsplit]
        _ = files.dropLast ++ timestampFile :: "--" :: command := by
          rw [List.append_assoc, List.singleton_append]
    · rw [parseArgs, if_neg hmem] at hargs
      cases hargs
  · rintro ⟨rfl, hsources, hname⟩
    refine ⟨?_, hname⟩
    -- The name of the timestamp file is not `--`, since it passes the check.
    have htimestamp : args.timestampFile ≠ "--" := by
      intro heq
      rw [heq] at hname
      exact absurd hname (by decide)
    have hfiles : "--" ∉ args.sourceFiles ++ [args.timestampFile] := by
      rw [List.mem_append, List.mem_singleton]
      rintro (h | h)
      · exact hsources h
      · exact htimestamp h.symm
    have hcall := parseArgs_append hfiles args.command
    rw [List.append_assoc, List.singleton_append, List.getLast?_concat, List.dropLast_concat] at hcall
    exact hcall

/-! ## The disk -/

/-- No file and no timestamp is of the future. -/
structure OfThePast (d : Disk C) : Prop where
  files : ∀ file, d.mtime file ≤ d.now
  timestamp : ∀ timestamp, d.timestamp = some timestamp → timestamp ≤ d.now

theorem ofThePast_of_untouched {s : State C} (h : Untouched s) : OfThePast s.disk := by
  refine ⟨h.past, fun timestamp htimestamp => ?_⟩
  rw [h.timestamp] at htimestamp
  cases htimestamp

theorem ofThePast_write {d : Disk C} (h : OfThePast d) (file : String) (content : C) :
    OfThePast (d.write file content) := by
  refine ⟨fun other => ?_, h.timestamp⟩
  by_cases hother : other = file
  · simp [Disk.write, hother]
  · simpa [Disk.write, hother] using h.files other

theorem ofThePast_touched {d : Disk C} (h : OfThePast d) (outputs : Option (List (String × C))) :
    OfThePast { d with outputs := outputs, timestamp := some d.now } := by
  refine ⟨h.files, fun timestamp htimestamp => ?_⟩
  obtain rfl := Option.some.inj htimestamp
  exact le_rfl

/-- INTERNAL: a file that is newer than the timestamp stays newer. -/
theorem outOfDate_write {d : Disk C} (hpast : OfThePast d) (h : OutOfDate sourceFiles d) (file : String)
    (content : C) : OutOfDate sourceFiles (d.write file content) := by
  intro timestamp htimestamp
  obtain ⟨newer, hmem, hlt⟩ := h timestamp htimestamp
  refine ⟨newer, hmem, ?_⟩
  by_cases hnewer : newer = file
  · simpa [Disk.write, hnewer] using lt_of_lt_of_le hlt (hpast.files newer)
  · simpa [Disk.write, hnewer] using hlt

/-- INTERNAL: an edit of a source is noticed, unless it is of the tick of the timestamp. -/
theorem outOfDate_write_of_mem {d : Disk C} (hpast : OfThePast d) {file : String} (hmem : file ∈ sourceFiles)
    (hnow : d.timestamp ≠ some d.now) (content : C) : OutOfDate sourceFiles (d.write file content) := by
  intro timestamp htimestamp
  refine ⟨file, hmem, ?_⟩
  have hle := hpast.timestamp timestamp htimestamp
  have hne : timestamp ≠ d.now := by
    rintro rfl
    exact hnow htimestamp
  simpa [Disk.write] using lt_of_le_of_ne hle hne

theorem outOfDate_write_iff {d : Disk C} {file : String} (hnot : file ∉ sourceFiles) (content : C) :
    OutOfDate sourceFiles (d.write file content) ↔ OutOfDate sourceFiles d := by
  have hsame : ∀ other ∈ sourceFiles, (d.write file content).mtime other = d.mtime other := by
    intro other hother
    have hne : other ≠ file := fun h => hnot (h ▸ hother)
    simp [Disk.write, hne]
  unfold OutOfDate
  apply forall_congr'
  intro timestamp
  apply imp_congr_right
  intro _
  constructor
  · rintro ⟨newer, hnewer, hlt⟩
    rw [hsame newer hnewer] at hlt
    exact ⟨newer, hnewer, hlt⟩
  · rintro ⟨newer, hnewer, hlt⟩
    refine ⟨newer, hnewer, ?_⟩
    rwa [hsame newer hnewer]

theorem not_outOfDate_of_now {d : Disk C} (hpast : OfThePast d) (h : d.timestamp = some d.now) :
    ¬OutOfDate sourceFiles d := by
  intro hout
  obtain ⟨file, _, hlt⟩ := hout _ h
  exact absurd (hpast.files file) (Nat.not_le.mpr hlt)

/-- INTERNAL: **what an edit takes away**: the contents that were read of the file, if it is a source. -/
theorem current_write_iff {d : Disk C} {read : List (String × C)} (h : Current sourceFiles d read) (file : String)
    (content : C) :
    Current sourceFiles (d.write file content) read ↔
      ¬(file ∈ sourceFiles ∧ file ∈ read.map Prod.fst ∧ content ≠ d.content file) := by
  constructor
  · rintro hafter ⟨hmem, hread, hne⟩
    obtain ⟨⟨_, before⟩, hentry, rfl⟩ := List.mem_map.mp hread
    have hbefore := h _ hmem before hentry
    have hsame := hafter _ hmem before hentry
    simp only [Disk.write, if_true] at hsame
    exact hne (hsame.symm.trans hbefore)
  · intro hnot other hmem before hentry
    by_cases hother : other = file
    · subst hother
      have hread : other ∈ read.map Prod.fst := List.mem_map.mpr ⟨_, hentry, rfl⟩
      by_contra hne
      refine hnot ⟨hmem, hread, fun hcontent => hne ?_⟩
      simp only [Disk.write, if_true]
      rw [h _ hmem before hentry, hcontent]
    · simpa [Disk.write, hother] using h other hmem before hentry

theorem upToDate_write_iff {d : Disk C} (h : UpToDate sourceFiles reads d) (file : String) (content : C) :
    UpToDate sourceFiles reads (d.write file content) ↔
      ¬(file ∈ sourceFiles ∧ file ∈ reads ∧ content ≠ d.content file) := by
  obtain ⟨read, houtputs, rfl, hcurrent⟩ := h
  rw [← current_write_iff hcurrent]
  constructor
  · rintro ⟨read', houtputs', _, hcurrent'⟩
    obtain rfl := Option.some.inj (houtputs.symm.trans houtputs')
    exact hcurrent'
  · exact fun hcurrent' => ⟨read, houtputs, rfl, hcurrent'⟩

theorem upToDate_of_outputs {d : Disk C}
    (h : d.outputs = some (reads.map fun file => (file, d.content file))) : UpToDate sourceFiles reads d := by
  refine ⟨_, h, ?_, fun file _ content hentry => ?_⟩
  · rw [List.map_map]
    exact List.map_id reads
  · obtain ⟨other, _, hentry⟩ := List.mem_map.mp hentry
    obtain ⟨rfl, rfl⟩ := Prod.mk.inj hentry
    rfl

/-- INTERNAL: where all that is read is listed, the present files say what the outputs are. -/
theorem upToDate_iff_of_subset {d : Disk C} (hsub : reads ⊆ sourceFiles) :
    UpToDate sourceFiles reads d ↔ d.outputs = some (reads.map fun file => (file, d.content file)) := by
  constructor
  · rintro ⟨read, houtputs, rfl, hcurrent⟩
    rw [houtputs, Option.some.injEq, List.map_map]
    refine (List.map_id read).symm.trans (List.map_congr_left fun entry hentry => ?_)
    have hmem := hsub (List.mem_map_of_mem hentry)
    exact Prod.ext rfl (hcurrent entry.1 hmem entry.2 hentry)
  · exact upToDate_of_outputs

/-! ## Steps -/

/-- What the events do, one constructor for each. -/
inductive Does (sourceFiles reads : List String) (s : State C) : Event C → State C → Prop where
  | edit (file : String) (content : C) :
      Does sourceFiles reads s (.edit file content) { s with disk := s.disk.write file content }
  | tick : Does sourceFiles reads s .tick { s with disk := { s.disk with now := s.disk.now + 1 } }
  | removeTimestamp :
      Does sourceFiles reads s .removeTimestamp { s with disk := { s.disk with timestamp := none } }
  | noTimestamp (hidle : s.phase = .idle) (hnone : s.disk.timestamp = none) :
      Does sourceFiles reads s .main (s.runCommand reads)
  | look {timestamp : ℕ} (hidle : s.phase = .idle) (htimestamp : s.disk.timestamp = some timestamp) :
      Does sourceFiles reads s .main { s with phase := .looking timestamp sourceFiles }
  | upToDate {timestamp : ℕ} (hphase : s.phase = .looking timestamp []) :
      Does sourceFiles reads s .next { s with phase := .idle }
  | newer {timestamp : ℕ} {file : String} {rest : List String}
      (hphase : s.phase = .looking timestamp (file :: rest)) (hlt : timestamp < s.disk.mtime file) :
      Does sourceFiles reads s .next (s.runCommand reads)
  | older {timestamp : ℕ} {file : String} {rest : List String}
      (hphase : s.phase = .looking timestamp (file :: rest)) (hle : s.disk.mtime file ≤ timestamp) :
      Does sourceFiles reads s .next { s with phase := .looking timestamp rest }
  | read {before : List (String × C)} {file : String} {rest : List String}
      (hphase : s.phase = .command before (file :: rest)) :
      Does sourceFiles reads s .next { s with phase := .command (before ++ [(file, s.disk.content file)]) rest }
  | succeed {before : List (String × C)} (hphase : s.phase = .command before []) :
      Does sourceFiles reads s .next ⟨{ s.disk with outputs := some before }, .touching⟩
  | touch (hphase : s.phase = .touching) :
      Does sourceFiles reads s .next ⟨{ s.disk with timestamp := some s.disk.now }, .idle⟩
  | fail (hphase : s.phase ≠ .idle) : Does sourceFiles reads s .fail { s with phase := .idle }

/-- INTERNAL: **what a step can do**.
SOURCE: generator/regenerate.py:38-56 -/
theorem does_of_step {s s' : State C} {e : Event C} (h : step sourceFiles reads s e = some s') :
    Does sourceFiles reads s e s' := by
  obtain ⟨disk, phase⟩ := s
  cases e with
  | edit file content =>
    obtain rfl := Option.some.inj h
    exact .edit file content
  | tick =>
    obtain rfl := Option.some.inj h
    exact .tick
  | removeTimestamp =>
    obtain rfl := Option.some.inj h
    exact .removeTimestamp
  | main =>
    cases phase with
    | idle =>
      cases htimestamp : disk.timestamp with
      | none =>
        simp only [step, htimestamp, Option.some.injEq] at h
        subst h
        exact .noTimestamp rfl htimestamp
      | some timestamp =>
        simp only [step, htimestamp, Option.some.injEq] at h
        subst h
        exact .look rfl htimestamp
    | looking | command | touching => cases h
  | next =>
    cases phase with
    | idle => cases h
    | looking timestamp rest =>
      cases rest with
      | nil =>
        obtain rfl := Option.some.inj h
        exact .upToDate rfl
      | cons file rest =>
        simp only [step, State.next, gt_iff_lt] at h
        split_ifs at h with hlt
        · obtain rfl := Option.some.inj h
          exact .newer rfl hlt
        · obtain rfl := Option.some.inj h
          exact .older rfl (Nat.not_lt.mp hlt)
    | command before rest =>
      cases rest with
      | nil =>
        obtain rfl := Option.some.inj h
        exact .succeed rfl
      | cons file rest =>
        obtain rfl := Option.some.inj h
        exact .read rfl
    | touching =>
      obtain rfl := Option.some.inj h
      exact .touch rfl
  | fail =>
    cases phase with
    | idle => cases h
    | looking | command | touching =>
      obtain rfl := Option.some.inj h
      exact .fail nofun

/-- What holds whatever comes late: while the command is running, something is out of date. -/
structure ScriptInvariant (sourceFiles reads : List String) (s : State C) : Prop where
  past : OfThePast s.disk
  looking : ∀ timestamp rest, s.phase = .looking timestamp rest →
    (∀ other, s.disk.timestamp = some other → other = timestamp) ∧ ∀ file ∈ rest, file ∈ sourceFiles
  command : ∀ read rest, s.phase = .command read rest →
    OutOfDate sourceFiles s.disk ∧ read.map Prod.fst ++ rest = reads
  touching : s.phase = .touching →
    OutOfDate sourceFiles s.disk ∧ ∃ read, s.disk.outputs = some read ∧ read.map Prod.fst = reads

theorem scriptInvariant_of_untouched {s : State C} (h : Untouched s) : ScriptInvariant sourceFiles reads s where
  past := ofThePast_of_untouched h
  looking _ _ hphase := by
    rw [h.idle] at hphase
    cases hphase
  command _ _ hphase := by
    rw [h.idle] at hphase
    cases hphase
  touching hphase := by
    rw [h.idle] at hphase
    cases hphase

/-- INTERNAL: nothing is known of a script that is not running. -/
theorem scriptInvariant_idle {d : Disk C} (hpast : OfThePast d) : ScriptInvariant sourceFiles reads ⟨d, .idle⟩ where
  past := hpast
  looking _ _ hphase := nomatch hphase
  command _ _ hphase := nomatch hphase
  touching hphase := nomatch hphase

theorem scriptInvariant_runCommand {s : State C} (hpast : OfThePast s.disk) (hout : OutOfDate sourceFiles s.disk) :
    ScriptInvariant sourceFiles reads (s.runCommand reads) where
  past := ⟨hpast.files, hpast.timestamp⟩
  looking _ _ hphase := nomatch hphase
  command read rest hphase := by
    cases hphase
    exact ⟨hout, rfl⟩
  touching hphase := nomatch hphase

/-- INTERNAL: **a step keeps the invariant**. -/
theorem scriptInvariant_step {s s' : State C} {e : Event C} (h : ScriptInvariant sourceFiles reads s)
    (hstep : step sourceFiles reads s e = some s') : ScriptInvariant sourceFiles reads s' := by
  cases does_of_step hstep with
  | edit file content =>
    refine ⟨ofThePast_write h.past file content, h.looking, fun read rest hphase => ?_, fun hphase => ?_⟩
    · obtain ⟨hout, hreads⟩ := h.command read rest hphase
      exact ⟨outOfDate_write h.past hout file content, hreads⟩
    · obtain ⟨hout, houtputs⟩ := h.touching hphase
      exact ⟨outOfDate_write h.past hout file content, houtputs⟩
  | tick =>
    refine ⟨⟨fun file => ?_, fun timestamp htimestamp => ?_⟩, h.looking, h.command, h.touching⟩
    · exact le_trans (h.past.files file) (Nat.le_succ _)
    · exact le_trans (h.past.timestamp timestamp htimestamp) (Nat.le_succ _)
  | removeTimestamp =>
    have hnone : OutOfDate sourceFiles { s.disk with timestamp := none } := nofun
    refine ⟨⟨h.past.files, nofun⟩, fun timestamp rest hphase => ⟨nofun, (h.looking timestamp rest hphase).2⟩,
      fun read rest hphase => ⟨hnone, (h.command read rest hphase).2⟩,
      fun hphase => ⟨hnone, (h.touching hphase).2⟩⟩
  | noTimestamp hidle hnone =>
    refine scriptInvariant_runCommand h.past fun timestamp htimestamp => ?_
    rw [hnone] at htimestamp
    cases htimestamp
  | look hidle htimestamp =>
    refine ⟨h.past, fun timestamp rest hphase => ?_, nofun, nofun⟩
    cases hphase
    refine ⟨fun other hother => ?_, fun _ hfile => hfile⟩
    exact Option.some.inj (hother.symm.trans htimestamp)
  | upToDate hphase => exact scriptInvariant_idle h.past
  | newer hphase hlt =>
    obtain ⟨hsame, hmem⟩ := h.looking _ _ hphase
    refine scriptInvariant_runCommand h.past fun timestamp htimestamp => ⟨_, hmem _ List.mem_cons_self, ?_⟩
    rwa [hsame timestamp htimestamp]
  | older hphase hle =>
    obtain ⟨hsame, hmem⟩ := h.looking _ _ hphase
    refine ⟨h.past, fun timestamp rest hphase' => ?_, nofun, nofun⟩
    cases hphase'
    exact ⟨hsame, fun file hfile => hmem file (List.mem_cons_of_mem _ hfile)⟩
  | read hphase =>
    obtain ⟨hout, hreads⟩ := h.command _ _ hphase
    refine ⟨h.past, nofun, fun read rest hphase' => ?_, nofun⟩
    cases hphase'
    refine ⟨hout, ?_⟩
    rw [List.map_append, List.append_assoc]
    exact hreads
  | succeed hphase =>
    obtain ⟨hout, hreads⟩ := h.command _ _ hphase
    rw [List.append_nil] at hreads
    exact ⟨⟨h.past.files, h.past.timestamp⟩, nofun, nofun, fun _ => ⟨hout, _, rfl, hreads⟩⟩
  | touch hphase => exact scriptInvariant_idle (ofThePast_touched h.past _)
  | fail hphase => exact scriptInvariant_idle h.past

/-! ## True to the files -/

/-- INTERNAL: an edit while the command is not running.
SOURCE: generator/regenerate.py:38-46 -/
theorem upToDate_edit_iff {d : Disk C} (hpast : OfThePast d)
    (hin : ¬OutOfDate sourceFiles d → UpToDate sourceFiles reads d) (file : String) (content : C) :
    (¬OutOfDate sourceFiles (d.write file content) → UpToDate sourceFiles reads (d.write file content)) ↔
      ¬(file ∈ sourceFiles ∧ (file ∈ reads ∧ d.timestamp = some d.now) ∧ content ≠ d.content file) := by
  by_cases hmem : file ∈ sourceFiles
  · by_cases hnow : d.timestamp = some d.now
    · have hbefore := hin (not_outOfDate_of_now hpast hnow)
      have hafter : ¬OutOfDate sourceFiles (d.write file content) :=
        not_outOfDate_of_now (ofThePast_write hpast file content) hnow
      rw [imp_iff_right hafter, upToDate_write_iff hbefore]
      simp only [hmem, hnow, and_true]
    · have hout := outOfDate_write_of_mem hpast hmem hnow content
      apply iff_of_true
      · exact fun h => absurd hout h
      · exact fun h => hnow h.2.1.2
  · apply iff_of_true
    · intro hout
      rw [outOfDate_write_iff hmem] at hout
      exact (upToDate_write_iff (hin hout) file content).mpr fun h => hmem h.1
    · exact fun h => hmem h.1

/-- INTERNAL: **a step leaves all true to the files, unless it is a late edit**. -/
theorem trueToFiles_step_iff {s s' : State C} {e : Event C} (h : ScriptInvariant sourceFiles reads s)
    (hin : TrueToFiles sourceFiles reads s) (hstep : step sourceFiles reads s e = some s') :
    TrueToFiles sourceFiles reads s' ↔ ¬Late sourceFiles reads s e := by
  have hpast := h.past
  obtain ⟨disk, phase⟩ := s
  cases does_of_step hstep with
  | edit file content =>
    cases phase with
    | idle => exact upToDate_edit_iff hpast hin file content
    | looking timestamp rest => exact upToDate_edit_iff hpast hin file content
    | command read rest => exact current_write_iff hin file content
    | touching => exact upToDate_write_iff hin file content
  | tick =>
    refine iff_of_true ?_ id
    cases phase <;> exact hin
  | removeTimestamp =>
    refine iff_of_true ?_ id
    have hnone : OutOfDate sourceFiles { disk with timestamp := none } := nofun
    cases phase with
    | idle => exact fun h => absurd hnone h
    | looking timestamp rest => exact fun h => absurd hnone h
    | command read rest => exact hin
    | touching => exact hin
  | noTimestamp hidle hnone => exact iff_of_true nofun id
  | look hidle htimestamp =>
    obtain rfl := hidle
    exact iff_of_true hin id
  | upToDate hphase =>
    obtain rfl := hphase
    exact iff_of_true hin id
  | newer hphase hlt => exact iff_of_true nofun id
  | older hphase hle =>
    obtain rfl := hphase
    exact iff_of_true hin id
  | @read before file rest hphase =>
    obtain rfl := hphase
    refine iff_of_true ?_ id
    intro other hmem content hentry
    rcases List.mem_append.mp hentry with hentry | hentry
    · exact hin other hmem content hentry
    · obtain ⟨rfl, rfl⟩ := Prod.mk.inj (List.mem_singleton.mp hentry)
      rfl
  | @succeed before hphase =>
    obtain rfl := hphase
    obtain ⟨_, hreads⟩ := h.command before [] rfl
    rw [List.append_nil] at hreads
    exact iff_of_true ⟨before, rfl, hreads, hin⟩ id
  | touch hphase =>
    obtain rfl := hphase
    exact iff_of_true (fun _ => hin) id
  | fail hphase =>
    -- A command that does not get as far as the timestamp leaves something out of date.
    refine iff_of_true ?_ id
    cases phase with
    | idle => exact absurd rfl hphase
    | looking timestamp rest => exact hin
    | command read rest => exact fun hout => absurd (h.command read rest rfl).1 hout
    | touching => exact fun hout => absurd (h.touching rfl).1 hout

/-! ## The script alone -/

/-- INTERNAL: the command reads what there is, and then the timestamp is touched. -/
theorem goesOn_command (d : Disk C) (read : List (String × C)) (rest : List String) :
    Relation.ReflTransGen (GoesOn sourceFiles reads) ⟨d, .command read rest⟩
      ⟨{ d with
          outputs := some (read ++ rest.map fun file => (file, d.content file))
          timestamp := some d.now }, .idle⟩ := by
  induction rest generalizing read with
  | nil =>
    rw [List.map_nil, List.append_nil]
    exact .head rfl (.single rfl)
  | cons file rest ih =>
    have hrest := ih (read ++ [(file, d.content file)])
    rw [List.append_assoc] at hrest
    exact .head rfl hrest

/-- INTERNAL: the script looks at the sources until it finds one that is newer.
SOURCE: generator/regenerate.py:42-46 -/
theorem goesOn_looking (d : Disk C) (timestamp : ℕ) (rest : List String) :
    (∀ file ∈ rest, d.mtime file ≤ timestamp) ∧
        Relation.ReflTransGen (GoesOn sourceFiles reads) ⟨d, .looking timestamp rest⟩ ⟨d, .idle⟩ ∨
      Relation.ReflTransGen (GoesOn sourceFiles reads) ⟨d, .looking timestamp rest⟩
        ⟨{ d with outputs := none }, .command [] reads⟩ := by
  induction rest with
  | nil => exact Or.inl ⟨List.forall_mem_nil _, .single rfl⟩
  | cons file rest ih =>
    by_cases hlt : timestamp < d.mtime file
    · exact Or.inr (.single (if_pos hlt))
    · have hnext : GoesOn sourceFiles reads ⟨d, .looking timestamp (file :: rest)⟩ ⟨d, .looking timestamp rest⟩ :=
        if_neg hlt
      rcases ih with ⟨hall, hends⟩ | hends
      · exact Or.inl ⟨List.forall_mem_cons.mpr ⟨Nat.not_lt.mp hlt, hall⟩, .head hnext hends⟩
      · exact Or.inr (.head hnext hends)

/-- INTERNAL: what the command leaves when nobody disturbs it. -/
theorem generated {d : Disk C} (hpast : OfThePast d) :
    ¬OutOfDate sourceFiles { d with
        outputs := some (reads.map fun file => (file, d.content file)), timestamp := some d.now } ∧
      UpToDate sourceFiles reads { d with
        outputs := some (reads.map fun file => (file, d.content file)), timestamp := some d.now } := by
  constructor
  · exact not_outOfDate_of_now (ofThePast_touched hpast _) rfl
  · exact upToDate_of_outputs rfl

/-- INTERNAL: **a call that is left alone**. -/
theorem regenerates {s : State C} (h : ScriptInvariant sourceFiles reads s) (hidle : s.phase = .idle)
    (hin : TrueToFiles sourceFiles reads s) : Regenerates sourceFiles reads s := by
  have hpast := h.past
  obtain ⟨d, phase⟩ := s
  obtain rfl := hidle
  have hgenerated := @generated C sourceFiles reads d hpast
  have hcommand := @goesOn_command C sourceFiles reads { d with outputs := none } [] reads
  cases htimestamp : d.timestamp with
  | none =>
    refine ⟨_, _, ?_, hcommand, rfl, rfl, hgenerated⟩
    simp only [step, htimestamp, State.runCommand]
  | some timestamp =>
    have hcalled : step sourceFiles reads ⟨d, .idle⟩ .main = some ⟨d, .looking timestamp sourceFiles⟩ := by
      simp only [step, htimestamp]
    rcases goesOn_looking d timestamp sourceFiles with ⟨hall, hends⟩ | hends
    · have hnot : ¬OutOfDate sourceFiles d := by
        intro hout
        obtain ⟨file, hmem, hlt⟩ := hout timestamp htimestamp
        exact absurd (hall file hmem) (Nat.not_le.mpr hlt)
      exact ⟨_, _, hcalled, hends, rfl, rfl, hnot, hin hnot⟩
    · exact ⟨_, _, hcalled, hends.trans hcommand, rfl, rfl, hgenerated⟩

/-! ## What is not noticed -/

/-- Nothing has been generated again: the outputs are these, and the script has found nothing out of date. -/
structure Unnoticed (sourceFiles : List String) (outputs : Option (List (String × C))) (s : State C) : Prop where
  outputs : s.disk.outputs = outputs
  notOutOfDate : ¬OutOfDate sourceFiles s.disk
  phase : s.phase = .idle ∨
    ∃ timestamp rest, s.phase = .looking timestamp rest ∧ s.disk.timestamp = some timestamp ∧
      ∀ file ∈ rest, file ∈ sourceFiles

theorem exists_timestamp {d : Disk C} (h : ¬OutOfDate sourceFiles d) :
    ∃ timestamp, d.timestamp = some timestamp ∧ ∀ file ∈ sourceFiles, d.mtime file ≤ timestamp := by
  unfold OutOfDate at h
  push Not at h
  exact h

/-- INTERNAL: **as long as no source is edited, nothing is generated**. -/
theorem unnoticed_step {outputs : Option (List (String × C))} {s s' : State C} {e : Event C}
    (h : Unnoticed sourceFiles outputs s) (hleaves : LeavesSources sourceFiles e)
    (hstep : step sourceFiles reads s e = some s') : Unnoticed sourceFiles outputs s' := by
  obtain ⟨timestamp, htimestamp, hall⟩ := exists_timestamp h.notOutOfDate
  cases does_of_step hstep with
  | edit file content =>
    refine ⟨h.outputs, fun hout => h.notOutOfDate ?_, h.phase⟩
    exact (outOfDate_write_iff hleaves content).mp hout
  | tick => exact ⟨h.outputs, h.notOutOfDate, h.phase⟩
  | removeTimestamp => exact hleaves.elim
  | noTimestamp hidle hnone =>
    rw [hnone] at htimestamp
    cases htimestamp
  | look hidle hsome =>
    exact ⟨h.outputs, h.notOutOfDate, Or.inr ⟨_, _, rfl, hsome, fun _ hfile => hfile⟩⟩
  | upToDate hphase => exact ⟨h.outputs, h.notOutOfDate, Or.inl rfl⟩
  | newer hphase hlt =>
    rcases h.phase with hidle | ⟨other, rest, hlooking, hother, hmem⟩
    · rw [hidle] at hphase
      cases hphase
    · rw [hphase] at hlooking
      cases hlooking
      obtain rfl := Option.some.inj (hother.symm.trans htimestamp)
      exact absurd (hall _ (hmem _ List.mem_cons_self)) (Nat.not_le.mpr hlt)
  | older hphase hle =>
    rcases h.phase with hidle | ⟨other, rest, hlooking, hother, hmem⟩
    · rw [hidle] at hphase
      cases hphase
    · rw [hphase] at hlooking
      cases hlooking
      exact ⟨h.outputs, h.notOutOfDate,
        Or.inr ⟨_, _, rfl, hother, fun file hfile => hmem file (List.mem_cons_of_mem _ hfile)⟩⟩
  | read hphase | succeed hphase | touch hphase =>
    rcases h.phase with hidle | ⟨_, _, hlooking, _⟩
    · rw [hidle] at hphase
      cases hphase
    · rw [hlooking] at hphase
      cases hphase
  | fail hphase => exact ⟨h.outputs, h.notOutOfDate, Or.inl rfl⟩

theorem unnoticed_run {outputs : Option (List (String × C))} {s s' : State C} {events : List (Event C)}
    (h : Unnoticed sourceFiles outputs s) (hleaves : ∀ e ∈ events, LeavesSources sourceFiles e)
    (hrun : runActions (step sourceFiles reads) s events = some s') : Unnoticed sourceFiles outputs s' := by
  induction events generalizing s with
  | nil =>
    rw [runActions_nil, Option.some.injEq] at hrun
    exact hrun ▸ h
  | cons e events ih =>
    rw [runActions_cons, Option.bind_eq_some_iff] at hrun
    obtain ⟨t, hstep, hrest⟩ := hrun
    have hnext := unnoticed_step h (hleaves e List.mem_cons_self) hstep
    exact ih hnext (fun e he => hleaves e (List.mem_cons_of_mem _ he)) hrest

/-! ## All runs -/

theorem trueToFiles_of_untouched {s : State C} (h : Untouched s) : TrueToFiles sourceFiles reads s := by
  have htimestamp := h.timestamp
  have hidle := h.idle
  obtain ⟨d, phase⟩ := s
  obtain rfl := hidle
  refine fun hnot => absurd (fun timestamp hsome => ?_) hnot
  rw [htimestamp] at hsome
  cases hsome

/-- INTERNAL: between calls, that is what being true to the files means. -/
theorem upToDate_of_idle {s : State C} (hidle : s.phase = .idle) (h : TrueToFiles sourceFiles reads s)
    (hnot : ¬OutOfDate sourceFiles s.disk) : UpToDate sourceFiles reads s.disk := by
  obtain ⟨d, phase⟩ := s
  obtain rfl := hidle
  exact h hnot

/-- Files without anything in them, and nothing generated. -/
def emptyFiles : State ℕ := ⟨⟨fun _ => 0, fun _ => 0, none, none, 0⟩, .idle⟩

/-- The packet types are generated for the first time. -/
def firstCall : List (Event ℕ) := [.main, .next, .next, .next, .next, .next]

/-- `utils.py` is edited, and then the script is called. -/
def utilsEdited : List (Event ℕ) := [.tick, .edit "utils.py" 1, .main, .next, .next, .next]

theorem untouched_emptyFiles : Untouched emptyFiles := ⟨rfl, rfl, fun _ => le_rfl⟩

theorem mainArgs_packetCall :
    mainArgs packetCall = some ⟨packetDepends, "PACKETS_TIMESTAMP",
      ["python3", "packet_types.py", "1_19_3_packets.json", "generated/proto"]⟩ := by
  rw [mainArgs_eq_some_iff]
  exact ⟨rfl, by decide, by decide⟩

theorem mainArgs_blockCall :
    mainArgs blockCall = some ⟨blockDepends, "BLOCKS_TIMESTAMP",
      ["python3", "block_states.py", "1_19_3_blocks.json", "1_19_3_block_properties.json",
        "generated/data/block.cc"]⟩ := by
  rw [mainArgs_eq_some_iff]
  exact ⟨rfl, by decide, by decide⟩

end Mccpp.Analysis
