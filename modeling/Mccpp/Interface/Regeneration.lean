import Mathlib.Logic.Relation
import Mccpp.Library.PartialRun
import Mccpp.Model.Regenerate

/-!
# Outputs of the present files

What the script is for: unless something is out of date, the outputs are made from the files that there are. An edit
comes late when the command has already read the file, or the timestamp is of the same tick.
-/

set_option autoImplicit false

namespace Mccpp.Interface

open Mccpp.Model.Regenerate

variable {C : Type}

/-- There is no timestamp, or one of the files is newer. -/
def OutOfDate (sourceFiles : List String) (d : Disk C) : Prop :=
  ∀ timestamp, d.timestamp = some timestamp → ∃ file ∈ sourceFiles, timestamp < d.mtime file

/-- What was read of these files is what they hold. -/
def Current (sourceFiles : List String) (d : Disk C) (read : List (String × C)) : Prop :=
  ∀ file ∈ sourceFiles, ∀ content, (file, content) ∈ read → content = d.content file

/-- The outputs are there, and made from what these files hold. -/
def UpToDate (sourceFiles reads : List String) (d : Disk C) : Prop :=
  ∃ read, d.outputs = some read ∧ read.map Prod.fst = reads ∧ Current sourceFiles d read

/-- Unless something is out of date, the outputs are up to date; what the command has read, or has just written, is
current. -/
def TrueToFiles (sourceFiles reads : List String) (s : State C) : Prop :=
  match s.phase with
  | .idle | .looking _ _ => ¬OutOfDate sourceFiles s.disk → UpToDate sourceFiles reads s.disk
  | .command read _ => Current sourceFiles s.disk read
  | .touching => UpToDate sourceFiles reads s.disk

/-- An edit of the file will not be noticed. -/
def TakenUp (reads : List String) (s : State C) (file : String) : Prop :=
  match s.phase with
  | .idle | .looking _ _ => file ∈ reads ∧ s.disk.timestamp = some s.disk.now
  | .command read _ => file ∈ read.map Prod.fst
  | .touching => file ∈ reads

/-- A source is changed too late. -/
def Late (sourceFiles reads : List String) (s : State C) : Event C → Prop
  | .edit file content => file ∈ sourceFiles ∧ TakenUp reads s file ∧ content ≠ s.disk.content file
  | _ => False

/-- Before anything is generated, and no file is of the future. -/
structure Untouched (s : State C) : Prop where
  idle : s.phase = .idle
  timestamp : s.disk.timestamp = none
  past : ∀ file, s.disk.mtime file ≤ s.disk.now

/-- No source is edited, and no timestamp is removed. -/
def LeavesSources (sourceFiles : List String) : Event C → Prop
  | .edit file _ => file ∉ sourceFiles
  | .removeTimestamp => False
  | _ => True

/-- The script or its command goes on, and nothing else happens. -/
def GoesOn (sourceFiles reads : List String) (s s' : State C) : Prop := step sourceFiles reads s .next = some s'

/-- Called in this state and left alone, the script ends with outputs that are made from the files that there are,
and with nothing out of date. -/
def Regenerates (sourceFiles reads : List String) (s : State C) : Prop :=
  ∃ called ended, step sourceFiles reads s .main = some called ∧
    Relation.ReflTransGen (GoesOn sourceFiles reads) called ended ∧ ended.phase = .idle ∧
    ended.disk.content = s.disk.content ∧ ¬OutOfDate sourceFiles ended.disk ∧
    UpToDate sourceFiles reads ended.disk

end Mccpp.Interface
