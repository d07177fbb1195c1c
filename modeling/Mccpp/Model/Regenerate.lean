import Mccpp.Model.PacketTypes

/-!
# Regenerating what is generated

`generator/regenerate.py`: a command is run if one of its source files is newer than a timestamp file, which is
touched when the command has succeeded. Files are edited while the script and the command run, so a step is one
look at a file. Times are those of the file system, and do not go back. Of the command it is known which files it
reads, once each and one after another; what it writes is not whole before it has succeeded.
-/

set_option autoImplicit false

namespace Mccpp.Model.Regenerate

/-! ## Arguments -/

/-- `Args`. -/
structure Args where
  sourceFiles : List String
  timestampFile : String
  command : List String
deriving DecidableEq, Repr

/-- `parse_args(argv)`, behind `argv[0]`; `none` is an exception. -/
def parseArgs (argv : List String) : Option Args :=
  if "--" ∈ argv then
    (argv.takeWhile (· ≠ "--")).getLast?.map fun timestampFile =>
      ⟨(argv.takeWhile (· ≠ "--")).dropLast, timestampFile, (argv.dropWhile (· ≠ "--")).tail⟩
  else none

/-- `path.basename(name)`. -/
def basename (name : List Char) : List Char := (name.reverse.takeWhile (· ≠ '/')).reverse

/-- `TIMESTAMP_NAME_REGEX.match(name)`. The `$` matches at the end, and in front of a line break there. -/
def isTimestampName (name : List Char) : Bool :=
  let name := if name.getLast? = some '\n' then name.dropLast else name
  !name.isEmpty && name.all fun c => isAsciiUpper c || c == '_'

/-- The `Args` that `main(argv)` goes on with; with others it ends in an error. -/
def mainArgs (argv : List String) : Option Args :=
  (parseArgs argv).filter fun args => isTimestampName (basename args.timestampFile.toList)

/-! ## The script and the disk -/

variable {C : Type}

/-- The files, with when they were last written, the `mtime` of the timestamp file, if there is one, the outputs, by
the contents that they are made from, if they are whole, and the time. -/
structure Disk (C : Type) where
  content : String → C
  mtime : String → ℕ
  timestamp : Option ℕ
  outputs : Option (List (String × C))
  now : ℕ

/-- Where the script is. -/
inductive Phase (C : Type) where
  | idle
  /-- The loop of `is_out_of_date`, with `timestamp` and what is left of `source_files`. -/
  | looking (timestamp : ℕ) (rest : List String)
  /-- The command, with what it has read and what it still reads. -/
  | command (read : List (String × C)) (rest : List String)
  /-- In front of `Path(args.timestamp_file).touch()`. -/
  | touching

/-- The disk, and where the script is. -/
structure State (C : Type) where
  disk : Disk C
  phase : Phase C

/-- What happens. -/
inductive Event (C : Type) where
  | edit (file : String) (content : C)
  | tick
  | removeTimestamp
  /-- `main(argv)` is called. -/
  | main
  /-- The script or its command goes on. -/
  | next
  /-- The command fails, or one of the two is killed. -/
  | fail

/-- A file is written. -/
def Disk.write (d : Disk C) (file : String) (content : C) : Disk C :=
  { d with
    content := fun other => if other = file then content else d.content other
    mtime := fun other => if other = file then d.now else d.mtime other }

/-- `subprocess.run(args.command)` begins. -/
def State.runCommand (s : State C) (reads : List String) : State C :=
  ⟨{ s.disk with outputs := none }, .command [] reads⟩

/-- What the script does next, where it is running. -/
def State.next (reads : List String) (s : State C) : Option (State C) :=
  match s.phase with
  | .idle => none
  | .looking _ [] => some { s with phase := .idle }
  | .looking timestamp (file :: rest) =>
    if s.disk.mtime file > timestamp then some (s.runCommand reads)
    else some { s with phase := .looking timestamp rest }
  | .command read (file :: rest) => some { s with phase := .command (read ++ [(file, s.disk.content file)]) rest }
  | .command read [] => some ⟨{ s.disk with outputs := some read }, .touching⟩
  | .touching => some ⟨{ s.disk with timestamp := some s.disk.now }, .idle⟩

/-- One event, for a script that is called with these sources and whose command reads these files. -/
def step (sourceFiles reads : List String) (s : State C) : Event C → Option (State C)
  | .edit file content => some { s with disk := s.disk.write file content }
  | .tick => some { s with disk := { s.disk with now := s.disk.now + 1 } }
  | .removeTimestamp => some { s with disk := { s.disk with timestamp := none } }
  | .main =>
    match s.phase, s.disk.timestamp with
    | .idle, none => some (s.runCommand reads)
    | .idle, some timestamp => some { s with phase := .looking timestamp sourceFiles }
    | _, _ => none
  | .next => s.next reads
  | .fail =>
    match s.phase with
    | .idle => none
    | _ => some { s with phase := .idle }

/-! ## The calls -/

/-- `PACKET_DEPENDS`. -/
def packetDepends : List String := ["1_19_3_packets.json", "packet_types.py"]

/-- The call for the packet types, with the last parts of the paths. -/
def packetCall : List String :=
  packetDepends ++
    ["PACKETS_TIMESTAMP", "--", "python3", "packet_types.py", "1_19_3_packets.json", "generated/proto"]

/-- What `packet_types.py` reads, with the modules of the repository that it imports. -/
def packetReads : List String := ["packet_types.py", "utils.py", "1_19_3_packets.json"]

/-- `BLOCK_DEPENDS`. -/
def blockDepends : List String := ["block_states.py", "1_19_3_blocks.json", "1_19_3_block_properties.json"]

/-- The call for the block states. -/
def blockCall : List String :=
  blockDepends ++
    ["BLOCKS_TIMESTAMP", "--", "python3", "block_states.py", "1_19_3_blocks.json",
      "1_19_3_block_properties.json", "generated/data/block.cc"]

/-- What `block_states.py` reads. -/
def blockReads : List String := ["block_states.py", "1_19_3_block_properties.json", "1_19_3_blocks.json"]

end Mccpp.Model.Regenerate
