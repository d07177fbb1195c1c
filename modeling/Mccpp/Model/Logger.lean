import Mathlib.Data.List.Basic

/-!
# The logger

`logger.{hh,cc}`, on one thread, where callbacks do not log in turn and do not come or go while a message is given
to them. Names and texts are lists of bytes. An object is its address, and a copy of a callback is made by the
constructor that C++ gives it, which does nothing.
-/

set_option autoImplicit false

namespace Mccpp.Model.Logger

/-! ## Lines -/

/-- `Level`. -/
inductive Level where
  | fatal | error | info | warn | debug | trace
deriving DecidableEq

/-- `Source`. -/
structure Source where
  func : List Char
  file : List Char
  line : ℕ
deriving DecidableEq

/-- `Message`. -/
structure Message where
  data : List Char
  level : Level
deriving DecidableEq

/-- `level_char`. -/
def Level.char : Level → Char
  | .fatal => 'F'
  | .error => 'E'
  | .warn => 'W'
  | .info => 'I'
  | .debug => 'D'
  | .trace => 'T'

/-- `color`. -/
def Level.color : Level → List Char
  | .fatal => "\x1b[91;1m".toList
  | .error => "\x1b[91m".toList
  | .warn => "\x1b[93m".toList
  | .info => "\x1b[97m".toList
  | .debug => "\x1b[95m".toList
  | .trace => "\x1b[90m".toList

/-- What is written in front of each line. -/
def lineStart (name : List Char) (source : Source) (level : Level) : List Char :=
  level.char :: ' ' :: (name ++ ' ' :: (source.file ++ ':' :: (Nat.toDigits 10 source.line ++ [' '])))

/-- The loop of `_log_stderr`. -/
def writeContent (start content : List Char) : List Char :=
  if _hcontent : content = [] then []
  else
    match content.idxOf? '\n' with
    | none => start ++ content
    | some lineEnd => start ++ content.take lineEnd ++ '\n' :: writeContent start (content.drop (lineEnd + 1))
termination_by content.length
decreasing_by
  have hpos := List.length_pos_iff.mpr _hcontent
  rw [List.length_drop]
  omega

/-- `_log_stderr(source, message)`, on a thread of this name. -/
def logStderr (name : List Char) (source : Source) (message : Message) : List Char :=
  message.level.color ++ writeContent (lineStart name source message.level) message.data ++ "\x1b[0m\n".toList

/-! ## Callbacks -/

/-- `g_callbacks`, what has been written to `std::clog`, and what the callbacks have been given, in order. -/
structure State where
  callbacks : List ℕ
  clog : List Char
  received : List (ℕ × Source × Message)

/-- Nothing is logged. -/
def State.init : State := ⟨[], [], []⟩

/-- What happens. -/
inductive Event where
  /-- `Callback()`. -/
  | construct (this : ℕ)
  | copy (this : ℕ)
  /-- `~Callback()`. -/
  | destruct (this : ℕ)
  /-- `_message(source, message)`, on a thread of this name. -/
  | message (name : List Char) (source : Source) (message : Message)

/-- One event; `none` is the failed assertion. -/
def step (s : State) : Event → Option State
  | .construct this => some { s with callbacks := s.callbacks ++ [this] }
  | .copy _ => some s
  | .destruct this =>
    if this ∈ s.callbacks then some { s with callbacks := s.callbacks.erase this } else none
  | .message name source message =>
    some { s with
      clog := s.clog ++ logStderr name source message
      received := s.received ++ s.callbacks.map fun callback => (callback, source, message) }

end Mccpp.Model.Logger
