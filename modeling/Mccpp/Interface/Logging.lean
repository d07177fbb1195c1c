import Mccpp.Library.PartialRun
import Mccpp.Model.Logger

/-!
# Who is told what

Each line of a message has the same text in front of it, so the message can be read from what is written; each
message is given once to each callback that is there.
-/

set_option autoImplicit false

namespace Mccpp.Interface

open Mccpp.Model.Logger

/-! ## Lines -/

/-- The lines of a message with the text in front of them; a last line without anything in it has none. -/
def startLines (start : List Char) : List (List Char) → List (List Char)
  | [] => []
  | [last] => [if last = [] then [] else start ++ last]
  | line :: lines => (start ++ line) :: startLines start lines

/-- The message that is read from what is written with so many characters in front of each line. -/
def readLines (n : ℕ) (written : List Char) : List Char :=
  ['\n'].intercalate ((written.splitOn '\n').map (List.drop n))

/-! ## Callbacks -/

/-- What is known of the objects that there are: their addresses, and whether they are copies. -/
abbrev LoggerObjects : Type := List (ℕ × Bool)

/-- The objects behind an event. -/
def objectsAfter (objects : LoggerObjects) : Event → LoggerObjects
  | .construct this => objects ++ [(this, false)]
  | .copy this => objects ++ [(this, true)]
  | .destruct this => objects.filter fun object => object.1 ≠ this
  | .message _ _ _ => objects

/-- The objects that are no copies. -/
def originals (objects : LoggerObjects) : List ℕ := (objects.filter fun object => !object.2).map Prod.fst

/-- An object is made where there is none, and destructed where there is one. -/
def OnObjects (objects : LoggerObjects) : Event → Prop
  | .construct this | .copy this => this ∉ objects.map Prod.fst
  | .destruct this => this ∈ objects.map Prod.fst
  | .message _ _ _ => True

/-- All events are on objects that there are then. -/
def LawfulEvents : LoggerObjects → List Event → Prop
  | _, [] => True
  | objects, e :: events => OnObjects objects e ∧ LawfulEvents (objectsAfter objects e) events

/-- No copy is destructed. -/
def KeepsCopies : LoggerObjects → List Event → Prop
  | _, [] => True
  | objects, e :: events =>
    (∀ this, e = .destruct this → (this, true) ∉ objects) ∧ KeepsCopies (objectsAfter objects e) events

/-- What the callbacks are to be told. -/
def told : LoggerObjects → List Event → List (ℕ × Source × Message)
  | _, [] => []
  | objects, .message _ source message :: events =>
    (originals objects).map (fun callback => (callback, source, message)) ++ told objects events
  | objects, e :: events => told (objectsAfter objects e) events

/-- What is to be written. -/
def writtenLog : List Event → List Char
  | [] => []
  | .message name source message :: events =>
    message.level.color ++
      ['\n'].intercalate (startLines (lineStart name source message.level) (message.data.splitOn '\n')) ++
      "\x1b[0m\n".toList ++ writtenLog events
  | _ :: events => writtenLog events

end Mccpp.Interface
