import Mccpp.Library.Hex

/-!
# A dump of bytes

What the text of a dump is for: rows of sixteen bytes, one line each, the numbers of the bytes on the
left and the bytes as characters on the right. A line says nothing about where its characters begin,
but there is one for each byte of the row, so that they are the end of the line.
-/

set_option autoImplicit false

namespace Mccpp.Interface

open Mccpp.Library

/-- The lines of a text. -/
def textLines (text : List Char) : List (List Char) :=
  if text = [] then [] else text.splitOn '\n'

/-- The bytes of row `r`. -/
def dumpRow (bytes : List (BitVec 8)) (r : ℕ) : List (BitVec 8) := (bytes.drop (16 * r)).take 16

/-- The rows of the bytes, the last of which may be shorter. -/
def dumpRows (bytes : List (BitVec 8)) : List (List (BitVec 8)) :=
  (List.range ((bytes.length + 15) / 16)).map (dumpRow bytes)

/-- The character that stands for a byte: itself if it can be printed, and a dot if not. -/
def shownAs (b : BitVec 8) : Char :=
  if 0x20 ≤ b.toNat ∧ b.toNat ≤ 0x7e then Char.ofNat b.toNat else '.'

/-- Where the characters of a row begin in its line. -/
def charColumn (row : List (BitVec 8)) (line : List Char) : ℕ := line.length - row.length

/-- The line shows the row: digits among blanks in front of the column, characters behind it. -/
structure ShowsRow (row : List (BitVec 8)) (line : List Char) : Prop where
  digits : (line.take (charColumn row line)).filter (fun c => c ≠ ' ') = hexText row
  chars : line.drop (charColumn row line) = row.map shownAs

/-- There is a line for every row, and it shows the row. -/
def ShowsRows (bytes : List (BitVec 8)) (text : List Char) : Prop :=
  List.Forall₂ ShowsRow (dumpRows bytes) (textLines text)

/-- The characters begin in the same column on every line. -/
def Aligned (bytes : List (BitVec 8)) (text : List Char) : Prop :=
  ∃ column, List.Forall₂ (fun row line => charColumn row line = column) (dumpRows bytes)
    (textLines text)

/-- The text is a dump of the bytes. -/
structure Dumps (bytes : List (BitVec 8)) (text : List Char) : Prop where
  count : (textLines text).length = (bytes.length + 15) / 16
  rows : ShowsRows bytes text
  complete : (dumpRows bytes).flatten = bytes
  aligned : Aligned bytes text

end Mccpp.Interface
