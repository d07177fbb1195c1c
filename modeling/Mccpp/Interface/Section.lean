import Mccpp.Interface.Layout
import Mccpp.Model.Chunk

/-!
# The blocks of a section

A section declares the number of bits of an entry, a palette, and the number of 64-bit words
its entries take (`sectionHeader`); the words follow. `4096` entries of the same number of bits
take a number of words of their own, and a section that declares another does not fit.
`blocksLayout` is what `load_blocks` takes for a section.
-/

set_option autoImplicit false

namespace Mccpp.Interface

open Mccpp.Library Mccpp.Model

/-- The bits of an entry: at least four, unless there are none. -/
def entryBits (bits : BitVec 8) : ℕ := if bits = 0 then 0 else if bits.toNat < 4 then 4 else bits.toNat

/-- The number of 64-bit words that `4096` entries take. -/
def wordCount (bits : BitVec 8) : ℕ := 4096 * entryBits bits / 64

/-- The palette: one value when an entry has no bits, a list of values when it has at most
eight, and nothing when its values are not looked up. -/
def paletteFormat (bits : BitVec 8) : ByteFormat Unit :=
  if bits = 0 then varintFormat.map fun _ => ()
  else if bits.toNat ≤ 8 then
    varintFormat.bind fun count =>
      if count.toInt < 0 then .refuse else (varintFormat.times count.toNat).map fun _ => ()
  else .pure ()

/-- What a section declares: the bits of an entry and the number of words. -/
def sectionHeader : ByteFormat (BitVec 8 × BitVec 32) :=
  (numberFormat 8).bind fun bits =>
    (paletteFormat bits).bind fun _ => varintFormat.map fun length => (bits, length)

/-- The declared number of words is that of the entries. -/
def Fits (bits : BitVec 8) (length : BitVec 32) : Prop := length.toInt = wordCount bits

/-- What `load_blocks` takes for a section, and what it makes of the chunk. -/
def blocksLayout : Layout Chunk Unit :=
  (Layout.lift (numberFormat 8)).bind fun bits =>
    if bits = 0 then
      (Layout.lift varintFormat).bind fun value =>
        (Layout.set ⟨fun _ => blockFromGlobalPalette value⟩).bind fun _ =>
          .lift (varintFormat.map fun _ => ())
    else if bits.toNat ≤ 8 then
      .lift (varintFormat.bind fun count =>
        if count.toInt < 0 then .refuse
        else (varintFormat.times count.toNat).bind fun _ => varintFormat.bind fun _ =>
          ((numberFormat 64).times (wordCount bits)).map fun _ => ())
    else .pure ()

/-- `load_blocks` frames this section: when it returns it has taken what the section declares
and no more, and when the declared number of words does not fit it throws. -/
def FramesSection (c : Chunk) (bs : List Byte) : Prop :=
  ∃ r left, (loadBlocks c bs.length).run bs = some (r, left) ∧
    (r.1 = .ok () → r.2.2 = left.length ∧ ∃ header words bits length,
      bs = header ++ words ++ left ∧ sectionHeader.Spells header (bits, length) ∧
        (words.length : ℤ) = 8 * length.toInt) ∧
    ∀ header rest bits length, bs = header ++ rest → sectionHeader.Spells header (bits, length) →
      ¬Fits bits length → ∃ what, r.1 = .error (.decodeError what)

end Mccpp.Interface
