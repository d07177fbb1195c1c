import Mccpp.Model.Machine
import Mathlib.Data.List.Basic

/-!
# Text for the log

The formatters of `uuid.hh` and of `utility/format.hh`. What `fmt` writes for a `{:0nx}` field is
`formatHex n`: the hexadecimal digits, in lower case, filled up with zeros on the left. A uuid is its
`high` and its `low`, as where one is read and written. Characters are classified as in the `"C"`
locale, which the program never leaves.
-/

set_option autoImplicit false

namespace Mccpp.Model

/-- The field `{:0nx}`, for a width `n`. -/
def formatHex (width value : ℕ) : List Char := (Nat.toDigits 16 value).leftpad width '0'

/-! ## `fmt::formatter<mccpp::uuid>` -/

/-- `format(id, ctx)`. -/
def formatUuid (id : BitVec 64 × BitVec 64) : List Char :=
  formatHex 8 (id.1 >>> 32).toNat ++ '-' ::
    formatHex 4 (id.1 >>> 16 &&& 0xffff).toNat ++ '-' ::
    formatHex 4 (id.1 &&& 0xffff).toNat ++ '-' ::
    formatHex 4 (id.2 >>> 48).toNat ++ '-' ::
    formatHex 12 (id.2 &&& 0xffffffffffff).toNat

/-! ## `fmt::formatter<std::span<const std::byte>>` -/

/-- `isprint(c)` for the value of a byte. -/
def isprint (c : ℕ) : Bool := 0x20 ≤ c ∧ c ≤ 0x7e

/-- The bytes `span[l]` to `span[l + w - 1]` as hexadecimal numbers, in groups of four. -/
def formatGroups (span : List Byte) (l w : ℕ) : List Char :=
  (List.range w).flatMap fun i =>
    (if i ≠ 0 ∧ i % 4 = 0 then [' '] else []) ++ formatHex 2 (span.getD (l + i) 0).toNat

/-- The same bytes as characters. -/
def formatChars (span : List Byte) (l w : ℕ) : List Char :=
  (List.range w).map fun i =>
    let byte := (span.getD (l + i) 0).toNat
    if isprint byte then Char.ofNat byte else '.'

/-- The line of the bytes from `span[l]` on, for an `l` below the size. -/
def formatLine (span : List Byte) (l : ℕ) : List Char :=
  let w := span.length - l
  let w := if w > 16 then 16 else w
  formatGroups span l w ++
    (if w < 16 then List.replicate (sizeSub (sizeSub (16 * 2 + 3) (2 * w)) (w / 4)) ' ' else []) ++
    ' ' :: formatChars span l w

/-- The loop over the lines, from `l` on. A line takes `16` bytes, so the bound `fuel` is not
reached when it is the size of the span. -/
def formatLines (span : List Byte) : ℕ → ℕ → List Char
  | 0, _ => []
  | fuel + 1, l =>
    if l < span.length then
      (if l ≠ 0 then ['\n'] else []) ++ formatLine span l ++ formatLines span fuel (l + 16)
    else []

/-- `format(span, ctx)`. -/
def formatSpan (showChars : Bool) (span : List Byte) : List Char :=
  if showChars then formatLines span span.length 0 else formatGroups span 0 span.length

end Mccpp.Model
