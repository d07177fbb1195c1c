import Mccpp.Model.PacketReader

/-!
# Positions

`proto::position` of `proto/packet.hh`: three coordinates of type `int32_t`, packed as fields of
`26`, `26` and `12` bits into a `uint64_t`. Shifts to the left are those of C++20, which drop what
leaves the type.
-/

set_option autoImplicit false

namespace Mccpp.Model

/-- `proto::position`, as its members. -/
@[ext] structure Position where
  mX : BitVec 32
  mZ : BitVec 32
  mY : BitVec 32
deriving DecidableEq, Repr

namespace Position

/-- `sign_extend<N>(value)`. Which branch is compiled depends on what `>>` does to a negative
value: it shifts arithmetically. -/
def signExtend (n : ℕ) (value : BitVec 32) : BitVec 32 :=
  let unusedBits := 32 - n
  if (0xffffffff#32).sshiftRight 1 = 0xffffffff#32 then
    (value <<< unusedBits).sshiftRight unusedBits
  else
    let mask := 0xffffffff#32 >>> unusedBits
    let value := value &&& mask
    if value &&& (1#32 <<< (n - 1)) ≠ 0 then value ||| ~~~mask else value

/-- `position(raw)`. -/
def ofRaw (raw : BitVec 64) : Position where
  mX := signExtend 26 ((raw >>> 38 &&& 0x3ffffff).setWidth 32)
  mZ := signExtend 26 ((raw >>> 12 &&& 0x3ffffff).setWidth 32)
  mY := signExtend 12 ((raw &&& 0xfff).setWidth 32)

/-- `position(x, y, z)`. -/
def construct (x y z : BitVec 32) : Position := ⟨x, z, y⟩

/-- `raw()`. -/
def raw (p : Position) : BitVec 64 :=
  (p.mX.signExtend 64 &&& 0x3ffffff) <<< 38 |||
    (p.mZ.signExtend 64 &&& 0x3ffffff) <<< 12 |||
    (p.mY.signExtend 64 &&& 0xfff)

/-- `x()`. -/
def x (p : Position) : BitVec 32 := p.mX

/-- `z()`. -/
def z (p : Position) : BitVec 32 := p.mZ

/-- `y()`. -/
def y (p : Position) : BitVec 32 := p.mY

end Position

/-- `read_position()`. -/
def PacketM.readPosition {σ : Type} : PacketM σ Position := do
  let raw ← PacketM.readU64
  pure (.ofRaw raw)

end Mccpp.Model
