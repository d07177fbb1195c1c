import Mathlib.Algebra.Group.Int.Defs
import Mathlib.Data.Rat.Defs
import Mccpp.Model.PacketReader

/-!
# Chunks

`world/chunk.{hh,cc}` without the mesh: a chunk is `16 * 16 * 16` blocks, of which the packet
of a column loads the sections one after another from one reader. The single colour of a block
is a `glm::vec3`; its components are exact numbers here.
-/

set_option autoImplicit false

namespace Mccpp.Model

/-- `glm::vec3` and `glm::ivec3`, over their component type. -/
@[ext] structure Vec3 (α : Type) where
  x : α
  y : α
  z : α
deriving DecidableEq, Repr

/-- `world::block`. -/
structure Block where
  isAir : Bool
  color : Vec3 ℚ
deriving DecidableEq

/-- `world::chunk`: `blocks` is the `std::array<block, 16 * 16 * 16>`. -/
structure Chunk where
  blocks : Fin 4096 → Block

namespace Chunk

/-- `blocks[z * 256 + x * 16 + y]`. -/
def blockAt (c : Chunk) (x y z : ℤ) : Block :=
  c.blocks (Fin.ofNat 4096 (z * 256 + x * 16 + y).toNat)

/-- `is_air_at(x, y, z)`: everything outside the chunk is air. -/
def isAirAt (c : Chunk) (x y z : ℤ) : Bool :=
  if x < 0 ∨ y < 0 ∨ z < 0 ∨ x ≥ 16 ∨ y ≥ 16 ∨ z ≥ 16 then true
  else (c.blockAt x y z).isAir

end Chunk

/-! ## Loading the blocks of a section -/

/-- `block_from_global_palette(value)`. -/
def blockFromGlobalPalette (_ : BitVec 32) : Block := ⟨false, ⟨0, 0, 0⟩⟩

/-- `extract_bits(data, offset, bits)`. A word outside the vector counts as `0`. -/
def extractBits (data : List (BitVec 64)) (offset bits : ℕ) : BitVec 64 :=
  let flPos := offset / 64
  let flOff := offset % 64
  let flNum := if bits > 64 - flOff then 64 - flOff else bits
  let flMask := ((1#32 <<< flNum) - 1#32).signExtend 64
  let fl := (data[flPos]?.getD 0 >>> (64 - flOff - flNum)) &&& flMask
  let slPos := flPos + 1
  let slNum := bits - flNum
  let slMask := ((1#32 <<< slNum) - 1#32).signExtend 64
  let sl := (data[slPos]?.getD 0 >>> (64 - slNum)) &&& slMask
  fl <<< slNum ||| sl

/-- What C++ leaves undefined. -/
inductive Undefined where
  /-- A vector is read outside of its elements. -/
  | outOfRange
  /-- A shift amount is not below the width of what is shifted. -/
  | shiftAmount
  /-- A result does not fit a signed type. -/
  | overflow
deriving DecidableEq, Repr

/-- The value of `(1 << n) - 1` as a `uint64_t`, where `1` is an `int`. -/
def onesMask (n : ℕ) : Except Undefined (BitVec 64) :=
  if 32 ≤ n then .error .shiftAmount
  else if (1#32 <<< n).toInt - 1 < -2 ^ 31 then .error .overflow
  else .ok (((1#32 <<< n) - 1#32).signExtend 64)

/-- `data[i]`. -/
def wordAt (data : List (BitVec 64)) (i : ℕ) : Except Undefined (BitVec 64) :=
  match data[i]? with
  | some word => .ok word
  | none => .error .outOfRange

/-- `word >> n`, where a shift by the whole width or more does what `wide` says. -/
def shiftRight (wide : BitVec 64 → ℕ → Except Undefined (BitVec 64)) (word : BitVec 64) (n : ℕ) :
    Except Undefined (BitVec 64) :=
  if n < 64 then .ok (word >>> n) else wide word n

/-- `word << n`. -/
def shiftLeft (word : BitVec 64) (n : ℕ) : Except Undefined (BitVec 64) :=
  if n < 64 then .ok (word <<< n) else .error .shiftAmount

/-- `extract_bits(data, offset, bits)`, operation by operation. -/
def extractBitsIn (wide : BitVec 64 → ℕ → Except Undefined (BitVec 64)) (data : List (BitVec 64))
    (offset bits : ℕ) : Except Undefined (BitVec 64) := do
  let flPos := offset / 64
  let flOff := offset % 64
  let flNum := if bits > 64 - flOff then 64 - flOff else bits
  let flMask ← onesMask flNum
  let flWord ← wordAt data flPos
  let flShifted ← shiftRight wide flWord (64 - flOff - flNum)
  let fl := flShifted &&& flMask
  let slPos := flPos + 1
  let slNum := bits - flNum
  let slMask ← onesMask slNum
  let slWord ← wordAt data slPos
  let slShifted ← shiftRight wide slWord (64 - slNum)
  let sl := slShifted &&& slMask
  let high ← shiftLeft fl slNum
  .ok (high ||| sl)

open PacketM

/-- The part of `load_blocks(c, s)` for `1` to `8` bits an entry, with the values that `entry` has
in its loop. -/
def loadEntries (wide : BitVec 64 → ℕ → Except Undefined (BitVec 64)) (bitsPerEntry : ℕ) :
    PacketM Chunk (List (Except Undefined (BitVec 64))) := do
  let paletteLength ← readVarint
  if paletteLength.toInt < 0 then fail (.decodeError "invalid palette length")
  else
    let _palette ← times paletteLength.toNat readVarint
    let _dataArrayLength ← readVarint
    let dataArray ← times (4096 * bitsPerEntry / 64) readU64
    -- an extra unused value makes parsing easier
    pure ((List.range 4096).map fun i =>
      extractBitsIn wide (dataArray ++ [0]) (i * bitsPerEntry) bitsPerEntry)

/-- `load_blocks(c, s)`, where the data worked on is the chunk. Neither the palette nor the
entries are used. -/
def loadBlocks : PacketM Chunk Unit := do
  let bitsPerEntry ← readU8
  if bitsPerEntry = 0 then
    let value ← readVarint
    let gpb := blockFromGlobalPalette value
    set ⟨fun _ => gpb⟩
    let _dataArrayLength ← readVarint
    pure ()
  else if bitsPerEntry.toNat ≤ 8 then
    let bitsPerEntry := if bitsPerEntry.toNat < 4 then 4 else bitsPerEntry.toNat
    let paletteLength ← readVarint
    if paletteLength.toInt < 0 then fail (.decodeError "invalid palette length")
    else
      let _palette ← times paletteLength.toNat readVarint
      let _dataArrayLength ← readVarint
      let u64Count := 4096 * bitsPerEntry / 64
      let dataArray ← times u64Count readU64
      -- an extra unused value makes parsing easier
      let dataArray := dataArray ++ [0]
      let _entries := (List.range 4096).map fun i =>
        extractBits dataArray (i * bitsPerEntry) bitsPerEntry
      pure ()
  else pure ()

/-- `load_blocks(c, s)` once more, for other data worked on: `fill` is what is done to the chunk, and
the hook `note` is told what `palette.reserve` is called with. -/
def loadBlocksNoting {σ : Type} (fill : Chunk → PacketM σ Unit) (note : ℕ → PacketM σ Unit) :
    PacketM σ Unit := do
  let bitsPerEntry ← readU8
  if bitsPerEntry = 0 then
    let value ← readVarint
    let gpb := blockFromGlobalPalette value
    fill ⟨fun _ => gpb⟩
    let _dataArrayLength ← readVarint
    pure ()
  else if bitsPerEntry.toNat ≤ 8 then
    let bitsPerEntry := if bitsPerEntry.toNat < 4 then 4 else bitsPerEntry.toNat
    let paletteLength ← readVarint
    if paletteLength.toInt < 0 then fail (.decodeError "invalid palette length")
    else
      note paletteLength.toNat
      let _palette ← times paletteLength.toNat readVarint
      let _dataArrayLength ← readVarint
      let u64Count := 4096 * bitsPerEntry / 64
      let dataArray ← times u64Count readU64
      -- an extra unused value makes parsing easier
      let dataArray := dataArray ++ [0]
      let _entries := (List.range 4096).map fun i =>
        extractBits dataArray (i * bitsPerEntry) bitsPerEntry
      pure ()
  else pure ()

/-- INTERNAL: a hook that does nothing.
SOURCE: world/chunk.cc:20-65 -/
theorem loadBlocksNoting_silent : loadBlocksNoting set (fun _ => pure ()) = loadBlocks := rfl

/-- `load_biomes(c, s)`. -/
def loadBiomes : PacketM Chunk Unit := pure ()

/-- `chunk::load(s)`. -/
def Chunk.load : PacketM Chunk Unit := do
  let _blockCount ← readI16
  loadBlocks
  loadBiomes

end Mccpp.Model
