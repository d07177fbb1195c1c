import Mccpp.Interface.RgbPixels

/-!
# How many bytes the pixels of a texture have

Where every call of libspng succeeds, width, height and pixels come from one image. Where one fails,
the pixels are the `16` bytes of the substitute and nothing is assigned to width and height, which
cannot fit those, since `16` is no multiple of three.
-/

set_option autoImplicit false

namespace Mccpp.Analysis

open Mccpp.Model Mccpp.Interface

variable {Ctx : Type}

theorem decodeInto_eq_ok_iff {spng : Spng Ctx} {ctx : Ctx} {ihdr : SpngIhdr} {pixels : RuntimeArray}
    {o : TextureObject} :
    TextureObject.decodeInto spng ctx ihdr pixels = .ok o ↔
      ∃ data, spng.decodeImage ctx pixels.mSize pixels.mData = (0, data) ∧
        o = ⟨ihdr.width, ihdr.height, ⟨pixels.mSize, data⟩⟩ := by
  unfold TextureObject.decodeInto
  rcases hdecode : spng.decodeImage ctx pixels.mSize pixels.mData with ⟨error, data⟩
  by_cases herror : error = 0
  · simp [herror, eq_comm]
  · simp [herror]

/-- INTERNAL: **what the constructor takes over** from libspng.
SOURCE: resource/texture.cc:10-52 -/
theorem decode_eq_ok_iff {spng : Spng Ctx} {png : List Byte} {o : TextureObject} :
    TextureObject.decode spng png = .ok o ↔
      ∃ ihdr pixels, DeliversImage spng png ihdr pixels ∧ o = ⟨ihdr.width, ihdr.height, pixels⟩ := by
  constructor
  · intro h
    unfold TextureObject.decode at h
    cases hnew : spng.ctxNew with
    | none =>
      rw [hnew] at h
      cases h
    | some ctx =>
      rw [hnew] at h
      dsimp only at h
      -- past each call that reports no error
      split at h
      · cases h
      · rename_i hset
        split at h
        · cases h
        · rename_i hihdr
          split at h
          · cases h
          · rename_i hsize
            obtain ⟨data, hdecode, rfl⟩ := decodeInto_eq_ok_iff.mp h
            exact ⟨_, ⟨_, data⟩, ⟨ctx, _, _, _, hnew, Prod.ext (not_not.mp hset) rfl,
              Prod.ext (not_not.mp hihdr) rfl, Prod.ext (not_not.mp hsize) rfl, hdecode⟩, rfl⟩
  · rintro ⟨ihdr, pixels, ⟨ctx, ctx₁, ctx₂, ctx₃, hnew, hset, hihdr, hsize, hdecode⟩, rfl⟩
    simp only [TextureObject.decode, hnew, hset, hihdr, hsize, ne_eq, not_true_eq_false, if_false]
    exact decodeInto_eq_ok_iff.mpr ⟨pixels.mData, hdecode, rfl⟩

theorem deliversImage_hasRgbPixels {spng : Spng Ctx} {png : List Byte} {ihdr : SpngIhdr}
    {pixels : RuntimeArray} (hsizes : RgbSizes spng) (h : DeliversImage spng png ihdr pixels) :
    HasRgbPixels ⟨ihdr.width, ihdr.height, pixels⟩ := by
  obtain ⟨_, ctx₁, ctx₂, ctx₃, -, -, hihdr, hsize, -⟩ := h.calls
  exact hsizes ctx₁ ihdr ctx₂ pixels.mSize ctx₃ hihdr hsize

/-- INTERNAL: the substitute has pixels for no size at all.
SOURCE: resource/texture.cc:54-75 -/
theorem substitute_not_hasRgbPixels (memory : SpngIhdr) :
    ¬HasRgbPixels (TextureObject.substitute memory) := by
  intro h
  have hsixteen : 16 = 3 * (memory.width.toNat * memory.height.toNat) := by
    rw [← Nat.mul_assoc]
    exact h
  omega

/-- INTERNAL: the two ways in which an object is finished. -/
theorem construct_of_readFile {spng : Spng Ctx} {memory : SpngIhdr} {assets : TreeNodes}
    {content : StorageContent} {id : Identifier} {png : List Byte}
    (h : TextureObject.readFile assets content id = .ok png) :
    TextureObject.construct spng memory assets content id =
      match TextureObject.decode spng png with
      | .ok o => .ok o
      | .error _ => .ok (TextureObject.substitute memory) := by
  unfold TextureObject.construct
  rw [h]
  rfl

/-- The number in the four bytes from `i` on. -/
def wordFrom (png : List Byte) (i : ℕ) : BitVec 32 :=
  ((png.drop i).take 4).foldl (fun n b => n <<< 8 ||| b.setWidth 32) 0

/-- The header of a file that starts with the signature of a PNG, as libspng reads it; every pixel is
black. -/
def blackSpng : Spng (List Byte) where
  ctxNew := some []
  setPngBuffer _ png := (0, png)
  getIhdr png :=
    if png.length < 29 then (-1, ⟨0, 0⟩, png)
    else if png.take 8 = [0x89, 0x50, 0x4e, 0x47, 0x0d, 0x0a, 0x1a, 0x0a] then
      (0, ⟨wordFrom png 16, wordFrom png 20⟩, png)
    else (4, ⟨0, 0⟩, png)
  decodedImageSize png := (0, 3 * (wordFrom png 16).toNat * (wordFrom png 20).toNat, png)
  decodeImage _ _ pixels := (0, pixels)

theorem rgbSizes_blackSpng : RgbSizes blackSpng := by
  intro ctx ihdr ctx' size ctx'' hihdr hsize
  simp only [blackSpng] at hihdr
  split at hihdr
  · cases hihdr
  · split at hihdr
    · cases hihdr
      cases hsize
      rfl
    · cases hihdr

/-- One file, `a` among the textures of the name space `m`. -/
def oneTexture : TreeNodes :=
  [⟨none, [], none, [1]⟩, ⟨some 0, ['m'], none, [2]⟩,
    ⟨some 1, ['t', 'e', 'x', 't', 'u', 'r', 'e', 's'], none, [3]⟩, ⟨some 2, ['a'], some 0, []⟩]

/-- A black image of one pixel. -/
def blackPng : List Byte :=
  [0x89, 0x50, 0x4e, 0x47, 0x0d, 0x0a, 0x1a, 0x0a, 0x00, 0x00, 0x00, 0x0d, 0x49, 0x48, 0x44, 0x52,
    0x00, 0x00, 0x00, 0x01, 0x00, 0x00, 0x00, 0x01, 0x08, 0x02, 0x00, 0x00, 0x00, 0x90, 0x77, 0x53,
    0xde, 0x00, 0x00, 0x00, 0x0c, 0x49, 0x44, 0x41, 0x54, 0x78, 0xda, 0x63, 0x60, 0x60, 0x60, 0x00,
    0x00, 0x00, 0x04, 0x00, 0x01, 0xc8, 0xea, 0xeb, 0xf9, 0x00, 0x00, 0x00, 0x00, 0x49, 0x45, 0x4e,
    0x44, 0xae, 0x42, 0x60, 0x82]

end Mccpp.Analysis
