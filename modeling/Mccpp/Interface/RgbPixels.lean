import Mccpp.Model.Texture

/-!
# The pixels of a texture

What the renderer expects of the pixels of a texture, what libspng says of the size of an image, and
when none of its calls reports an error.
-/

set_option autoImplicit false

namespace Mccpp.Interface

open Mccpp.Model

variable {Ctx : Type}

/-- There are three bytes for each pixel of the declared width and height. -/
def HasRgbPixels (o : TextureObject) : Prop :=
  o.mPixels.mSize = 3 * o.mWidth.toNat * o.mHeight.toNat

/-- The decoded size of an image, behind its header, is three bytes for each pixel. -/
def RgbSizes (spng : Spng Ctx) : Prop :=
  ∀ ctx ihdr ctx' size ctx'', spng.getIhdr ctx = (0, ihdr, ctx') →
    spng.decodedImageSize ctx' = (0, size, ctx'') → size = 3 * ihdr.width.toNat * ihdr.height.toNat

/-- The calls for these bytes, one behind the other, all return `0`; what they deliver. -/
structure DeliversImage (spng : Spng Ctx) (png : List Byte) (ihdr : SpngIhdr) (pixels : RuntimeArray) :
    Prop where
  calls : ∃ ctx ctx₁ ctx₂ ctx₃, spng.ctxNew = some ctx ∧ spng.setPngBuffer ctx png = (0, ctx₁) ∧
    spng.getIhdr ctx₁ = (0, ihdr, ctx₂) ∧ spng.decodedImageSize ctx₂ = (0, pixels.mSize, ctx₃) ∧
    spng.decodeImage ctx₃ pixels.mSize (fun _ => 0) = (0, pixels.mData)

/-- No call for these bytes reports an error. -/
def ReportsNoError (spng : Spng Ctx) (png : List Byte) : Prop :=
  ∃ ihdr pixels, DeliversImage spng png ihdr pixels

end Mccpp.Interface
