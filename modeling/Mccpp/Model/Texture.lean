import Mccpp.Model.Resource
import Mccpp.Model.Vfs

/-!
# Textures

`resource/texture.{hh,cc}`: a texture is decoded from its file by libspng, and where that reports an
error a substitute image takes the place of its pixels. libspng is a parameter, by the calls that are
made of it on one context; so is what the memory of a new object holds, since `m_width` and `m_height`
have no initial values. The warnings that are logged are told by the call they are about.
-/

set_option autoImplicit false

namespace Mccpp.Model

/-! ## Identifiers of files -/

namespace Identifier

/-- `m_separator_offset`: where the first `:` is, or `0` in `identifier()`. -/
def mSeparatorOffset (id : Identifier) : ℕ := id.mData.idxOf ':'

/-- `name_space()`. -/
def nameSpace (id : Identifier) : List Char := id.mData.take id.mSeparatorOffset

/-- `name()`. `substr` throws where its position is behind the end. -/
def name (id : Identifier) : Except VfsFailure (List Char) :=
  if id.mData.length < id.mSeparatorOffset + 1 then .error .outOfRange
  else .ok (id.mData.drop (id.mSeparatorOffset + 1))

end Identifier

/-! ## libspng -/

/-- `runtime_array<std::byte>`. -/
structure RuntimeArray where
  mSize : ℕ
  mData : Fin mSize → Byte

/-- `runtime_array<std::byte>(size)`, which is filled with zeros. -/
def RuntimeArray.ofSize (size : ℕ) : RuntimeArray := ⟨size, fun _ => 0⟩

/-- `spng_ihdr`, of which the size is used. -/
structure SpngIhdr where
  width : BitVec 32
  height : BitVec 32
deriving DecidableEq, Repr

/-- libspng, with contexts of type `Ctx`. A call takes the context as it is and leaves another; an
`int` is returned that is not `0` in case of an error. Formats and flags are those of
`texture_object`. -/
structure Spng (Ctx : Type) where
  /-- `spng_ctx_new(0)`. -/
  ctxNew : Option Ctx
  /-- `spng_set_png_buffer(ctx, data, size)`. -/
  setPngBuffer : Ctx → List Byte → ℤ × Ctx
  /-- `spng_get_ihdr(ctx, &ihdr)`. -/
  getIhdr : Ctx → ℤ × SpngIhdr × Ctx
  /-- `spng_decoded_image_size(ctx, SPNG_FMT_RGB8, &size)`. -/
  decodedImageSize : Ctx → ℤ × ℕ × Ctx
  /-- `spng_decode_image(ctx, data, size, SPNG_FMT_RGB8, 0)`. -/
  decodeImage : Ctx → (size : ℕ) → (Fin size → Byte) → ℤ × (Fin size → Byte)

/-- The calls that can report an error. -/
inductive SpngCall where
  | ctxNew
  | setPngBuffer
  | getIhdr
  | decodedImageSize
  | decodeImage
deriving DecidableEq, Repr

/-! ## `texture_object` -/

/-- `texture_object`. -/
structure TextureObject where
  mWidth : BitVec 32
  mHeight : BitVec 32
  mPixels : RuntimeArray

namespace TextureObject

/-- The bytes of the substitute image. -/
def errorImage : List Byte :=
  [0xff, 0x00, 0xff, 0xff, 0x00, 0x00, 0x00, 0xff, 0x00, 0x00, 0x00, 0xff, 0xff, 0x00, 0xff, 0xff]

/-- The constructor from `spng_decode_image` to its `return`; an error is a `goto error_image`. -/
def decodeInto {Ctx : Type} (spng : Spng Ctx) (ctx : Ctx) (ihdr : SpngIhdr) (pixels : RuntimeArray) :
    Except SpngCall TextureObject :=
  let (error, data) := spng.decodeImage ctx pixels.mSize pixels.mData
  if error ≠ 0 then .error .decodeImage
  else .ok ⟨ihdr.width, ihdr.height, ⟨pixels.mSize, data⟩⟩

/-- The constructor up to its `return`, over the bytes of the file. -/
def decode {Ctx : Type} (spng : Spng Ctx) (png : List Byte) : Except SpngCall TextureObject :=
  match spng.ctxNew with
  | none => .error .ctxNew
  | some ctx =>
    let (error, ctx) := spng.setPngBuffer ctx png
    if error ≠ 0 then .error .setPngBuffer
    else
      let (error, ihdr, ctx) := spng.getIhdr ctx
      if error ≠ 0 then .error .getIhdr
      else
        let (error, textureSize, ctx) := spng.decodedImageSize ctx
        if error ≠ 0 then .error .decodedImageSize
        else decodeInto spng ctx ihdr (RuntimeArray.ofSize textureSize)

/-- What follows `error_image`, for an object whose width and height are those of `memory`. -/
def substitute (memory : SpngIhdr) : TextureObject :=
  ⟨memory.width, memory.height, ⟨16, fun i => errorImage.get (i.cast rfl)⟩⟩

/-- `"{}/textures/{}"` with the name space and the name of the identifier. -/
def path (id : Identifier) : Except VfsFailure (List Char) := do
  let name ← id.name
  .ok (id.nameSpace ++ ['/', 't', 'e', 'x', 't', 'u', 'r', 'e', 's', '/'] ++ name)

/-- `mgr.read_file("{}/textures/{}", id.name_space(), id.name())`. -/
def readFile (assets : TreeNodes) (content : StorageContent) (id : Identifier) :
    Except VfsFailure (List Byte) := do
  let path ← path id
  assets.readFile content path

/-- `texture_object(mgr, id, flags)`, where the memory of the object held `memory`. -/
def construct {Ctx : Type} (spng : Spng Ctx) (memory : SpngIhdr) (assets : TreeNodes)
    (content : StorageContent) (id : Identifier) : Except VfsFailure TextureObject := do
  let png ← readFile assets content id
  match decode spng png with
  | .ok o => .ok o
  | .error _ => .ok (substitute memory)

end TextureObject

end Mccpp.Model
