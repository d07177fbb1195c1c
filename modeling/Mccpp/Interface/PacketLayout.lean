import Mccpp.Interface.NbtGrammar
import Mccpp.Interface.Section
import Mccpp.Model.Client

/-!
# The layouts of the packets

What the body of each packet that a server sends consists of, field by field, and what the client
is when the packet has been handled. A field whose value is dropped counts for its bytes alone.
The sections of a chunk packet lie in a window of a declared size: they may leave bytes of it, but
a section that does not end inside it is cut off.
-/

set_option autoImplicit false

namespace Mccpp.Interface

open Mccpp.Library Mccpp.Model

variable {σ α : Type}

namespace Layout

/-- Something at the front of a window of `n` bytes, of which the rest is skipped. -/
def window (n : ℕ) (F : Layout σ α) : Layout σ α := fun s => {
  Spells := fun us r => us.length = n ∧ ∃ used left, us = used ++ left ∧ (F s).Spells used r
  Breaks := fun bs k => (F s).Breaks (bs.take n) k ∨
    k = .cutOff ∧ bs.length < n ∧ ∃ used left r, bs = used ++ left ∧ (F s).Spells used r }

/-- Everything that is left. -/
def rest : Layout σ Unit := fun s => {
  Spells := fun _ r => r = ((), s)
  Breaks := fun _ _ => False }

/-- The data become other data, and no bytes. -/
def modify (f : σ → σ) : Layout σ Unit := fun s => .pure ((), f s)

end Layout

/-! ## Fields that are dropped -/

def propertyFormat : ByteFormat Unit :=
  (stringFormat 32767).bind fun _ => (stringFormat 32767).bind fun _ => boolFormat.bind fun isSigned =>
    if isSigned then (stringFormat 32767).map fun _ => () else .pure ()

def deathLocationFormat : ByteFormat Unit :=
  boolFormat.bind fun hasDeathLocation =>
    if hasDeathLocation then
      (stringFormat 32767).bind fun _ => (numberFormat 64).map fun _ => ()
    else .pure ()

/-- A profile: its id, its name, and its properties. -/
def profileFormat : ByteFormat Unit :=
  uuidFormat.bind fun _ => (stringFormat 16).bind fun _ => varintFormat.bind fun propCount =>
    (propertyFormat.times propCount.toInt.toNat).map fun _ => ()

/-- The fields of the packet that starts the game. -/
def loginFormat : ByteFormat Unit :=
  (numberFormat 32).bind fun _ => boolFormat.bind fun _ =>
  (numberFormat 8).bind fun _ => (numberFormat 8).bind fun _ =>
  varintFormat.bind fun dimensionCount =>
  ((stringFormat 32767).times dimensionCount.toInt.toNat).bind fun _ =>
  documentFormat.bind fun _ =>
  (stringFormat 32767).bind fun _ => (stringFormat 32767).bind fun _ =>
  (numberFormat 64).bind fun _ =>
  varintFormat.bind fun _ => varintFormat.bind fun _ => varintFormat.bind fun _ =>
  boolFormat.bind fun _ => boolFormat.bind fun _ => boolFormat.bind fun _ => boolFormat.bind fun _ =>
  deathLocationFormat

/-- The position of a column and the size of its data. -/
def chunkHeadFormat : ByteFormat (BitVec 32 × BitVec 32 × ℕ) :=
  (numberFormat 32).bind fun chunkX => (numberFormat 32).bind fun chunkY =>
  documentFormat.bind fun _ => varintFormat.bind fun dataSize =>
    if dataSize.toInt < 0 then .refuse else .pure (chunkX, chunkY, dataSize.toNat)

def blockEntityFormat : ByteFormat Unit :=
  (numberFormat 8).bind fun _ => (numberFormat 16).bind fun _ => varintFormat.bind fun _ =>
    documentFormat.map fun _ => ()

/-! ## Effects on the client -/

/-- The client sends a packet; where it cannot, no bytes help. -/
def sendLayout (env : Environment) (p : ServerboundPacket) : Layout Client Unit := fun c =>
  match c.queueSend env p with
  | (.ok (), c) => .pure ((), c)
  | (.error _, _) => .refuse

def sendAllLayout (env : Environment) : List ServerboundPacket → Layout Client Unit
  | [] => .pure ()
  | p :: ps => (sendLayout env p).bind fun _ => sendAllLayout env ps

/-- The column at a position is there, and has these chunks. -/
def columnLayout (memory : ℕ) (x y : BitVec 32) : Layout Client (List ℕ) := fun c =>
  match c.mWorld with
  | none => .refuse
  | some world =>
    match world.mChunks.get memory x y with
    | none => .refuse
    | some (column, chunks) =>
      .pure (column.pointers, { c with mWorld := some { world with mChunks := chunks } })

/-- A section: the number of its blocks, and the blocks. -/
def sectionLayout : Layout Chunk Unit :=
  (Layout.lift (numberFormat 16)).bind fun _ => blocksLayout.bind fun _ => .pure ()

/-- A section that belongs to a chunk of a column. -/
def chunkLayout (x y : BitVec 32) (pointer : ℕ) : Layout Client Unit := fun c =>
  (sectionLayout (c.chunkAt x y pointer)).map fun r => (r.1, c.setChunk x y pointer r.2)

def chunksLayout (x y : BitVec 32) : List ℕ → Layout Client Unit
  | [] => .pure ()
  | pointer :: pointers => (chunkLayout x y pointer).bind fun _ => chunksLayout x y pointers

/-- What follows the sections of a column. -/
def chunkTailLayout : Layout σ Unit :=
  (Layout.lift (varintFormat.bind fun numberOfBlockEntities =>
    (blockEntityFormat.times numberOfBlockEntities.toInt.toNat).bind fun _ =>
      boolFormat.map fun _ => ())).bind fun _ => .rest

/-- A chunk packet behind its head. -/
def chunkDataLayout (memory : ℕ) (x y : BitVec 32) (dataSize : ℕ) : Layout Client Unit :=
  (columnLayout memory x y).bind fun pointers =>
    (Layout.window dataSize (chunksLayout x y pointers)).bind fun _ => chunkTailLayout

/-- A socket that takes something of what it is offered, unless it throws. -/
def Progressing (socket : Socket) : Prop :=
  ∀ taken offered n, offered ≠ [] → socket taken offered = some n → 1 ≤ n

/-! ## Packets -/

/-- What is behind the id of a packet of this type. -/
def argumentsLayout (env : Environment) (memory : ℕ) : ClientboundType → Layout Client Unit
  | .pongResponse => .lift ((numberFormat 64).map fun _ => ())
  | .statusResponse => .lift ((stringFormat 32767).map fun _ => ())
  | .loginCustomQuery => (Layout.lift varintFormat).bind fun messageId =>
      Layout.rest.bind fun _ => sendLayout env (.loginCustomQuery ⟨messageId⟩)
  | .gameProfile => (Layout.lift profileFormat).bind fun _ =>
      .modify fun c => { c with mState := .play }
  | .hello => .breakdown .aborts
  | .loginCompression => .breakdown .aborts
  | .customPayload => (Layout.lift (stringFormat 32767)).bind fun _ => .rest
  | .keepAlive => (Layout.lift (numberFormat 64)).bind fun keepAliveId =>
      sendLayout env (.keepAlive ⟨keepAliveId⟩)
  | .levelChunkWithLight => (Layout.lift chunkHeadFormat).bind fun head =>
      chunkDataLayout memory head.1 head.2.1 head.2.2
  | .login => (Layout.lift loginFormat).bind fun _ =>
      (Layout.modify fun c => { c with mWorld := some (World.init 384) }).bind fun _ =>
        sendAllLayout env loginAnswers
  | .other _ _ => .rest

/-- A body: the id of a packet of the client's state, and what is behind it. -/
def bodyLayout (env : Environment) (memory : ℕ) : Layout Client Unit :=
  (Layout.lift varintFormat).bind fun packetId => fun c =>
    match env.clientbound c.mState packetId with
    | some type => argumentsLayout env memory type c
    | none => .refuse

/-- Receiving the packet ends, with a C++ exception if it fails, and takes nothing of what follows
the body. -/
def HandledSafely (env : Environment) (memory : ℕ) (c : Client) (body : List Byte) : Prop :=
  ∀ following, ∃ r left, (receivePacket env memory c body.length).run (body ++ following) =
    some (r, left ++ following) ∧ ∀ e, r.1 = .error e → e.isException = true

end Mccpp.Interface
