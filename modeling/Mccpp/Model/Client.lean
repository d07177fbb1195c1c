import Mccpp.Model.ChunkManager
import Mccpp.Model.Nbt
import Mccpp.Model.Sending

/-!
# The client and its packet handlers

`client/client.{hh,cc}`, `client/handlers.cc` and `client/handlers/`. A handler is code over a
packet reader whose data is the client: its state, the world of the game, and the connection it
answers on. What is not logged or sent is read and dropped, as in the source.

The ids of the packets and the list of the packets of each state come from generated code and are
part of the `Environment`; a packet without a handler of its own is `other`.
-/

set_option autoImplicit false

namespace Mccpp.Model

open Mccpp.Library

/-- The bytes of a string literal. -/
def literalBytes (s : String) : List Byte := s.toList.map fun c => BitVec.ofNat 8 c.toNat

/-- The types of packets that are received, each of one state. -/
inductive ClientboundType where
  | pongResponse
  | statusResponse
  | loginCustomQuery
  | gameProfile
  | hello
  | loginCompression
  | customPayload
  | keepAlive
  | levelChunkWithLight
  | login
  /-- A packet whose handler drops it: `SILENCE_PACKET`, and the default of `handle_packet`. -/
  | other (state : ConnectionState) (number : ℕ)
deriving DecidableEq, Repr

/-- The namespace of the type, which is the state it belongs to. -/
def ClientboundType.state : ClientboundType → ConnectionState
  | pongResponse | statusResponse => .status
  | loginCustomQuery | gameProfile | hello | loginCompression => .login
  | customPayload | keepAlive | levelChunkWithLight | login => .play
  | other state _ => state

/-- What the client is built with: the socket, and the generated code. In a state an id belongs to
one type at most, a type of this state. -/
structure Environment where
  socket : Socket
  serverboundId : ServerboundType → BitVec 32
  clientbound : ConnectionState → BitVec 32 → Option ClientboundType
  clientbound_state : ∀ state id type, clientbound state id = some type → type.state = state

/-- `client::client`, with `m_world` of its game and the connection it is. -/
structure Client where
  mState : ConnectionState
  mServerName : List Byte
  mServerPort : BitVec 16
  mWorld : Option World
  outgoing : Outgoing

/-- A client behind `connect(io, address, port)`. -/
def Client.connecting (serverName : List Byte) (serverPort : BitVec 16) : Client where
  mState := .handshaking
  mServerName := serverName
  mServerPort := serverPort
  mWorld := none
  outgoing := ⟨[], []⟩

/-- `queue_send(p)`. -/
def Client.queueSend (env : Environment) (p : ServerboundPacket) (c : Client) :
    Except Failure Unit × Client :=
  let (result, outgoing) := c.outgoing.queueSend env.socket env.serverboundId p
  (result, { c with outgoing := outgoing })

/-- `on_connect()`. -/
def Client.onConnect (env : Environment) (c : Client) : Except Failure Unit × Client :=
  match c.queueSend env (.clientIntention ⟨761, c.mServerName, c.mServerPort, .login⟩) with
  | (.error e, c) => (.error e, c)
  | (.ok (), c) =>
    Client.queueSend env (.hello ⟨literalBytes "Foobar", none⟩) { c with mState := .login }

/-! ## The chunks of a column -/

namespace Client

/-- The column that a reference returned by `get(x, y)` refers to. -/
def column (c : Client) (x y : BitVec 32) : Option ChunkColumn :=
  c.mWorld.bind fun world => world.mChunks.tryGet x y

/-- The chunk behind a pointer into the column, given by its offset. Outside of the column there
is none to speak of. -/
def chunkAt (c : Client) (x y : BitVec 32) (pointer : ℕ) : Chunk :=
  ((c.column x y).bind fun column => column.mChunks[pointer]?).getD Chunk.empty

/-- Writes to that chunk; a write outside of the column is not followed up. -/
def setChunk (c : Client) (x y : BitVec 32) (pointer : ℕ) (chunk : Chunk) : Client :=
  { c with mWorld := c.mWorld.map fun world => { world with mChunks := { world.mChunks with
      mColumns := fun key =>
        if key = ChunkManager.chunkPosToIdx x y then
          (world.mChunks.mColumns key).map fun column =>
            { column with mChunks := column.mChunks.set pointer chunk }
        else world.mChunks.mColumns key } } }

end Client

namespace PacketM

variable {σ α : Type}

/-- The callback of a nested reader is `s.read_byte()`: what it pulls is read from the packet. The
count that the nested reader ends with is dropped with it. -/
def serve : Pull Byte (Ended σ α) → PacketM σ α
  | .done (result, s, _) => fun _ n => .done (result, s, n)
  | .pull k => do
    let b ← readByte
    serve (k b)

/-- Code over `packet_reader([&s] { return s.read_byte(); }, n)`. -/
def nested (n : ℕ) (p : PacketM σ α) : PacketM σ α := fun s m => serve (p s n) s m

/-- `queue_send(p)`. -/
def queueSend (env : Environment) (p : ServerboundPacket) : PacketM Client Unit := fun c n =>
  .done ((c.queueSend env p).1, (c.queueSend env p).2, n)

/-- `m_game.world().chunks().get(x, y)`, a new column being built where `m_count` held `memory`;
the pointers from `begin()` to `end()`. -/
def getColumn (memory : ℕ) (x y : BitVec 32) : PacketM Client (List ℕ) := do
  let c ← get
  match c.mWorld with
  | none => fail .badOptionalAccess
  | some world =>
    match world.mChunks.get memory x y with
    | none => fail (.assertFailed "iter.second")
    | some (column, chunks) => do
      set { c with mWorld := some { world with mChunks := chunks } }
      pure column.pointers

/-- Code over one chunk of a column. -/
def onChunk (x y : BitVec 32) (pointer : ℕ) (p : PacketM Chunk α) : PacketM Client α := fun c n =>
  (p (c.chunkAt x y pointer) n).bind fun r =>
    .done (r.1, c.setChunk x y pointer r.2.1, r.2.2)

/-- `for (chunk &chunk : chunk_column) chunk.load(chunk_reader)`. -/
def loadChunks (x y : BitVec 32) : List ℕ → PacketM Client Unit
  | [] => pure ()
  | pointer :: pointers => do
    onChunk x y pointer Chunk.load
    loadChunks x y pointers

/-- `s.discard(s.remaining())`. -/
def discardRest : PacketM σ Unit := do
  let n ← remaining
  discard n

end PacketM

/-! ## Handlers -/

open PacketM

/-- `handle_packet<login::custom_query_packet>`. -/
def handleCustomQuery (env : Environment) : PacketM Client Unit := do
  let messageId ← readVarint
  discardRest
  queueSend env (.loginCustomQuery ⟨messageId⟩)

/-- A property of a profile. -/
def readProperty {σ : Type} : PacketM σ Unit := do
  let _name ← readString 32767
  let _value ← readString 32767
  let isSigned ← readBool
  if isSigned then do
    let _signature ← readString 32767
    pure ()
  else pure ()

/-- `m_state = state`. -/
def setState (state : ConnectionState) : PacketM Client Unit := do
  let c ← get
  set { c with mState := state }

/-- `handle_packet<login::game_profile_packet>`. -/
def handleGameProfile : PacketM Client Unit := do
  let _uuid ← readUuid
  let _name ← readString 16
  let propCount ← readVarint
  let _properties ← times propCount.toInt.toNat readProperty
  setState .play

/-- `handle_packet<play::custom_payload_packet>`. -/
def handleCustomPayload {σ : Type} : PacketM σ Unit := do
  let channel ← readIdentifier
  if channel = literalBytes "minecraft:brand" then do
    let n ← remaining
    let _brand ← readCharArray n
    pure ()
  else discardRest

/-- `handle_packet<play::keep_alive_packet>`. -/
def handleKeepAlive (env : Environment) : PacketM Client Unit := do
  let keepAliveId ← readI64
  queueSend env (.keepAlive ⟨keepAliveId⟩)

/-- The place of the last death, where there is one. -/
def readDeathLocation {σ : Type} : PacketM σ Unit := do
  let hasDeathLocation ← readBool
  if hasDeathLocation then do
    let _deathDimensionName ← readIdentifier
    let _deathLocation ← readU64
    pure ()
  else pure ()

/-- `m_game.create_world(height)`. -/
def createWorld (height : ℕ) : PacketM Client Unit := do
  let c ← get
  set { c with mWorld := some (World.init height) }

/-- The answers to `login_packet`. -/
def loginAnswers : List ServerboundPacket :=
  [.customPayload ⟨literalBytes "minecraft:brand", literalBytes "mccpp"⟩,
    .clientInformation {
      locale := literalBytes "en_US"
      viewDistance := 10
      chatMode := 2
      chatColors := false
      displayedSkinParts := 0x00
      mainHand := 1
      enableTextFiltering := false
      allowServerListings := false }]

/-- One `queue_send` after another. -/
def queueSendAll (env : Environment) : List ServerboundPacket → PacketM Client Unit
  | [] => pure ()
  | p :: ps => do
    queueSend env p
    queueSendAll env ps

/-- What `handle_packet<play::login_packet>` reads. -/
def readLogin {σ : Type} : PacketM σ Unit := do
  let _entityId ← readI32
  let _isHardcore ← readBool
  let _gamemode ← readU8
  let _previousGamemode ← readI8
  let dimensionCount ← readVarint
  let _dimensionNames ← times dimensionCount.toInt.toNat readIdentifier
  let _registryCodec ← Nbt.nbt
  let _dimensionType ← readIdentifier
  let _dimensionName ← readIdentifier
  let _hashedSeed ← readI64
  let _maxPlayers ← readVarint
  let _viewDistance ← readVarint
  let _simulationDistance ← readVarint
  let _reducedDebugInfo ← readBool
  let _enableRespawnScreen ← readBool
  let _isDebug ← readBool
  let _isFlat ← readBool
  readDeathLocation

/-- `handle_packet<play::login_packet>`. -/
def handleLogin (env : Environment) : PacketM Client Unit := do
  readLogin
  createWorld 384
  queueSendAll env loginAnswers

/-- What `handle_packet<play::level_chunk_with_light_packet>` reads first: the position of the
column and the size of its data. -/
def readChunkHead {σ : Type} : PacketM σ (BitVec 32 × BitVec 32 × ℕ) := do
  let chunkX ← readI32
  let chunkY ← readI32
  let _heightmaps ← Nbt.nbt
  let dataSize ← readVarint
  if dataSize.toInt < 0 then fail (.decodeError "invalid data size")
  else pure (chunkX, chunkY, dataSize.toNat)

/-- A block entity. -/
def readBlockEntity {σ : Type} : PacketM σ Unit := do
  let _packedXz ← readU8
  let _y ← readI16
  let _type ← readVarint
  let _data ← Nbt.nbt
  pure ()

/-- What it reads last. -/
def readChunkTail {σ : Type} : PacketM σ Unit := do
  let numberOfBlockEntities ← readVarint
  let _blockEntities ← times numberOfBlockEntities.toInt.toNat readBlockEntity
  let _trustEdges ← readBool
  discardRest

/-- `handle_packet<play::level_chunk_with_light_packet>`. -/
def handleLevelChunkWithLight (memory : ℕ) : PacketM Client Unit := do
  let (chunkX, chunkY, dataSize) ← readChunkHead
  let pointers ← getColumn memory chunkX chunkY
  nested dataSize do
    loadChunks chunkX chunkY pointers
    discardRest
  readChunkTail

/-- `handle_packet<status::pong_response_packet>`. -/
def handlePongResponse {σ : Type} : PacketM σ Unit := do
  let _payload ← readI64
  pure ()

/-- `handle_packet<status::status_response_packet>`. -/
def handleStatusResponse {σ : Type} : PacketM σ Unit := do
  let _json ← readString 32767
  pure ()

/-- `handle_packet<type>(reader)`. -/
def handlePacket (env : Environment) (memory : ℕ) : ClientboundType → PacketM Client Unit
  | .pongResponse => handlePongResponse
  | .statusResponse => handleStatusResponse
  | .loginCustomQuery => handleCustomQuery env
  | .gameProfile => handleGameProfile
  | .hello => fail .abort
  | .loginCompression => fail .abort
  | .customPayload => handleCustomPayload
  | .keepAlive => handleKeepAlive env
  | .levelChunkWithLight => handleLevelChunkWithLight memory
  | .login => handleLogin env
  | .other _ _ => discardRest

/-- `on_packet_received(packet_id, reader)`. -/
def onPacketReceived (env : Environment) (memory : ℕ) (packetId : BitVec 32) :
    PacketM Client Unit := do
  let c ← get
  match env.clientbound c.mState packetId with
  | some type => handlePacket env memory type
  | none => fail (.protocolError "invalid packet id")

/-- A turn of `receiver_task` from the `packet_reader` on. -/
def receivePacket (env : Environment) (memory : ℕ) : PacketM Client Unit := do
  let packetId ← readVarint
  onPacketReceived env memory packetId
  let n ← remaining
  if n ≠ 0 then fail (.decodeError "trailing data in packet") else pure ()

end Mccpp.Model
