import Mccpp.Model.Client

/-!
# The generator of the packet types

`generator/packet_types.py` and `camel_to_snake` of `generator/utils.py`, from the decoded JSON file to what
the emitted headers declare, and how `client/handlers.cc` is compiled with them: `on_packet_received` is a
switch over the states, and in each of them one over the ids of its packets. The handlers are those that
`client/CMakeLists.txt` lists, and those that `handlers.cc` has itself. An object is the list of its items in
order, with a key only once. A qualified name is the list of its components. Names are of ASCII characters, and
what is written for `fmt` and for the log is left out.
-/

set_option autoImplicit false

namespace Mccpp.Model

/-! ## `camel_to_snake` -/

/-- `[A-Z]`. -/
def isAsciiUpper (c : Char) : Bool := 'A' ≤ c && c ≤ 'Z'

/-- `[a-z]`. -/
def isAsciiLower (c : Char) : Bool := 'a' ≤ c && c ≤ 'z'

/-- `[0-9]`. -/
def isAsciiDigit (c : Char) : Bool := '0' ≤ c && c ≤ '9'

/-- `_CAMEL_TO_SNAKE_0.sub(r"\1_\2", name)`, for `(.)([A-Z][a-z]+)`. In the `[a-z]+` of a match `inside` is
true; behind it the next match can begin. -/
def camelToSnake0 : (inside : Bool) → List Char → List Char
  | _, [] => []
  | _, [c] => [c]
  | inside, c :: next :: rest =>
    if inside && isAsciiLower c then c :: camelToSnake0 true (next :: rest)
    else if c != '\n' && isAsciiUpper next && rest.head?.any isAsciiLower then
      c :: '_' :: next :: camelToSnake0 true rest
    else c :: camelToSnake0 false (next :: rest)

/-- `_CAMEL_TO_SNAKE_1.sub(r"\1_\2", name)`, for `([a-z0-9])([A-Z])`. -/
def camelToSnake1 : List Char → List Char
  | c :: next :: rest =>
    if (isAsciiLower c || isAsciiDigit c) && isAsciiUpper next then c :: '_' :: next :: camelToSnake1 rest
    else c :: camelToSnake1 (next :: rest)
  | name => name

/-- `camel_to_snake(name)`. -/
def camelToSnake (name : List Char) : List Char :=
  (camelToSnake1 (camelToSnake0 false name)).map Char.toLower

namespace PacketTypes

/-! ## The JSON file -/

/-- `Direction`. -/
inductive Direction where
  | serverbound
  | clientbound
deriving DecidableEq, Repr

/-- `lower`. -/
def Direction.lower : Direction → List Char
  | serverbound => "serverbound".toList
  | clientbound => "clientbound".toList

/-- `title`. -/
def Direction.title : Direction → List Char
  | serverbound => "Serverbound".toList
  | clientbound => "Clientbound".toList

/-- A packet of the file. -/
structure PacketItem where
  name : List Char
  id : ℤ

/-- A state of the file. -/
structure StateItem where
  name : List Char
  id : ℤ
  packets : Direction → List PacketItem

/-! ## `Context` -/

/-- `Packet`, of a state and a direction. -/
structure Packet where
  nameOriginal : List Char
  nameClass : List Char
  id : ℤ
  nameFull : List (List Char)
deriving DecidableEq, Repr

/-- `State`. -/
structure State where
  upper : List Char
  lower : List Char
  id : ℤ
  packets : Direction → List Packet

/-- `name.removeprefix(front)`. -/
def removeFront (front name : List Char) : List Char := if front <+: name then name.drop front.length else name

/-- `Packet(name, id, direction, state)`. -/
def createPacket (item : PacketItem) (direction : Direction) (lower : List Char) : Packet :=
  let nameClass := camelToSnake (removeFront direction.title item.name)
  ⟨item.name, nameClass, item.id, [direction.lower, lower, nameClass]⟩

/-- `State(name, id)`, with its packets. -/
def createState (item : StateItem) : State where
  upper := item.name.map Char.toUpper
  lower := item.name.map Char.toLower
  id := item.id
  packets direction := (item.packets direction).map fun packet =>
    createPacket packet direction (item.name.map Char.toLower)

/-! ## The headers -/

/-- A struct of `types.hh`, with its `id`. -/
structure StructDeclaration where
  nameFull : List (List Char)
  id : ℤ
deriving DecidableEq, Repr

/-- What is emitted: the enumerators of `connection_state`, the structs of `clientbound/types.hh`, and
`MCCPP_ITERATE_CLIENTBOUND`, which names the packets of each state. -/
structure Emitted where
  states : List (List Char × ℤ)
  types : List StructDeclaration
  iterate : List (List Char × List (List (List Char)))

/-- `write_states(stream)`, `write_types(direction, stream)` and `write_iterators(direction, stream)` of
`Context(data)`. -/
def emit (data : List StateItem) : Emitted where
  states := (data.map createState).map fun state => (state.upper, state.id)
  types := (data.map createState).flatMap fun state =>
    (state.packets .clientbound).map fun packet =>
      ⟨[Direction.lower .clientbound, state.lower, packet.nameClass], packet.id⟩
  iterate := (data.map createState).map fun state =>
    (state.upper, (state.packets .clientbound).map Packet.nameFull)

/-! ## The handlers -/

end PacketTypes

namespace ConnectionState

/-- The enumerator. -/
def upper : ConnectionState → List Char
  | handshaking => "HANDSHAKING".toList
  | status => "STATUS".toList
  | login => "LOGIN".toList
  | play => "PLAY".toList

/-- The namespace. -/
def lower : ConnectionState → List Char
  | handshaking => "handshaking".toList
  | status => "status".toList
  | login => "login".toList
  | play => "play".toList

end ConnectionState

namespace PacketTypes

/-- `packet_handlers`, with what the handler of each of them is. -/
def packetHandlers : List (ConnectionState × String × ClientboundType) := [
  (.login, "custom_query_packet", .loginCustomQuery),
  (.login, "game_profile_packet", .gameProfile),
  (.login, "hello_packet", .hello),
  (.login, "login_compression_packet", .loginCompression),
  (.play, "custom_payload_packet", .customPayload),
  (.play, "keep_alive_packet", .keepAlive),
  (.play, "level_chunk_with_light_packet", .levelChunkWithLight),
  (.play, "login_packet", .login),
  (.status, "pong_response_packet", .pongResponse),
  (.status, "status_response_packet", .statusResponse)]

/-- The names in `SILENCE_PACKET`. -/
def silencedPackets : List String := [
  "add_entity_packet",
  "entity_event_packet",
  "pos_rot",
  "pos",
  "remove_entities_packet",
  "rot",
  "rotate_head_packet",
  "set_entity_data_packet",
  "set_entity_motion_packet",
  "set_time_packet",
  "teleport_entity_packet",
  "update_attributes_packet"]

/-- The types that `handle_packet` is specialized for. -/
def specialized : List (List (List Char)) :=
  packetHandlers.map (fun h => [Direction.lower .clientbound, h.1.lower, h.2.1.toList]) ++
    silencedPackets.map fun name => [Direction.lower .clientbound, ConnectionState.lower .play, name.toList]

/-- The handler of a type. One that is not listed drops its packet, silenced or not. -/
def handlerOf (state : ConnectionState) (nameFull : List (List Char)) (id : BitVec 32) : ClientboundType :=
  match packetHandlers.find? fun h =>
    h.1 = state && [Direction.lower .clientbound, h.1.lower, h.2.1.toList] = nameFull with
  | some h => h.2.2
  | none => .other state id.toNat

/-! ## The compiled switch -/

/-- The cases of `on_packet_received`: the states, and in each of them ids with the types they are of. -/
abbrev Switch : Type := List (List Char × List (BitVec 32 × List (List Char)))

/-- `case type::id`, where the type is declared. -/
def Emitted.case (e : Emitted) (nameFull : List (List Char)) : Option (BitVec 32 × List (List Char)) := do
  let type ← e.types.find? fun type => type.nameFull = nameFull
  if -2 ^ 31 ≤ type.id ∧ type.id < 2 ^ 31 then some (BitVec.ofInt 32 type.id, nameFull) else none

/-- The switch of a state. No id is there twice. -/
def Emitted.stateCase (e : Emitted) (state : List Char × List (List (List Char))) :
    Option (List Char × List (BitVec 32 × List (List Char))) := do
  let cases ← state.2.mapM e.case
  if (cases.map Prod.fst).Nodup then some (state.1, cases) else none

/-- `handlers.cc` with these headers. Enumerators and structs are declared once, no two enumerators that are
switched over are equal, and what is specialized is declared. -/
def Emitted.compile (e : Emitted) : Option Switch :=
  if (e.states.map Prod.fst).Nodup ∧ (e.states.map Prod.snd).Nodup ∧
      (e.types.map StructDeclaration.nameFull).Nodup ∧
      ∀ nameFull ∈ specialized, ∃ type ∈ e.types, type.nameFull = nameFull then
    e.iterate.mapM e.stateCase
  else none

/-- What an id is the type of in a state. -/
def Switch.clientbound (s : Switch) (state : ConnectionState) (id : BitVec 32) : Option ClientboundType := do
  let cases ← s.lookup state.upper
  let nameFull ← cases.lookup id
  some (handlerOf state nameFull id)

end PacketTypes

end Mccpp.Model
