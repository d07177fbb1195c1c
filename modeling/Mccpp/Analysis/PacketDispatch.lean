import Mccpp.Analysis.PacketNames
import Mccpp.Library.Fallible

/-!
# Packets go where the file says

The switch that is compiled from what the generator emits takes the ids of the packets that the file lists for a
state, and no others, and hands each to the handler of its name. That a handler is declared for a type makes the
compiler insist on the packet, so that each handler is for exactly one id.
-/

set_option autoImplicit false

namespace Mccpp.Analysis

open Mccpp.Library Mccpp.Model Mccpp.Model.PacketTypes Mccpp.Interface

/-! ## States -/

theorem upper_eq_iff (state : ConnectionState) (name : List Char) :
    name.map Char.toUpper = state.upper ↔ name.map Char.toLower = state.lower := by
  have hlower : state.upper.map Char.toLower = state.lower := by cases state <;> rfl
  have hupper : state.lower.map Char.toUpper = state.upper := by cases state <;> rfl
  constructor
  · intro h
    rw [← hlower, ← h, List.map_map]
    exact List.map_congr_left fun c _ => (Char.toLower_toUpper_eq_toLower c).symm
  · intro h
    rw [← hupper, ← h, List.map_map]
    exact List.map_congr_left fun c _ => (Char.toUpper_toLower_eq_toUpper c).symm

/-! ## Handlers -/

/-- The full name of the type of a packet. -/
def fullName (state : ConnectionState) (packet : PacketItem) : List (List Char) :=
  [Direction.lower .clientbound, state.lower, typeName packet]

theorem state_of_mem_packetHandlers {handler : ConnectionState × String × ClientboundType}
    (h : handler ∈ packetHandlers) : handler.2.2.state = handler.1 := by
  revert handler
  decide

theorem eq_of_mem_packetHandlers {handler other : ConnectionState × String × ClientboundType}
    (h : handler ∈ packetHandlers) (hother : other ∈ packetHandlers)
    (hsame : handler.1 = other.1 ∧ handler.2.1 = other.2.1 ∨ handler.2.2 = other.2.2) : handler = other := by
  have hall : ∀ handler ∈ packetHandlers, ∀ other ∈ packetHandlers,
      handler.1 = other.1 ∧ handler.2.1 = other.2.1 ∨ handler.2.2 = other.2.2 → handler = other := by
    decide
  exact hall handler h other hother hsame

theorem ne_other_of_mem_packetHandlers {handler : ConnectionState × String × ClientboundType}
    (h : handler ∈ packetHandlers) {state : ConnectionState} {n : ℕ} : handler.2.2 ≠ .other state n := by
  have hall : ∀ handler ∈ packetHandlers, handler.2.2 ≠ .other state n := by simp [packetHandlers]
  exact hall handler h

theorem fullName_eq_iff {state : ConnectionState} {packet : PacketItem} {name : List Char} :
    [Direction.lower .clientbound, state.lower, name] = fullName state packet ↔ typeName packet = name := by
  unfold fullName
  simp only [List.cons.injEq, and_true, true_and]
  exact eq_comm

/-- INTERNAL: the handler of the type of a packet. -/
theorem handlerOf_eq_iff (state : ConnectionState) (packet : PacketItem) (type : ClientboundType) :
    handlerOf state (fullName state packet) (receivedId packet) = type ↔ HandledAs state packet type := by
  unfold handlerOf HandledAs
  cases hfind : packetHandlers.find? fun h =>
      h.1 = state && [Direction.lower .clientbound, h.1.lower, h.2.1.toList] = fullName state packet with
  | none =>
    have hnone : ∀ handler ∈ packetHandlers, handler.1 = state → typeName packet ≠ handler.2.1.toList := by
      intro handler hhandler hstate hname
      have hnot := List.find?_eq_none.mp hfind handler hhandler
      simp only [Bool.and_eq_true, decide_eq_true_eq, not_and] at hnot
      subst hstate
      exact hnot rfl (fullName_eq_iff.mpr hname)
    constructor
    · intro h
      exact Or.inr ⟨hnone, h.symm⟩
    · rintro (⟨name, hmem, hname⟩ | ⟨_, htype⟩)
      · exact absurd hname (hnone _ hmem rfl)
      · exact htype.symm
  | some handler =>
    obtain ⟨state', name, type'⟩ := handler
    have hmem := List.mem_of_find?_eq_some hfind
    have hsome := List.find?_some hfind
    simp only [Bool.and_eq_true, decide_eq_true_eq] at hsome
    obtain ⟨rfl, hname⟩ := hsome
    rw [fullName_eq_iff] at hname
    constructor
    · rintro rfl
      exact Or.inl ⟨name, hmem, hname⟩
    · rintro (⟨other, hother, hsame⟩ | ⟨hnone, _⟩)
      · have heq : name = other := by
          rw [← String.toList_inj, ← hname, ← hsame]
        exact congrArg (fun handler => handler.2.2)
          (eq_of_mem_packetHandlers hmem hother (Or.inl ⟨rfl, heq⟩))
      · exact absurd hname (hnone _ hmem rfl)

/-! ## What is declared -/

/-- What the compiler has checked, and the switch that it has made. -/
structure Compiled (data : List StateItem) (s : Switch) : Prop where
  states : (data.map fun item => item.name.map Char.toUpper).Nodup
  types : ((emit data).types.map StructDeclaration.nameFull).Nodup
  specialized : ∀ nameFull ∈ specialized, ∃ type ∈ (emit data).types, type.nameFull = nameFull
  cases : (emit data).iterate.mapM (emit data).stateCase = some s

theorem compiled_of_compile {data : List StateItem} {s : Switch} (h : (emit data).compile = some s) :
    Compiled data s := by
  unfold Emitted.compile at h
  split_ifs at h with hchecks
  obtain ⟨hstates, _, htypes, hspecialized⟩ := hchecks
  refine ⟨?_, htypes, hspecialized, h⟩
  rw [emit, List.map_map, List.map_map] at hstates
  exact hstates

variable {data : List StateItem} {s : Switch}

theorem declared_of_lists {state : ConnectionState} {packet : PacketItem} (h : ListsPacket data state packet) :
    ⟨fullName state packet, packet.id⟩ ∈ (emit data).types := by
  obtain ⟨item, hitem, hupper, hpacket⟩ := h
  simp only [emit, List.mem_flatMap, List.mem_map]
  refine ⟨createState item, ⟨item, hitem, rfl⟩, createPacket packet .clientbound (item.name.map Char.toLower),
    List.mem_map.mpr ⟨packet, hpacket, rfl⟩, ?_⟩
  rw [fullName, ← (upper_eq_iff state item.name).mp hupper]
  rfl

theorem lists_of_declared {state : ConnectionState} {type : StructDeclaration} {name : List Char}
    (h : type ∈ (emit data).types) (hname : type.nameFull = [Direction.lower .clientbound, state.lower, name]) :
    ∃ packet, ListsPacket data state packet ∧ typeName packet = name ∧ packet.id = type.id := by
  simp only [emit, List.mem_flatMap, List.mem_map] at h
  obtain ⟨_, ⟨item, hitem, rfl⟩, _, hcreated, rfl⟩ := h
  obtain ⟨packet, hpacket, rfl⟩ := List.mem_map.mp hcreated
  simp only [List.cons.injEq, and_true, true_and] at hname
  exact ⟨packet, ⟨item, hitem, (upper_eq_iff state item.name).mpr hname.1, hpacket⟩, hname.2, rfl⟩

namespace Compiled

variable (hs : Compiled data s)

include hs

/-- INTERNAL: the case of a packet, where its id is an `int32_t`. -/
theorem case_eq {state : ConnectionState} {packet : PacketItem} (h : ListsPacket data state packet) :
    (emit data).case (fullName state packet) =
      if -2 ^ 31 ≤ packet.id ∧ packet.id < 2 ^ 31 then some (receivedId packet, fullName state packet)
      else none := by
  have hdeclared := declared_of_lists h
  have hfind : (emit data).types.find? (fun type => type.nameFull = fullName state packet) =
      some ⟨fullName state packet, packet.id⟩ := by
    cases hfind : (emit data).types.find? (fun type => type.nameFull = fullName state packet) with
    | none =>
      have hnot := List.find?_eq_none.mp hfind _ hdeclared
      simp at hnot
    | some type =>
      have hname := List.find?_some hfind
      rw [decide_eq_true_eq] at hname
      rw [List.inj_on_of_nodup_map hs.types (List.mem_of_find?_eq_some hfind) hdeclared hname]
  rw [Emitted.case, hfind]
  rfl

theorem keys_nodup : (s.map Prod.fst).Nodup := by
  have hkeys : s.map Prod.fst = (emit data).iterate.map Prod.fst := by
    apply map_mapM_eq hs.cases
    intro state state' h
    obtain ⟨cases, _, h⟩ := Option.bind_eq_some_iff.mp h
    split_ifs at h with hnodup
    rw [← Option.some.inj h]
  rw [hkeys, emit, List.map_map, List.map_map]
  exact hs.states

omit hs in
theorem entry_eq {state : ConnectionState} {item : StateItem} (hupper : item.name.map Char.toUpper = state.upper) :
    ((createState item).upper, ((createState item).packets .clientbound).map Packet.nameFull) =
      (state.upper, (item.packets .clientbound).map (fullName state)) := by
  have hlower := (upper_eq_iff state item.name).mp hupper
  rw [Prod.mk.injEq]
  refine ⟨hupper, ?_⟩
  rw [createState, List.map_map]
  apply List.map_congr_left
  intro packet _
  rw [fullName, ← hlower]
  rfl

/-- INTERNAL: the switch of a state that the file has. -/
theorem exists_cases {state : ConnectionState} {item : StateItem} (hitem : item ∈ data)
    (hupper : item.name.map Char.toUpper = state.upper) :
    ∃ cases, s.lookup state.upper = some cases ∧ (cases.map Prod.fst).Nodup ∧
      ((item.packets .clientbound).map (fullName state)).mapM (emit data).case = some cases := by
  have hentry : (state.upper, (item.packets .clientbound).map (fullName state)) ∈ (emit data).iterate := by
    rw [← entry_eq hupper]
    exact List.mem_map.mpr ⟨createState item, List.mem_map_of_mem hitem, rfl⟩
  obtain ⟨entry, hmem, hcase⟩ := exists_mem_mapM hs.cases hentry
  obtain ⟨cases, hcases, hcase⟩ := Option.bind_eq_some_iff.mp hcase
  split_ifs at hcase with hnodup
  obtain rfl := Option.some.inj hcase
  exact ⟨cases, (lookup_eq_some_iff_mem hs.keys_nodup).mpr hmem, hnodup, hcases⟩

theorem exists_item {state : ConnectionState} {cases : List (BitVec 32 × List (List Char))}
    (h : s.lookup state.upper = some cases) : ∃ item ∈ data, item.name.map Char.toUpper = state.upper := by
  obtain ⟨entry, hentry, hcase⟩ := (mem_mapM_iff hs.cases).mp ((lookup_eq_some_iff_mem hs.keys_nodup).mp h)
  obtain ⟨_, hstate, rfl⟩ := List.mem_map.mp hentry
  obtain ⟨item, hitem, rfl⟩ := List.mem_map.mp hstate
  obtain ⟨_, _, hcase⟩ := Option.bind_eq_some_iff.mp hcase
  split_ifs at hcase
  exact ⟨item, hitem, congrArg Prod.fst (Option.some.inj hcase)⟩

/-- INTERNAL: an id that is not an `int32_t` is not compiled. -/
theorem fits {state : ConnectionState} {packet : PacketItem} (h : ListsPacket data state packet) :
    -2 ^ 31 ≤ packet.id ∧ packet.id < 2 ^ 31 := by
  obtain ⟨item, hitem, hupper, hpacket⟩ := id h
  obtain ⟨cases, _, _, hcases⟩ := hs.exists_cases hitem hupper
  obtain ⟨_, _, hcase⟩ := exists_mem_mapM hcases (List.mem_map.mpr ⟨packet, hpacket, rfl⟩)
  rw [hs.case_eq h] at hcase
  split_ifs at hcase with hfits
  exact hfits

/-- INTERNAL: the cases of a state are those of its packets. -/
theorem mem_switch_iff {state : ConnectionState} {id : BitVec 32} {nameFull : List (List Char)} :
    (∃ cases, s.lookup state.upper = some cases ∧ cases.lookup id = some nameFull) ↔
      ∃ packet, ListsPacket data state packet ∧ receivedId packet = id ∧ fullName state packet = nameFull := by
  constructor
  · rintro ⟨cases, hlookup, hid⟩
    obtain ⟨item, hitem, hupper⟩ := hs.exists_item hlookup
    obtain ⟨cases', hlookup', hnodup, hcases⟩ := hs.exists_cases hitem hupper
    obtain rfl : cases = cases' := Option.some.inj (hlookup.symm.trans hlookup')
    obtain ⟨_, hname, hcase⟩ := (mem_mapM_iff hcases).mp ((lookup_eq_some_iff_mem hnodup).mp hid)
    obtain ⟨packet, hpacket, rfl⟩ := List.mem_map.mp hname
    have hlists : ListsPacket data state packet := ⟨item, hitem, hupper, hpacket⟩
    rw [hs.case_eq hlists, if_pos (hs.fits hlists), Option.some_inj, Prod.mk.injEq] at hcase
    exact ⟨packet, hlists, hcase⟩
  · rintro ⟨packet, hlists, rfl, rfl⟩
    obtain ⟨item, hitem, hupper, hpacket⟩ := id hlists
    obtain ⟨cases, hlookup, hnodup, hcases⟩ := hs.exists_cases hitem hupper
    obtain ⟨_, hmem, hcase⟩ := exists_mem_mapM hcases (List.mem_map.mpr ⟨packet, hpacket, rfl⟩)
    rw [hs.case_eq hlists, if_pos (hs.fits hlists)] at hcase
    obtain rfl := Option.some.inj hcase
    exact ⟨cases, hlookup, (lookup_eq_some_iff_mem hnodup).mpr hmem⟩

/-- INTERNAL: **what is received**. -/
theorem clientbound_eq_some_iff {state : ConnectionState} {id : BitVec 32} {type : ClientboundType} :
    s.clientbound state id = some type ↔ Receives data state id type := by
  constructor
  · intro h
    obtain ⟨cases, hlookup, h⟩ := Option.bind_eq_some_iff.mp h
    obtain ⟨nameFull, hid, h⟩ := Option.bind_eq_some_iff.mp h
    obtain ⟨packet, hlists, rfl, rfl⟩ := hs.mem_switch_iff.mp ⟨cases, hlookup, hid⟩
    exact ⟨packet, hlists, rfl, (handlerOf_eq_iff state packet type).mp (Option.some.inj h)⟩
  · rintro ⟨packet, hlists, rfl, hhandled⟩
    obtain ⟨cases, hlookup, hid⟩ := hs.mem_switch_iff.mpr ⟨packet, hlists, rfl, rfl⟩
    rw [Switch.clientbound, hlookup, Option.bind_eq_bind, Option.bind_some, hid, Option.bind_eq_bind,
      Option.bind_some, (handlerOf_eq_iff state packet type).mpr hhandled]

theorem distinct {state : ConnectionState} {packet other : PacketItem} (h : ListsPacket data state packet)
    (hother : ListsPacket data state other) (hid : receivedId packet = receivedId other) :
    typeName packet = typeName other := by
  obtain ⟨cases, hlookup, hname⟩ := hs.mem_switch_iff.mpr ⟨packet, h, rfl, rfl⟩
  obtain ⟨cases', hlookup', hname'⟩ := hs.mem_switch_iff.mpr ⟨other, hother, rfl, rfl⟩
  obtain rfl : cases = cases' := Option.some.inj (hlookup.symm.trans hlookup')
  rw [← hid, hname] at hname'
  exact fullName_eq_iff.mp (Option.some.inj hname').symm

/-- INTERNAL: the packet of a handler has an id, since its type is declared, and one only. -/
theorem reached {handler : ConnectionState × String × ClientboundType} (h : handler ∈ packetHandlers) :
    ∃! id, s.clientbound handler.1 id = some handler.2.2 := by
  obtain ⟨state, name, type⟩ := handler
  have hspecialized : [Direction.lower .clientbound, state.lower, name.toList] ∈ PacketTypes.specialized :=
    List.mem_append_left _ (List.mem_map.mpr ⟨_, h, rfl⟩)
  obtain ⟨declared, hdeclared, hname⟩ := hs.specialized _ hspecialized
  obtain ⟨packet, hlists, hpacket, _⟩ := lists_of_declared hdeclared hname
  refine ⟨receivedId packet, hs.clientbound_eq_some_iff.mpr ⟨packet, hlists, rfl, Or.inl ⟨name, h, hpacket⟩⟩, ?_⟩
  intro id hid
  obtain ⟨other, hother, rfl, hhandled⟩ := hs.clientbound_eq_some_iff.mp hid
  have hsame : typeName other = name.toList := by
    rcases hhandled with ⟨name', hmem, hname'⟩ | ⟨_, htype⟩
    · have hhandler := eq_of_mem_packetHandlers hmem h (Or.inr rfl)
      rw [hname', congrArg String.toList (congrArg (fun handler => handler.2.1) hhandler)]
    · exact absurd htype (ne_other_of_mem_packetHandlers h)
  have heq : fullName state other = fullName state packet := by
    rw [fullName, fullName, hsame, hpacket]
  have hstruct := List.inj_on_of_nodup_map hs.types (declared_of_lists hother) (declared_of_lists hlists) heq
  have hid : other.id = packet.id := congrArg StructDeclaration.id hstruct
  rw [receivedId, receivedId, hid]

theorem followsFile : FollowsFile data s where
  receives _ _ _ := hs.clientbound_eq_some_iff
  distinct _ _ _ := hs.distinct
  fits _ _ := hs.fits
  reached _ := hs.reached

end Compiled

theorem state_of_receives {state : ConnectionState} {id : BitVec 32} {type : ClientboundType}
    (h : Receives data state id type) : type.state = state := by
  obtain ⟨packet, _, _, ⟨name, hmem, _⟩ | ⟨_, rfl⟩⟩ := h
  · exact state_of_mem_packetHandlers hmem
  · rfl

/-- SOURCE: generator/packet_types.py:14-131, client/CMakeLists.txt:7-31, client/handlers.cc:10-57 — **packets go
where the file says**. Where what is generated from the file compiles, the ids that the client takes in a state are
those of the packets that the file lists for it, each is an `int32_t` of one type, and goes to the handler whose
name the packet has, or is dropped; every handler is for one id. All other ids end in `protocol_error`. -/
theorem packets_follow_file (h : (emit data).compile = some s) :
    FollowsFile data s ∧
      ∀ socket ids, ∃ env : Environment, env.socket = socket ∧ env.serverboundId = ids ∧
        env.clientbound = s.clientbound ∧ ∀ memory id c n,
          (∃ type, Receives data c.mState id type ∧
              onPacketReceived env memory id c n = handlePacket env memory type c n) ∨
            (∀ packet, ListsPacket data c.mState packet → receivedId packet ≠ id) ∧
              onPacketReceived env memory id c n = PacketM.fail (.protocolError "invalid packet id") c n := by
  have hs := compiled_of_compile h
  refine ⟨hs.followsFile, fun socket ids =>
    ⟨⟨socket, ids, s.clientbound, fun _ _ _ hid => state_of_receives (hs.clientbound_eq_some_iff.mp hid)⟩,
      rfl, rfl, rfl, fun memory id c n => ?_⟩⟩
  cases hid : s.clientbound c.mState id with
  | none =>
    right
    constructor
    · rintro packet hlists rfl
      have htype := hs.clientbound_eq_some_iff.mpr ⟨packet, hlists, rfl, (handlerOf_eq_iff _ packet _).mp rfl⟩
      rw [hid] at htype
      cases htype
    · simp only [onPacketReceived, bind, PacketM.get, Pull.bind, PacketM.andThen, hid]
  | some type =>
    left
    refine ⟨type, hs.clientbound_eq_some_iff.mp hid, ?_⟩
    simp only [onPacketReceived, bind, PacketM.get, Pull.bind, PacketM.andThen, hid]

/-! ## A file -/

/-- A state whose packets have ids from `0` on. -/
def listedState (name : String) (id : ℤ) (packets : List String) : StateItem where
  name := name.toList
  id := id
  packets direction :=
    if direction = .clientbound then packets.zipIdx.map fun packet => ⟨packet.1.toList, packet.2⟩ else []

/-- The states with the packets that there are handlers for, and one more. -/
def listedStates : List StateItem := [
  listedState "HANDSHAKING" (-1) [],
  listedState "PLAY" 0 ["ClientboundAddEntityPacket", "ClientboundCustomPayloadPacket",
    "ClientboundEntityEventPacket", "ClientboundExplodePacket", "ClientboundKeepAlivePacket",
    "ClientboundLevelChunkWithLightPacket", "ClientboundLoginPacket", "Pos", "PosRot", "Rot",
    "ClientboundRemoveEntitiesPacket", "ClientboundRotateHeadPacket", "ClientboundSetEntityDataPacket",
    "ClientboundSetEntityMotionPacket", "ClientboundSetTimePacket", "ClientboundTeleportEntityPacket",
    "ClientboundUpdateAttributesPacket"],
  listedState "STATUS" 1 ["ClientboundStatusResponsePacket", "ClientboundPongResponsePacket"],
  listedState "LOGIN" 2 ["ClientboundHelloPacket", "ClientboundGameProfilePacket",
    "ClientboundLoginCompressionPacket", "ClientboundCustomQueryPacket"]]

theorem packets_follow_file_listed :
    ∃ s, (emit listedStates).compile = some s ∧ FollowsFile listedStates s := by
  obtain ⟨s, hs⟩ := Option.isSome_iff_exists.mp
    (show ((emit listedStates).compile).isSome = true by decide +kernel)
  exact ⟨s, hs, (packets_follow_file hs).1⟩

end Mccpp.Analysis
