import Setu.Enclave.StateDiff
import Setu.Runtime.Resources
import Setu.State.Commute
import Setu.State.Run

/-!
# Membership in subnets

Library `Validator`. A membership is a pair of objects, one found from the user and one found from
the subnet. Three kinds of events write them: a registration, a join and a leave. The objects show
the last of these events that was applied for the user and the subnet, and they show whether it
was a registration or a join, because a registration writes the first object only. Sources
`crates/setu-runtime/src/executor.rs` and `setu-validator/src/infra_executor.rs`.
-/

namespace Setu.Validator

open Setu.Base Setu.Types Setu.Runtime Setu.State Write

variable {D : Type} (H : Blake3 D)

/-- The record of a membership, `executor.rs:717-721`. -/
structure MembershipData where
  user : String
  subnetId : String
  joinedAt : UInt64

/-- The JSON forms of the objects that a registration writes. -/
structure RegistryJson extends ResourceJson where
  membershipBytes : MembershipData → Bytes

variable (user : Address) (subnetId : String)

/-- What is hashed to the identifier of the membership found from the user,
`executor.rs:716-725`. -/
def membershipPreimage : Bytes :=
  strBytes "SETU_MEMBERSHIP:" ++ strBytes ("user:" ++ user.toText ++ ":subnet:" ++ subnetId)

/-- What is hashed to the identifier of the membership found from the subnet,
`executor.rs:855-860`. -/
def memberPreimage : Bytes :=
  strBytes "SETU_SUBNET_MEMBER:" ++ strBytes ("subnet:" ++ subnetId ++ ":member:" ++ user.toText)

/-- `membership_object_id`: the forward index, from the user to the subnet. -/
def membershipObjectId : ObjectId :=
  hashedId H (membershipPreimage user subnetId)

/-- `reverse_object_id`: the reverse index, from the subnet to the user. -/
def reverseObjectId : ObjectId :=
  hashedId H (memberPreimage user subnetId)

/-- The creation of an object. -/
def createChange (id : ObjectId) (bytes : Bytes) : Runtime.StateChange :=
  ⟨.create, id, none, some bytes⟩

/-- The deletion of an object whose old state is not given. -/
def deleteChange (id : ObjectId) : Runtime.StateChange := ⟨.delete, id, none, none⟩

/-- Creation of an object that the store does not have, `executor.rs:739-750` and `754-765`. -/
def createIfNotExists (raw : HashMap ObjectId Bytes) (id : ObjectId) (bytes : Bytes) :
    List Runtime.StateChange × HashMap ObjectId Bytes :=
  if raw.lookup id = none then ([createChange id bytes], raw.insert id bytes) else ([], raw)

/-- `execute_user_register` of the runtime, `executor.rs:707-776`; `raw` are the raw objects of
the store. -/
def runtimeUserRegister (json : RegistryJson) (raw : HashMap ObjectId Bytes)
    (ctx : ExecutionContext) (user : Address) (subnetId : String) :
    ExecutionOutput × HashMap ObjectId Bytes :=
  let membership := membershipObjectId H user subnetId
  let address := user.toText
  let (fluxChanges, raw) := createIfNotExists raw (fluxStateObjectId H address)
    (json.fluxBytes (FluxState.new address ctx.timestamp))
  let (powerChanges, raw) := createIfNotExists raw (powerStateObjectId H address)
    (json.powerBytes (PowerState.new address))
  (⟨"User " ++ address ++ " registered in subnet '" ++ subnetId ++ "'",
      createChange membership (json.membershipBytes ⟨address, subnetId, ctx.timestamp⟩) ::
        (fluxChanges ++ powerChanges),
      membership :: (fluxChanges ++ powerChanges).map (·.objectId), []⟩, raw)

/-- `execute_subnet_join` of the runtime, `executor.rs:827-883`. -/
def runtimeSubnetJoin (json : RegistryJson) (ctx : ExecutionContext) (user : Address)
    (subnetId : String) : ExecutionOutput :=
  let data := json.membershipBytes ⟨user.toText, subnetId, ctx.timestamp⟩
  ⟨"User " ++ user.toText ++ " joined subnet '" ++ subnetId ++ "'",
    [createChange (membershipObjectId H user subnetId) data,
      createChange (reverseObjectId H user subnetId) data], [], []⟩

/-- `execute_subnet_leave` of the runtime, `executor.rs:886-932`. -/
def runtimeSubnetLeave : ExecutionOutput :=
  ⟨"User " ++ user.toText ++ " left subnet '" ++ subnetId ++ "'",
    [deleteChange (membershipObjectId H user subnetId),
      deleteChange (reverseObjectId H user subnetId)], [], []⟩

/-- `executor.rs:139-146`. -/
def toEventStateChange (sc : Runtime.StateChange) : Types.StateChange :=
  ⟨objectKey sc.objectId, sc.oldState, sc.newState, none⟩

/-- `set_execution_result`, `types/src/event.rs:812-816`, with the result of a successful run. -/
def setExecuted (event : Event) (output : ExecutionOutput) : Event :=
  { event with
    executionResult :=
      some ⟨true, some output.message, output.stateChanges.map toEventStateChange⟩
    status := .executed }

/-- The fields of a registration that its execution reads and its serialized form,
`types/src/registration.rs`. -/
structure UserRegistration where
  address : String
  subnetId : Option String
  serialized : Bytes

/-- `infra_executor.rs:47-52`; the provider is what `get_object` answers. -/
structure InfraExecutor where
  validatorId : String
  getObject : ObjectId → Option Bytes

/-- The readings of the system clock in one execution, by the executor and by `Event::new`. -/
structure ClockReadings where
  executor : UInt64
  event : UInt64

namespace InfraExecutor

/-- The execution context: the hash covers the texts of the request and the time. -/
def context (domain : String) (texts : List String) (timestamp : UInt64) : ExecutionContext :=
  ⟨timestamp, H.asBytes (H.hash (strBytes domain ++ texts.flatMap strBytes ++ u64Le timestamp))⟩

/-- The objects that are copied into the temporary store, `infra_executor.rs:200-214`. -/
def seeded (x : InfraExecutor) (ids : List ObjectId) : HashMap ObjectId Bytes :=
  ids.foldl (fun raw id ↦ (x.getObject id).elim raw (raw.insert id ·)) ∅

variable (json : RegistryJson) (hexError : String → String) (x : InfraExecutor)

/-- `infra_executor.rs:172-254`. -/
def executeUserRegister (registration : UserRegistration) (vlc : VLCSnapshot)
    (now : ClockReadings) : Except String Event := do
  let ctx := context H "SETU_TX_HASH:VALIDATOR:USER:" [registration.address] now.executor
  let user ← okOr (Address.fromHex registration.address)
    ("Invalid user address '" ++ registration.address ++ "': " ++ hexError registration.address)
  let subnetId := registration.subnetId.getD "subnet-0"
  let raw := x.seeded [fluxStateObjectId H user.toText, powerStateObjectId H user.toText]
  let (output, _) := runtimeUserRegister H json raw ctx user subnetId
  let event := { Event.new H .userRegister [] vlc x.validatorId now.event with
    payload := .userRegister registration.serialized }
  pure (setExecuted event output)

/-- `infra_executor.rs:751-802`. -/
def executeSubnetJoin (address subnetId : String) (vlc : VLCSnapshot) (now : ClockReadings) :
    Except String Event := do
  let ctx := context H "SETU_TX_HASH:VALIDATOR:JOIN:" [address, subnetId] now.executor
  let user ← okOr (Address.fromHex address)
    ("Invalid address '" ++ address ++ "': " ++ hexError address)
  let output := runtimeSubnetJoin H json ctx user subnetId
  pure (setExecuted (Event.new H .system [] vlc x.validatorId now.event) output)

/-- `infra_executor.rs:805-856`; the context is not read. -/
def executeSubnetLeave (address subnetId : String) (vlc : VLCSnapshot) (now : ClockReadings) :
    Except String Event := do
  let user ← okOr (Address.fromHex address)
    ("Invalid address '" ++ address ++ "': " ++ hexError address)
  let output := runtimeSubnetLeave H user subnetId
  pure (setExecuted (Event.new H .system [] vlc x.validatorId now.event) output)

end InfraExecutor

/-- The three kinds of events that change a membership. -/
inductive MembershipKind where
  | register | join | leave
  deriving DecidableEq

/-- The event comes from the executor of its kind, for the user and the subnet. -/
inductive Made (json : RegistryJson) (hexError : String → String) :
    MembershipKind → Address → String → Event → Prop
  | register {x : InfraExecutor} {registration : UserRegistration} {vlc : VLCSnapshot}
      {now : ClockReadings} {user : Address} {event : Event}
      (haddress : Address.fromHex registration.address = some user)
      (hrun : x.executeUserRegister H json hexError registration vlc now = .ok event) :
      Made json hexError .register user (registration.subnetId.getD "subnet-0") event
  | join {x : InfraExecutor} {address subnetId : String} {vlc : VLCSnapshot}
      {now : ClockReadings} {user : Address} {event : Event}
      (haddress : Address.fromHex address = some user)
      (hrun : x.executeSubnetJoin H json hexError address subnetId vlc now = .ok event) :
      Made json hexError .join user subnetId event
  | leave {x : InfraExecutor} {address subnetId : String} {vlc : VLCSnapshot}
      {now : ClockReadings} {user : Address} {event : Event}
      (haddress : Address.fromHex address = some user)
      (hrun : x.executeSubnetLeave H hexError address subnetId vlc now = .ok event) :
      Made json hexError .leave user subnetId event

/-- An event of one of the three kinds, with the executor's run that made it. -/
structure MembershipEvent (json : RegistryJson) (hexError : String → String) where
  kind : MembershipKind
  user : Address
  subnetId : String
  event : Event
  made : Made H json hexError kind user subnetId event

/-- The objects of a user and a subnet in the root subnet. -/
def forwardKey (pair : Address × String) : SubnetId × ObjectId :=
  (.root, membershipObjectId H pair.1 pair.2)

def reverseKey (pair : Address × String) : SubnetId × ObjectId :=
  (.root, reverseObjectId H pair.1 pair.2)

namespace MembershipEvent

variable {H} {json : RegistryJson} {hexError : String → String}

/-- The user and the subnet of the event. -/
def pair (e : MembershipEvent H json hexError) : Address × String := (e.user, e.subnetId)

/-- The events that the state admits when their turn comes; the others conflict and are left
out. -/
def admitted : Objects → List (MembershipEvent H json hexError) →
    List (MembershipEvent H json hexError)
  | _, [] => []
  | s, e :: rest =>
    let rest := admitted (transact s (writesOf H e.event)) rest
    if Admits H s e.event then e :: rest else rest

/-- The kind of the last event for the user and the subnet. -/
def lastKind (events : List (MembershipEvent H json hexError)) (pair : Address × String) :
    Option MembershipKind :=
  ((events.filter (·.pair = pair)).getLast?).map (·.kind)

end MembershipEvent

variable {H}

theorem writesOf_setExecuted {event : Event} (hs : event.getSubnetId = .root)
    (output : ExecutionOutput) :
    writesOf H (setExecuted event output) =
      output.stateChanges.map fun sc ↦ ⟨(.root, sc.objectId), sc.oldState, sc.newState⟩ := by
  have hr : (setExecuted event output).getSubnetId = .root := hs
  simp only [writesOf, eventWrites, setExecuted, if_true, Option.getD_some, resultWrites,
    List.map_map]
  apply List.map_congr_left
  intro sc _
  simp only [Function.comp_apply, changeWrite, toEventStateChange, changeTarget, Option.getD_none,
    Enclave.parseStateChangeKey_objectKey]
  rw [← hr]
  rfl

private theorem key_of_createIfNotExists {raw : HashMap ObjectId Bytes} {id : ObjectId}
    {bytes : Bytes} {sc : Runtime.StateChange} (h : sc ∈ (createIfNotExists raw id bytes).1) :
    sc.objectId = id := by
  unfold createIfNotExists at h
  split at h
  · obtain rfl := List.mem_singleton.mp h
    rfl
  · cases h

variable (H) in
/-- The writes of an event of each kind, in the root subnet. A registration may create the
resources of the user besides the forward object. -/
def Writes (pair : Address × String) (ws : List (Write (SubnetId × ObjectId) Bytes)) :
    MembershipKind → Prop
  | .register => ∃ value rest, ws = ⟨forwardKey H pair, none, some value⟩ :: rest ∧
      ∀ w ∈ rest, w.key = (.root, fluxStateObjectId H pair.1.toText) ∨
        w.key = (.root, powerStateObjectId H pair.1.toText)
  | .join => ∃ value, ws =
      [⟨forwardKey H pair, none, some value⟩, ⟨reverseKey H pair, none, some value⟩]
  | .leave => ws = [⟨forwardKey H pair, none, none⟩, ⟨reverseKey H pair, none, none⟩]

variable {json : RegistryJson} {hexError : String → String}

theorem Made.writes {kind : MembershipKind} {user : Address} {subnetId : String} {event : Event}
    (h : Made H json hexError kind user subnetId event) :
    (eventWrites H event).isSome ∧ Writes H (user, subnetId) (writesOf H event) kind := by
  cases h with
  | register ha hr =>
    simp only [InfraExecutor.executeUserRegister, bind_eq_ok, okOr_eq_ok, pure_eq_ok,
      ha, Option.some.injEq, exists_eq_left'] at hr
    subst hr
    refine ⟨rfl, ?_⟩
    rw [writesOf_setExecuted rfl]
    refine ⟨_, _, List.map_cons, ?_⟩
    intro w hw
    obtain ⟨sc, hsc, rfl⟩ := List.mem_map.mp hw
    rcases List.mem_append.mp hsc with hf | hp
    · exact .inl (congrArg (Prod.mk _) (key_of_createIfNotExists hf))
    · exact .inr (congrArg (Prod.mk _) (key_of_createIfNotExists hp))
  | join ha hr =>
    simp only [InfraExecutor.executeSubnetJoin, bind_eq_ok, okOr_eq_ok, pure_eq_ok,
      ha, Option.some.injEq, exists_eq_left'] at hr
    subst hr
    refine ⟨rfl, ?_⟩
    rw [writesOf_setExecuted rfl]
    exact ⟨_, rfl⟩
  | leave ha hr =>
    simp only [InfraExecutor.executeSubnetLeave, bind_eq_ok, okOr_eq_ok, pure_eq_ok,
      ha, Option.some.injEq, exists_eq_left'] at hr
    subst hr
    refine ⟨rfl, ?_⟩
    rw [writesOf_setExecuted rfl]
    rfl

/-- What is hashed to the identifiers of the objects that events for the pairs write. -/
def preimages (pairs : List (Address × String)) : List Bytes :=
  pairs.flatMap fun pair ↦
    [membershipPreimage pair.1 pair.2, memberPreimage pair.1 pair.2,
      strBytes "SETU_FLUX:" ++ strBytes (pair.1.toText.map Char.toLower),
      strBytes "SETU_POWER:" ++ strBytes (pair.1.toText.map Char.toLower)]

variable (H) in
/-- BLAKE3 gives no two of the objects of the pairs the same identifier. -/
def IdsCollisionFree (pairs : List (Address × String)) : Prop :=
  ∀ a ∈ preimages pairs, ∀ b ∈ preimages pairs, hashedId H a = hashedId H b → a = b

theorem length_toText (address : Address) : address.toText.toList.length = 66 := by
  simp [Address.toText, Address.asBytes, length_hexEncode]

theorem toText_injective : Function.Injective Address.toText := by
  intro a b h
  have hr := congrArg Address.fromHex h
  rwa [Address.fromHex_toText, Address.fromHex_toText, Option.some.injEq] at hr

/-- The user and the subnet can be read off the key of the forward object. -/
theorem membershipPreimage_inj {p q : Address × String}
    (h : membershipPreimage p.1 p.2 = membershipPreimage q.1 q.2) : p = q := by
  have ht := congrArg String.toList (strBytes_inj.mp (List.append_cancel_left h))
  simp only [String.toList_append, List.append_assoc, List.append_cancel_left_eq] at ht
  have hc := List.append_inj ht (by rw [length_toText, length_toText])
  have hs := List.append_cancel_left hc.2
  exact Prod.ext (toText_injective (String.toList_inj.mp hc.1)) (String.toList_inj.mp hs)

/-- The user and the subnet can be read off the key of the reverse object. -/
theorem memberPreimage_inj {p q : Address × String}
    (h : memberPreimage p.1 p.2 = memberPreimage q.1 q.2) : p = q := by
  have ht := congrArg String.toList (strBytes_inj.mp (List.append_cancel_left h))
  simp only [String.toList_append] at ht
  have hc := List.append_inj' ht (by rw [length_toText, length_toText])
  have hs := List.append_cancel_left (List.append_cancel_right hc.1)
  exact Prod.ext (toText_injective (String.toList_inj.mp hc.2)) (String.toList_inj.mp hs)

/-- The domain starts with the six bytes. -/
private def StartsWith (domain start : Bytes) : Prop := start.length = 6 ∧ domain.take 6 = start

private theorem membership_start :
    StartsWith (strBytes "SETU_MEMBERSHIP:") [83, 69, 84, 85, 95, 77] := by
  exact ⟨rfl, by decide⟩

private theorem member_start :
    StartsWith (strBytes "SETU_SUBNET_MEMBER:") [83, 69, 84, 85, 95, 83] := by
  exact ⟨rfl, by decide⟩

private theorem flux_start : StartsWith (strBytes "SETU_FLUX:") [83, 69, 84, 85, 95, 70] := by
  exact ⟨rfl, by decide⟩

private theorem power_start : StartsWith (strBytes "SETU_POWER:") [83, 69, 84, 85, 95, 80] := by
  exact ⟨rfl, by decide⟩

private theorem StartsWith.take_append {a u : Bytes} (h : StartsWith a u) (x : Bytes) :
    (a ++ x).take 6 = u := by
  have hl := congrArg List.length h.2
  rw [h.1, List.length_take] at hl
  rw [List.take_append_of_le_length (by omega), h.2]

private theorem domain_ne {a b u v x y : Bytes} (ha : StartsWith a u) (hb : StartsWith b v)
    (h : u ≠ v) : a ++ x ≠ b ++ y := by
  intro heq
  apply h
  rw [← ha.take_append x, heq, hb.take_append y]

variable (H) in
/-- The objects of the pairs have keys of their own. -/
structure KeysApart (pairs : List (Address × String)) : Prop where
  forward : ∀ p ∈ pairs, ∀ q ∈ pairs, forwardKey H p = forwardKey H q → p = q
  reverse : ∀ p ∈ pairs, ∀ q ∈ pairs, reverseKey H p = reverseKey H q → p = q
  forward_ne_reverse : ∀ p ∈ pairs, ∀ q ∈ pairs, forwardKey H p ≠ reverseKey H q
  flux : ∀ p ∈ pairs, ∀ q ∈ pairs, (.root, fluxStateObjectId H p.1.toText) ≠ forwardKey H q ∧
    (.root, fluxStateObjectId H p.1.toText) ≠ reverseKey H q
  power : ∀ p ∈ pairs, ∀ q ∈ pairs, (.root, powerStateObjectId H p.1.toText) ≠ forwardKey H q ∧
    (.root, powerStateObjectId H p.1.toText) ≠ reverseKey H q

theorem IdsCollisionFree.keysApart {pairs : List (Address × String)}
    (h : IdsCollisionFree H pairs) : KeysApart H pairs := by
  have hm (p : Address × String) (hp : p ∈ pairs) (preimage : Bytes)
      (hpr : preimage ∈ preimages [p]) : preimage ∈ preimages pairs := by
    rw [preimages, List.flatMap_singleton] at hpr
    exact List.mem_flatMap.mpr ⟨p, hp, hpr⟩
  have hne {p q : Address × String} (hp : p ∈ pairs) (hq : q ∈ pairs) {a b : Bytes}
      (ha : a ∈ preimages [p]) (hb : b ∈ preimages [q]) (hab : a ≠ b) :
      ((.root, hashedId H a) : SubnetId × ObjectId) ≠ (.root, hashedId H b) := by
    intro heq
    exact hab (h a (hm p hp a ha) b (hm q hq b hb) (Prod.mk.inj heq).2)
  constructor
  case forward =>
    intro p hp q hq heq
    by_contra hpq
    exact hne hp hq (by simp [preimages]) (by simp [preimages])
      (fun hs ↦ hpq (membershipPreimage_inj hs)) heq
  case reverse =>
    intro p hp q hq heq
    by_contra hpq
    exact hne hp hq (by simp [preimages]) (by simp [preimages])
      (fun hs ↦ hpq (memberPreimage_inj hs)) heq
  case forward_ne_reverse =>
    intro p hp q hq
    apply hne hp hq (by simp [preimages]) (by simp [preimages])
    exact domain_ne membership_start member_start (by decide)
  case flux =>
    intro p hp q hq
    constructor
    · apply hne hp hq (by simp [preimages]) (by simp [preimages])
      exact domain_ne flux_start membership_start (by decide)
    · apply hne hp hq (by simp [preimages]) (by simp [preimages])
      exact domain_ne flux_start member_start (by decide)
  case power =>
    intro p hp q hq
    constructor
    · apply hne hp hq (by simp [preimages]) (by simp [preimages])
      exact domain_ne power_start membership_start (by decide)
    · apply hne hp hq (by simp [preimages]) (by simp [preimages])
      exact domain_ne power_start member_start (by decide)

/-- The resources of a user are none of the membership objects. -/
theorem KeysApart.resource_ne {pairs : List (Address × String)} (h : KeysApart H pairs)
    {p q : Address × String} (hp : p ∈ pairs) (hq : q ∈ pairs) {key : SubnetId × ObjectId}
    (hk : key = (.root, fluxStateObjectId H p.1.toText) ∨
      key = (.root, powerStateObjectId H p.1.toText)) :
    key ≠ forwardKey H q ∧ key ≠ reverseKey H q := by
  rcases hk with rfl | rfl
  · exact h.flux p hp q hq
  · exact h.power p hp q hq

variable (H) in
/-- The objects show the last event that was applied for the user and the subnet: the forward
object stands after a registration and after a join, the reverse object after a join only. -/
structure Shows (s : Objects) (pair : Address × String) (last : Option MembershipKind) : Prop where
  forward : (s (forwardKey H pair)).isSome ↔ last = some .register ∨ last = some .join
  reverse : (s (reverseKey H pair)).isSome ↔ last = some .join

namespace MembershipEvent

theorem admits_iff {s : Objects} (e : MembershipEvent H json hexError) :
    Admits H s e.event ↔ Write.Passes s (writesOf H e.event) := by
  rw [admits_iff_passes, and_iff_right e.made.writes.1]

theorem writes (e : MembershipEvent H json hexError) :
    Writes H e.pair (writesOf H e.event) e.kind :=
  e.made.writes.2

variable {pairs : List (Address × String)}

/-- An event writes no membership object of another user or subnet. -/
theorem key_ne (ha : KeysApart H pairs) (e : MembershipEvent H json hexError)
    (he : e.pair ∈ pairs) {pair : Address × String} (hp : pair ∈ pairs) (hne : e.pair ≠ pair) :
    ∀ w ∈ writesOf H e.event, w.key ≠ forwardKey H pair ∧ w.key ≠ reverseKey H pair := by
  have hf : forwardKey H e.pair ≠ forwardKey H pair ∧ forwardKey H e.pair ≠ reverseKey H pair :=
    ⟨fun heq ↦ hne (ha.forward _ he _ hp heq), ha.forward_ne_reverse _ he _ hp⟩
  have hr : reverseKey H e.pair ≠ forwardKey H pair ∧ reverseKey H e.pair ≠ reverseKey H pair :=
    ⟨(ha.forward_ne_reverse _ hp _ he).symm, fun heq ↦ hne (ha.reverse _ he _ hp heq)⟩
  have hwr := e.writes
  intro w hw
  cases hk : e.kind with
  | register =>
    rw [hk] at hwr
    obtain ⟨value, rest, heq, hre⟩ := hwr
    rw [heq] at hw
    rcases List.mem_cons.mp hw with rfl | hw
    · exact hf
    · exact ha.resource_ne he hp (hre w hw)
  | join =>
    rw [hk] at hwr
    obtain ⟨value, heq⟩ := hwr
    rw [heq] at hw
    rcases List.mem_pair.mp hw with rfl | rfl
    · exact hf
    · exact hr
  | leave =>
    rw [hk] at hwr
    rw [hwr] at hw
    rcases List.mem_pair.mp hw with rfl | rfl
    · exact hf
    · exact hr

/-- An applied event is what the objects of its user and subnet show next. -/
theorem shows_of_admits (ha : KeysApart H pairs) (e : MembershipEvent H json hexError)
    (he : e.pair ∈ pairs) {s : Objects} {last : Option MembershipKind} (h : Shows H s e.pair last)
    (had : Admits H s e.event) :
    Shows H (transact s (writesOf H e.event)) e.pair (some e.kind) := by
  have hp := e.admits_iff.mp had
  have hne := ha.forward_ne_reverse _ he _ he
  have hwr := e.writes
  rw [transact_of_passes hp]
  cases hk : e.kind with
  | register =>
    rw [hk] at hwr
    obtain ⟨value, rest, heq, hr⟩ := hwr
    rw [heq] at hp ⊢
    -- the forward object was missing, so the last event was no join and the reverse is missing
    have hf : s (forwardKey H e.pair) = none := hp.1.1.2 ⟨rfl, Option.some_ne_none _⟩
    have hl : last ≠ some .join := by
      intro hj
      have hs := h.forward.mpr (.inr hj)
      rw [hf] at hs
      cases hs
    have hfo : applyAll s (⟨forwardKey H e.pair, none, some value⟩ :: rest)
        (forwardKey H e.pair) = some value := by
      rw [applyAll_cons, applyAll_of_ne, apply, Function.update_self]
      intro w hw
      exact (ha.resource_ne he he (hr w hw)).1
    have hre : applyAll s (⟨forwardKey H e.pair, none, some value⟩ :: rest)
        (reverseKey H e.pair) = s (reverseKey H e.pair) := by
      apply applyAll_of_ne
      intro w hw
      rcases List.mem_cons.mp hw with rfl | hw
      · exact hne
      · exact (ha.resource_ne he he (hr w hw)).2
    constructor
    · rw [hfo]
      simp
    · rw [hre, h.reverse]
      simp [hl]
  | join =>
    rw [hk] at hwr
    obtain ⟨value, heq⟩ := hwr
    rw [heq]
    constructor
    · rw [applyAll_pair_left hne.symm]
      simp
    · rw [applyAll_pair_right]
      simp
  | leave =>
    rw [hk] at hwr
    rw [hwr]
    constructor
    · rw [applyAll_pair_left hne.symm]
      simp
    · rw [applyAll_pair_right]
      simp

variable (log : List (MembershipEvent H json hexError))

theorem lastKind_append_self
    (e : MembershipEvent H json hexError) : lastKind (log ++ [e]) e.pair = some e.kind := by
  simp [lastKind, List.filter_append]

theorem lastKind_append_of_ne {e : MembershipEvent H json hexError} {pair : Address × String}
    (hne : e.pair ≠ pair) : lastKind (log ++ [e]) pair = lastKind log pair := by
  simp [lastKind, List.filter_append, hne]

/-- One event: the log grows by the event if it is applied. -/
theorem shows_step (hap : KeysApart H pairs) (e : MembershipEvent H json hexError)
    (he : e.pair ∈ pairs) {s : Objects} {log : List (MembershipEvent H json hexError)}
    (h : ∀ pair ∈ pairs, Shows H s pair (lastKind log pair)) :
    ∀ pair ∈ pairs, Shows H (transact s (writesOf H e.event)) pair
      (lastKind (if Admits H s e.event then log ++ [e] else log) pair) := by
  intro pair hp
  by_cases ha : Admits H s e.event
  · rw [if_pos ha]
    by_cases hs : e.pair = pair
    · subst hs
      rw [lastKind_append_self]
      exact shows_of_admits hap e he (h _ hp) ha
    · rw [lastKind_append_of_ne log hs]
      have hk := e.key_ne hap he hp hs
      constructor
      · rw [transact_of_ne fun w hw ↦ (hk w hw).1]
        exact (h pair hp).forward
      · rw [transact_of_ne fun w hw ↦ (hk w hw).2]
        exact (h pair hp).reverse
  · have hpa : ¬ Write.Passes s (writesOf H e.event) := mt e.admits_iff.mpr ha
    rw [if_neg ha, transact_of_not_passes hpa]
    exact h pair hp

/-- A list of events: the log grows by those that are applied. -/
theorem shows_run (ha : KeysApart H pairs) (events : List (MembershipEvent H json hexError))
    (hev : ∀ e ∈ events, e.pair ∈ pairs) {s : Objects}
    {log : List (MembershipEvent H json hexError)}
    (h : ∀ pair ∈ pairs, Shows H s pair (lastKind log pair)) :
    ∀ pair ∈ pairs, Shows H ((events.map fun e ↦ writesOf H e.event).foldl transact s) pair
      (lastKind (log ++ admitted s events) pair) := by
  induction events generalizing s log with
  | nil => simpa [admitted] using h
  | cons e rest ih =>
    have hs := shows_step ha e (hev e List.mem_cons_self) h
    have hr := ih (fun e' he' ↦ hev e' (List.mem_cons_of_mem e he')) hs
    intro pair hp
    have hl : log ++ admitted s (e :: rest) = (if Admits H s e.event then log ++ [e] else log) ++
          admitted (transact s (writesOf H e.event)) rest := by
      by_cases had : Admits H s e.event <;> simp [admitted, had]
    rw [hl]
    exact hr pair hp

end MembershipEvent

section History

variable [DecidableEq D]

/-- Calls of `apply_committed_events` with membership events. -/
abbrev MembershipCalls (H : Blake3 D) (json : RegistryJson) (hexError : String → String) :=
  List (List (MembershipEvent H json hexError) × UInt64)

namespace MembershipCalls

variable (calls : MembershipCalls H json hexError)

/-- The object state after the calls, from an empty manager. -/
def objects : Objects :=
  ((GlobalStateManager.new H).applyCalls H
    (calls.map fun call ↦ (call.1.map (·.event), call.2))).objects H

/-- The events in the order in which the calls take them. -/
def ordered : List (MembershipEvent H json hexError) :=
  calls.flatMap fun call ↦ sortOn (fun e ↦ eventOrder e.event) call.1

/-- The kind of the last event that was applied for the user and the subnet. -/
def lastApplied (pair : Address × String) : Option MembershipKind :=
  MembershipEvent.lastKind (MembershipEvent.admitted (fun _ ↦ none) calls.ordered) pair

/-- The two indexes mirror each other: the forward object exists exactly if the reverse object
does, and exactly if the last event applied for the user and the subnet was a registration or a
join. -/
structure Mirrors (pair : Address × String) : Prop where
  paired : (calls.objects (forwardKey H pair)).isSome ↔ (calls.objects (reverseKey H pair)).isSome
  current : (calls.objects (forwardKey H pair)).isSome ↔
    calls.lastApplied pair = some .register ∨ calls.lastApplied pair = some .join

theorem objects_eq : calls.objects =
    (calls.ordered.map fun e ↦ writesOf H e.event).foldl transact fun _ ↦ none := by
  have ha : GlobalStateManager.applied
      (calls.map fun call ↦ (call.1.map (·.event), call.2)) = calls.ordered.map (·.event) := by
    simp only [GlobalStateManager.applied, ordered, List.flatMap_map, List.map_flatMap, map_sortOn]
  rw [objects, GlobalStateManager.objects_applyCalls, ha, GlobalStateManager.objects_new,
    List.map_map]
  rfl

theorem shows_lastApplied {pairs : List (Address × String)} (hi : IdsCollisionFree H pairs)
    (hc : ∀ call ∈ calls, ∀ e ∈ call.1, e.pair ∈ pairs) :
    ∀ pair ∈ pairs, Shows H calls.objects pair (calls.lastApplied pair) := by
  have hev : ∀ e ∈ calls.ordered, e.pair ∈ pairs := by
    intro e he
    obtain ⟨call, hca, he⟩ := List.mem_flatMap.mp he
    exact hc call hca e ((sortOn_perm _ _).mem_iff.mp he)
  have hs : ∀ pair ∈ pairs, Shows H (fun _ ↦ none) pair
      (MembershipEvent.lastKind ([] : List (MembershipEvent H json hexError)) pair) := by
    intro pair _
    constructor <;> simp [MembershipEvent.lastKind]
  rw [objects_eq]
  exact MembershipEvent.shows_run hi.keysApart calls.ordered hev hs

/-- After any calls the indexes mirror each other for a user and a subnet exactly if the last
event applied for them was not a registration. -/
theorem mirrors_iff_not_register {pairs : List (Address × String)}
    (hids : IdsCollisionFree H pairs) (hcalls : ∀ call ∈ calls, ∀ e ∈ call.1, e.pair ∈ pairs)
    {pair : Address × String} (hpair : pair ∈ pairs) :
    calls.Mirrors pair ↔ calls.lastApplied pair ≠ some .register := by
  have hs := calls.shows_lastApplied hids hcalls pair hpair
  constructor
  · intro hm hr
    have hre := hm.paired.mp (hs.forward.mpr (.inl hr))
    rw [hs.reverse, hr] at hre
    cases hre
  · intro hr
    constructor
    · rw [hs.forward, hs.reverse, or_iff_right hr]
    · exact hs.forward

/-- A hasher that shows the beginning of its preimage. -/
private def plainHash : Blake3 Bytes := ⟨id, id, []⟩

/-- JSON texts of one letter. -/
private def lettersJson : RegistryJson :=
  ⟨⟨fun _ ↦ [112], fun _ ↦ none, fun _ ↦ [102], fun _ ↦ none, fun _ ↦ none⟩, fun _ ↦ [109]⟩

/-- A validator whose state has no objects. -/
private def emptyValidator : InfraExecutor := ⟨"validator-1", fun _ ↦ none⟩

private def joined : Event :=
  setExecuted (Event.new plainHash .system [] ⟨∅, 1, 0⟩ "validator-1" 0)
    (runtimeSubnetJoin plainHash lettersJson (InfraExecutor.context plainHash
      "SETU_TX_HASH:VALIDATOR:JOIN:" [Address.zero.toText, "subnet-0"] 0) Address.zero "subnet-0")

private theorem executeSubnetJoin_zero :
    emptyValidator.executeSubnetJoin plainHash lettersJson id Address.zero.toText "subnet-0"
      ⟨∅, 1, 0⟩ ⟨0, 0⟩ = .ok joined := by
  simp only [InfraExecutor.executeSubnetJoin, bind_eq_ok, okOr_eq_ok, pure_eq_ok]
  exact ⟨_, Address.fromHex_toText _, rfl⟩

private def joinEvent : MembershipEvent plainHash lettersJson id where
  kind := .join
  user := Address.zero
  subnetId := "subnet-0"
  event := joined
  made := .join (Address.fromHex_toText Address.zero) executeSubnetJoin_zero

private def registered : Event :=
  setExecuted
    { Event.new plainHash .userRegister [] ⟨∅, 1, 0⟩ "validator-1" 0 with
      payload := .userRegister [] }
    (runtimeUserRegister plainHash lettersJson
      (emptyValidator.seeded [fluxStateObjectId plainHash Address.zero.toText,
        powerStateObjectId plainHash Address.zero.toText])
      (InfraExecutor.context plainHash "SETU_TX_HASH:VALIDATOR:USER:" [Address.zero.toText] 0)
      Address.zero "subnet-0").1

private theorem executeUserRegister_zero :
    emptyValidator.executeUserRegister plainHash lettersJson id ⟨Address.zero.toText, none, []⟩
      ⟨∅, 1, 0⟩ ⟨0, 0⟩ = .ok registered := by
  simp only [InfraExecutor.executeUserRegister, bind_eq_ok, okOr_eq_ok, pure_eq_ok]
  exact ⟨_, Address.fromHex_toText _, rfl⟩

private def registerEvent : MembershipEvent plainHash lettersJson id where
  kind := .register
  user := Address.zero
  subnetId := "subnet-0"
  event := registered
  made := .register (Address.fromHex_toText Address.zero) executeUserRegister_zero

private def zeroPair : Address × String := (Address.zero, "subnet-0")

private theorem idsCollisionFree_zeroPair : IdsCollisionFree plainHash [zeroPair] := by
  unfold IdsCollisionFree
  decide +kernel

variable {e : MembershipEvent plainHash lettersJson id}

private theorem lastApplied_singleton (ha : Admits plainHash (fun _ ↦ none) e.event) :
    lastApplied [([e], 1)] e.pair = some e.kind := by
  simp [lastApplied, ordered, sortOn, MembershipEvent.admitted, ha, MembershipEvent.lastKind]

private theorem pair_mem_singleton :
    ∀ call ∈ [([e], (1 : UInt64))], ∀ e' ∈ call.1, e'.pair ∈ [e.pair] := by
  simp

/-- A join that is applied. -/
theorem mirrors_join : Mirrors [([joinEvent], 1)] zeroPair := by
  have ha : Admits plainHash (fun _ ↦ none) joinEvent.event := by
    apply joinEvent.admits_iff.mpr
    change Write.Passes _ (writesOf plainHash (setExecuted _ _))
    rw [writesOf_setExecuted rfl]
    decide +kernel
  apply (mirrors_iff_not_register _ idsCollisionFree_zeroPair pair_mem_singleton
    List.mem_cons_self).mpr
  have hl : lastApplied [([joinEvent], 1)] zeroPair = some .join := lastApplied_singleton ha
  rw [hl]
  decide

/-- A registration in an empty state is applied, and leaves the forward object without the
reverse one. -/
theorem not_mirrors_register :
    lastApplied [([registerEvent], 1)] zeroPair = some .register ∧
      (objects [([registerEvent], 1)] (forwardKey plainHash zeroPair)).isSome ∧
      objects [([registerEvent], 1)] (reverseKey plainHash zeroPair) = none ∧
      ¬ Mirrors [([registerEvent], 1)] zeroPair := by
  have ha : Admits plainHash (fun _ ↦ none) registerEvent.event := by
    apply registerEvent.admits_iff.mpr
    change Write.Passes _ (writesOf plainHash (setExecuted _ _))
    rw [writesOf_setExecuted rfl]
    decide +kernel
  have hl : lastApplied [([registerEvent], 1)] zeroPair = some .register := lastApplied_singleton ha
  have hs := shows_lastApplied _ idsCollisionFree_zeroPair
    (pair_mem_singleton (e := registerEvent)) zeroPair List.mem_cons_self
  rw [hl] at hs
  have hf := hs.forward.mpr (.inl rfl)
  have hr : objects [([registerEvent], 1)] (reverseKey plainHash zeroPair) = none := by
    apply Option.not_isSome_iff_eq_none.mp
    intro hso
    cases hs.reverse.mp hso
  refine ⟨hl, hf, hr, fun hm ↦ ?_⟩
  have hp := hm.paired.mp hf
  rw [hr] at hp
  cases hp

end MembershipCalls

end History

end Setu.Validator
