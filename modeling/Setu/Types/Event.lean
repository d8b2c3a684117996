import Setu.Base.Blake3
import Setu.Base.HashMap

/-!
# Events of the DAG ledger

Library `Types`. An event carries its routing data, its payload and the result of its
execution. Its identifier is a digest of the parents, the logical time, the creator and the
timestamp alone; what that digest determines is stated at the end. Payload records declared
in other source modules are carried in their serialized form. Source:
`types/src/event.rs`, `types/src/subnet.rs`, `crates/setu-vlc/src/lib.rs`.
-/

namespace Setu.Types

open Setu.Base

/-- A 32-byte subnet identifier, `types/src/subnet.rs:110`. -/
structure SubnetId where
  bytes : Vector UInt8 32
  deriving DecidableEq

namespace SubnetId

/-- The root subnet, `types/src/subnet.rs:114`. -/
def root : SubnetId := ⟨Vector.replicate 32 0⟩

/-- The governance subnet, `types/src/subnet.rs:122-127`. -/
def governance : SubnetId := ⟨((Vector.replicate 32 0).set 0 0x01 zero_lt_32).set 1 0x10⟩

/-- Type byte of a system subnet, `types/src/subnet.rs:130`. -/
def systemPrefix : UInt8 := 0x01

/-- Type byte of an application subnet, `types/src/subnet.rs:133`. -/
def appPrefix : UInt8 := 0x02

variable (subnet : SubnetId)

/-- `types/src/subnet.rs:285-287`. -/
def isRoot : Bool := subnet == root

/-- `types/src/subnet.rs:290-292`. -/
def isSystem : Bool := getElem subnet.bytes 0 zero_lt_32 ≤ systemPrefix

/-- `types/src/subnet.rs:295-297`. -/
def isApp : Bool := getElem subnet.bytes 0 zero_lt_32 == appPrefix

end SubnetId

/-- A vector clock with its logical and physical time, `crates/setu-vlc/src/lib.rs:210-219`. -/
structure VLCSnapshot where
  vectorClock : HashMap String UInt64
  logicalTime : UInt64
  physicalTime : UInt64

/-- Event identifiers are hexadecimal digests. -/
abbrev EventId := String

/-- Processing status, `types/src/event.rs:26-39`. -/
inductive EventStatus where
  | pending | inWorkQueue | executed | confirmed | finalized | failed
  deriving DecidableEq

/-- Kinds of events, `types/src/event.rs:51-91`. -/
inductive EventType where
  | genesis | system | transfer
  | validatorRegister | validatorUnregister | solverRegister | solverUnregister
  | subnetRegister | userRegister | powerConsume | taskSubmit | agentChat | relationship
  | contractCall | contractPublish | coinMerge | coinSplit | coinMergeThenTransfer
  | governance
  deriving DecidableEq

/-- Events executed in the root subnet, `types/src/event.rs:128-141`. -/
def EventType.isRootEvent : EventType → Bool
  | genesis | system | validatorRegister | validatorUnregister | solverRegister
  | solverUnregister | subnetRegister | userRegister | contractPublish => true
  | _ => false

/-- `types/src/event.rs:144-146`. -/
def EventType.isValidatorExecuted (type : EventType) : Bool := type.isRootEvent

/-- The data of an event, `types/src/event.rs:308-387`. -/
inductive EventPayload where
  | none
  | genesis (config : Bytes)
  | transfer (transfer : Bytes)
  | validatorRegister (registration : Bytes)
  | validatorUnregister (unregistration : Bytes)
  | solverRegister (registration : Bytes)
  | solverUnregister (unregistration : Bytes)
  | subnetRegister (registration : Bytes)
  | userRegister (registration : Bytes)
  | powerConsume (consumption : Bytes)
  | taskSubmit (submission : Bytes)
  | agentChat (agentId message : String)
  | relationship (source target relationType : String)
  | contractCall (target : String) (args : List Bytes)
  | contractPublish (modules : List Bytes)
  | coinMerge (targetCoinId : String) (sourceCoinIds : List String)
  | coinSplit (sourceCoinId : String) (amounts : List UInt64)
  | coinMergeThenTransfer (targetCoinId : String) (sourceCoinIds : List String)
      (recipient : String) (amount : UInt64)
  | governance (payload : Bytes)
  | moveCall (payload : Bytes)
  | movePublish (modules : List Bytes)
  | movePtb (payload : Bytes)
  | moveUpgrade (payload : Bytes)
  deriving DecidableEq

/-- A write to one object, `types/src/event.rs:428-438`. -/
structure StateChange where
  key : String
  oldValue : Option Bytes
  newValue : Option Bytes
  targetSubnet : Option SubnetId
  deriving DecidableEq

/-- What the execution of an event produced, `types/src/event.rs:398-402`. -/
structure ExecutionResult where
  success : Bool
  message : Option String
  stateChanges : List StateChange
  deriving DecidableEq

/-- An event of the DAG, `types/src/event.rs:471-508`. -/
structure Event where
  id : EventId
  eventType : EventType
  parentIds : List EventId
  subnetId : Option SubnetId
  transfer : Option Bytes
  payload : EventPayload
  vlcSnapshot : VLCSnapshot
  creator : String
  status : EventStatus
  executionResult : Option ExecutionResult
  timestamp : UInt64

namespace Event

variable {D : Type} (H : Blake3 D)

/-- Subnet of the event, `types/src/event.rs:850-858`; the source's two fallback branches
both yield the root subnet. -/
def getSubnetId (e : Event) : SubnetId := e.subnetId.getD SubnetId.root

/-- The bytes between the domain tag and the timestamp of an event's preimage. -/
def idBody (parentIds : List EventId) (vlc : VLCSnapshot) (creator : String) : Bytes :=
  parentIds.flatMap strBytes ++ (u64Le vlc.logicalTime ++ strBytes creator)

/-- `types/src/event.rs:749-764`. -/
def computeId (parentIds : List EventId) (vlc : VLCSnapshot) (creator : String)
    (timestamp : UInt64) : EventId :=
  H.hexDigest (strBytes "SETU_EVENT_ID:" ++ (idBody parentIds vlc creator ++ u64Le timestamp))

/-- `types/src/event.rs:772-780`. -/
def verifyId (e : Event) : Bool :=
  computeId H e.parentIds e.vlcSnapshot e.creator e.timestamp == e.id

/-- `Event::new` at clock reading `now`, `types/src/event.rs:512-547`. -/
def new (eventType : EventType) (parentIds : List EventId) (vlc : VLCSnapshot)
    (creator : String) (now : UInt64) : Event where
  id := computeId H parentIds vlc creator now
  eventType := eventType
  parentIds := parentIds
  subnetId :=
    if eventType.isRootEvent then some SubnetId.root
    else if eventType = .governance then some SubnetId.governance
    else none
  transfer := none
  payload := .none
  vlcSnapshot := vlc
  creator := creator
  status := .pending
  executionResult := none
  timestamp := now

/-- A freshly created event passes its own check. -/
theorem verifyId_new (eventType : EventType) (parentIds : List EventId) (vlc : VLCSnapshot)
    (creator : String) (now : UInt64) :
    (new H eventType parentIds vlc creator now).verifyId H = true := by
  simp [verifyId, new]

/-- The preimage of the event can be cut into its fields: every parent identifier has the 64
bytes of a hexadecimal digest, none of them zero, and the logical time leaves its top byte
zero. -/
def Framed (e : Event) : Prop :=
  (∀ p ∈ e.parentIds, (strBytes p).length = 64 ∧ 0 ∉ strBytes p) ∧
    e.vlcSnapshot.logicalTime.toNat < 2 ^ 56

instance (e : Event) : Decidable e.Framed := inferInstanceAs (Decidable (_ ∧ _))

variable {H}

private theorem computeId_eq_iff (hH : H.CollisionFree) {ps ps' : List EventId}
    {vlc vlc' : VLCSnapshot} {creator creator' : String} {ts ts' : UInt64} :
    computeId H ps vlc creator ts = computeId H ps' vlc' creator' ts' ↔
      idBody ps vlc creator = idBody ps' vlc' creator' ∧ ts = ts' := by
  unfold computeId
  rw [hH.hexDigest_inj, List.append_cancel_left_eq]
  constructor
  · intro h
    have hc := List.append_inj' h (by simp)
    exact ⟨hc.1, u64Le_inj.mp hc.2⟩
  · rintro ⟨hb, rfl⟩
    rw [hb]

private theorem u64Le_top {n : UInt64} (h : n.toNat < 2 ^ 56) (rest : Bytes) :
    (u64Le n ++ rest)[7]? = some 0 := by
  have hd : n.toNat / 256 / 256 / 256 / 256 / 256 / 256 / 256 = 0 := by omega
  simp [u64Le, leBytes, hd]

-- The eighth byte tells a parent identifier from a logical time.
private theorem parent_top {p : EventId} (hl : (strBytes p).length = 64)
    (hz : 0 ∉ strBytes p) (rest : Bytes) : (strBytes p ++ rest)[7]? ≠ some 0 := by
  intro h
  rw [List.getElem?_append_left (by omega)] at h
  exact hz (List.mem_of_getElem? h)

private theorem idBody_inj {vlc vlc' : VLCSnapshot} {creator creator' : String}
    (ht : vlc.logicalTime.toNat < 2 ^ 56) (ht' : vlc'.logicalTime.toNat < 2 ^ 56) :
    ∀ {ps ps' : List EventId}, (∀ p ∈ ps, (strBytes p).length = 64 ∧ 0 ∉ strBytes p) →
      (∀ p ∈ ps', (strBytes p).length = 64 ∧ 0 ∉ strBytes p) →
      idBody ps vlc creator = idBody ps' vlc' creator' →
      ps = ps' ∧ vlc.logicalTime = vlc'.logicalTime ∧ creator = creator' := by
  intro ps
  induction ps with
  | nil =>
    intro ps' _ hps' h
    cases ps' with
    | nil =>
      have hc := List.append_inj h (by simp)
      have hc := List.append_inj hc.2 (by simp)
      exact ⟨rfl, u64Le_inj.mp hc.1, strBytes_inj.mp hc.2⟩
    | cons p' ps' =>
      have hp' := hps' p' (by simp)
      simp only [idBody, List.flatMap_cons, List.flatMap_nil, List.nil_append,
        List.append_assoc] at h
      have hto := u64Le_top ht (strBytes creator)
      rw [h] at hto
      exact absurd hto (parent_top hp'.1 hp'.2 _)
  | cons p ps ih =>
    intro ps' hps hps' h
    have hp := hps p (by simp)
    cases ps' with
    | nil =>
      simp only [idBody, List.flatMap_cons, List.flatMap_nil, List.nil_append,
        List.append_assoc] at h
      have hto := u64Le_top ht' (strBytes creator')
      rw [← h] at hto
      exact absurd hto (parent_top hp.1 hp.2 _)
    | cons p' ps' =>
      have hp' := hps' p' (by simp)
      simp only [idBody, List.flatMap_cons, List.append_assoc] at h
      have hc := List.append_inj h (hp.1.trans hp'.1.symm)
      have hr := ih (fun q hq ↦ hps q (by simp [hq])) (fun q hq ↦ hps' q (by simp [hq])) hc.2
      exact ⟨by rw [strBytes_inj.mp hc.1, hr.1], hr.2⟩

/-- Two verified events with one identifier have the same timestamp and, when their
preimages can be cut into fields, the same parents, logical time and creator. Nothing else
is covered: the type, the payload, the subnet, the rest of the clock and the execution
result can be exchanged under an unchanged, still verified identifier. -/
theorem verifyId_binds_preimage (hH : H.CollisionFree) {e e' : Event}
    (he : e.verifyId H = true) (he' : e'.verifyId H = true) (hid : e.id = e'.id) :
    e.timestamp = e'.timestamp ∧
      (e.Framed → e'.Framed →
        e.parentIds = e'.parentIds ∧ e.creator = e'.creator ∧
          e.vlcSnapshot.logicalTime = e'.vlcSnapshot.logicalTime) ∧
      ∀ (eventType : EventType) (subnetId : Option SubnetId) (transfer : Option Bytes)
        (payload : EventPayload) (vectorClock : HashMap String UInt64) (physicalTime : UInt64)
        (status : EventStatus) (executionResult : Option ExecutionResult),
        ({ e with
            eventType, subnetId, transfer, payload, status, executionResult
            vlcSnapshot := { e.vlcSnapshot with vectorClock, physicalTime } }).verifyId H
          = true := by
  have hs : computeId H e.parentIds e.vlcSnapshot e.creator e.timestamp =
      computeId H e'.parentIds e'.vlcSnapshot e'.creator e'.timestamp := by
    simp only [verifyId, beq_iff_eq] at he he'
    rw [he, he', hid]
  have hpr := (computeId_eq_iff hH).mp hs
  refine ⟨hpr.2, ?_, ?_⟩
  · intro hf hf'
    have hp := idBody_inj hf.2 hf'.2 hf.1 hf'.1 hpr.1
    exact ⟨hp.1, hp.2.2, hp.2.1⟩
  · intros
    exact he

/-- The hypotheses hold of a transfer and of the same event with another payload: the two
agree on every field the identifier covers. -/
theorem verifyId_binds_preimage_transfer :
    let e := new Blake3.ideal .transfer [] ⟨∅, 1, 0⟩ "validator-1" 5
    let e' := { e with payload := .transfer [7] }
    e.timestamp = e'.timestamp ∧ e.parentIds = e'.parentIds ∧ e.creator = e'.creator := by
  intro e e'
  have hf : e.Framed ∧ e'.Framed := by decide
  have hb := verifyId_binds_preimage Blake3.ideal_collisionFree
    (verifyId_new Blake3.ideal .transfer [] ⟨∅, 1, 0⟩ "validator-1" 5 : e.verifyId _ = true)
    (verifyId_new Blake3.ideal .transfer [] ⟨∅, 1, 0⟩ "validator-1" 5 : e'.verifyId _ = true)
    rfl
  have hfi := hb.2.1 hf.1 hf.2
  exact ⟨hb.1, hfi.1, hfi.2.1⟩

/-- A transfer as it left its creator. -/
def sentEvent : Event := new Blake3.ideal .transfer [] ⟨∅, 1, 0⟩ "v" 5

/-- The same event with everything its identifier leaves out exchanged. -/
def alteredEvent : Event :=
  { sentEvent with
    eventType := .governance
    payload := .transfer [7]
    subnetId := some SubnetId.root
    vlcSnapshot := ⟨∅, 1, 9⟩
    executionResult := some ⟨true, none, []⟩ }

/-- An event with one parent, the identifier `00…0`. -/
def childEvent : Event :=
  new Blake3.ideal .transfer [String.ofList (List.replicate 64 '0')] ⟨∅, 0, 0⟩ "v" 5

/-- A parentless event whose logical time and creator take up the bytes of that parent. -/
def orphanEvent : Event :=
  new Blake3.ideal .transfer [] ⟨∅, 0x3030303030303030, 0⟩
    (String.ofList (List.replicate 56 '0' ++ List.replicate 8 (Char.ofNat 0) ++ ['v'])) 5

/-- Verified events with one identifier can differ in type, payload, subnet, clock and
execution result; with unframed preimages also in parents and creator. -/
theorem verifyId_not_binding :
    (sentEvent.verifyId Blake3.ideal = true ∧ alteredEvent.verifyId Blake3.ideal = true ∧
      sentEvent.id = alteredEvent.id ∧ sentEvent.eventType ≠ alteredEvent.eventType ∧
      sentEvent.payload ≠ alteredEvent.payload ∧ sentEvent.subnetId ≠ alteredEvent.subnetId ∧
      sentEvent.vlcSnapshot.physicalTime ≠ alteredEvent.vlcSnapshot.physicalTime ∧
      sentEvent.executionResult ≠ alteredEvent.executionResult) ∧
    childEvent.verifyId Blake3.ideal = true ∧ orphanEvent.verifyId Blake3.ideal = true ∧
      childEvent.id = orphanEvent.id ∧ childEvent.parentIds ≠ orphanEvent.parentIds ∧
      childEvent.creator ≠ orphanEvent.creator := by
  constructor
  · have ha : alteredEvent.verifyId Blake3.ideal = true := by
      simp [verifyId, alteredEvent, sentEvent, new, computeId, idBody]
    exact ⟨verifyId_new .., ha, rfl, by decide, by decide, by decide, by decide, by decide⟩
  · refine ⟨verifyId_new .., verifyId_new .., ?_, by decide, by decide⟩
    apply (computeId_eq_iff Blake3.ideal_collisionFree).mpr
    decide

end Event

end Setu.Types
