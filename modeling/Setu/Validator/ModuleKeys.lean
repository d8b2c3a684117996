import Setu.Enclave.TaskExecution
import Setu.Validator.Membership
import Setu.Validator.Preparation

/-!
# Keys of published modules

Library `Validator`. The bytecode of a module is stored under a text that names its package and
its module. Four writers and several readers build that text. All of them write the address
without leading zeros, except the upgrade over HTTP, which writes all 64 digits; its modules are
found exactly if the address of the new package has no leading zero. Sources
`setu-validator/src/infra_executor.rs`, `crates/setu-enclave/src/mock/mod.rs`,
`setu-validator/src/task_preparer/single.rs` and `crates/setu-move-vm/src/engine.rs`.
-/

namespace Setu.Validator

open Setu.Base Setu.Types Setu.Runtime Setu.Move Setu.Enclave

/-- `types/src/event.rs:259-283`. -/
structure MoveUpgradePayload where
  sender : Address
  familyId : ObjectId
  prevPackage : ObjectId
  newPackageAddr : Address
  newVersion : UInt64
  modules : List Bytes
  deps : List ObjectId
  digest : Bytes
  upgradeCapId : ObjectId
  policy : UInt8

/-- The libraries that the infrastructure executor calls on bytecode and on serialized values:
`verify_module_unmetered`, `bcs::from_bytes` of a linkage entry and the serialization of a
payload. -/
structure ModuleTools extends Bytecode where
  verify : Bytes → Except String PUnit
  linkage : Bytes → Except String (Address × UInt64)
  payloadBytes : MoveUpgradePayload → Bytes
  hexError : String → String

/-- `StateChange::insert`, `types/src/event.rs:449-451`. -/
def insertChange (key : String) (value : Bytes) : Types.StateChange := ⟨key, none, some value, none⟩

/-- An event of a sender other than the validator; the identifier is computed again,
`types/src/event.rs:711-747`. -/
def sentBy {D : Type} (H : Blake3 D) (event : Event) (sender : String) (payload : EventPayload) :
    Event :=
  { event with
    id := Event.computeId H event.parentIds event.vlcSnapshot sender event.timestamp
    creator := sender
    payload := payload }

/-- `set_execution_result`, `types/src/event.rs:812-816`, with a successful result. -/
def setSucceeded (event : Event) (message : String) (changes : List Types.StateChange) : Event :=
  { event with executionResult := some ⟨true, some message, changes⟩, status := .executed }

variable {D : Type} (H : Blake3 D) (tools : ModuleTools)

namespace InfraExecutor

variable (x : InfraExecutor)

/-- `storage/src/state/shared.rs:189-201`. -/
def getRawData (key : String) : Option Bytes := x.getObject (hashedId H (strBytes key))

/-- What the loop over the modules of a publication has collected. -/
structure PublishProgress where
  changes : List Types.StateChange
  family : Option Address

/-- The turn of a module, `infra_executor.rs:281-326`. -/
def publishModule (progress : PublishProgress) (moduleBytes : Bytes) :
    Except String PublishProgress := do
  let id ← (tools.selfId moduleBytes).mapError ("Module deserialization failed: " ++ ·)
  (tools.verify moduleBytes).mapError ("Bytecode verification failed: " ++ ·)
  let key := moduleKey (toHexLiteral id.address.asBytes) id.name.name
  let family := progress.family.getD id.address
  require (family == id.address) ("ContractPublish: heterogeneous self-addresses in bundle (" ++
    hexEncode family.asBytes ++ " vs " ++ hexEncode id.address.asBytes ++ ")")
  require (x.getRawData H key).isNone ("Module already published (ADR-4): " ++ key)
  require (!progress.changes.any (·.key == key)) ("Duplicate module in batch: " ++ key)
  pure ⟨progress.changes ++ [insertChange key moduleBytes], some family⟩

/-- The linkage entry of a new family, unless there is one, `infra_executor.rs:334-349`. -/
def linkageChange (changes : List Types.StateChange) (family : Address) :
    List Types.StateChange :=
  let key := "linkage:latest:" ++ hexEncode family.asBytes
  if (x.getRawData H key).isNone && !changes.any (·.key == key) then
    [insertChange key (linkageBytes family.asBytes 0)]
  else []

/-- `infra_executor.rs:263-384`. -/
def executeContractPublish (sender : String) (modules : List Bytes) (vlc : VLCSnapshot)
    (now : UInt64) : Except String Event := do
  require (!modules.isEmpty) "Empty module list"
  let progress ← modules.foldlM (x.publishModule H tools) ⟨[], none⟩
  let linkage := (progress.family.map (x.linkageChange H progress.changes)).getD []
  let changes := progress.changes ++ linkage
  let event := sentBy H (Event.new H .contractPublish [] vlc x.validatorId now) sender
    (.movePublish modules)
  pure (setSucceeded event s!"{changes.length} module(s) published" changes)

/-- The address of a new version of a package, `infra_executor.rs:452-458`. -/
def upgradedAddr (currentPackage : ObjectId) (newVersion : UInt64) : Address :=
  .ofObjectId (hashedId H (strBytes "SETU_PKG_VER:" ++ currentPackage.asBytes ++ u64Le newVersion))

/-- The packages that an upgrade leads from and to. -/
structure Versions where
  prevAddr : Address
  newAddr : Address

/-- The turn of a module of an upgrade, `infra_executor.rs:467-559`: the changes and the relinked
modules so far. The new key has the address with all its digits, the old one without leading
zeros. -/
def upgradeModule (v : Versions) (progress : List Types.StateChange × List Bytes)
    (original : Bytes) : Except String (List Types.StateChange × List Bytes) := do
  let id ← (tools.selfId original).mapError ("Module deserialization failed: " ++ ·)
  (tools.verify original).mapError ("Bytecode verification failed: " ++ ·)
  require (id.address == v.prevAddr) ("Move upgrade: module self-address " ++
    hexEncode id.address.asBytes ++ " does not match prev_package " ++
    hexEncode v.prevAddr.asBytes ++
    " (chained upgrades require family_of reverse index, not yet supported)")
  let relinked ← (tools.relink original v.prevAddr v.newAddr).mapError ("relink module: " ++ ·)
  let relinkedId ← (tools.selfId relinked).mapError ("Relinked module deserialize: " ++ ·)
  let name := relinkedId.name.name
  let key := moduleKey v.newAddr.toText name
  let prevText := toHexLiteral v.prevAddr.asBytes
  let old ← okOr (x.getRawData H (moduleKey prevText name)) ("Move upgrade: module '" ++ name ++
    "' has no prior entry under prev_addr=" ++ prevText ++
    " (introducing new modules via upgrade is rejected — publish them in a fresh package instead)")
  let _ ← (tools.selfId old).mapError
    (("Move upgrade: prev module '" ++ name ++ "' deserialize failed: ") ++ ·)
  (tools.checkUpgradeCompat old original .compatible).mapError
    (("Move upgrade: compat check failed for module '" ++ name ++ "' ") ++ ·)
  require (x.getRawData H key).isNone ("Move upgrade: derived address collision (ADR-4): " ++ key)
  require (!progress.1.any (·.key == key)) ("Move upgrade: duplicate module in bundle: " ++ key)
  pure (progress.1 ++ [insertChange key relinked], progress.2 ++ [relinked])

/-- `infra_executor.rs:412-635`. -/
def executeMoveUpgrade (sender : String) (currentPackage : ObjectId) (modules : List Bytes)
    (deps : List ObjectId) (vlc : VLCSnapshot) (now : UInt64) : Except String Event := do
  require (!modules.isEmpty) "Empty module list"
  let familyHex := hexEncode currentPackage.asBytes
  let linkageKey := "linkage:latest:" ++ familyHex
  let linkageEntry ← okOr (x.getRawData H linkageKey)
    ("Move upgrade: no linkage entry for family=" ++ familyHex ++
      " (was the package published via execute_contract_publish?)")
  let (prevAddr, prevVersion) ← (tools.linkage linkageEntry).mapError
    ("Move upgrade: linkage:latest BCS decode: " ++ ·)
  require (prevVersion.toNat + 1 < 2 ^ 64) "Move upgrade: version overflow"
  let newVersion := prevVersion + 1
  let newAddr := upgradedAddr H currentPackage newVersion
  let (changes, relinked) ← modules.foldlM (x.upgradeModule H tools ⟨prevAddr, newAddr⟩) ([], [])
  let changes := changes ++
    [⟨linkageKey, some linkageEntry, some (linkageBytes newAddr.asBytes newVersion), none⟩]
  let senderAddr ← okOr (Address.fromHex sender)
    ("Invalid sender address '" ++ sender ++ "': " ++ tools.hexError sender)
  let payload : MoveUpgradePayload :=
    { sender := senderAddr
      familyId := currentPackage
      prevPackage := currentPackage
      newPackageAddr := newAddr
      newVersion := newVersion
      modules := relinked
      deps := deps
      digest := relinked.flatten ++ deps.flatMap (·.asBytes)
      upgradeCapId := currentPackage
      policy := 0 }
  let event := sentBy H (Event.new H .contractPublish [] vlc x.validatorId now) senderAddr.toText
    (.moveUpgrade (tools.payloadBytes payload))
  pure (setSucceeded event (s!"{changes.length - 1} module(s) upgraded to v{newVersion} at " ++
    toString newAddr.asBytes) changes)

end InfraExecutor

/-- `network/move_handler.rs:723-728`. -/
def canonicalAddrHex (input : String) : String :=
  ((Address.fromHexLiteral input).map fun address ↦ toHexLiteral address.asBytes).getD input

/-- The keys under which a module is looked up. -/
inductive LooksUp (id : ModuleId) : String → Prop
  /-- The dependencies of a module, `single.rs:1566-1571`. -/
  | dependency : LooksUp id (moduleKey (toHexLiteral id.address.asBytes) id.name.name)
  /-- A Move call whose request names the package, `move_handler.rs:384` and `single.rs:1204`. -/
  | moveCall {package : String} (h : Address.fromHexLiteral package = some id.address) :
      LooksUp id (moduleKey (canonicalAddrHex package) id.name.name)
  /-- A call in a transaction block, `single.rs:1410-1417`. -/
  | ptbCall : LooksUp id (moduleKey (canonicalAddrHex id.address.toText) id.name.name)
  /-- The old modules of an upgrade: the preparation at `single.rs:1458-1473`, the check of the
  engine at `engine.rs:2274` and that of the executor at `infra_executor.rs:512-516`. -/
  | upgrade : LooksUp id (moduleKey (toHexLiteral id.address.asBytes) id.name.name)
  /-- The resolver of the VM, `resolver.rs:36-42`. -/
  | resolver : LooksUp id (moduleKey (toHexLiteral id.address.asBytes) id.name.name)

/-- Who writes modules; the block's publish and upgrade commands go through one function. -/
inductive ModuleWriter where
  | contractPublish | ptb | httpUpgrade
  deriving DecidableEq

/-- The keys of modules start with `mod:`. -/
def isModuleKey (key : String) : Bool := ['m', 'o', 'd', ':'].isPrefixOf key.toList

/-- A change of the event that writes the bytecode under the key. -/
def WritesModule (event : Event) (key : String) (bytecode : Bytes) : Prop :=
  isModuleKey key ∧ ∃ result, event.executionResult = some result ∧
    ∃ change ∈ result.stateChanges, change.key = key ∧ change.newValue = some bytecode

/-- The writer stores the module under the key, in some state and at some time. -/
inductive Stores : ModuleWriter → ModuleId → String → Prop
  | contractPublish {x : InfraExecutor} {sender : String} {modules : List Bytes}
      {vlc : VLCSnapshot} {now : UInt64} {event : Event} {key : String} {bytecode : Bytes}
      {id : ModuleId}
      (hrun : x.executeContractPublish H tools sender modules vlc now = .ok event)
      (hwrites : WritesModule event key bytecode) (hid : tools.selfId bytecode = .ok id) :
      Stores .contractPublish id key
  | ptb {output : MoveExecutionOutput} {change : ModuleChange}
      (hchange : change ∈ output.moduleChanges) :
      Stores .ptb change.moduleId (bytecodeEntry change).key
  | httpUpgrade {x : InfraExecutor} {sender : String} {package : ObjectId} {modules : List Bytes}
      {deps : List ObjectId} {vlc : VLCSnapshot} {now : UInt64} {event : Event} {key : String}
      {bytecode : Bytes} {id : ModuleId}
      (hrun : x.executeMoveUpgrade H tools sender package modules deps vlc now = .ok event)
      (hwrites : WritesModule event key bytecode) (hid : tools.selfId bytecode = .ok id) :
      Stores .httpUpgrade id key

/-- `relink_module` puts the new address in the place of the old one, `relink.rs:75-83`. -/
def ModuleTools.Relinks : Prop :=
  ∀ original prevAddr newAddr relinked id, tools.relink original prevAddr newAddr = .ok relinked →
    tools.selfId original = .ok id → id.address = prevAddr →
    tools.selfId relinked = .ok ⟨newAddr, id.name⟩

private theorem hexDigit_eq_zero_iff : ∀ n < 16, hexDigit n = '0' ↔ n = 0 := by
  decide

private theorem length_toHexLiteral_lt {bytes : Bytes} {digits : List Char}
    (h : (hexEncode bytes).toList = '0' :: digits) (hl : 2 ≤ digits.length) :
    (toHexLiteral bytes).toList.length < 3 + digits.length := by
  have hd := (List.dropWhile_suffix (l := digits) (· == '0')).length_le
  unfold toHexLiteral
  rw [h, List.dropWhile_cons_of_pos (by rfl)]
  split
  · have hth : ("0x0" : String).toList.length = 3 := rfl
    omega
  · have ht : ("0x" : String).toList.length = 2 := rfl
    rw [String.toList_append, List.length_append, ht, String.toList_ofList]
    omega

/-- The text without leading zeros has all digits exactly if the first digit is not zero. -/
theorem toHexLiteral_eq_toText_iff (address : Address) :
    toHexLiteral address.asBytes = address.toText ↔ 16 ≤ address.bytes[0].toNat := by
  obtain ⟨b, rest, hb⟩ : ∃ b rest, address.asBytes = b :: rest := by
    cases hca : address.asBytes with
    | nil => simpa [Address.asBytes] using congrArg List.length hca
    | cons b rest => exact ⟨b, rest, rfl⟩
  have hf : address.bytes[0] = b := by
    have hg : address.asBytes[0]? = some b := by rw [hb]; rfl
    rwa [Address.asBytes, List.getElem?_eq_getElem (by simp), Vector.getElem_toList,
      Option.some.injEq] at hg
  have hlt : b.toNat < 256 := b.toNat_lt
  have hd : (hexEncode address.asBytes).toList = hexDigit (b.toNat / 16) ::
      hexDigit (b.toNat % 16) :: (hexEncode rest).toList := by
    rw [hb, toList_hexEncode_cons]
  have hz := hexDigit_eq_zero_iff (b.toNat / 16) (by omega)
  rw [hf]
  by_cases hsm : b.toNat < 16
  · have hc : hexDigit (b.toNat / 16) = '0' := hz.mpr (by omega)
    rw [hc] at hd
    have hl := congrArg List.length hd
    have hs := length_toHexLiteral_lt hd (by
      simp only [length_hexEncode, Address.asBytes, Vector.length_toList, List.length_cons] at hl ⊢
      omega)
    constructor
    · intro heq
      rw [heq, length_toText] at hs
      simp only [length_hexEncode, Address.asBytes, Vector.length_toList, List.length_cons] at hl hs
      omega
    · omega
  · have hc : (hexDigit (b.toNat / 16) == '0') = false := by
      rw [beq_eq_false_iff_ne]
      intro heq
      have := hz.mp heq
      omega
    constructor
    · intro _
      omega
    · intro _
      unfold toHexLiteral
      rw [hd, List.dropWhile_cons_of_neg (by simp [hc])]
      change "0x" ++ String.ofList _ = _
      rw [← hd, String.ofList_toList]
      rfl

private theorem moduleKey_left_inj {a b name : String} :
    moduleKey a name = moduleKey b name ↔ a = b := by
  unfold moduleKey
  constructor
  · intro h
    have ht := congrArg String.toList h
    simp only [String.toList_append, List.append_assoc, List.append_cancel_left_eq,
      List.append_cancel_right_eq] at ht
    exact String.toList_inj.mp ht
  · rintro rfl
    rfl

variable {H tools}

namespace InfraExecutor

variable {x : InfraExecutor}

theorem publishModule_eq_ok {progress progress' : PublishProgress} {moduleBytes : Bytes}
    (h : x.publishModule H tools progress moduleBytes = .ok progress') :
    ∃ id, tools.selfId moduleBytes = .ok id ∧ progress'.changes = progress.changes ++
      [insertChange (moduleKey (toHexLiteral id.address.asBytes) id.name.name) moduleBytes] := by
  simp only [publishModule, bind_eq_ok, mapError_eq_ok, require_eq_ok,
    pure_eq_ok] at h
  obtain ⟨id, hid, -, -, -, -, -, -, -, -, rfl⟩ := h
  exact ⟨id, hid, rfl⟩

theorem upgradeModule_eq_ok (hre : tools.Relinks) {v : Versions}
    {progress progress' : List Types.StateChange × List Bytes} {original : Bytes}
    (h : x.upgradeModule H tools v progress original = .ok progress') :
    ∃ relinked id, tools.selfId relinked = .ok id ∧ progress'.1 =
      progress.1 ++ [insertChange (moduleKey id.address.toText id.name.name) relinked] := by
  simp only [upgradeModule, bind_eq_ok, mapError_eq_ok, require_eq_ok, okOr_eq_ok,
    pure_eq_ok] at h
  obtain ⟨id, hid, -, -, -, ha, relinked, hrl, relinkedId, hr, h⟩ := h
  obtain ⟨-, -, -, -, -, -, -, -, -, -, rfl⟩ := h
  have hn := hre _ _ _ _ _ hrl hid (beq_iff_eq.mp ha)
  rw [hr, Except.ok.injEq] at hn
  refine ⟨relinked, relinkedId, hr, ?_⟩
  rw [hn]

end InfraExecutor

/-- The changes write modules, each under the key that belongs to its identifier. -/
def KeyedBy (tools : ModuleTools) (keyOf : ModuleId → String) (changes : List Types.StateChange) :
    Prop :=
  ∀ change ∈ changes, ∃ bytes id, change.newValue = some bytes ∧ tools.selfId bytes = .ok id ∧
    change.key = keyOf id

theorem KeyedBy.append_insertChange {keyOf : ModuleId → String} {changes : List Types.StateChange}
    (h : KeyedBy tools keyOf changes) {bytes : Bytes} {id : ModuleId}
    (hid : tools.selfId bytes = .ok id) :
    KeyedBy tools keyOf (changes ++ [insertChange (keyOf id) bytes]) := by
  intro change hc
  rcases List.mem_append.mp hc with hc | hc
  · exact h change hc
  · obtain rfl := List.mem_singleton.mp hc
    exact ⟨bytes, id, rfl, hid, rfl⟩

/-- What an event writes as a module is one of the modules if the other changes have keys of
another kind. -/
theorem KeyedBy.key_eq {keyOf : ModuleId → String} {changes others : List Types.StateChange}
    (h : KeyedBy tools keyOf changes) (ho : ∀ change ∈ others, isModuleKey change.key = false)
    {event : Event} {message : String} {key : String} {bytecode : Bytes} {id : ModuleId}
    (hw : WritesModule (setSucceeded event message (changes ++ others)) key bytecode)
    (hid : tools.selfId bytecode = .ok id) : key = keyOf id := by
  obtain ⟨hk, result, hr, change, hc, rfl, hv⟩ := hw
  cases hr
  rcases List.mem_append.mp hc with hc | hc
  · obtain ⟨bytes, id', hb, hid', heq⟩ := h change hc
    rw [hv, Option.some.injEq] at hb
    rw [← hb, hid, Except.ok.injEq] at hid'
    rw [heq, hid']
  · rw [ho change hc] at hk
    cases hk

private theorem isModuleKey_linkage (family : String) :
    isModuleKey ("linkage:latest:" ++ family) = false := by
  rw [isModuleKey, String.toList_append]
  rfl

namespace InfraExecutor

variable {x : InfraExecutor} {sender : String} {modules : List Bytes} {vlc : VLCSnapshot}
  {now : UInt64} {event : Event} {key : String} {bytecode : Bytes} {id : ModuleId}

/-- A publication writes every module under its address without leading zeros. -/
theorem key_of_executeContractPublish
    (hr : x.executeContractPublish H tools sender modules vlc now = .ok event)
    (hw : WritesModule event key bytecode) (hid : tools.selfId bytecode = .ok id) :
    key = moduleKey (toHexLiteral id.address.asBytes) id.name.name := by
  simp only [executeContractPublish, bind_eq_ok, require_eq_ok, pure_eq_ok] at hr
  obtain ⟨-, -, progress, hl, rfl⟩ := hr
  have hk : KeyedBy tools
      (fun id ↦ moduleKey (toHexLiteral id.address.asBytes) id.name.name) progress.changes := by
    apply foldlM_ok_induction (fun p : PublishProgress ↦ KeyedBy tools _ p.changes) hl
    · simp [KeyedBy]
    · intro bytes _ before after hs hb
      obtain ⟨id, hid, ha⟩ := publishModule_eq_ok hs
      rw [ha]
      exact hb.append_insertChange hid
  apply hk.key_eq _ hw hid
  intro change hc
  cases hf : progress.family with
  | none => simp [hf] at hc
  | some family =>
    simp only [hf, Option.map_some, Option.getD_some, linkageChange] at hc
    split at hc
    · obtain rfl := List.mem_singleton.mp hc
      exact isModuleKey_linkage _
    · cases hc

/-- An upgrade over HTTP writes every module under its new address with all digits. -/
theorem key_of_executeMoveUpgrade (hre : tools.Relinks) {package : ObjectId}
    {deps : List ObjectId}
    (hr : x.executeMoveUpgrade H tools sender package modules deps vlc now = .ok event)
    (hw : WritesModule event key bytecode) (hid : tools.selfId bytecode = .ok id) :
    key = moduleKey id.address.toText id.name.name := by
  simp only [executeMoveUpgrade, bind_eq_ok, require_eq_ok, okOr_eq_ok,
    mapError_eq_ok, pure_eq_ok] at hr
  obtain ⟨-, -, entry, -, ⟨prevAddr, prevVersion⟩, -, -, -, ⟨changes, relinked⟩, hl, senderAddr,
    -, rfl⟩ := hr
  have hk : KeyedBy tools (fun id ↦ moduleKey id.address.toText id.name.name) changes := by
    apply foldlM_ok_induction (fun p : List Types.StateChange × List Bytes ↦ KeyedBy tools _ p.1) hl
    · simp [KeyedBy]
    · intro bytes _ before after hs hb
      obtain ⟨relinked, id, hid, ha⟩ := upgradeModule_eq_ok hre hs
      rw [ha]
      exact hb.append_insertChange hid
  apply hk.key_eq _ hw hid
  intro change hc
  obtain rfl := List.mem_singleton.mp hc
  exact isModuleKey_linkage _

end InfraExecutor

/-- Resolution without an entry under the key does not find the module. -/
theorem resolveModuleDependencies_of_missing {decoders : Decoders} {view : ObjectId → Option Bytes}
    {package name : String} (hs : stdlibAddrs.contains package = false)
    (hm : view (hashedId H (strBytes (moduleKey package name))) = none) :
    runOn view (resolveModuleDependencies H decoders package name) =
      .error (.moduleNotFound (moduleKey package name)) := by
  unfold resolveModuleDependencies maxModuleDependencies walkModules
  simp only [List.contains_nil, Bool.false_eq_true, List.dropWhile_cons, if_false, hs,
    runOn_bind, getExistingRaw, getRaw, runOn_getObject, hm]
  rfl

/-- All readers look a module up under one key. -/
theorem LooksUp.key_eq {id : ModuleId} {key : String} (h : LooksUp id key) :
    key = moduleKey (toHexLiteral id.address.asBytes) id.name.name := by
  cases h with
  | dependency => rfl
  | moveCall h => rw [canonicalAddrHex, h]; rfl
  | ptbCall => rw [canonicalAddrHex, Address.fromHexLiteral_toText]; rfl
  | upgrade => rfl
  | resolver => rfl

private def samplePackage : ObjectId := ⟨(Vector.replicate 30 0).append #v[0xca, 0xf1]⟩

/-- The digest that BLAKE3 gives for the second version of the package. -/
private def upgradedDigest : Bytes :=
  [0x01, 0xe3, 0x09, 0xb4, 0x17, 0x1b, 0x67, 0x4e, 0x1a, 0xd3, 0xe1, 0x3a, 0xfd, 0x8a, 0x6c, 0x75,
    0xdf, 0x75, 0xb6, 0x9f, 0x05, 0x8b, 0x1a, 0x15, 0x17, 0x52, 0x43, 0xe7, 0xdb, 0x44, 0x44, 0x2c]

/-- A hasher with this digest, which shows the beginning of every other preimage. -/
private def upgradeHash : Blake3 Bytes where
  hash preimage :=
    if preimage = strBytes "SETU_PKG_VER:" ++ samplePackage.asBytes ++ u64Le 1 then upgradedDigest
    else preimage
  asBytes := id
  zero := []

private def counterName : Identifier := ⟨"counter", by decide⟩

/-- Modules that consist of their address. -/
private def addressTools : ModuleTools where
  selfId bytes :=
    if h : bytes.length = 32 then .ok ⟨⟨⟨bytes.toArray, size_toArray_of_length h⟩⟩, counterName⟩ else .error ""
  relink _ _ newAddr := .ok newAddr.asBytes
  datatypeHandles _ := 0
  functionHandles _ := 0
  checkUpgradeCompat _ _ _ := .ok ⟨⟩
  verify _ := .ok ⟨⟩
  linkage _ := .ok (.ofObjectId samplePackage, 0)
  payloadBytes _ := []
  hexError _ := ""

/-- A validator that has the package and its linkage entry. -/
private def sampleValidator : InfraExecutor where
  validatorId := "validator-1"
  getObject id :=
    if id = hashedId upgradeHash (strBytes ("linkage:latest:" ++ hexEncode samplePackage.asBytes)) ∨
        id = hashedId upgradeHash (strBytes "mod:0xcaf1::counter") then
      some samplePackage.asBytes
    else none

private def sampleUpgrade : Except String Event :=
  sampleValidator.executeMoveUpgrade upgradeHash addressTools Address.zero.toText samplePackage
    [samplePackage.asBytes] [] ⟨∅, 1, 0⟩ 0

private def upgradedId : ModuleId :=
  ⟨InfraExecutor.upgradedAddr upgradeHash samplePackage 1, counterName⟩

private theorem relinks_addressTools : addressTools.Relinks := by
  intro original prevAddr newAddr relinked id hr hid _
  cases hr
  have hl : newAddr.asBytes.length = 32 := by simp [Address.asBytes]
  have hn : id.name = counterName := by
    simp only [addressTools] at hid
    split at hid
    · cases hid
      rfl
    · cases hid
  simp only [addressTools, hl, dite_true, hn]
  rfl

private def fullKey : String :=
  "mod:0x01e309b4171b674e1ad3e13afd8a6c75df75b69f058b1a15175243e7db44442c::counter"

private def shortKey : String :=
  "mod:0x1e309b4171b674e1ad3e13afd8a6c75df75b69f058b1a15175243e7db44442c::counter"

private theorem isSome_sampleUpgrade : sampleUpgrade.toOption.isSome := by
  decide +kernel

private theorem writesModule_sampleUpgrade :
    WritesModule (sampleUpgrade.toOption.get isSome_sampleUpgrade) fullKey
      upgradedId.address.asBytes := by
  have hr : ((sampleUpgrade.toOption.get isSome_sampleUpgrade).executionResult.map fun result ↦
      result.stateChanges.map fun change ↦ (change.key, change.newValue)) =
      some [(fullKey, some upgradedId.address.asBytes),
        ("linkage:latest:" ++ hexEncode samplePackage.asBytes,
          some (linkageBytes upgradedId.address.asBytes 1))] := by
    decide +kernel
  obtain ⟨result, hr, hc⟩ := Option.map_eq_some_iff.mp hr
  have hm : (fullKey, some upgradedId.address.asBytes) ∈
      result.stateChanges.map fun change ↦ (change.key, change.newValue) := by
    rw [hc]
    exact List.mem_cons_self
  obtain ⟨change, hch, heq⟩ := List.mem_map.mp hm
  exact ⟨by decide +kernel, result, hr, change, hch, congrArg Prod.fst heq, congrArg Prod.snd heq⟩

end Setu.Validator
