import Setu.Base.Lookup
import Setu.State.Manager
import Setu.Types.SolverTask

/-!
# Preparation of Move tasks

Library `Validator`. The validator reads the inputs of a Move call or transaction block from
its state, checks them and puts them into a task for the solver. Source
`setu-validator/src/task_preparer/single.rs`. Each function is a computation that consults the
state, so that the objects it read can be listed. Decoding of stored bytes is a parameter.
-/

namespace Setu.Validator

open Setu.Base Setu.Types Setu.Merkle

/-- Result of `detect_and_parse`, `envelope.rs:136-143`; of a legacy coin only the owner is
read here. -/
inductive StorageFormat where
  | envelope (env : ObjectEnvelope)
  | legacyCoinState (owner : String)
  | unknown

/-- `envelope.rs:147-160`: an envelope is told by its magic number. -/
def detectAndParse (bytes : Bytes) : StorageFormat :=
  match if bytes.take 2 = [0x53, 0x45] then ObjectEnvelope.fromBytes bytes else none with
  | some env => .envelope env
  | none =>
    match CoinState.fromBytes bytes with
    | some coin => .legacyCoinState coin.owner
    | none => .unknown

/-- A serialized envelope is told as one. -/
theorem detectAndParse_toBytes (env : ObjectEnvelope) :
    detectAndParse env.toBytes = .envelope env := by
  have hm : env.toBytes.take 2 = [0x53, 0x45] := by simp [ObjectEnvelope.toBytes]
  rw [detectAndParse, if_pos hm, ObjectEnvelope.fromBytes_toBytes]

/-- Payload of a dynamic field, `dynamic_field.rs:27-32`; the name is not read here. -/
structure DfFieldValue where
  valueTypeTag : String
  valueBcs : Bytes

/-- The name of a compiled module and the modules it depends on, with their addresses. -/
structure ModuleInfo where
  name : String
  immediateDependencies : List (Address × String)

/-- Decoders of stored bytes: `detect_and_parse`, `bcs::from_bytes` and
`CompiledModule::deserialize_with_defaults`, with the libraries' error texts. -/
structure Decoders where
  detectAndParse : Bytes → StorageFormat
  dfFieldValue : Bytes → Except String DfFieldValue
  linkage : Bytes → Except String (Address × UInt64)
  compiledModule : Bytes → Except String ModuleInfo
  hexError : String → String

/-- `task_preparer/mod.rs:98-232`, the errors of Move tasks. -/
inductive TaskPrepareError where
  | objectNotFound (objectId : String)
  | invalidInput (message : String)
  | moduleNotFound (key : String)
  | invalidModule (message : String)
  | tooManyDependencies (max found : Nat)
  | notOwnedBySender (objectId sender : String)
  | immutableObjectCannotBeMutated (objectId : String) (index : Nat)
  | immutableObjectCannotBeConsumed (objectId : String) (index : Nat)
  | objectOwnerNotAllowedInInputs (objectId parentObjectId : String) (index : Nat)
  | useSharedObjectIdsInstead (objectId : String)
  | notShared (objectId : String)
  | duplicateObjectInLists (objectId : String)
  | dynamicFieldParentNotDeclared (parent : String)
  | dynamicFieldNotFound (parent keyType : String)
  | dynamicFieldAlreadyExists (parent keyType : String)
  | dynamicFieldParentMismatch
  | dynamicFieldOnImmutableParent
  | dynamicFieldParentNotRoot
  | envelopeDecode (message : String)
  | sharedObjectsNotYetSupported (objectId : String)
  | staleObjectVersion (objectId : String) (expected actual : UInt64)
  | objectDigestMismatch (objectId : String)
  deriving DecidableEq

/-- A preparation: it consults the state and may fail. -/
abbrev Prepare := ExceptT TaskPrepareError (Lookup ObjectId Bytes)

variable (objectId : ObjectId)

/-- `get_object` of the state provider, `storage/src/state/provider.rs:509-511`. -/
def getObject : Prepare (Option Bytes) :=
  ExceptT.lift (Lookup.ask objectId)

/-- A check that may fail as a preparation. -/
def check {α : Type} (result : Except TaskPrepareError α) : Prepare α := ExceptT.mk (.done result)

/-- `hex::encode` of an object identifier. -/
def idHex : String := hexEncode objectId.asBytes

/-- The object, which must exist. -/
def getExistingObject : Prepare Bytes := do
  let data ← getObject objectId
  check (okOr data (.objectNotFound (idHex objectId)))

variable {D : Type} (H : Blake3 D) (decoders : Decoders)

/-- `provider.rs:578-580` and `shared.rs:189-201`: the object under the digest of
the key. -/
def getRaw (key : String) : Prepare (Option Bytes) := getObject (hashedId H (strBytes key))

/-- The module or linkage entry under a key, which must exist. -/
def getExistingRaw (key : String) : Prepare Bytes := do
  let bytes ← getRaw H key
  check (okOr bytes (.moduleNotFound key))

/-- `single.rs:1609-1631`. -/
def loadEnvelope (objectId : ObjectId) : Prepare (Option ObjectEnvelope) := do
  match ← getObject objectId with
  | none => pure none
  | some bytes =>
    match decoders.detectAndParse bytes with
    | .envelope env => pure (some env)
    | .legacyCoinState _ => throw .dynamicFieldParentMismatch
    | .unknown =>
      throw (.envelopeDecode ("unknown storage format for oid " ++ idHex objectId))

/-- `single.rs:1638-1646`. -/
def ensureDfOwnership (env : ObjectEnvelope) (expectedParent : ObjectId) :
    Except TaskPrepareError PUnit :=
  require (env.ownership == .objectOwner expectedParent) .dynamicFieldParentMismatch

/-- May the sender use fields of the parent in this mode, `single.rs:1703-1721`. -/
def checkParentOwnership (parentEnv : ObjectEnvelope) (senderAddr : Address) (sender : String)
    (df : PtbDfAccess) : Except TaskPrepareError PUnit :=
  match parentEnv.ownership with
  | .addressOwner owner =>
    require (owner == senderAddr) (.notOwnedBySender (idHex df.parent) sender)
  | .shared _ => .ok ⟨⟩
  | .immutable => require (df.mode == .read) .dynamicFieldOnImmutableParent
  | .objectOwner _ => .error .dynamicFieldParentNotRoot

/-- The value of a field that is there, `single.rs:1744-1757` and `1762-1778`: its read set
entry, its value with the type, and the bytes of its envelope. -/
def presentField (dfOid parent : ObjectId) (env : ObjectEnvelope) :
    Except TaskPrepareError (ReadSetEntry × Option Bytes × String × Option Bytes) := do
  ensureDfOwnership env parent
  let onDisk ← (decoders.dfFieldValue env.data).mapError fun e ↦
    .invalidInput ("malformed DfFieldValue at df_oid=" ++ idHex dfOid ++ ": " ++ e)
  pure (⟨objectKey dfOid, env.toBytes⟩, some onDisk.valueBcs, onDisk.valueTypeTag,
    some env.toBytes)

/-- The entry of a field that is not there. -/
def absentField (dfOid : ObjectId) (df : PtbDfAccess) :
    ReadSetEntry × Option Bytes × String × Option Bytes :=
  (⟨objectKey dfOid, []⟩, none, df.valueType.getD "", none)

/-- Resolution of a field by mode, `single.rs:1736-1796`. -/
def resolveByMode (dfOid : ObjectId) (df : PtbDfAccess) :
    Prepare (ReadSetEntry × Option Bytes × String × Option Bytes) := do
  let found ← loadEnvelope decoders dfOid
  match df.mode, found with
  | .mutate, some env | .delete, some env | .read, some env =>
    check (presentField decoders dfOid df.parent env)
  | .mutate, none | .delete, none =>
    throw (.dynamicFieldNotFound (idHex df.parent) df.keyType)
  | .read, none | .create, none => pure (absentField dfOid df)
  | .create, some _ => throw (.dynamicFieldAlreadyExists (idHex df.parent) df.keyType)

/-- The turn of `resolve_dynamic_fields_into` for one access, `single.rs:1689-1808`. -/
def resolveDynamicField (senderAddr : Address) (sender : String)
    (declaredParents : List ObjectId) (df : PtbDfAccess) :
    Prepare (ReadSetEntry × ResolvedDynamicField) := do
  check (require (declaredParents.contains df.parent)
    (.dynamicFieldParentNotDeclared (idHex df.parent)))
  let parent ← loadEnvelope decoders df.parent
  let parentEnv ← check (okOr parent (.objectNotFound (idHex df.parent)))
  check (checkParentOwnership parentEnv senderAddr sender df)
  let dfOid := deriveDfOid H df.parent df.keyType df.keyBcs
  let (entry, valueBytes, valueTypeTag, envelopeBytes) ← resolveByMode decoders dfOid df
  pure (entry,
    { parentObjectId := df.parent
      dfObjectId := dfOid
      nameTypeTag := df.keyType
      nameBcs := df.keyBcs
      valueBytes := valueBytes
      valueTypeTag := valueTypeTag
      mode := df.mode
      envelopeBytes := envelopeBytes })

/-- `single.rs:1680-1810`. -/
def resolveDynamicFieldsInto (senderAddr : Address) (sender : String)
    (accesses : List PtbDfAccess) (declaredParents : List ObjectId) :
    Prepare (List (ReadSetEntry × ResolvedDynamicField)) :=
  accesses.mapM (resolveDynamicField H decoders senderAddr sender declaredParents)

/-- `MAX_MODULE_DEPENDENCIES`, `single.rs:1530`. -/
def maxModuleDependencies : Nat := 256

/-- `STDLIB_ADDRS`, `single.rs:1531-1534`. -/
def stdlibAddrs : List String :=
  ["0x1", "0000000000000000000000000000000000000000000000000000000000000001"]

/-- The loop of `resolve_module_dependencies`, `single.rs:1540-1572`, with the number of
modules that may still be visited. -/
def walkModules : (budget : Nat) → (visited : List String) → (stack : List (String × String)) →
    Prepare (List ReadSetEntry)
  | budget, visited, stack =>
    -- modules on the stack that were visited are popped without effect
    match stack.dropWhile fun m ↦ visited.contains (moduleKey m.1 m.2) with
    | [] => pure []
    | (addr, name) :: rest =>
      match budget with
      | 0 => throw (.tooManyDependencies maxModuleDependencies (visited.length + 1))
      | budget + 1 => do
        let key := moduleKey addr name
        if stdlibAddrs.contains addr then walkModules budget (key :: visited) rest
        else
          let bytecode ← getExistingRaw H key
          let info ← check ((decoders.compiledModule bytecode).mapError fun e ↦
            .invalidModule (name ++ ": " ++ e))
          let dependencies := info.immediateDependencies.map fun dep ↦
            (toHexLiteral dep.1.asBytes, dep.2)
          let others ← walkModules budget (key :: visited) (dependencies.reverse ++ rest)
          pure (⟨key, bytecode⟩ :: others)

/-- `single.rs:1523-1576`. -/
def resolveModuleDependencies (packageAddr moduleName : String) : Prepare (List ReadSetEntry) :=
  walkModules H decoders maxModuleDependencies [] [(packageAddr, moduleName)]

/-- `single.rs:1584-1602`. -/
def parseOidWithOptionalPrefix (raw : String) : Except TaskPrepareError ObjectId :=
  let trimmed :=
    match raw.toList with
    | 'o' :: 'i' :: 'd' :: ':' :: rest => rest
    | chars => chars
  match hexDecode trimmed with
  | none => .error (.invalidInput
      ("invalid object id hex '" ++ raw ++ "': " ++ decoders.hexError (String.ofList trimmed)))
  | some bytes =>
    if h : bytes.length = 32 then .ok ⟨⟨bytes.toArray, size_toArray_of_length h⟩⟩
    else .error (.invalidInput
      s!"object id must be 32 bytes (got {bytes.length} from '{raw}')")

/-- The binary form of a declared access, `single.rs:1140-1155`. -/
def toInternalDf (df : DynamicFieldAccess) : Except TaskPrepareError PtbDfAccess := do
  let parent ← parseOidWithOptionalPrefix decoders df.parentObjectId
  let keyBcs ← okOr (hexDecode df.keyBcsHex.toList) (.invalidInput
    ("invalid key_bcs_hex for DF parent=" ++ df.parentObjectId ++ ": " ++
      decoders.hexError df.keyBcsHex))
  pure ⟨parent, df.keyType, keyBcs, df.mode, df.valueType⟩

variable (call : MoveCallPayload)

/-- The ownership check of an input object, `single.rs:990-1053`. -/
def checkOwnedInput (senderAddr : Address) (idx : Nat) (objectId : ObjectId)
    (parsed : StorageFormat) : Except TaskPrepareError PUnit :=
  match parsed with
  | .envelope env =>
    match env.ownership with
    | .addressOwner owner =>
      require (owner == senderAddr) (.notOwnedBySender (idHex objectId) call.sender)
    | .immutable => do
      require (!(call.mutableIndices.getD []).contains idx)
        (.immutableObjectCannotBeMutated (idHex objectId) idx)
      require (!(call.consumedIndices.getD []).contains idx)
        (.immutableObjectCannotBeConsumed (idHex objectId) idx)
    | .objectOwner parent =>
      .error (.objectOwnerNotAllowedInInputs (idHex objectId) (idHex parent) idx)
    | .shared _ => .error (.useSharedObjectIdsInstead (idHex objectId))
  | .legacyCoinState owner =>
    require (Address.normalize H owner == senderAddr)
      (.notOwnedBySender (idHex objectId) call.sender)
  | .unknown => .ok ⟨⟩

/-- The version of a stored object, `single.rs:1059-1062`. -/
def StorageFormat.version : StorageFormat → UInt64
  | envelope env => env.version
  | _ => 0

/-- The entry of an object and the reference to it. -/
def inputEntry (data : Bytes) (version : UInt64) : ReadSetEntry × ResolvedObject :=
  (⟨objectKey objectId, data⟩, ⟨objectId, "MoveObject", version⟩)

/-- The turn of an owned input, `single.rs:980-1069`. -/
def ownedInput (senderAddr : Address) (input : ObjectId × Nat) :
    Prepare (ReadSetEntry × ResolvedObject) := do
  let data ← getExistingObject input.1
  let parsed := decoders.detectAndParse data
  check (checkOwnedInput H call senderAddr input.2 input.1 parsed)
  pure (inputEntry input.1 data parsed.version)

/-- The turn of a shared input, `single.rs:1079-1114`. -/
def sharedInput (objectId : ObjectId) : Prepare (ReadSetEntry × ResolvedObject) := do
  let data ← getExistingObject objectId
  match decoders.detectAndParse data with
  | .envelope env =>
    match env.ownership with
    | .shared _ => pure (inputEntry objectId data env.version)
    | _ => throw (.notShared (idHex objectId))
  | _ => throw (.notShared (idHex objectId))

/-- The index checks, `single.rs:1166-1201`. -/
def checkIndices : Except TaskPrepareError PUnit := do
  let ownedCount := call.inputObjectIds.length
  let totalCount := ownedCount + call.sharedObjectIds.length
  (call.mutableIndices.getD []).forM fun idx ↦
    require (decide (idx < totalCount)) (.invalidInput
      s!"mutable_indices[{idx}] out of range (total object count: {totalCount})")
  (call.consumedIndices.getD []).forM fun idx ↦
    require (decide (idx < ownedCount)) (.invalidInput
      (s!"consumed_indices[{idx}] must reference an owned input (owned count: {ownedCount}); " ++
        "shared objects cannot be consumed by-value"))

/-- `task_id`, `single.rs:1227-1232`. -/
def taskIdOf (event : Event) : HashValue := hashedId H (strBytes "SETU_TASK:" ++ strBytes event.id)

/-- `single.rs:947-1246`. -/
def prepareMoveCallTask (event : Event) (call : MoveCallPayload) (subnetId : SubnetId) :
    Prepare SolverTask := do
  call.sharedObjectIds.forM fun oid ↦
    check (require (!call.inputObjectIds.contains oid) (.duplicateObjectInLists (idHex oid)))
  let senderAddr := Address.normalize H call.sender
  let owned ← call.inputObjectIds.zipIdx.mapM (ownedInput H decoders call senderAddr)
  let shared ← call.sharedObjectIds.mapM (sharedInput decoders)
  let accesses ← check (call.dynamicFieldAccesses.mapM (toInternalDf decoders))
  let fields ← resolveDynamicFieldsInto H decoders senderAddr call.sender accesses
    (call.inputObjectIds ++ call.sharedObjectIds)
  check (checkIndices call)
  let moduleReadSet ← resolveModuleDependencies H decoders call.package call.module
  let inputs := owned ++ shared
  pure
    { taskId := taskIdOf H event
      subnetId := subnetId
      event := event
      readSet := inputs.map (·.1) ++ fields.map (·.1)
      resolvedInputs :=
        { operation := .moveCall call.package call.module call.function call.typeArgs call.args
            (call.mutableIndices.getD []) (call.consumedIndices.getD [])
          inputObjects := inputs.map (·.2)
          dynamicFields := fields.map (·.2) }
      moduleReadSet := moduleReadSet }

/-- The checks of an object input, `single.rs:1299-1346`. -/
def checkPtbInput (sender : String) (senderAddr : Address) (index : Nat) (id : ObjectId)
    (version : UInt64) (digest : Bytes) (env : ObjectEnvelope) :
    Except TaskPrepareError PUnit := do
  match env.ownership with
  | .addressOwner owner => require (owner == senderAddr) (.notOwnedBySender (idHex id) sender)
  | .immutable => .ok ⟨⟩
  | .objectOwner parent =>
    .error (.objectOwnerNotAllowedInInputs (idHex id) (idHex parent) index)
  | .shared _ => .error (.useSharedObjectIdsInstead (idHex id))
  require (env.version == version) (.staleObjectVersion (idHex id) version env.version)
  require (H.asBytes (H.hash env.toBytes) == digest) (.objectDigestMismatch (idHex id))

/-- The turn of an input, `single.rs:1289-1364`. -/
def ptbInput (sender : String) (senderAddr : Address) :
    CallArg × Nat → Prepare (Option (ReadSetEntry × ResolvedObject))
  | (.pure _, _) => pure none
  | (.object (.immOrOwnedObject id version digest), index) => do
    let found ← loadEnvelope decoders id
    let env ← check (okOr found (.objectNotFound (idHex id)))
    check (checkPtbInput H sender senderAddr index id version digest env)
    pure (some (inputEntry id env.toBytes version))
  | (.object (.sharedObject id _ _), _) => throw (.sharedObjectsNotYetSupported (idHex id))

/-- What the loop over the commands has collected, `single.rs:1396-1400`. -/
structure ModuleReads where
  entries : List ReadSetEntry
  seen : List (String × String)
  seenRaw : List String

/-- The turn of a module of an upgrade, `single.rs:1461-1482`. -/
def previousModule (prevAddr : Address) (reads : ModuleReads) (bytecode : Bytes) :
    Prepare ModuleReads := do
  let info ← check ((decoders.compiledModule bytecode).mapError fun e ↦
    .invalidModule ("Upgrade input module deserialize failed: " ++ e))
  let key := moduleKey (toHexLiteral prevAddr.asBytes) info.name
  if reads.seenRaw.contains key then pure reads
  else
    let bytes ← getExistingRaw H key
    pure { reads with entries := reads.entries ++ [⟨key, bytes⟩], seenRaw := key :: reads.seenRaw }

/-- The turn of a command, `single.rs:1401-1487`. -/
def commandModules (reads : ModuleReads) : Command → Prepare ModuleReads
  | .moveCall call => do
    let package := toHexLiteral call.package.asBytes
    if reads.seen.contains (package, call.module) then pure reads
    else
      let entries ← resolveModuleDependencies H decoders package call.module
      pure { reads with
        entries := reads.entries ++ entries
        seen := (package, call.module) :: reads.seen }
  | .upgrade modules _ currentPackage _ => do
    let familyHex := idHex currentPackage
    let linkageKey := "linkage:latest:" ++ familyHex
    if reads.seenRaw.contains linkageKey then pure reads
    else
      let linkageBytes ← getExistingRaw H linkageKey
      let (prevAddr, _) ← check ((decoders.linkage linkageBytes).mapError fun e ↦
        .invalidModule ("linkage:latest decode for " ++ familyHex ++ ": " ++ e))
      modules.foldlM (previousModule H decoders prevAddr)
        { reads with
          entries := reads.entries ++ [⟨linkageKey, linkageBytes⟩]
          seenRaw := linkageKey :: reads.seenRaw }
  | _ => pure reads

/-- `single.rs:1272-1516`. -/
def prepareMovePtbTask (event : Event) (payload : MovePtbPayload) (subnetId : SubnetId) :
    Prepare SolverTask := do
  let senderAddr := Address.normalize H payload.sender
  let ptb := payload.ptb
  let resolved ← ptb.inputs.zipIdx.mapM (ptbInput H decoders payload.sender senderAddr)
  let inputs := resolved.filterMap id
  let fields ← resolveDynamicFieldsInto H decoders senderAddr payload.sender
    ptb.dynamicFieldAccesses (inputs.map (·.2.objectId))
  let modules ← ptb.commands.foldlM (commandModules H decoders) ⟨[], [], []⟩
  pure
    { taskId := taskIdOf H event
      subnetId := subnetId
      event := event
      readSet := inputs.map (·.1) ++ fields.map (·.1)
      resolvedInputs :=
        { operation := .programmableTransaction ptb
          inputObjects := inputs.map (·.2)
          dynamicFields := fields.map (·.2) }
      moduleReadSet := modules.entries }

end Setu.Validator
