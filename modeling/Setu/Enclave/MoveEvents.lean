import Setu.Enclave.CoinEvents
import Setu.Move.Ptb

/-!
# Move calls and transaction blocks in the enclave

Library `Enclave`. The enclave loads the objects of a Move task from its local store, checks who
owns them and hands them to the engine. Source `crates/setu-enclave/src/mock/mod.rs:1245-1575`,
the Move arms of `execute_single_event_with_object_store` up to the output of the engine.
-/

namespace Setu.Enclave

open Setu.Base Setu.Types Setu.Runtime Setu.Move

/-- The local store of a task: envelopes of objects and raw values. -/
structure LocalStore where
  getEnvelope : ObjectId → Except String (Option ObjectEnvelope)
  getRaw : RawStore

/-- An object of the store, which must be there, `mock/mod.rs:1274-1277`. -/
def LocalStore.existingEnvelope (store : LocalStore) (id : ObjectId) :
    Except String ObjectEnvelope := do
  let env ← (store.getEnvelope id).mapError fun e ↦
    s!"Failed to get envelope for {objectIdText id}: {e}"
  okOr env s!"Object {objectIdText id} not found in store"

/-- The object as an input of the engine. -/
def inputObject (tags : TagSyntax) (id : ObjectId) (env : ObjectEnvelope) :
    Except String InputObject :=
  (InputObject.fromEnvelope tags id env).mapError fun e ↦
    s!"Failed to convert object {objectIdText id}: {e.toText}"

/-- The gas budget of a task, `mock/mod.rs:1360-1364` and `1510-1514`. -/
def resolvedBudget (gasBudget : UInt64) : UInt64 :=
  if gasBudget = UInt64.ofNat (2 ^ 64 - 1) ∨ gasBudget = 0 then maxGasBudget / 5 else gasBudget

/-- The output of the engine, which must be a success. -/
def successful (result : Except RuntimeError MoveExecutionOutput) (vmError failed : String) :
    Except String MoveExecutionOutput := do
  let output ← result.mapError fun e ↦ vmError ++ e.toText
  require output.success (output.error.getD failed)
  pure output

theorem successful_eq_ok {result : Except RuntimeError MoveExecutionOutput}
    {vmError failed : String} {output : MoveExecutionOutput} :
    successful result vmError failed = .ok output ↔
      result = .ok output ∧ output.success = true := by
  simp only [successful, bind_eq_ok, mapError_eq_ok, require_eq_ok, pure_eq_ok]
  constructor
  · rintro ⟨_, hr, _, hs, rfl⟩
    exact ⟨hr, hs⟩
  · rintro ⟨hr, hs⟩
    exact ⟨output, hr, ⟨⟩, hs, rfl⟩

variable {D S : Type} (H : Blake3 D) (engine : SetuMoveEngine S)

/-- The ownership check of an input of a call, `mock/mod.rs:1279-1328`. -/
def checkCallInput (payload : MoveCallPayload) (sender : Address) (id : ObjectId) (idx : Nat) :
    Ownership → Except String PUnit
  | .addressOwner owner =>
    require (owner == sender) s!"Object {objectIdText id} not owned by sender {payload.sender}"
  | .immutable => do
    require (!(payload.mutableIndices.getD []).contains idx)
      s!"Object {objectIdText id} is Immutable, rejected for &mut binding at index {idx}"
    require (!(payload.consumedIndices.getD []).contains idx)
      (s!"Object {objectIdText id} is Immutable, rejected for by-value consumption " ++
        s!"at index {idx}")
  | .objectOwner parent => .error
      (s!"Object {objectIdText id} is ObjectOwner(parent={objectIdText parent}), " ++
        s!"rejected from raw input_object_ids at index {idx} — DF entries must use " ++
        "dynamic_field_accesses")
  | .shared _ => require (payload.sharedObjectIds.contains id)
      s!"Shared object {objectIdText id} not declared in shared_object_ids"

/-- An input of a call, `mock/mod.rs:1273-1333`. -/
def moveCallInput (store : LocalStore) (payload : MoveCallPayload) (sender : Address)
    (object : ResolvedObject × Nat) : Except String InputObject := do
  let id := object.1.objectId
  let env ← store.existingEnvelope id
  checkCallInput payload sender id object.2 env.ownership
  inputObject engine.tags id env

/-- A call as the enclave hands it to the engine, `mock/mod.rs:1254-1354`. -/
structure MoveCallRequest where
  sender : Address
  inputObjects : List InputObject
  moduleId : ModuleId
  function : Identifier
  typeArgs : List TypeTag

/-- Steps 0 to 3 of the arm, `mock/mod.rs:1252-1354`. -/
def moveCallRequest (store : LocalStore) (payload : MoveCallPayload)
    (resolved : List ResolvedObject) : Except String MoveCallRequest := do
  let sender ← okOr (Address.fromHex payload.sender)
    ("Invalid sender: " ++ engine.texts.addressError payload.sender)
  let inputObjects ← resolved.zipIdx.mapM (moveCallInput engine store payload sender)
  let addr ← okOr (Address.fromHexLiteral payload.package)
    ("Invalid package address: " ++ engine.texts.addressError payload.package)
  let module ← (Identifier.new payload.module).mapError fun e ↦ s!"Invalid module name: {e}"
  let function ← (Identifier.new payload.function).mapError fun e ↦
    s!"Invalid function name: {e}"
  let typeArgs ← (payload.typeArgs.mapM engine.tags.parseType).mapError fun e ↦
    s!"Invalid type arg: {e}"
  pure ⟨sender, inputObjects, ⟨addr, module⟩, function, typeArgs⟩

/-- The execution context of an event, `mock/mod.rs:1365-1374` and `1515-1524`. -/
def moveContext (txHash : Bytes) (sender : Address) (gasBudget timestamp : UInt64)
    (needsTxContext : Bool) : MoveExecutionContext where
  txHash := txHash
  sender := sender
  gasBudget := resolvedBudget gasBudget
  currentVersion := 0
  epoch := 0
  needsTxContext := needsTxContext
  epochTimestampMs := timestamp

/-- The arguments and the write-back map of a call, `mock/mod.rs:1377-1382`. -/
def moveCallArgs (payload : MoveCallPayload) (request : MoveCallRequest) :
    List Bytes × List (Nat × ObjectId) :=
  buildMoveCallArgs request.inputObjects payload.args (payload.consumedIndices.getD [])
    (payload.mutableIndices.getD [])

/-- The call of the engine, `mock/mod.rs:1376-1402`. -/
def runMoveCallRequest (store : LocalStore) (payload : MoveCallPayload)
    (dynamicFields : List ResolvedDynamicField) (ctx : MoveExecutionContext)
    (request : MoveCallRequest) : Except String MoveExecutionOutput :=
  let (args, mutableArgMap) := moveCallArgs payload request
  successful (engine.execute H store.getRaw request.inputObjects dynamicFields request.moduleId
    request.function request.typeArgs args ctx mutableArgMap) "Move VM error: " "MoveCall failed"

/-- The `MoveCall` arm, `mock/mod.rs:1245-1438`. -/
def executeMoveCallEvent (store : LocalStore) (payload : MoveCallPayload)
    (resolved : List ResolvedObject) (dynamicFields : List ResolvedDynamicField)
    (eventId : EventId) (timestamp gasBudget : UInt64) : Except String MoveExecutionOutput := do
  let request ← moveCallRequest engine store payload resolved
  runMoveCallRequest H engine store payload dynamicFields
    (moveContext (deriveTxHash H eventId) request.sender gasBudget timestamp
      payload.needsTxContext) request

/-- The ownership check of an input of a block, `mock/mod.rs:1471-1499`. -/
def checkPtbInput (payload : MovePtbPayload) (sender : Address) (id : ObjectId) :
    Ownership → Except String PUnit
  | .addressOwner owner => require (owner == sender)
      s!"PTB object {objectIdText id} not owned by sender {payload.sender}"
  | .immutable => .ok ⟨⟩
  | .objectOwner parent => .error
      (s!"PTB object {objectIdText id} is ObjectOwner(parent={objectIdText parent}) — " ++
        "DF entries must use dynamic_field_accesses, not raw inputs")
  | .shared _ => .error
      (s!"PTB object {objectIdText id} is Shared — Phase 1 PTB does not yet " ++
        "support shared inputs")

/-- An input of a block, `mock/mod.rs:1460-1505`. -/
def movePtbInput (store : LocalStore) (payload : MovePtbPayload) (sender : Address)
    (object : ResolvedObject) : Except String InputObject := do
  let env ← store.existingEnvelope object.objectId
  checkPtbInput payload sender object.objectId env.ownership
  inputObject engine.tags object.objectId env

/-- The `MovePtb` arm, `mock/mod.rs:1441-1575`. -/
def executeMovePtbEvent (store : LocalStore) (payload : MovePtbPayload)
    (resolved : List ResolvedObject) (dynamicFields : List ResolvedDynamicField)
    (eventId : EventId) (timestamp gasBudget : UInt64) : Except String MoveExecutionOutput := do
  let sender ← okOr (Address.fromHex payload.sender)
    ("Invalid PTB sender: " ++ engine.texts.addressError payload.sender)
  let inputObjects ← resolved.mapM (movePtbInput engine store payload sender)
  successful (engine.executePtb H store.getRaw payload.ptb inputObjects dynamicFields
    (moveContext (deriveTxHash H eventId) sender gasBudget timestamp true))
    "PTB Move VM error: " "PTB execution failed"

variable {H engine} {store : LocalStore} {payload : MovePtbPayload}
  {resolved : List ResolvedObject} {dynamicFields : List ResolvedDynamicField}
  {eventId : EventId} {timestamp gasBudget : UInt64} {output : MoveExecutionOutput}

/-- A block event succeeds if its inputs are loaded, its budget is in range and its body comes
through. -/
theorem executeMovePtbEvent_eq_ok :
    executeMovePtbEvent H engine store payload resolved dynamicFields eventId timestamp gasBudget
        = .ok output ↔
      ∃ sender inputObjects ctx, Address.fromHex payload.sender = some sender ∧
        resolved.mapM (movePtbInput engine store payload sender) = .ok inputObjects ∧
        ctx = moveContext (deriveTxHash H eventId) sender gasBudget timestamp true ∧
        SetuMoveEngine.BudgetInRange ctx ∧
        engine.executePtbBody H store.getRaw payload.ptb inputObjects dynamicFields ctx
          = .ok output := by
  simp only [executeMovePtbEvent, bind_eq_ok, okOr_eq_ok, successful_eq_ok,
    SetuMoveEngine.executePtb_success_iff]
  constructor
  · rintro ⟨sender, hs, inputObjects, hi, hr, hb⟩
    exact ⟨sender, inputObjects, _, hs, hi, rfl, hr, hb⟩
  · rintro ⟨sender, inputObjects, _, hs, hi, rfl, hr, hb⟩
    exact ⟨sender, hs, inputObjects, hi, hr, hb⟩

end Setu.Enclave
