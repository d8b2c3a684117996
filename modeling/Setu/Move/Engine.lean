import Setu.Move.Session
import Setu.Move.StateChanges

/-!
# The engine and single Move calls

Library `Move`. The engine around the VM: its execution context, the module changes of a
session and the execution of one function, with the assembly of its arguments. Sources
`crates/setu-move-vm/src/engine.rs` and `hybrid.rs`.
-/

namespace Setu.Move

open Setu.Base Setu.Types Setu.Runtime

/-- `engine.rs:60-71`. -/
structure MoveExecutionContext where
  txHash : Bytes
  sender : Address
  gasBudget : UInt64
  currentVersion : UInt64
  epoch : UInt64
  needsTxContext : Bool
  epochTimestampMs : UInt64
  deriving DecidableEq

/-- `engine.rs:82-110`. -/
inductive ModuleChange where
  | publish (moduleId : ModuleId) (bytecode : Bytes)
  | publishWithLinkage (moduleId : ModuleId) (bytecode : Bytes) (familyId : ObjectId)
      (packageAddr : Address) (version : UInt64)
  | upgrade (moduleId : ModuleId) (bytecode : Bytes) (familyId prevPackage : ObjectId)
      (newPackageAddr : Address) (newVersion : UInt64)
  deriving DecidableEq

/-- The module that a change is about, `engine.rs:1211-1218`. -/
def ModuleChange.moduleId : ModuleChange → ModuleId
  | publish id _ | publishWithLinkage id _ _ _ _ | upgrade id _ _ _ _ _ => id

/-- `engine.rs:131-139`. -/
structure MoveExecutionOutput where
  success : Bool
  stateChanges : List MoveStateChange
  moduleChanges : List ModuleChange
  returnValues : List Bytes
  events : List (String × Bytes)
  gasUsed : UInt64
  error : Option String
  deriving DecidableEq

/-- The output of a failed execution, which changes nothing. -/
def MoveExecutionOutput.failed (gasUsed : UInt64) (error : String) : MoveExecutionOutput :=
  ⟨false, [], [], [], [], gasUsed, some error⟩

/-- `engine.rs:2540-2556`. -/
def buildTxContextBcs (ctx : MoveExecutionContext) : Bytes :=
  ctx.sender.asBytes ++ bcsVec ctx.txHash ++ u64Le ctx.epoch ++ u64Le 0

/-- `compat.rs:39-53`. -/
inductive UpgradePolicy where
  | compatible | additiveOnly | depOnly
  deriving DecidableEq

/-- `from_u8`, `compat.rs:57-64`. -/
def UpgradePolicy.fromU8 : UInt8 → Option UpgradePolicy
  | 0 => some .compatible
  | 1 => some .additiveOnly
  | 2 => some .depOnly
  | _ => none

/-- Operations on bytecode: `CompiledModule::deserialize_with_defaults` with `self_id`,
`relink_module`, the handle counts of a module and `check_upgrade_compat`, with the libraries'
error texts. -/
structure Bytecode where
  selfId : Bytes → Except String ModuleId
  relink : Bytes → Address → Address → Except String Bytes
  datatypeHandles : Bytes → Nat
  functionHandles : Bytes → Nat
  checkUpgradeCompat : Bytes → Bytes → UpgradePolicy → Except String PUnit

/-- Error texts of the libraries that decode serialized values and hexadecimal addresses. -/
structure LibraryTexts where
  bcsError : Bytes → String
  addressError : String → String

/-- `engine.rs:195-201`, with the foreign libraries it calls. -/
structure SetuMoveEngine (S : Type) where
  vm : MoveVm S
  stdlibModules : HashMap ModuleId Bytes
  tags : TagSyntax
  bytecode : Bytecode
  texts : LibraryTexts

/-- `get_raw` of a store. -/
abbrev RawStore := String → Except String (Option Bytes)

namespace SetuMoveEngine

variable {D S : Type} (H : Blake3 D) (engine : SetuMoveEngine S)

/-- `resolver.rs:67-83`. -/
def getModule (store : RawStore) (moduleId : ModuleId) : Except String (Option Bytes) :=
  match engine.stdlibModules.lookup moduleId with
  | some bytes => .ok (some bytes)
  | none =>
    let address := toHexLiteral moduleId.address.asBytes
    (store (moduleKey address moduleId.name.name)).mapError fun e ↦
      s!"Failed to load module {address}::{moduleId.name.name}: {e}"

/-- A session over a store with its object runtime, `engine.rs:298-314`. -/
def newSession (store : RawStore) (inputObjects : List InputObject)
    (dfPreload : List ResolvedDynamicField) (ctx : MoveExecutionContext) (gas : GasMeter) :
    Session S where
  data := engine.vm.newSession (engine.getModule store)
  runtime := .new inputObjects dfPreload ctx.txHash ctx.sender ctx.epochTimestampMs
  gas := gas

/-- `extract_module_changes_skipping`, `engine.rs:436-470`. -/
def extractModuleChanges (changeSet : List (ModuleId × ModuleOp)) (skip : List ModuleId) :
    Except RuntimeError (List ModuleChange) :=
  (changeSet.filter fun change ↦ !skip.contains change.1).mapM fun (id, op) ↦
    let name := s!"{toHexLiteral id.address.asBytes}::{id.name.name}"
    match op with
    | .new bytes => .ok (.publish id bytes)
    | .modify => .error (.vmExecutionError s!"Module update disabled (ADR-4): {name}")
    | .delete => .error (.vmExecutionError s!"Module deletion disabled (ADR-4): {name}")

/-- The events of a session with their types as text. -/
def eventTexts (rt : SetuObjectRuntime) : List (String × Bytes) :=
  rt.emittedEvents.map fun (tag, bytes) ↦ (engine.tags.text (.struct tag), bytes)

/-- The turn of the write-back for one output of the VM, `engine.rs:355-372`. -/
def writeBackOutput (mutableArgMap : List (Nat × ObjectId)) (rt : SetuObjectRuntime)
    (output : Nat × Bytes) : SetuObjectRuntime :=
  match mutableArgMap.lookup output.1 with
  | none => rt
  | some objectId =>
    match rt.inputObjects.lookup objectId with
    | some input => rt.mutateObject objectId input.typeTag output.2
    | none => rt

/-- The write-back of mutable references, `engine.rs:350-373`: driven by the map that the
caller supplies. -/
def writeBack (mutableArgMap : List (Nat × ObjectId)) (outputs : List (Nat × Bytes))
    (rt : SetuObjectRuntime) : SetuObjectRuntime :=
  outputs.foldl (writeBackOutput mutableArgMap) rt

/-- The arguments with the transaction context at the end if it is needed,
`engine.rs:327-330`. -/
def finalArgs (ctx : MoveExecutionContext) (args : List Bytes) : List Bytes :=
  if ctx.needsTxContext then args ++ [buildTxContextBcs ctx] else args

/-- The successful end of a call, `engine.rs:343-407`. -/
def finishCall (ctx : MoveExecutionContext) (mutableArgMap : List (Nat × ObjectId))
    (returned : SerializedReturn) (session : Session S) :
    Except RuntimeError MoveExecutionOutput := do
  let changeSet ← (engine.vm.finish session.data).mapError .vmExecutionError
  let runtime := writeBack mutableArgMap returned.mutableReferenceOutputs session.runtime
  let moduleChanges ← extractModuleChanges changeSet []
  pure
    { success := true
      stateChanges := runtime.stateChanges H engine.tags ctx.currentVersion
      moduleChanges := moduleChanges
      returnValues := returned.returnValues
      events := engine.eventTexts runtime
      gasUsed := session.gas.instructionsExecuted
      error := none }

/-- `engine.rs:285-419`. -/
def execute (store : RawStore) (inputObjects : List InputObject)
    (dfPreload : List ResolvedDynamicField) (moduleId : ModuleId) (function : Identifier)
    (typeArgs : List TypeTag) (args : List Bytes) (ctx : MoveExecutionContext)
    (mutableArgMap : List (Nat × ObjectId)) : Except RuntimeError MoveExecutionOutput := do
  let session := engine.newSession store inputObjects dfPreload ctx (.new ctx.gasBudget)
  typeArgs.forM fun tag ↦ session.loadType engine.vm tag id
  match session.execute H engine.vm ⟨moduleId, function, typeArgs, finalArgs ctx args⟩ with
  | (_, .ok (returned, session)) => engine.finishCall H ctx mutableArgMap returned session
  | (gas, .error e) => pure (.failed gas.instructionsExecuted e)

variable {H engine} {store : RawStore} {inputObjects : List InputObject}
  {dfPreload : List ResolvedDynamicField} {moduleId : ModuleId} {function : Identifier}
  {typeArgs : List TypeTag} {args : List Bytes} {ctx : MoveExecutionContext}
  {mutableArgMap : List (Nat × ObjectId)} {output : MoveExecutionOutput}

/-- A call succeeds if the VM runs it and the session ends well. -/
theorem execute_success_iff :
    engine.execute H store inputObjects dfPreload moduleId function typeArgs args ctx
          mutableArgMap = .ok output ∧ output.success = true ↔
      ∃ session returned session',
        session = engine.newSession store inputObjects dfPreload ctx (.new ctx.gasBudget) ∧
        typeArgs.forM (fun tag ↦ session.loadType engine.vm tag id) = .ok ⟨⟩ ∧
        (session.execute H engine.vm ⟨moduleId, function, typeArgs, finalArgs ctx args⟩).2 =
          .ok (returned, session') ∧
        engine.finishCall H ctx mutableArgMap returned session' = .ok output := by
  simp only [execute, bind_eq_ok]
  constructor
  · rintro ⟨⟨_, ht, hr⟩, hs⟩
    split at hr
    · next hvm => exact ⟨_, _, _, rfl, ht, by rw [hvm], hr⟩
    · cases hr
      cases hs
  · rintro ⟨_, returned, session', rfl, ht, hvm, hf⟩
    refine ⟨⟨⟨⟩, ht, ?_⟩, ?_⟩
    · split
      · next hvm' =>
        rw [hvm'] at hvm
        cases hvm
        exact hf
      · next hvm' =>
        rw [hvm'] at hvm
        cases hvm
    · simp only [finishCall, bind_eq_ok, pure_eq_ok] at hf
      obtain ⟨_, -, _, -, rfl⟩ := hf
      rfl

/-- The bytes last reported for an object at a position of the map. -/
def lastReport (mutableArgMap : List (Nat × ObjectId)) (outputs : List (Nat × Bytes))
    (id : ObjectId) : Option Bytes :=
  (outputs.filterMap fun output ↦
    if mutableArgMap.lookup output.1 = some id then some output.2 else none).getLast?

section WriteBack

variable {outputs : List (Nat × Bytes)} {rt : SetuObjectRuntime}

private theorem writeBackOutput_frame (output : Nat × Bytes) :
    writeBackOutput mutableArgMap rt output =
      { rt with mutated := (writeBackOutput mutableArgMap rt output).mutated } := by
  unfold writeBackOutput
  split
  · rfl
  · split <;> rfl

/-- The write-back touches the recorded mutations only. -/
theorem writeBack_frame :
    writeBack mutableArgMap outputs rt =
      { rt with mutated := (writeBack mutableArgMap outputs rt).mutated } := by
  induction outputs generalizing rt with
  | nil => rfl
  | cons output rest ih =>
    rw [writeBack, List.foldl_cons, ← writeBack, ih, writeBackOutput_frame]

private theorem get?_mutated_writeBackOutput {id : ObjectId} {input : InputObject}
    (hi : rt.inputObjects.lookup id = some input) (output : Nat × Bytes) :
    ((writeBackOutput mutableArgMap rt output).mutated.get? id).map
        ObjectMutationEffect.bcsBytes =
      if mutableArgMap.lookup output.1 = some id then some output.2
      else (rt.mutated.get? id).map ObjectMutationEffect.bcsBytes := by
  unfold writeBackOutput
  cases hl : mutableArgMap.lookup output.1 with
  | none => simp
  | some id' =>
    by_cases hid : id' = id
    · subst hid
      simp [hi, SetuObjectRuntime.mutateObject]
    · simp only [Option.some.injEq, hid, if_false]
      split
      · simp [SetuObjectRuntime.mutateObject, IndexMap.get?_insert, Ne.symm hid]
      · rfl

/-- For a loaded object the last report wins. -/
theorem get?_mutated_writeBack {id : ObjectId} {input : InputObject}
    (hi : rt.inputObjects.lookup id = some input) :
    ((writeBack mutableArgMap outputs rt).mutated.get? id).map ObjectMutationEffect.bcsBytes =
      (lastReport mutableArgMap outputs id).or
        ((rt.mutated.get? id).map ObjectMutationEffect.bcsBytes) := by
  induction outputs generalizing rt with
  | nil => rfl
  | cons output rest ih =>
    have hi' : (writeBackOutput mutableArgMap rt output).inputObjects.lookup id =
        some input := by rw [writeBackOutput_frame, hi]
    rw [writeBack, List.foldl_cons, ← writeBack, ih hi', get?_mutated_writeBackOutput hi]
    unfold lastReport
    by_cases hl : mutableArgMap.lookup output.1 = some id
    · simp only [List.filterMap_cons, hl, if_true, List.getLast?_cons]
      cases (rest.filterMap _).getLast? <;> rfl
    · simp [hl]

end WriteBack

end SetuMoveEngine

/-- `hybrid.rs:445-480`: the input objects first, those with a mutable
index in the map, then the pure arguments. The consumed indices are ignored. -/
def buildMoveCallArgs (inputObjects : List InputObject) (pureArgs : List Bytes)
    (_consumedIndices mutableIndices : List Nat) : List Bytes × List (Nat × ObjectId) :=
  (inputObjects.map InputObject.moveData ++ pureArgs,
    inputObjects.zipIdx.filterMap fun (obj, idx) ↦
      if mutableIndices.contains idx then some (idx, obj.id) else none)

private theorem lookup_mutableArgMap_from {mutableIndices : List Nat} {i : Nat}
    (hi : i ∈ mutableIndices) (inputObjects : List InputObject) (start : Nat)
    (hs : start ≤ i) :
    ((inputObjects.zipIdx start).filterMap fun (obj, idx) ↦
      if mutableIndices.contains idx then some (idx, obj.id) else none).lookup i =
    inputObjects[i - start]?.map InputObject.id := by
  induction inputObjects generalizing start with
  | nil => simp
  | cons obj rest ih =>
    rw [List.zipIdx_cons, List.filterMap_cons]
    by_cases hf : i = start
    · subst hf
      simp [hi]
    · have hb : (i == start) = false := by simpa using hf
      obtain ⟨k, hk⟩ : ∃ k, i - start = k + 1 := ⟨i - start - 1, by omega⟩
      rw [hk, List.getElem?_cons_succ, show k = i - (start + 1) by omega,
        ← ih (start + 1) (by omega)]
      by_cases hl : start ∈ mutableIndices
      · simp [hl, List.lookup_cons, hb]
      · simp [hl]

/-- The map holds the input objects at the mutable indices. -/
theorem lookup_mutableArgMap {inputObjects : List InputObject} {pureArgs : List Bytes}
    {consumedIndices mutableIndices : List Nat} {i : Nat} :
    (buildMoveCallArgs inputObjects pureArgs consumedIndices mutableIndices).2.lookup i =
      if i ∈ mutableIndices then inputObjects[i]?.map InputObject.id else none := by
  split
  · next hi => exact lookup_mutableArgMap_from hi inputObjects 0 i.zero_le
  · next hi =>
    rw [List.lookup_eq_none_iff]
    intro entry he
    obtain ⟨⟨obj, idx⟩, -, hs⟩ := List.mem_filterMap.mp he
    simp only [Option.ite_none_right_eq_some, List.contains_iff_mem, Option.some.injEq] at hs
    obtain ⟨hl, rfl⟩ := hs
    have hne : i ≠ idx := fun h ↦ hi (h ▸ hl)
    simpa using hne

end Setu.Move
