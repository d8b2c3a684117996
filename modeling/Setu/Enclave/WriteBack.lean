import Setu.Enclave.Visibility

/-!
# Mutations of a Move call

Library `Enclave`. The VM reports how a call left the objects it took by mutable reference; the
engine records a report if the caller listed the position of the object. A report at another
position is dropped, and the call succeeds without it.
-/

namespace Setu.Enclave

open Setu.Base Setu.Types Setu.Runtime Setu.Move SetuMoveEngine

variable {D S : Type}

/-- The run of the VM in a call event: the request, what the VM returns and the session after
the call with what its native functions recorded. -/
def vmRun (H : Blake3 D) (engine : SetuMoveEngine S) (store : LocalStore)
    (payload : MoveCallPayload) (resolved : List ResolvedObject)
    (dynamicFields : List ResolvedDynamicField) (eventId : EventId)
    (timestamp gasBudget : UInt64) :
    Except String (MoveCallRequest × SerializedReturn × Session S) := do
  let request ← moveCallRequest engine store payload resolved
  let ctx := moveContext (deriveTxHash H eventId) request.sender gasBudget timestamp
    payload.needsTxContext
  let session := engine.newSession store.getRaw request.inputObjects dynamicFields ctx
    (.new ctx.gasBudget)
  let (returned, session) ← (session.execute H engine.vm ⟨request.moduleId, request.function,
    request.typeArgs, finalArgs ctx (moveCallArgs payload request).1⟩).2
  pure (request, returned, session)

/-- Every input that the VM reports as changed is stored with the bytes reported. -/
def KeepsMutations (inputObjects : List InputObject) (outputs : List (Nat × Bytes))
    (changes : List MoveStateChange) : Prop :=
  ∀ i input bytes, inputObjects[i]? = some input → (i, bytes) ∈ outputs →
    bytes ≠ input.moveData → Stores changes input.id bytes

/-- The bytes last reported for an object at one of the listed positions. -/
def lastListed (mutableIndices : List Nat) (inputObjects : List InputObject)
    (outputs : List (Nat × Bytes)) (id : ObjectId) : Option Bytes :=
  (outputs.filterMap fun output ↦
    if output.1 ∈ mutableIndices ∧ inputObjects[output.1]?.map InputObject.id = some id
    then some output.2 else none).getLast?

/-- For every input that the VM reports as changed, the last report at a position that the
caller listed is this one and the call did not move the object; or the native functions have
recorded the same bytes by themselves. -/
def MutationsListed (H : Blake3 D) (tags : TagSyntax) (mutableIndices : List Nat)
    (inputObjects : List InputObject) (outputs : List (Nat × Bytes))
    (recorded : SetuObjectRuntime) : Prop :=
  ∀ i input bytes, inputObjects[i]? = some input → (i, bytes) ∈ outputs →
    bytes ≠ input.moveData →
    (lastListed mutableIndices inputObjects outputs input.id = some bytes ∧
      recorded.moved input.id = false) ∨
    Stores (recorded.stateChanges H tags 0) input.id bytes

section Run

variable {H : Blake3 D} {engine : SetuMoveEngine S} {store : LocalStore}
  {payload : MoveCallPayload} {resolved : List ResolvedObject}
  {dynamicFields : List ResolvedDynamicField} {eventId : EventId} {timestamp gasBudget : UInt64}
  {output : MoveExecutionOutput} {request : MoveCallRequest} {returned : SerializedReturn}
  {session : Session S}

/-- The object is the one that the store has under its identifier. -/
private def Loaded (engine : SetuMoveEngine S) (store : LocalStore) (input : InputObject) : Prop :=
  ∃ env, store.existingEnvelope input.id = .ok env ∧
    inputObject engine.tags input.id env = .ok input

variable {input : InputObject}

private theorem Loaded.eq_of_id_eq {input' : InputObject} (h : Loaded engine store input)
    (h' : Loaded engine store input') (hid : input.id = input'.id) : input = input' := by
  obtain ⟨env, he, hi⟩ := h
  obtain ⟨env', he', hi'⟩ := h'
  rw [hid, he'] at he
  cases he
  rw [hid, hi'] at hi
  cases hi
  rfl

private theorem loaded_of_moveCallInput {sender : Address} {object : ResolvedObject × Nat}
    (h : moveCallInput engine store payload sender object = .ok input) :
    Loaded engine store input := by
  simp only [moveCallInput, bind_eq_ok] at h
  obtain ⟨env, he, _, -, hi⟩ := h
  have hid : input.id = object.1.objectId := by
    simp only [inputObject, InputObject.fromEnvelope, mapError_eq_ok, bind_eq_ok,
      pure_eq_ok] at hi
    obtain ⟨tag, -, rfl⟩ := hi
    rfl
  exact ⟨env, hid ▸ he, hid ▸ hi⟩

private theorem loaded_of_moveCallRequest
    (h : moveCallRequest engine store payload resolved = .ok request) :
    ∀ input ∈ request.inputObjects, Loaded engine store input := by
  simp only [moveCallRequest, bind_eq_ok, pure_eq_ok] at h
  obtain ⟨sender, -, inputObjects, hi, _, -, _, -, _, -, _, -, rfl⟩ := h
  intro input hin
  obtain ⟨object, -, ho⟩ := exists_of_mem_mapM_ok hi hin
  exact loaded_of_moveCallInput ho

private theorem vmRun_eq_ok :
    vmRun H engine store payload resolved dynamicFields eventId timestamp gasBudget =
        .ok (request, returned, session) ↔
      ∃ ctx, moveCallRequest engine store payload resolved = .ok request ∧
        ctx = moveContext (deriveTxHash H eventId) request.sender gasBudget timestamp
          payload.needsTxContext ∧
        ((engine.newSession store.getRaw request.inputObjects dynamicFields ctx
          (.new ctx.gasBudget)).execute H engine.vm ⟨request.moduleId, request.function,
            request.typeArgs, finalArgs ctx (moveCallArgs payload request).1⟩).2 =
          .ok (returned, session) := by
  simp only [vmRun, bind_eq_ok, pure_eq_ok, Prod.exists, Prod.mk.injEq]
  constructor
  · rintro ⟨_, hr, _, _, hvm, rfl, rfl, rfl⟩
    exact ⟨_, hr, rfl, hvm⟩
  · rintro ⟨_, hr, rfl, hvm⟩
    exact ⟨_, hr, _, _, hvm, rfl, rfl, rfl⟩

private theorem runtime_of_vmRun
    (hr : vmRun H engine store payload resolved dynamicFields eventId timestamp gasBudget =
      .ok (request, returned, session)) :
    session.runtime.mutated = .empty ∧
      ∀ input ∈ request.inputObjects,
        session.runtime.inputObjects.lookup input.id = some input := by
  obtain ⟨ctx, hre, -, hvm⟩ := vmRun_eq_ok.mp hr
  have hl := loaded_of_moveCallRequest hre
  have hp := Session.preserved_execute hvm
  refine ⟨hp.mutated, fun input hi ↦ ?_⟩
  rw [hp.inputObjects]
  refine HashMap.lookup_insertAll_of_mem (List.mem_map.mpr ⟨input, hi, rfl⟩) ?_
  intro input' hm
  obtain ⟨other, ho, heq⟩ := List.mem_map.mp hm
  obtain ⟨hid, rfl⟩ := Prod.mk.inj heq
  exact (hl other ho).eq_of_id_eq (hl input hi) hid

private theorem stateChanges_of_vmRun
    (hru : vmRun H engine store payload resolved dynamicFields eventId timestamp gasBudget =
      .ok (request, returned, session))
    (ho : executeMoveCallEvent H engine store payload resolved dynamicFields eventId
      timestamp gasBudget = .ok output) :
    output.stateChanges = (writeBack (moveCallArgs payload request).2
      returned.mutableReferenceOutputs session.runtime).stateChanges H engine.tags 0 := by
  obtain ⟨_, hr, rfl, hvm⟩ := vmRun_eq_ok.mp hru
  simp only [executeMoveCallEvent, hr, bind_eq_ok, runMoveCallRequest,
    successful_eq_ok, execute_success_iff] at ho
  obtain ⟨_, hr', _, returned', session', rfl, -, hvm', hf⟩ := ho
  cases hr'
  rw [hvm] at hvm'
  cases hvm'
  simp only [finishCall, bind_eq_ok, pure_eq_ok] at hf
  obtain ⟨_, -, _, -, rfl⟩ := hf
  rfl

private theorem lastReport_eq_lastListed (id : ObjectId) :
    lastReport (moveCallArgs payload request).2 returned.mutableReferenceOutputs id =
      lastListed (payload.mutableIndices.getD []) request.inputObjects
        returned.mutableReferenceOutputs id := by
  simp only [lastReport, lastListed, moveCallArgs, lookup_mutableArgMap,
    Option.ite_none_right_eq_some]

private theorem stores_writeBack_iff {bytes : Bytes} {mutableArgMap : List (Nat × ObjectId)}
    {outputs : List (Nat × Bytes)} {rt : SetuObjectRuntime} {tags : TagSyntax}
    (he : rt.mutated = .empty) (hi : rt.inputObjects.lookup input.id = some input)
    (hc : bytes ≠ input.moveData) :
    Stores ((writeBack mutableArgMap outputs rt).stateChanges H tags 0) input.id
        bytes ↔
      (lastReport mutableArgMap outputs input.id = some bytes ∧
        rt.moved input.id = false) ∨ Stores (rt.stateChanges H tags 0) input.id bytes := by
  have hm : ((writeBack mutableArgMap outputs rt).mutated.get? input.id).map
      ObjectMutationEffect.bcsBytes = _ := get?_mutated_writeBack hi
  have hl : rt.loadedWith input.id bytes = false := by
    simpa [SetuObjectRuntime.loadedWith, hi] using hc
  rw [he, IndexMap.get?_empty, Option.map_none, Option.or_none] at hm
  rw [writeBack_frame]
  simp only [SetuObjectRuntime.stateChanges, stores_append,
    SetuObjectRuntime.stores_mutationChanges_iff, hm, he, IndexMap.get?_empty]
  -- Only the recorded mutations differ, so the other changes are the same on both sides.
  change (Stores (rt.transferChanges H tags 0) _ _ ∨ _ ∧ rt.moved _ = false ∧
    rt.loadedWith _ _ = false) ∨ Stores (rt.otherChanges H tags 0) _ _ ↔ _
  simp only [hl, Option.map_none, reduceCtorEq, false_and, or_false, and_true]
  tauto

private theorem stored_iff_listed
    (hr : vmRun H engine store payload resolved dynamicFields eventId timestamp gasBudget =
      .ok (request, returned, session))
    (ho : executeMoveCallEvent H engine store payload resolved dynamicFields eventId
      timestamp gasBudget = .ok output) {i : Nat} {bytes : Bytes}
    (hi : request.inputObjects[i]? = some input) (hc : bytes ≠ input.moveData) :
    Stores output.stateChanges input.id bytes ↔
      (lastListed (payload.mutableIndices.getD []) request.inputObjects
        returned.mutableReferenceOutputs input.id = some bytes ∧
        session.runtime.moved input.id = false) ∨
      Stores (session.runtime.stateChanges H engine.tags 0) input.id bytes := by
  obtain ⟨he, hl⟩ := runtime_of_vmRun hr
  rw [stateChanges_of_vmRun hr ho, stores_writeBack_iff he (hl input (List.mem_of_getElem? hi)) hc,
    lastReport_eq_lastListed]

/-- The mutations of a call are kept exactly if the caller listed the positions of all inputs
that it changes. -/
theorem keepsMutations_iff
    (hrun : vmRun H engine store payload resolved dynamicFields eventId timestamp gasBudget =
      .ok (request, returned, session))
    (houtput : executeMoveCallEvent H engine store payload resolved dynamicFields eventId
      timestamp gasBudget = .ok output) :
    KeepsMutations request.inputObjects returned.mutableReferenceOutputs output.stateChanges ↔
      MutationsListed H engine.tags (payload.mutableIndices.getD []) request.inputObjects
        returned.mutableReferenceOutputs session.runtime :=
  forall₅_congr fun _ _ _ hi _ ↦ forall_congr' fun hc ↦
    stored_iff_listed hrun houtput hi hc

/-! ### A vault that is debited

`withdraw(vault: &mut Vault)` pays out what the vault holds as a new coin. -/

/-- The vault's identifier. -/
def vaultId : ObjectId := ⟨Vector.replicate 32 7⟩

/-- The vault holds a hundred and belongs to the zero address. -/
def vaultStore : LocalStore where
  getEnvelope id := .ok (if id = vaultId then some (.fromMoveResult Blake3.ideal vaultId .zero 1
    (.addressOwner .zero) "0x1::bank::Vault" (vaultId.asBytes ++ u64Le 100)) else none)
  getRaw _ := .ok none

/-- A VM that runs `withdraw`: it empties the vault and transfers a new coin to the sender. -/
def withdrawEngine : SetuMoveEngine Unit :=
  let vault : StructTag := .mk frameworkAddr (ident "bank") (ident "Vault") .nil
  let engine := permissiveEngine
    (fun _ _ ↦ ⟨[.mutableReference (.struct vault)], []⟩) ⟨.public, true⟩
  { engine with
    tags := { engine.tags with parseStruct := fun _ ↦ .ok vault }
    vm := { engine.vm with
      execute := fun _ rt gas call ↦
        let debited := ((call.args.headD []).take 32) ++ u64Le 0
        let coin := (rt.nextId Blake3.ideal).asBytes ++ u64Le 100
        (gas, .ok (⟨[], [(0, debited)]⟩, [.newUid, .transfer rt.sender (coinTag .u8) coin], ())) } }

/-- The call of `withdraw` on the vault. -/
def withdrawCall (mutableIndices : Option (List Nat)) : MoveCallPayload :=
  { rawCall ⟨frameworkAddr, ident "bank"⟩ (ident "withdraw") [] with
    inputObjectIds := [vaultId]
    mutableIndices := mutableIndices }

/-- What the enclave resolved for the call. -/
def vaultResolved : List ResolvedObject := [⟨vaultId, "MoveObject", 1⟩]

/-- Without the vault in the list the sender gets the coin and the vault keeps its hundred. -/
theorem withdraw_loses_debit :
    ∃ request returned session output,
      vmRun Blake3.ideal withdrawEngine vaultStore (withdrawCall none) vaultResolved [] "" 0 0 =
        .ok (request, returned, session) ∧
      executeMoveCallEvent Blake3.ideal withdrawEngine vaultStore (withdrawCall none)
        vaultResolved [] "" 0 0 = .ok output ∧
      output.stateChanges.map MoveStateChange.changeType = [.create] ∧
      ¬ KeepsMutations request.inputObjects returned.mutableReferenceOutputs
        output.stateChanges := by
  refine ⟨_, _, _, _, eq_ok_get (by decide +kernel), eq_ok_get (by decide +kernel),
    by decide +kernel, fun h ↦ ?_⟩
  have hs := h 0 _ (vaultId.asBytes ++ u64Le 0) rfl (by decide +kernel) (by decide +kernel)
  revert hs
  decide +kernel

/-- With the vault in the list the debit is stored. -/
theorem keepsMutations_withdraw :
    ∃ request returned session output,
      vmRun Blake3.ideal withdrawEngine vaultStore (withdrawCall (some [0])) vaultResolved [] "" 0
        0 = .ok (request, returned, session) ∧
      executeMoveCallEvent Blake3.ideal withdrawEngine vaultStore (withdrawCall (some [0]))
        vaultResolved [] "" 0 0 = .ok output ∧
      (KeepsMutations request.inputObjects returned.mutableReferenceOutputs output.stateChanges ↔
        MutationsListed Blake3.ideal withdrawEngine.tags [0] request.inputObjects
          returned.mutableReferenceOutputs session.runtime) := by
  have hr := eq_ok_get (x := vmRun Blake3.ideal withdrawEngine vaultStore
    (withdrawCall (some [0])) vaultResolved [] "" 0 0) (by decide +kernel)
  have ho := eq_ok_get (x := executeMoveCallEvent Blake3.ideal withdrawEngine vaultStore
    (withdrawCall (some [0])) vaultResolved [] "" 0 0) (by decide +kernel)
  exact ⟨_, _, _, _, hr, ho, keepsMutations_iff hr ho⟩

end Run

end Setu.Enclave
