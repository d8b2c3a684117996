import Setu.Validator.TaskPreparer

/-!
# What a prepared Move task holds

Library `Validator`. The preparations taken apart once: on a given view of the state, which
objects become the inputs of the task, what was checked of them and which dynamic fields were
found.
-/

namespace Setu.Validator

open Setu.Base Setu.Types

section Run

variable {α β γ : Type} (view : ObjectId → Option Bytes)

/-- The result of a preparation on a view of the state. -/
def runOn (prepare : Prepare α) : Except TaskPrepareError α := (ExceptT.run prepare).run view

@[simp]
theorem runOn_pure (a : α) : runOn view (pure a) = .ok a := rfl

@[simp]
theorem runOn_throw (e : TaskPrepareError) : runOn view (throw e : Prepare α) = .error e := rfl

@[simp]
theorem runOn_check (result : Except TaskPrepareError α) : runOn view (check result) = result := rfl

@[simp]
theorem runOn_getObject (id : ObjectId) : runOn view (getObject id) = .ok (view id) := rfl

@[simp]
theorem runOn_bind (prepare : Prepare α) (f : α → Prepare β) :
    runOn view (prepare >>= f) = runOn view prepare >>= fun a ↦ runOn view (f a) := by
  rw [runOn, ExceptT.run_bind, Lookup.run_bind, runOn]
  cases (ExceptT.run prepare).run view <;> rfl

@[simp]
theorem runOn_mapM (f : γ → Prepare α) (l : List γ) :
    runOn view (l.mapM f) = l.mapM fun c ↦ runOn view (f c) := by
  induction l with
  | nil => rfl
  | cons c l ih =>
    simp only [List.mapM_cons, runOn_bind, ih, runOn_pure]
    rfl

@[simp]
theorem runOn_forM (f : γ → Prepare PUnit) (l : List γ) :
    runOn view (l.forM f) = l.forM fun c ↦ runOn view (f c) := by
  induction l with
  | nil => rfl
  | cons c l ih =>
    rw [List.forM_eq_forM] at ih ⊢
    rw [List.forM_cons, runOn_bind, ih]
    rfl

end Run

variable {D : Type} {H : Blake3 D} {decoders : Decoders} {view : ObjectId → Option Bytes}

@[simp]
theorem runOn_getExistingObject_eq_ok {id : ObjectId} {data : Bytes} :
    runOn view (getExistingObject id) = .ok data ↔ view id = some data := by
  simp [getExistingObject, bind_eq_ok, okOr_eq_ok]

variable {senderAddr : Address} {call : MoveCallPayload} {loaded : ReadSetEntry × ResolvedObject}

theorem ownedInput_eq_ok {input : ObjectId × Nat} :
    runOn view (ownedInput H decoders call senderAddr input) = .ok loaded ↔
      ∃ data, view input.1 = some data ∧
        checkOwnedInput H call senderAddr input.2 input.1 (decoders.detectAndParse data) =
          .ok ⟨⟩ ∧
        loaded = inputEntry input.1 data (decoders.detectAndParse data).version := by
  simp only [ownedInput, runOn_bind, bind_eq_ok, runOn_getExistingObject_eq_ok,
    runOn_check, runOn_pure, Except.ok.injEq]
  constructor
  · rintro ⟨data, hd, _, hc, rfl⟩
    exact ⟨data, hd, hc, rfl⟩
  · rintro ⟨data, hd, hc, rfl⟩
    exact ⟨data, hd, ⟨⟩, hc, rfl⟩

theorem sharedInput_eq_ok {id : ObjectId} (h : runOn view (sharedInput decoders id) = .ok loaded) :
    ∃ data env initial, view id = some data ∧ decoders.detectAndParse data = .envelope env ∧
      env.ownership = .shared initial ∧ loaded = inputEntry id data env.version := by
  simp only [sharedInput, runOn_bind, bind_eq_ok, runOn_getExistingObject_eq_ok] at h
  obtain ⟨data, hd, h⟩ := h
  split at h
  · next env he =>
    split at h
    · next initial ho =>
      cases h
      exact ⟨data, env, initial, hd, he, ho, rfl⟩
    · cases h
  · cases h

/-- What is known of a call whose task was prepared. -/
structure CallPrepared (H : Blake3 D) (decoders : Decoders) (view : ObjectId → Option Bytes)
    (call : MoveCallPayload) (task : SolverTask) : Prop where
  /-- No object is in both lists. -/
  apart : ∀ id ∈ call.sharedObjectIds, id ∉ call.inputObjectIds
  /-- The inputs are the objects of the first list and then those of the second. -/
  objects : task.resolvedInputs.inputObjects.map ResolvedObject.objectId =
    call.inputObjectIds ++ call.sharedObjectIds
  /-- Each of them has an entry in the read set. -/
  entries : task.resolvedInputs.inputObjects.length ≤ task.readSet.length
  /-- An object of the first list passed the check at its index. -/
  owned : ∀ (idx : Nat) (id : ObjectId), call.inputObjectIds[idx]? = some id →
    ∃ data, view id = some data ∧
      checkOwnedInput H call (.normalize H call.sender) idx id (decoders.detectAndParse data) =
        .ok ⟨⟩
  /-- An object of the second list is shared. -/
  shared : ∀ id ∈ call.sharedObjectIds, ∃ data env initial, view id = some data ∧
    decoders.detectAndParse data = .envelope env ∧ env.ownership = .shared initial
  /-- The dynamic fields were resolved under the objects of the lists. -/
  fields : ∃ accesses resolved,
    runOn view (resolveDynamicFieldsInto H decoders (.normalize H call.sender) call.sender accesses
      (call.inputObjectIds ++ call.sharedObjectIds)) = .ok resolved ∧
    task.resolvedInputs.dynamicFields = resolved.map (·.2)

variable {task : SolverTask}

/-- A call that has read nothing has no inputs. -/
theorem CallPrepared.inputObjects_of_isEmpty (h : CallPrepared H decoders view call task)
    (he : (task.readSet.isEmpty && task.moduleReadSet.isEmpty) = true) :
    task.resolvedInputs.inputObjects = [] := by
  have hl := h.entries
  rw [Bool.and_eq_true, List.isEmpty_iff] at he
  rwa [he.1, List.length_nil, Nat.le_zero, List.length_eq_zero_iff] at hl

theorem callPrepared_of_prepareMoveCallTask {event : Event} {subnetId : SubnetId}
    (h : runOn view (prepareMoveCallTask H decoders event call subnetId) = .ok task) :
    task.event = event ∧ CallPrepared H decoders view call task := by
  simp only [prepareMoveCallTask, runOn_bind, bind_eq_ok, runOn_forM, runOn_mapM, runOn_check,
    forM_eq_ok, require_eq_ok, runOn_pure, Except.ok.injEq] at h
  obtain ⟨_, ha, owned, ho, shared, hs, accesses, -, fields, hf, _, -, _, -, rfl⟩ := h
  refine ⟨rfl, ?_, ?_, by simp, ?_, ?_, accesses, fields, hf, rfl⟩
  · intro id hid
    simpa using ha id hid
  · have ho : owned.map (·.2.objectId) = call.inputObjectIds.zipIdx.map Prod.fst := by
      refine map_eq_map_of_mapM_ok ho fun input loaded hl ↦ ?_
      obtain ⟨data, -, -, rfl⟩ := ownedInput_eq_ok.mp hl
      rfl
    have hs : shared.map (·.2.objectId) = call.sharedObjectIds.map id := by
      refine map_eq_map_of_mapM_ok hs fun input loaded hl ↦ ?_
      obtain ⟨data, env, initial, -, -, -, rfl⟩ := sharedInput_eq_ok hl
      rfl
    rw [List.map_map, List.map_append, Function.comp_def, ho, hs, List.zipIdx_map_fst, List.map_id]
  · intro idx id hid
    obtain ⟨_, -, hl⟩ := exists_ok_of_mapM_ok ho
      (List.mem_zipIdx_iff_getElem?.mpr hid : (id, idx) ∈ _)
    obtain ⟨data, hd, hc, -⟩ := ownedInput_eq_ok.mp hl
    exact ⟨data, hd, hc⟩
  · intro id hid
    obtain ⟨_, -, hl⟩ := exists_ok_of_mapM_ok hs hid
    obtain ⟨data, env, initial, hd, he, how, -⟩ := sharedInput_eq_ok hl
    exact ⟨data, env, initial, hd, he, how⟩

theorem runOn_loadEnvelope_eq_ok {id : ObjectId} {found : Option ObjectEnvelope} :
    runOn view (loadEnvelope decoders id) = .ok found ↔
      (view id = none ∧ found = none) ∨
        ∃ data env, view id = some data ∧ decoders.detectAndParse data = .envelope env ∧
          found = some env := by
  rw [loadEnvelope, runOn_bind, runOn_getObject]
  simp only [bind, Except.bind]
  cases view id with
  | none => simp [eq_comm]
  | some data =>
    simp only [reduceCtorEq, false_and, false_or, Option.some.injEq, exists_and_left,
      exists_eq_left']
    cases decoders.detectAndParse data <;> simp [eq_comm]

/-- An entry of the read set under the key of an object: the object as it is in the state, or
nothing. -/
def ReadsObject (decoders : Decoders) (view : ObjectId → Option Bytes) (entry : ReadSetEntry) :
    Prop :=
  ∃ id, entry.key = objectKey id ∧ (entry.value = [] ∨
    ∃ data env, view id = some data ∧ decoders.detectAndParse data = .envelope env ∧
      entry.value = env.toBytes)

/-- What is read of a field: nothing, or an envelope that the parent owns. -/
private theorem read_of_resolveByMode {dfOid : ObjectId} {df : PtbDfAccess}
    {found : ReadSetEntry × Option Bytes × String × Option Bytes}
    (h : runOn view (resolveByMode decoders dfOid df) = .ok found) :
    found.1.key = objectKey dfOid ∧ (view dfOid = none ∧ found.1.value = [] ∨
      ∃ data env, view dfOid = some data ∧ decoders.detectAndParse data = .envelope env ∧
        env.ownership = .objectOwner df.parent ∧ found.1.value = env.toBytes) := by
  simp only [resolveByMode, runOn_bind, bind_eq_ok, runOn_loadEnvelope_eq_ok] at h
  obtain ⟨_, ⟨hn, rfl⟩ | ⟨data, env, hd, he, rfl⟩, h⟩ := h
  · cases hm : df.mode <;> simp only [hm, runOn_pure, runOn_throw, reduceCtorEq] at h
    all_goals
      cases h
      exact ⟨rfl, .inl ⟨hn, rfl⟩⟩
  · cases hm : df.mode <;> simp only [hm, runOn_check, runOn_throw, reduceCtorEq] at h
    all_goals
      simp only [presentField, ensureDfOwnership, bind_eq_ok, require_eq_ok, beq_iff_eq,
        pure_eq_ok] at h
      obtain ⟨_, ho, _, -, rfl⟩ := h
      exact ⟨rfl, .inr ⟨data, env, hd, he, ho, rfl⟩⟩

variable {resolved : List (ReadSetEntry × ResolvedDynamicField)} {sender : String}

/-- A resolved field hangs under a declared object, has the identifier derived from its place, and
was read with this parent as its owner or not found at all. -/
theorem resolved_of_resolveDynamicFieldsInto {accesses : List PtbDfAccess} {parents : List ObjectId}
    (h : runOn view (resolveDynamicFieldsInto H decoders senderAddr sender accesses parents) =
      .ok resolved) {entry : ReadSetEntry} {field : ResolvedDynamicField}
    (hm : (entry, field) ∈ resolved) :
    field.parentObjectId ∈ parents ∧
      field.dfObjectId = deriveDfOid H field.parentObjectId field.nameTypeTag field.nameBcs ∧
      entry.key = objectKey field.dfObjectId ∧ (view field.dfObjectId = none ∧ entry.value = [] ∨
        ∃ data env, view field.dfObjectId = some data ∧
          decoders.detectAndParse data = .envelope env ∧
          env.ownership = .objectOwner field.parentObjectId ∧ entry.value = env.toBytes) := by
  simp only [resolveDynamicFieldsInto, runOn_mapM] at h
  obtain ⟨df, -, hdf⟩ := exists_of_mem_mapM_ok h hm
  simp only [resolveDynamicField, runOn_bind, bind_eq_ok, runOn_check, require_eq_ok,
    runOn_pure, Prod.exists, Except.ok.injEq, Prod.mk.injEq] at hdf
  obtain ⟨_, hp, _, -, _, -, _, -, _, _, _, _, hf, rfl, rfl⟩ := hdf
  exact ⟨by simpa using hp, rfl, read_of_resolveByMode hf⟩

/-- An object input of a block is an object in the state that passed the check. -/
theorem ptbInput_eq_ok {input : CallArg × Nat} {loaded : Option (ReadSetEntry × ResolvedObject)}
    (h : runOn view (ptbInput H decoders sender senderAddr input) = .ok loaded) :
    (∃ bytes, input.1 = .pure bytes ∧ loaded = none) ∨
      ∃ id version digest data env, input.1 = .object (.immOrOwnedObject id version digest) ∧
        view id = some data ∧ decoders.detectAndParse data = .envelope env ∧
        checkPtbInput H sender senderAddr input.2 id version digest env = .ok ⟨⟩ ∧
        loaded = some (inputEntry id env.toBytes version) := by
  obtain ⟨arg, idx⟩ := input
  cases arg with
  | pure bytes =>
    cases h
    exact .inl ⟨bytes, rfl, rfl⟩
  | object objArg =>
    cases objArg with
    | sharedObject id version isMutable => cases h
    | immOrOwnedObject id version digest =>
      simp only [ptbInput, runOn_bind, bind_eq_ok, runOn_loadEnvelope_eq_ok, runOn_check,
        okOr_eq_ok, runOn_pure, Except.ok.injEq] at h
      obtain ⟨_, hf, env, rfl, _, hc, rfl⟩ := h
      obtain ⟨-, ⟨⟩⟩ | ⟨data, env', hd, he, heq⟩ := hf
      cases heq
      exact .inr ⟨id, version, digest, data, env, rfl, hd, he, hc, rfl⟩

private theorem map_objectId_of_ptbInputs {inputs : List (CallArg × Nat)}
    {loaded : List (Option (ReadSetEntry × ResolvedObject))}
    (h : inputs.mapM (fun input ↦ runOn view (ptbInput H decoders sender senderAddr input)) =
      .ok loaded) :
    (loaded.filterMap id).map (·.2.objectId) =
      inputs.filterMap fun
        | (.object arg, _) => some arg.id
        | (.pure _, _) => none := by
  rw [mapM_eq_ok] at h
  induction h with
  | nil => rfl
  | @cons input loaded inputs rest hf _ ih =>
    obtain ⟨arg, idx⟩ := input
    obtain ⟨_, rfl, rfl⟩ | ⟨_, _, _, _, _, rfl, -, -, -, rfl⟩ := ptbInput_eq_ok hf
    · simpa using ih
    · simpa [inputEntry, ObjectArg.id] using ih

/-- What is known of a block whose task was prepared. -/
structure PtbPrepared (H : Blake3 D) (decoders : Decoders) (view : ObjectId → Option Bytes)
    (payload : MovePtbPayload) (task : SolverTask) : Prop where
  /-- The inputs are the objects among the inputs of the block. -/
  objects : task.resolvedInputs.inputObjects.map ResolvedObject.objectId =
    (objectInputs payload.ptb.inputs).map Prod.fst
  /-- An object passed the check at its index. -/
  checked : ∀ (idx : Nat) (arg : ObjectArg), payload.ptb.inputs[idx]? = some (.object arg) →
    ∃ version digest data env, view arg.id = some data ∧
      decoders.detectAndParse data = .envelope env ∧
      checkPtbInput H payload.sender (.normalize H payload.sender) idx arg.id version digest env =
        .ok ⟨⟩
  /-- The dynamic fields were resolved under the objects. -/
  fields : ∃ resolved,
    runOn view (resolveDynamicFieldsInto H decoders (.normalize H payload.sender) payload.sender
      payload.ptb.dynamicFieldAccesses
      (task.resolvedInputs.inputObjects.map ResolvedObject.objectId)) = .ok resolved ∧
    task.resolvedInputs.dynamicFields = resolved.map (·.2)
  /-- The read set holds objects as they are in the state. -/
  entries : ∀ entry ∈ task.readSet, ReadsObject decoders view entry

theorem ptbPrepared_of_prepareMovePtbTask {event : Event} {payload : MovePtbPayload}
    {subnetId : SubnetId}
    (h : runOn view (prepareMovePtbTask H decoders event payload subnetId) = .ok task) :
    task.event = event ∧ PtbPrepared H decoders view payload task := by
  simp only [prepareMovePtbTask, runOn_bind, bind_eq_ok, runOn_mapM, runOn_pure,
    Except.ok.injEq] at h
  obtain ⟨loaded, hl, fields, hf, _, -, rfl⟩ := h
  refine ⟨rfl, ?_, ?_, ⟨fields, ?_, rfl⟩, ?_⟩
  · rw [List.map_map, Function.comp_def, map_objectId_of_ptbInputs hl, objectInputs,
      List.map_filterMap]
    congr 1
    funext input
    obtain ⟨arg, idx⟩ := input
    cases arg <;> rfl
  · intro idx arg ha
    obtain ⟨_, -, hi⟩ := exists_ok_of_mapM_ok hl
      (List.mem_zipIdx_iff_getElem?.mpr ha : (CallArg.object arg, idx) ∈ _)
    obtain ⟨_, ⟨⟩, -⟩ | ⟨id, version, digest, data, env, ha, hd, he, hc, -⟩ := ptbInput_eq_ok hi
    cases ha
    exact ⟨version, digest, data, env, hd, he, hc⟩
  · rwa [List.map_map]
  · intro entry hen
    obtain hi | hfi := List.mem_append.mp hen
    · obtain ⟨_, hm, rfl⟩ := List.mem_map.mp hi
      obtain ⟨_, hm, rfl⟩ := List.mem_filterMap.mp hm
      obtain ⟨input, -, hi⟩ := exists_of_mem_mapM_ok hl hm
      obtain ⟨_, -, ⟨⟩⟩ | ⟨id, _, _, data, env, -, hd, he, -, heq⟩ := ptbInput_eq_ok hi
      cases heq
      exact ⟨id, rfl, .inr ⟨data, env, hd, he, rfl⟩⟩
    · obtain ⟨⟨_, field⟩, hm, rfl⟩ := List.mem_map.mp hfi
      obtain ⟨-, -, hk, hv⟩ := resolved_of_resolveDynamicFieldsInto hf hm
      refine ⟨_, hk, hv.imp And.right ?_⟩
      rintro ⟨data, env, hd, he, _, hv⟩
      exact ⟨data, env, hd, he, hv⟩

end Setu.Validator
