import Setu.Move.FinalEffects

/-!
# Objects withheld from Move code

Library `Move`. Move code can delete an object or give it away only if it got hold of it: as an
argument by value or by mutable reference, inside of one, inside of a dynamic field, or because it
made the object. An engine that withholds an object refuses to run code that would be handed it;
what this engine executes, the engine itself executes in the same way.
-/

namespace Setu.Move

open Setu.Base Setu.Types Setu.Runtime

/-- The object that a native deletes or gives away. -/
def NativeCall.target : NativeCall → Option ObjectId
  | deleteUid id => some id
  | transfer _ _ bcsBytes | share _ bcsBytes | freeze _ bcsBytes => extractUidFromBcs bcsBytes
  | _ => none

/-- Which objects there are inside of serialized values: of values by their type, and of the
values of dynamic fields by the text of it. -/
structure Contents where
  holds : TypeTag → Bytes → ObjectId → Bool
  fieldHolds : String → Bytes → ObjectId → Bool

namespace Contents

variable (contents : Contents)

/-- A call with these arguments is handed the object: by value or by mutable reference, as an
argument or inside of one. -/
def handed (signature : Signature) (args : List Bytes) (id : ObjectId) : Bool :=
  (signature.parameters.zip args).any fun
    | (.reference _, _) => false
    | (.value tag, bytes) | (.mutableReference tag, bytes) =>
      extractUidFromBcs bytes == some id || contents.holds tag bytes id

/-- The object is inside of a dynamic field that was loaded. -/
def inField (rt : SetuObjectRuntime) (id : ObjectId) : Bool :=
  rt.dfCache.toList.any fun (_, entry) ↦
    entry.valueBytes.any fun bytes ↦ contents.fieldHolds entry.valueTypeTag bytes id

/-- An argument at a mutable reference is not the object if the call is not handed it. -/
theorem uid_ne_of_handed {signature : Signature} {args : List Bytes} {id : ObjectId}
    (h : contents.handed signature args id = false) {p : Nat} {tag : TypeTag} {arg : Bytes}
    (hp : signature.parameters[p]? = some (.mutableReference tag))
    (ha : args[p]? = some arg) : extractUidFromBcs arg ≠ some id := by
  have hm : (VmType.mutableReference tag, arg) ∈ signature.parameters.zip args := by
    refine List.mem_of_getElem? (i := p) ?_
    simp [List.getElem?_zip_eq_some, hp, ha]
  have hn := (List.any_eq_false.mp h) _ hm
  simp only [Bool.or_eq_true, beq_iff_eq, not_or] at hn
  exact hn.1

end Contents

/-- The VM confines Move code to what it got hold of. The mutable references that a call reports
are those of its signature, and a coin behind one keeps its identifier. -/
structure Confines {D S : Type} (H : Blake3 D) (contents : Contents) (vm : MoveVm S) : Prop where
  natives : ∀ {data rt gas call signature returned calls data' native id},
    vm.loadFunction data call.module call.function call.typeArgs = .ok signature →
    (vm.execute data rt gas call).2 = .ok (returned, calls, data') → native ∈ calls →
    native.target = some id →
    contents.handed signature call.args id ∨ contents.inField rt id ∨
      ∃ n, id = freshIdAt H rt.txHash n
  outputs : ∀ {data rt gas call signature returned calls data' p bytes},
    vm.loadFunction data call.module call.function call.typeArgs = .ok signature →
    (vm.execute data rt gas call).2 = .ok (returned, calls, data') →
    (p, bytes) ∈ returned.mutableReferenceOutputs →
    ∃ tag arg, signature.parameters[p]? = some (.mutableReference tag) ∧
      call.args[p]? = some arg ∧
      ∀ inner, tag = .struct (coinTag inner) → extractUidFromBcs bytes = extractUidFromBcs arg
  split : ∀ {data inner signature},
    vm.loadFunction data coinModule (ident "split") [inner] = .ok signature →
    signature.parameters[0]? = some (.mutableReference (.struct (coinTag inner)))
  join : ∀ {data inner signature},
    vm.loadFunction data coinModule (ident "join") [inner] = .ok signature →
    signature.parameters[0]? = some (.mutableReference (.struct (coinTag inner)))

variable {D S : Type} (contents : Contents)

/-- The VM that refuses to run code which is handed the object. -/
def MoveVm.withhold (id : ObjectId) (vm : MoveVm S) : MoveVm S :=
  { vm with
    execute := fun data rt gas call ↦
      match vm.loadFunction data call.module call.function call.typeArgs with
      | .error e => (gas, .error e)
      | .ok signature =>
        if contents.handed signature call.args id || contents.inField rt id then
          (gas, .error s!"{objectIdText id} is withheld")
        else vm.execute data rt gas call }

/-- The engine with this VM. -/
def SetuMoveEngine.withhold (id : ObjectId) (engine : SetuMoveEngine S) : SetuMoveEngine S :=
  { engine with vm := engine.vm.withhold contents id }

/-- Code that the VM runs is not handed the object. -/
def Withholds (id : ObjectId) (vm : MoveVm S) : Prop :=
  ∀ ⦃data rt gas call result⦄, (vm.execute data rt gas call).2 = .ok result →
    ∃ signature, vm.loadFunction data call.module call.function call.typeArgs = .ok signature ∧
      contents.handed signature call.args id = false ∧ contents.inField rt id = false

section Withhold

variable {contents : Contents} {id : ObjectId} {vm : MoveVm S} {H : Blake3 D} {call : FunctionCall}

private theorem execute_withhold {data : S} {rt : SetuObjectRuntime} {gas : GasMeter}
    {result : SerializedReturn × List NativeCall × S}
    (h : ((vm.withhold contents id).execute data rt gas call).2 = .ok result) :
    (vm.withhold contents id).execute data rt gas call = vm.execute data rt gas call ∧
      ∃ signature, vm.loadFunction data call.module call.function call.typeArgs = .ok signature ∧
        contents.handed signature call.args id = false ∧ contents.inField rt id = false := by
  simp only [MoveVm.withhold] at h ⊢
  split at h
  · cases h
  · next signature hl =>
    split at h
    · cases h
    · next hn =>
      simp only [hl, hn, Bool.false_eq_true, if_false, true_and, Except.ok.injEq, exists_eq_left']
      rwa [Bool.not_eq_true, Bool.or_eq_false_iff] at hn

theorem withholds_withhold (contents : Contents) (id : ObjectId) (vm : MoveVm S) :
    Withholds contents id (vm.withhold contents id) := fun _ _ _ _ _ h ↦ (execute_withhold h).2

theorem Confines.withhold (h : Confines H contents vm) :
    Confines H contents (vm.withhold contents id) where
  natives hl he := by
    rw [(execute_withhold he).1] at he
    exact h.natives hl he
  outputs hl he := by
    rw [(execute_withhold he).1] at he
    exact h.outputs hl he
  split := h.split
  join := h.join

private theorem Session.execute_withhold {session session' : Session S}
    {returned : SerializedReturn}
    (h : (session.execute H (vm.withhold contents id) call).2 = .ok (returned, session')) :
    (session.execute H vm call).2 = .ok (returned, session') := by
  have hr := h
  simp only [Session.execute, bind_eq_ok] at hr
  obtain ⟨_, he, -⟩ := hr
  simp only [Session.execute, (Setu.Move.execute_withhold he).1] at h ⊢
  exact h

/-- A call that comes through on the VM which withholds the object is one of the VM itself. -/
theorem Session.run_withhold {session session' : Session S} {failed : String → String}
    {returned : SerializedReturn}
    (h : session.run H (vm.withhold contents id) call failed = .ok (returned, session')) :
    session.run H vm call failed = .ok (returned, session') := by
  rw [run, mapError_eq_ok] at h ⊢
  exact Session.execute_withhold h

end Withhold

namespace SetuMoveEngine

variable {H : Blake3 D} {engine : SetuMoveEngine S} {contents : Contents} {id : ObjectId}
    {st st' : PtbState S} {idx : Nat}

private theorem lowerMoveCall_withhold {ptbInputs : List CallArg} {mc : MoveCall}
    (h : (engine.withhold contents id).lowerMoveCall H ptbInputs idx mc st = .ok st') :
    engine.lowerMoveCall H ptbInputs idx mc st = .ok st' := by
  simp only [lowerMoveCall, runMoveCall, bind_eq_ok, Prod.exists] at h ⊢
  obtain ⟨run, ⟨_, _, hn, _, _, hl, _, _, hb, _, ha, _, _, hr, hre⟩, hw⟩ := h
  exact ⟨run, ⟨_, _, hn, _, _, hl, _, _, hb, _, ha, _, _, Session.run_withhold hr, hre⟩, hw⟩

private theorem splitAmount_withhold {inner : TypeTag} {run run' : CoinRun S}
    {amount : Bytes × Nat}
    (h : (engine.withhold contents id).splitAmount H inner run amount = .ok run') :
    engine.splitAmount H inner run amount = .ok run' := by
  simp only [splitAmount, bind_eq_ok, Prod.exists] at h ⊢
  obtain ⟨_, _, hr, hre⟩ := h
  exact ⟨_, _, Session.run_withhold hr, hre⟩

private theorem lowerSplitCoins_withhold {coinArg : Argument} {amounts : List Argument}
    (h : (engine.withhold contents id).lowerSplitCoins H idx coinArg amounts st = .ok st') :
    engine.lowerSplitCoins H idx coinArg amounts st = .ok st' := by
  simp only [lowerSplitCoins, runSplitCoins, bind_eq_ok, Prod.exists] at h ⊢
  obtain ⟨_, _, ⟨_, _, hc, _, ha, _, hl, _, hlo, hr⟩, hw⟩ := h
  exact ⟨_, _, ⟨_, _, hc, _, ha, _, hl, _,
    foldlM_ok_mono (fun _ _ _ ht ↦ splitAmount_withhold ht) hlo, hr⟩, hw⟩

private theorem joinSource_withhold {inner : TypeTag} {run run' : Session S × Bytes}
    {source : Bytes × Nat}
    (h : (engine.withhold contents id).joinSource H inner run source = .ok run') :
    engine.joinSource H inner run source = .ok run' := by
  simp only [joinSource, bind_eq_ok, Prod.exists] at h ⊢
  obtain ⟨_, _, hr, hre⟩ := h
  exact ⟨_, _, Session.run_withhold hr, hre⟩

private theorem lowerMergeCoins_withhold {target : Argument} {sources : List Argument}
    (h : (engine.withhold contents id).lowerMergeCoins H idx target sources st = .ok st') :
    engine.lowerMergeCoins H idx target sources st = .ok st' := by
  simp only [lowerMergeCoins, runMergeCoins, bind_eq_ok, Prod.exists] at h ⊢
  obtain ⟨_, ⟨_, _, hc, _, _, hs, _, hl, _, _, hlo, hr⟩, hw⟩ := h
  exact ⟨_, ⟨_, _, hc, _, _, hs, _, hl, _, _,
    foldlM_ok_mono (fun _ _ _ ht ↦ joinSource_withhold ht) hlo, hr⟩, hw⟩

private theorem transferObject_withhold {recipient : Bytes} {acc acc' : Session S × PtbContext}
    {obj : Argument × Nat}
    (h : (engine.withhold contents id).transferObject H recipient acc obj = .ok acc') :
    engine.transferObject H recipient acc obj = .ok acc' := by
  simp only [transferObject, bind_eq_ok, Prod.exists] at h ⊢
  obtain ⟨_, _, hc, _, ht, _, hi, _, hl, _, _, hr, hre⟩ := h
  exact ⟨_, _, hc, _, ht, _, hi, _, hl, _, _, Session.run_withhold hr, hre⟩

private theorem lowerTransferObjects_withhold {objects : List Argument} {recipient : Argument}
    (h : (engine.withhold contents id).lowerTransferObjects H idx objects recipient st = .ok st') :
    engine.lowerTransferObjects H idx objects recipient st = .ok st' := by
  simp only [lowerTransferObjects, bind_eq_ok, Prod.exists] at h ⊢
  obtain ⟨_, hr, _, _, hl, hre⟩ := h
  exact ⟨_, hr, _, _, foldlM_ok_mono (fun _ _ _ ht ↦ transferObject_withhold ht) hl, hre⟩

private theorem lowerPublish_withhold {ctx : MoveExecutionContext} {modules : List Bytes}
    (h : (engine.withhold contents id).lowerPublish H ctx idx modules st = .ok st') :
    engine.lowerPublish H ctx idx modules st = .ok st' := by
  unfold lowerPublish at h ⊢
  split at h
  · next he => rwa [if_pos he]
  · next he =>
    rw [if_neg he]
    simp only [mintUpgradeCap, bind_eq_ok, Prod.exists] at h ⊢
    obtain ⟨_, hp, _, hpu, _, _, ⟨_, _, hm, _, hc, _, hl, _, _, ht, heq⟩, hr⟩ := h
    exact ⟨_, hp, _, hpu, _, _, ⟨_, _, Session.run_withhold hm, _, hc, _, hl, _, _,
      Session.run_withhold ht, heq⟩, hr⟩

private theorem lowerUpgrade_withhold {store : RawStore} {ctx : MoveExecutionContext}
    {modules : List Bytes} {currentPackage : ObjectId} {upgradeTicket : Argument}
    (h : (engine.withhold contents id).lowerUpgrade H store ctx idx modules currentPackage
      upgradeTicket st = .ok st') :
    engine.lowerUpgrade H store ctx idx modules currentPackage upgradeTicket st = .ok st' := by
  simp only [lowerUpgrade, bind_eq_ok, Prod.exists] at h ⊢
  obtain ⟨_, hm, _, _, hc, _, _, ht, _, hch, _, _, hl, _, hv, _,
    hr, _, hco, _, hp, _, _, hre, hrs⟩ := h
  exact ⟨_, hm, _, _, hc, _, _, Session.run_withhold ht, _, hch, _, _, hl,
    _, hv, _, hr, _, hco, _, hp, _, _, Session.run_withhold hre, hrs⟩

/-- A command that comes through without the object comes through in the same way with it. -/
theorem runCommand_withhold {store : RawStore} {ctx : MoveExecutionContext}
    {ptbInputs : List CallArg} {cmd : Command × Nat}
    (h : (engine.withhold contents id).runCommand H store ctx ptbInputs st cmd = .ok st') :
    engine.runCommand H store ctx ptbInputs st cmd = .ok st' := by
  simp only [runCommand, bind_eq_ok] at h ⊢
  obtain ⟨charged, hc, hl⟩ := h
  refine ⟨charged, hc, ?_⟩
  obtain ⟨cmd, idx⟩ := cmd
  cases cmd with
  | moveCall mc => exact lowerMoveCall_withhold hl
  | splitCoins coin amounts => exact lowerSplitCoins_withhold hl
  | mergeCoins target sources => exact lowerMergeCoins_withhold hl
  | transferObjects objects recipient => exact lowerTransferObjects_withhold hl
  | makeMoveVec typeTag args => exact hl
  | publish modules deps => exact lowerPublish_withhold hl
  | upgrade modules deps currentPackage upgradeTicket => exact lowerUpgrade_withhold hl

variable {store : RawStore} {inputObjects : List InputObject}
  {dfPreload : List ResolvedDynamicField} {ctx : MoveExecutionContext}
  {output : MoveExecutionOutput}

/-- So does a block. -/
theorem executePtbBody_withhold {ptb : ProgrammableTransaction}
    (h : (engine.withhold contents id).executePtbBody H store ptb inputObjects dfPreload ctx =
      .ok output) :
    engine.executePtbBody H store ptb inputObjects dfPreload ctx = .ok output := by
  rw [executePtbBody_eq_ok] at h ⊢
  obtain ⟨st, st', hb, hr, hf⟩ := h
  exact ⟨st, st', hb, foldlM_ok_mono (fun _ _ _ ht ↦ runCommand_withhold ht) hr, hf⟩

/-- And a call. -/
theorem execute_withhold {moduleId : ModuleId} {function : Identifier} {typeArgs : List TypeTag}
    {args : List Bytes} {mutableArgMap : List (Nat × ObjectId)}
    (h : (engine.withhold contents id).execute H store inputObjects dfPreload moduleId function
      typeArgs args ctx mutableArgMap = .ok output) (hs : output.success = true) :
    engine.execute H store inputObjects dfPreload moduleId function typeArgs args ctx
      mutableArgMap = .ok output := by
  obtain ⟨_, returned, session, rfl, ht, hc, hf⟩ := execute_success_iff.mp ⟨h, hs⟩
  have hsu : engine.execute H store inputObjects dfPreload moduleId function typeArgs args ctx
      mutableArgMap = .ok output ∧ output.success = true :=
    execute_success_iff.mpr ⟨_, returned, session, rfl, ht, Session.execute_withhold hc, hf⟩
  exact hsu.1

end SetuMoveEngine

end Setu.Move
