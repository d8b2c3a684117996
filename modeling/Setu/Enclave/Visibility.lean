import Setu.Enclave.MoveEvents

/-!
# Which functions users can call

Library `Enclave`. A Move call or a transaction block names a function; the engine runs it
through the VM's entry point that bypasses visibility. What is enforced is what the engine
checks by itself, whatever modules are deployed: so the results quantify over all VMs that
declare the function in a given way.
-/

namespace Setu.Move

open Setu.Base Setu.Types

/-- A function that may be called from outside its module and its friends. -/
def FunctionDecl.Callable (decl : FunctionDecl) : Prop :=
  decl.visibility = .public ∨ decl.isEntry = true

instance (decl : FunctionDecl) : Decidable decl.Callable :=
  inferInstanceAs (Decidable (_ ∨ _))

/-- The outputs of a call that leaves its mutable references as they were. -/
def unchangedOutputs (parameters : List VmType) (args : List Bytes) : List (Nat × Bytes) :=
  (parameters.zip args).zipIdx.filterMap fun
    | ((.mutableReference _, bytes), i) => some (i, bytes)
    | _ => none

variable (signature : ModuleId → Identifier → Signature)

/-- A VM whose functions have given signatures, change nothing and return empty values. -/
def permissiveVm (decl : FunctionDecl) :
    MoveVm Unit where
  newSession _ := ()
  loadType _ _ := .ok ⟨⟩
  typeAbilities _ _ := .ok ⟨false, true, false, false⟩
  loadFunction _ module function _ := .ok (signature module function)
  declaration _ _ _ := some decl
  execute _ _ gas call :=
    let signature := signature call.module call.function
    (gas, .ok (⟨signature.returns.map fun _ ↦ [], unchangedOutputs signature.parameters call.args⟩,
      [], ()))
  publish _ gas _ _ := (gas, .ok ())
  finish _ := .ok []

/-- An engine around such a VM. -/
def permissiveEngine (decl : FunctionDecl) :
    SetuMoveEngine Unit where
  vm := permissiveVm signature decl
  stdlibModules := ∅
  tags := ⟨fun _ ↦ .ok .u8, fun _ ↦ .error "", fun _ ↦ ""⟩
  bytecode := ⟨fun _ ↦ .error "", fun _ _ _ ↦ .error "", fun _ ↦ 0, fun _ ↦ 0, fun _ _ _ ↦ .ok ⟨⟩⟩
  texts := ⟨fun _ ↦ "", fun _ ↦ ""⟩

end Setu.Move

namespace Setu.Enclave

open Setu.Base Setu.Types Setu.Runtime Setu.Move

/-- A store without objects. -/
def emptyStore : LocalStore := ⟨fun _ ↦ .ok none, fun _ ↦ .ok none⟩

variable (module : ModuleId)

/-- A call of a function on raw bytes only, by the zero address. -/
def rawCall (function : Identifier) (args : List Bytes) : MoveCallPayload where
  sender := Address.zero.toText
  package := module.address.toText
  module := module.name.name
  function := function.name
  typeArgs := []
  args := args
  inputObjectIds := []
  sharedObjectIds := []
  mutableIndices := none
  consumedIndices := none
  needsTxContext := false
  dynamicFieldAccesses := []

private theorem new_name (name : Identifier) : Identifier.new name.name = .ok name := by
  simp [Identifier.new, name.valid]

variable {D : Type} {H : Blake3 D}

/-- Without input objects the enclave checks nothing but the names. -/
theorem exists_executeMoveCallEvent_rawCall (signature : ModuleId → Identifier → Signature)
    (decl : FunctionDecl) (module : ModuleId) (function : Identifier) (args : List Bytes)
    (eventId : EventId) (timestamp gasBudget : UInt64) :
    ∃ output, executeMoveCallEvent H (permissiveEngine signature decl) emptyStore
      (rawCall module function args) [] [] eventId timestamp gasBudget = .ok output := by
  have hr : moveCallRequest (permissiveEngine signature decl) emptyStore
      (rawCall module function args) [] = .ok ⟨.zero, [], module, function, []⟩ := by
    simp [moveCallRequest, rawCall, Address.fromHex_toText, okOr, Address.fromHexLiteral_toText,
      new_name, Except.mapError, bind, Except.bind, pure, Except.pure]
  simp only [executeMoveCallEvent, hr]
  exact ⟨_, rfl⟩

/-- The call of a function without arguments. -/
def bareCall (function : Identifier) : MoveCall :=
  ⟨module.address.toObjectId, module.name.name, function.name, [], []⟩

/-- A block with that call as its only command. -/
def singleCall (function : Identifier) : MovePtbPayload :=
  ⟨Address.zero.toText, ⟨[], [.moveCall (bareCall module function)], []⟩⟩

/-- The names of the function are short enough for a block; `ptb.rs:429-448`. -/
def NamesFit (function : Identifier) : Prop :=
  module.name.name.utf8ByteSize ≤ maxNameLen ∧ function.name.utf8ByteSize ≤ maxNameLen

section SingleCall

variable (decl : FunctionDecl) (module : ModuleId) (function : Identifier)

private abbrev quietEngine : SetuMoveEngine Unit := permissiveEngine (fun _ _ ↦ ⟨[], []⟩) decl

variable {module function} in
private theorem validateWire_singleCall (hn : NamesFit module function) :
    (singleCall module function).ptb.validateWire = .ok ⟨⟩ := by
  simp [ProgrammableTransaction.validateWire, singleCall, bareCall, require, maxPtbItems,
    objectInputs, checkDuplicates, checkCommand, checkNames, hn.1, hn.2,
    Command.arguments, bind, Except.bind, pure, Except.pure]

variable {module function} in
private theorem namedFunction_bareCall
    (hh : isForbiddenPackageEngineHook module function = false) :
    SetuMoveEngine.namedFunction (bareCall module function) = .ok (module, function) := by
  have hm : (⟨.ofObjectId module.address.toObjectId, module.name⟩ : ModuleId) = module := rfl
  simp [SetuMoveEngine.namedFunction, bareCall, new_name, Except.mapError, hm, hh,
    require, bind, Except.bind, pure, Except.pure]

/-- The state of the single call before and after its command, as far as the end reads it. -/
private structure Quiet (ctx : MoveExecutionContext) (used : UInt64) (st : PtbState Unit) :
    Prop where
  gas : st.session.gas = ⟨10000000, used⟩
  pctx : st.pctx = ⟨[[]], [], []⟩
  runtime : st.session.runtime = .new [] [] ctx.txHash ctx.sender ctx.epochTimestampMs
  moduleChanges : st.explicitModuleChanges = []
  pending : st.pendingInputMutations = []

variable {module function} in
private theorem begin_singleCall (hn : NamesFit module function) {ctx : MoveExecutionContext}
    (hg : ctx.gasBudget = 10000000) :
    ∃ st, (quietEngine decl).beginPtb emptyStore.getRaw (singleCall module function).ptb [] []
      ctx = .ok st ∧ Quiet ctx 1000 st := by
  simp only [SetuMoveEngine.beginPtb, validateWire_singleCall hn, Session.charge,
    GasMeter.chargeOuter, SetuMoveEngine.newSession, hg]
  exact ⟨_, rfl, rfl, rfl, rfl, rfl, rfl⟩

variable {module function} in
private theorem run_singleCall (hh : isForbiddenPackageEngineHook module function = false)
    {ctx : MoveExecutionContext} {st : PtbState Unit} (h : Quiet ctx 1000 st) :
    ∃ st', (quietEngine decl).runCommands H emptyStore.getRaw ctx []
      [(.moveCall (bareCall module function), 0)] st = .ok st' ∧ Quiet ctx 1100 st' := by
  simp only [SetuMoveEngine.runCommands, List.foldlM_cons, List.foldlM_nil,
    SetuMoveEngine.runCommand, SetuMoveEngine.lowerCommand, SetuMoveEngine.lowerMoveCall,
    SetuMoveEngine.runMoveCall, namedFunction_bareCall hh, PtbState.charge,
    Session.charge, h.gas, h.pctx]
  exact ⟨_, rfl, rfl, rfl, h.runtime, h.moduleChanges, h.pending⟩

private theorem finish_quiet {ctx : MoveExecutionContext} {st : PtbState Unit}
    (h : Quiet ctx 1100 st) :
    ∃ output, (quietEngine decl).finishPtb H ctx st = .ok output := by
  simp only [SetuMoveEngine.finishPtb, h.pctx, h.runtime, h.moduleChanges, h.pending]
  exact ⟨_, rfl⟩

variable {module function} in
/-- The engine runs every function that is not one of its hooks. -/
theorem exists_executeMovePtbEvent_singleCall
    (hh : isForbiddenPackageEngineHook module function = false)
    (hn : NamesFit module function) (eventId : EventId) (timestamp : UInt64) :
    ∃ output, executeMovePtbEvent H (quietEngine decl) emptyStore (singleCall module function)
      [] [] eventId timestamp 0 = .ok output := by
  have hg : (moveContext (deriveTxHash H eventId) .zero 0 timestamp true).gasBudget
    = 10000000 := rfl
  obtain ⟨st, hb, hst⟩ := begin_singleCall decl hn hg
  obtain ⟨st', hr, hst'⟩ := run_singleCall (H := H) decl hh hst
  obtain ⟨output, hf⟩ := finish_quiet (H := H) decl hst'
  refine ⟨output, executeMovePtbEvent_eq_ok.mpr
    ⟨.zero, [], _, Address.fromHex_toText _, rfl, rfl, ?_,
    SetuMoveEngine.executePtbBody_eq_ok.mpr ⟨st, st', hb, hr, hf⟩⟩⟩
  simp only [SetuMoveEngine.BudgetInRange, hg]
  decide

end SingleCall

/-- The call names the function of the module. -/
def NamedByCall (payload : MoveCallPayload) (module : ModuleId) (function : Identifier) : Prop :=
  Address.fromHexLiteral payload.package = some module.address ∧
    payload.module = module.name.name ∧ payload.function = function.name

/-- The command names the function of the module. -/
def NamedByCommand (mc : MoveCall) (module : ModuleId) (function : Identifier) : Prop :=
  mc.package = module.address.toObjectId ∧ mc.module = module.name.name ∧
    mc.function = function.name

/-- Whatever else is deployed, a call event that names the function succeeds only if the
function may be called from outside and is not a hook of the engine. -/
def CallsEnforceVisibility (H : Blake3 D) (module : ModuleId) (function : Identifier)
    (decl : FunctionDecl) : Prop :=
  ∀ (S : Type) (engine : SetuMoveEngine S) (store : LocalStore) (payload : MoveCallPayload)
    (resolved : List ResolvedObject) (dynamicFields : List ResolvedDynamicField)
    (eventId : EventId) (timestamp gasBudget : UInt64) (output : MoveExecutionOutput),
    (∀ data, engine.vm.declaration data module function = some decl) →
    NamedByCall payload module function →
    executeMoveCallEvent H engine store payload resolved dynamicFields eventId timestamp gasBudget
      = .ok output →
    decl.Callable ∧ isForbiddenPackageEngineHook module function = false

/-- The same of a block with a command that names the function. -/
def CommandsEnforceVisibility (H : Blake3 D) (module : ModuleId) (function : Identifier)
    (decl : FunctionDecl) : Prop :=
  ∀ (S : Type) (engine : SetuMoveEngine S) (store : LocalStore) (payload : MovePtbPayload)
    (resolved : List ResolvedObject) (dynamicFields : List ResolvedDynamicField)
    (eventId : EventId) (timestamp gasBudget : UInt64) (output : MoveExecutionOutput)
    (mc : MoveCall),
    (∀ data, engine.vm.declaration data module function = some decl) →
    .moveCall mc ∈ payload.ptb.commands → NamedByCommand mc module function →
    executeMovePtbEvent H engine store payload resolved dynamicFields eventId timestamp gasBudget
      = .ok output →
    decl.Callable ∧ isForbiddenPackageEngineHook module function = false

section Commands

variable {S : Type} {engine : SetuMoveEngine S} {module : ModuleId} {function : Identifier}
  {mc : MoveCall} {ptb : ProgrammableTransaction}

private theorem namesFit_of_validateWire {r : PUnit} (h : ptb.validateWire = .ok r)
    (hm : .moveCall mc ∈ ptb.commands)
    (hn : NamedByCommand mc module function) : NamesFit module function := by
  simp only [ProgrammableTransaction.validateWire, bind_eq_ok, forM_eq_ok] at h
  obtain ⟨_, -, _, -, _, -, _, -, hco⟩ := h
  obtain ⟨i, hi, hg⟩ := List.getElem_of_mem hm
  have hc := hco (.moveCall mc, i)
    (List.mem_zipIdx_iff_getElem?.mpr (hg ▸ List.getElem?_eq_getElem hi))
  simp only [checkCommand, checkNames, bind_eq_ok, require_eq_ok, decide_eq_true_eq] at hc
  obtain ⟨_, ⟨_, hmo, _, hf, -⟩, -⟩ := hc
  exact ⟨hn.2.1 ▸ hmo, hn.2.2 ▸ hf⟩

private theorem not_hook_of_namedFunction {named : ModuleId × Identifier}
    (h : SetuMoveEngine.namedFunction mc = .ok named)
    (hn : NamedByCommand mc module function) :
    isForbiddenPackageEngineHook module function = false := by
  obtain ⟨hp, hm, hf⟩ := hn
  simp only [SetuMoveEngine.namedFunction, hp, hm, hf, new_name, bind_eq_ok,
    mapError_eq_ok, Except.ok.injEq, exists_eq_left', require_eq_ok, Bool.not_eq_true',
    exists_and_left] at h
  exact h.1

private theorem checked_of_executePtbBody {store : RawStore} {inputObjects : List InputObject}
    {dfPreload : List ResolvedDynamicField} {ctx : MoveExecutionContext}
    {output : MoveExecutionOutput}
    (h : engine.executePtbBody H store ptb inputObjects dfPreload ctx = .ok output)
    (hm : .moveCall mc ∈ ptb.commands) (hn : NamedByCommand mc module function) :
    isForbiddenPackageEngineHook module function = false ∧ NamesFit module function := by
  obtain ⟨st, st', hb, hr, -⟩ := SetuMoveEngine.executePtbBody_eq_ok.mp h
  constructor
  · obtain ⟨i, hi, hg⟩ := List.getElem_of_mem hm
    obtain ⟨before, after, -, hs⟩ := exists_step_of_foldlM_ok (fun _ ↦ True) hr trivial
      (fun _ _ _ _ _ _ ↦ trivial) (c := (.moveCall mc, i))
      (List.mem_zipIdx_iff_getElem?.mpr (hg ▸ List.getElem?_eq_getElem hi))
    simp only [SetuMoveEngine.runCommand, SetuMoveEngine.lowerCommand,
      SetuMoveEngine.lowerMoveCall, SetuMoveEngine.runMoveCall, bind_eq_ok] at hs
    obtain ⟨_, -, _, ⟨_, hf, -⟩, -⟩ := hs
    exact not_hook_of_namedFunction hf hn
  · simp only [SetuMoveEngine.beginPtb, bind_eq_ok, mapError_eq_ok] at hb
    obtain ⟨_, hw, -⟩ := hb
    exact namesFit_of_validateWire hw hm hn

end Commands

/-- Neither path looks at how a function is declared: call events are safe only for functions
that anyone may call, and the commands of a block are kept from nothing but the hooks of the
engine and long names. -/
theorem enforcesVisibility_iff (H : Blake3 D) (module : ModuleId) (function : Identifier)
    (decl : FunctionDecl) :
    (CallsEnforceVisibility H module function decl ↔
      decl.Callable ∧ isForbiddenPackageEngineHook module function = false) ∧
    (CommandsEnforceVisibility H module function decl ↔
      decl.Callable ∨ isForbiddenPackageEngineHook module function = true ∨
        ¬ NamesFit module function) := by
  refine ⟨⟨fun h ↦ ?_, fun h ↦ ?_⟩, fun h ↦ ?_, fun h ↦ ?_⟩
  · obtain ⟨output, ho⟩ := exists_executeMoveCallEvent_rawCall (H := H) (fun _ _ ↦ ⟨[], []⟩)
      decl module function [] "" 0 0
    exact h _ _ _ _ _ _ _ _ _ _ (fun _ ↦ rfl) ⟨Address.fromHexLiteral_toText _, rfl, rfl⟩ ho
  · exact fun _ _ _ _ _ _ _ _ _ _ _ _ _ ↦ h
  · by_contra hco
    rw [not_or, not_or, Bool.not_eq_true, not_not] at hco
    obtain ⟨hc, hh, hn⟩ := hco
    obtain ⟨output, ho⟩ := exists_executeMovePtbEvent_singleCall (H := H) decl hh hn "" 0
    exact hc (h _ _ _ _ _ _ _ _ _ _ (bareCall module function) (fun _ ↦ rfl)
      List.mem_cons_self ⟨rfl, rfl, rfl⟩ ho).1
  · intro S engine store payload resolved dynamicFields eventId timestamp gasBudget output mc
      hd hm hna ho
    obtain ⟨_, _, _, -, -, -, -, hb⟩ := executeMovePtbEvent_eq_ok.mp ho
    obtain ⟨hh, hn⟩ := checked_of_executePtbBody hb hm hna
    refine ⟨?_, hh⟩
    rcases h with hc | hf | hl
    · exact hc
    · rw [hh] at hf
      cases hf
    · exact absurd hn hl

/-- The balance module as deployed, with its friend function `create_for_testing`,
`balance.move:49-53`: a balance is packed from the value given. -/
def balanceEngine : SetuMoveEngine Unit :=
  let balance : TypeTag :=
    .struct (.mk frameworkAddr (ident "balance") (ident "Balance") (.cons .u8 .nil))
  let engine := permissiveEngine (fun _ _ ↦ ⟨[.value .u64], [.value balance]⟩) ⟨.friend, false⟩
  { engine with
    vm := { engine.vm with
      execute := fun _ _ gas call ↦ (gas, .ok (⟨call.args, []⟩, [], ())) } }

/-- Anyone makes a balance of a thousand out of nothing. -/
theorem createForTesting_runs_from_event :
    let module : ModuleId := ⟨frameworkAddr, ident "balance"⟩
    let function := ident "create_for_testing"
    let decl : FunctionDecl := ⟨.friend, false⟩
    balanceEngine.vm.declaration () module function = some decl ∧ ¬ decl.Callable ∧
      (executeMoveCallEvent Blake3.ideal balanceEngine emptyStore
        { rawCall module function [u64Le 1000] with typeArgs := ["0x1::setu::SETU"] } [] [] "" 0 0
        ).toOption.map MoveExecutionOutput.returnValues = some [u64Le 1000] := by
  decide +kernel

end Setu.Enclave
