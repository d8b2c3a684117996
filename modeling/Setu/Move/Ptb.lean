import Setu.Move.Lowering

/-!
# Execution of a transaction block

Library `Move`. All commands of a block run one after the other in one session; the effects are
collected when the last one has run. Source `crates/setu-move-vm/src/engine.rs:818-1254`.
-/

namespace Setu.Move

open Setu.Base Setu.Types Setu.Runtime

/-- The slot of an input, `engine.rs:945-980`. -/
def initialSlot (inputObjects : List InputObject) (input : CallArg × Nat) :
    Except RuntimeError Slot :=
  match input.1 with
  | .pure bytes => .ok ⟨bytes, none, none⟩
  | .object objArg => do
    let oid := objArg.id
    let obj ← okOr (inputObjects.find? fun obj ↦ obj.id == oid) (.invalidTransaction
      (s!"PTB Object input[{input.2}] (oid={objectIdText oid}) not present in " ++
        "input_objects — TaskPreparer must resolve all " ++
        "declared objects before calling execute_ptb"))
    pure ⟨obj.moveData, some (.struct obj.typeTag), none⟩

/-- The text of a malformed block, `ptb.rs:197-247`. -/
def validationErrorText : PtbValidationError → String
  | .tooManyCommands len max => s!"PTB has too many commands: {len} > {max}"
  | .tooManyInputs len max => s!"PTB has too many inputs: {len} > {max}"
  | .tooManyDfAccesses len max => s!"PTB has too many dynamic-field accesses: {len} > {max}"
  | .inputIndexOutOfRange idx len =>
    s!"Argument::Input({idx}) out of range (inputs.len() = {len})"
  | .forwardResultRef atCmd refCmd =>
    s!"Forward result reference: command {atCmd} references Result/NestedResult({refCmd})"
  | .unitResultConsumed cmd =>
    s!"Argument::Result({cmd}) consumed but command {cmd} produces unit `()`"
  | .moduleNameTooLong len max => s!"Module name too long: {len} > {max}"
  | .functionNameTooLong len max => s!"Function name too long: {len} > {max}"
  | .invalidTypeTagFormat idx reason => s!"Invalid type-tag string at index {idx}: {reason}"
  | .duplicateObjectInput oid firstIdx dupIdx =>
    let id := objectIdText oid
    s!"Duplicate Object input: oid={id} appears at index {firstIdx} and {dupIdx}"

namespace SetuMoveEngine

variable {D S : Type} (H : Blake3 D) (engine : SetuMoveEngine S)

/-- The lowering of a command, `engine.rs:1049-1128`. -/
def lowerCommand (store : RawStore) (ctx : MoveExecutionContext) (ptbInputs : List CallArg)
    (idx : Nat) : Command → PtbState S → Except RuntimeError (PtbState S)
  | .moveCall mc => engine.lowerMoveCall H ptbInputs idx mc
  | .splitCoins coin amounts => engine.lowerSplitCoins H idx coin amounts
  | .mergeCoins target sources => engine.lowerMergeCoins H idx target sources
  | .transferObjects objects recipient => engine.lowerTransferObjects H idx objects recipient
  | .makeMoveVec typeTag args => engine.lowerMakeMoveVec idx typeTag args
  | .publish modules _ => engine.lowerPublish H ctx idx modules
  | .upgrade modules _ currentPackage upgradeTicket =>
    engine.lowerUpgrade H store ctx idx modules currentPackage upgradeTicket

/-- The turn of the command loop, `engine.rs:1038-1129`. -/
def runCommand (store : RawStore) (ctx : MoveExecutionContext) (ptbInputs : List CallArg)
    (st : PtbState S) (cmd : Command × Nat) : Except RuntimeError (PtbState S) := do
  let st ← st.charge (ptbOverheadCost cmd.1)
  engine.lowerCommand H store ctx ptbInputs cmd.2 cmd.1 st

/-- The command loop. -/
def runCommands (store : RawStore) (ctx : MoveExecutionContext) (ptbInputs : List CallArg)
    (commands : List (Command × Nat)) (st : PtbState S) : Except RuntimeError (PtbState S) :=
  commands.foldlM (engine.runCommand H store ctx ptbInputs) st

variable (session : Session S)

/-- A charge that is left out when it is zero, `engine.rs:925-936` and `1231-1241`. -/
def chargeKeys (perKey : UInt64) (keys : UInt64) : Except RuntimeError (Session S) :=
  let cost := satMul perKey keys
  if cost > 0 then session.charge cost else .ok session

/-- The state before the first command, `engine.rs:904-1037`. -/
def beginPtb (store : RawStore) (ptb : ProgrammableTransaction)
    (inputObjects : List InputObject) (dfPreload : List ResolvedDynamicField)
    (ctx : MoveExecutionContext) : Except RuntimeError (PtbState S) := do
  ptb.validateWire.mapError fun e ↦
    .invalidTransaction ("PTB wire validation failed: " ++ validationErrorText e)
  let session := engine.newSession store inputObjects dfPreload ctx (.new ctx.gasBudget)
  let session ← session.charge minGasPtb
  let session ← chargeKeys session 50 (satAdd (len64 inputObjects) (len64 dfPreload))
  let slots ← ptb.inputs.zipIdx.mapM (initialSlot inputObjects)
  pure
    { session := session
      pctx := .new slots ptb.commands.length
      txCtxBytes := buildTxContextBcs ctx
      lastReturnValues := []
      explicitModuleChanges := []
      pendingInputMutations := [] }

/-- The abilities of a result slot with a description of its type, `engine.rs:1160-1186`; a slot
without abilities and type is passed over. -/
def slotAbilities (slot : Slot) : Except RuntimeError (Option (AbilitySet × String)) :=
  match slot.abilities, slot.typeTag with
  | some abilities, tag =>
    .ok (some (abilities, (tag.map engine.tags.text).getD "<generic MoveCall return>"))
  | none, some tag => do
    let text := engine.tags.text tag
    session.loadType engine.vm tag fun e ↦ s!"hot-potato sweep: load_type({text}) failed: {e}"
    let abilities ← (engine.vm.typeAbilities session.data (.value tag)).mapError fun e ↦
      .vmExecutionError s!"hot-potato sweep: get_type_abilities({text}) failed: {e}"
    pure (some (abilities, text))
  | none, none => .ok none

/-- The sweep for one result slot, `engine.rs:1151-1196`: a value that is left over must have
`drop` or `key`. -/
def sweepSlot (pctx : PtbContext) (cmdIdx : Nat) (slot : Slot × Nat) : Except RuntimeError PUnit :=
  if pctx.consumed.contains (.cmdResult cmdIdx slot.2) then .ok ⟨⟩
  else do
    match ← engine.slotAbilities session slot.1 with
    | none => pure ⟨⟩
    | some (abilities, typeDesc) =>
      require (abilities.drop || abilities.key) (.invalidTransaction
        (s!"PTB ended with unconsumed value at Result({cmdIdx},{slot.2}) " ++
          s!"of type {typeDesc} which has neither `drop` nor `key` ability " ++
          "(hot-potato leak — did you forget the trailing `commit_upgrade(cap, receipt)`?)"))

/-- The sweep over all results, `engine.rs:1150-1197`. -/
def sweepResults (pctx : PtbContext) : Except RuntimeError PUnit :=
  pctx.results.zipIdx.forM fun row ↦
    row.1.zipIdx.forM (engine.sweepSlot session pctx row.2)

/-- The flush of the mutations kept for the end, `engine.rs:1211-1213`. -/
def flushPending (pending : List (ObjectId × StructTag × Bytes)) (rt : SetuObjectRuntime) :
    SetuObjectRuntime :=
  pending.foldl (fun rt m ↦ rt.mutateObject m.1 m.2.1 m.2.2) rt

/-- The end of a block, `engine.rs:1150-1253`. -/
def finishPtb (ctx : MoveExecutionContext) (st : PtbState S) :
    Except RuntimeError MoveExecutionOutput := do
  engine.sweepResults st.session st.pctx
  let changeSet ← (engine.vm.finish st.session.data).mapError .vmExecutionError
  let runtime := flushPending st.pendingInputMutations st.session.runtime
  let skip := st.explicitModuleChanges.map ModuleChange.moduleId
  let extracted ← extractModuleChanges changeSet skip
  let moduleChanges := extracted ++ st.explicitModuleChanges
  let stateChanges := runtime.stateChanges H engine.tags ctx.currentVersion
  let session ← chargeKeys st.session 100 (satAdd (len64 stateChanges) (len64 moduleChanges))
  pure
    { success := true
      stateChanges := stateChanges
      moduleChanges := moduleChanges
      returnValues := st.lastReturnValues
      events := engine.eventTexts runtime
      gasUsed := session.gas.instructionsExecuted
      error := none }

/-- `engine.rs:890-1254`. -/
def executePtbBody (store : RawStore) (ptb : ProgrammableTransaction)
    (inputObjects : List InputObject) (dfPreload : List ResolvedDynamicField)
    (ctx : MoveExecutionContext) : Except RuntimeError MoveExecutionOutput := do
  let st ← engine.beginPtb store ptb inputObjects dfPreload ctx
  let st ← engine.runCommands H store ctx ptb.inputs ptb.commands.zipIdx st
  engine.finishPtb H ctx st

/-- `engine.rs:818-882`. -/
def executePtb (store : RawStore) (ptb : ProgrammableTransaction)
    (inputObjects : List InputObject) (dfPreload : List ResolvedDynamicField)
    (ctx : MoveExecutionContext) : Except RuntimeError MoveExecutionOutput :=
  if ctx.gasBudget < minGasPtb || ctx.gasBudget > maxGasBudget then
    .ok (.failed 0
      s!"PTB gas_budget {ctx.gasBudget} outside [{minGasPtb}..{maxGasBudget}]")
  else
    match engine.executePtbBody H store ptb inputObjects dfPreload ctx with
    | .ok output => .ok output
    | .error (.outOfGas used) => .ok (.failed used
        s!"PTB out of gas after {used} units (budget = {ctx.gasBudget})")
    | .error other => .error other

variable {H engine} {store : RawStore} {ptb : ProgrammableTransaction}
  {inputObjects : List InputObject} {dfPreload : List ResolvedDynamicField}
  {ctx : MoveExecutionContext} {output : MoveExecutionOutput}

/-- A block that came through is its begin, its commands and its end. -/
theorem executePtbBody_eq_ok :
    engine.executePtbBody H store ptb inputObjects dfPreload ctx = .ok output ↔
      ∃ st st', engine.beginPtb store ptb inputObjects dfPreload ctx = .ok st ∧
        engine.runCommands H store ctx ptb.inputs ptb.commands.zipIdx st = .ok st' ∧
        engine.finishPtb H ctx st' = .ok output := by
  simp only [executePtbBody, bind_eq_ok]
  constructor
  · rintro ⟨st, hb, st', hr, hf⟩
    exact ⟨st, st', hb, hr, hf⟩
  · rintro ⟨st, st', hb, hr, hf⟩
    exact ⟨st, hb, st', hr, hf⟩

theorem success_of_finishPtb {st : PtbState S} (h : engine.finishPtb H ctx st = .ok output) :
    output.success = true := by
  simp only [finishPtb, bind_eq_ok, pure_eq_ok] at h
  obtain ⟨_, -, _, -, _, -, _, -, rfl⟩ := h
  rfl

/-- The budget of a block lies within the bounds of the engine. -/
def BudgetInRange (ctx : MoveExecutionContext) : Prop :=
  minGasPtb ≤ ctx.gasBudget ∧ ctx.gasBudget ≤ maxGasBudget

/-- A block succeeds if its budget is in range and its body comes through. -/
theorem executePtb_success_iff :
    engine.executePtb H store ptb inputObjects dfPreload ctx = .ok output ∧
        output.success = true ↔
      BudgetInRange ctx ∧
        engine.executePtbBody H store ptb inputObjects dfPreload ctx = .ok output := by
  unfold executePtb
  split
  · next hg =>
    simp only [Bool.or_eq_true, decide_eq_true_eq] at hg
    constructor
    · rintro ⟨⟨⟩, ⟨⟩⟩
    · rintro ⟨⟨hm, hma⟩, -⟩
      exact (hg.elim (UInt64.not_lt.mpr hm) (UInt64.not_lt.mpr hma)).elim
  · next hg =>
    simp only [Bool.or_eq_true, decide_eq_true_eq, not_or] at hg
    have hr : BudgetInRange ctx := ⟨UInt64.not_lt.mp hg.1, UInt64.not_lt.mp hg.2⟩
    simp only [hr, true_and]
    constructor
    · rintro ⟨ho, hs⟩
      split at ho
      · next hb => rw [hb, ho]
      · cases ho
        cases hs
      · cases ho
    · intro hb
      obtain ⟨st, st', -, -, hf⟩ := executePtbBody_eq_ok.mp hb
      rw [hb]
      exact ⟨rfl, success_of_finishPtb hf⟩

end SetuMoveEngine

end Setu.Move
