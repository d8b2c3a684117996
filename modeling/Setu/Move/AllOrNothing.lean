import Setu.Base.Yields
import Setu.Move.Effects

/-!
# A block takes effect as a whole

Library `Move`. A block never reports more gas than its budget, and a block that fails has no
effects. The sweep for values that are left over looks at what a slot says of its type; the slot
of a vector says nothing of its elements, so only the blocks whose vectors are made of pure
values are kept from losing one. Source `crates/setu-move-vm/src/engine.rs:818-1254`.
-/

namespace Setu.Move

open Setu.Base Setu.Types Setu.Runtime

variable {D S : Type} {H : Blake3 D} {engine : SetuMoveEngine S} {limit : UInt64}

/-- Charges one after another; a charge above the limit is refused. -/
def GasMeter.charges (meter : GasMeter) (costs : List UInt64) : GasMeter :=
  costs.foldl (fun meter cost ↦ (meter.chargeOuter cost).toOption.getD meter) meter

/-- The VM touches the meter by charging it only. -/
structure MoveVm.Charges (vm : MoveVm S) : Prop where
  execute : ∀ data rt gas call, ∃ costs, (vm.execute data rt gas call).1 = gas.charges costs
  publish : ∀ data gas modules sender,
    ∃ costs, (vm.publish data gas modules sender).1 = gas.charges costs

/-- The meter has the limit and is not above it. -/
def GasMeter.Within (limit : UInt64) (meter : GasMeter) : Prop :=
  meter.maxInstructions = limit ∧ meter.instructionsExecuted ≤ limit

/-- An error reports no more gas than the limit. -/
def ReportsWithin (limit : UInt64) : RuntimeError → Prop
  | .outOfGas used => used ≤ limit
  | _ => True

/-- The computation keeps the meter within the limit and reports no more. -/
abbrev Metered {α : Type} (limit : UInt64) (gas : α → GasMeter) (x : Except RuntimeError α) :
    Prop :=
  Yields (fun a ↦ (gas a).Within limit) (ReportsWithin limit) x

theorem metered_chargeOuter {meter : GasMeter} (h : meter.Within limit) (cost : UInt64) :
    Metered limit id (meter.chargeOuter cost) := by
  simp only [GasMeter.chargeOuter]
  split
  · exact h.2
  · next hle => exact ⟨h.1, h.1 ▸ UInt64.not_lt.mp hle⟩

theorem within_charges {meter : GasMeter} (h : meter.Within limit) (costs : List UInt64) :
    (meter.charges costs).Within limit := by
  induction costs generalizing meter with
  | nil => exact h
  | cons cost costs ih =>
    apply ih
    have hc := metered_chargeOuter h cost
    cases hx : meter.chargeOuter cost with
    | error e => simpa [hx, Except.toOption] using h
    | ok meter' =>
      rw [hx] at hc
      simpa [hx, Except.toOption] using show meter'.Within limit from hc

section Session

variable {session : Session S}

theorem metered_charge (h : session.gas.Within limit) (cost : UInt64) :
    Metered limit Session.gas (session.charge cost) :=
  (metered_chargeOuter h cost).bind fun _ hg ↦ hg

theorem metered_run (hvm : engine.vm.Charges) (h : session.gas.Within limit)
    (call : FunctionCall) (failed : String → String) :
    Metered limit (fun result ↦ result.2.gas) (session.run H engine.vm call failed) := by
  have he : Errs (ReportsWithin limit) (session.run H engine.vm call failed) :=
    .mapError fun _ ↦ trivial
  cases hx : session.run H engine.vm call failed with
  | error e =>
    rw [hx] at he
    exact he
  | ok result =>
    obtain ⟨_, -, -, hg⟩ := Session.run_eq_ok.mp hx
    obtain ⟨costs, hc⟩ := hvm.execute session.data session.runtime session.gas call
    change result.2.gas.Within limit
    rw [hg, hc]
    exact within_charges h costs

theorem metered_publish (hvm : engine.vm.Charges) (h : session.gas.Within limit)
    (modules : List Bytes) (sender : Address) (failed : String → String) :
    Metered limit Session.gas (session.publish engine.vm modules sender failed) := by
  obtain ⟨costs, hc⟩ := hvm.publish session.data session.gas modules sender
  refine .next (.mapError fun _ ↦ trivial) fun _ ↦ ?_
  change GasMeter.Within limit (engine.vm.publish _ _ _ _).1
  rw [hc]
  exact within_charges h costs

end Session

section Slots

variable (pctx : PtbContext) (arg : Argument)

theorem errs_resolve : Errs (ReportsWithin limit) (pctx.resolve arg) := by
  unfold PtbContext.resolve
  split
  · trivial
  · refine .next (.require trivial) fun _ ↦ Errs.okOr ?_
    unfold PtbContext.missing
    repeat' split
    all_goals trivial

theorem errs_consume : Errs (ReportsWithin limit) (pctx.consume arg) := by
  unfold PtbContext.consume
  split
  · trivial
  · exact .next (.require trivial) fun _ ↦ .next (errs_resolve _ _) fun _ ↦ trivial

theorem errs_mutateSlot (bytes : Bytes) :
    Errs (ReportsWithin limit) (pctx.mutateSlot arg bytes) := by
  unfold PtbContext.mutateSlot
  split
  · trivial
  · refine .next (.require trivial) fun _ ↦ .next (.okOr ?_) fun _ ↦ trivial
    unfold PtbContext.missingForMutate
    repeat' split
    all_goals trivial

end Slots

namespace SetuMoveEngine

variable {st : PtbState S} (hvm : engine.vm.Charges) (h : st.session.gas.Within limit)

theorem errs_bindArgument (bound : List Bytes × PtbContext) (item : (Argument × VmType) × Nat) :
    Errs (ReportsWithin limit) (bindArgument bound item) := by
  refine .next (.require trivial) fun _ ↦ ?_
  split
  · exact .next (errs_resolve _ _) fun _ ↦ trivial
  · exact .next (errs_consume _ _) fun _ ↦ trivial

theorem errs_writeBackArgument (mc : MoveCall) (ptbInputs : List CallArg)
    (acc : PtbContext × List (ObjectId × StructTag × Bytes)) (output : Nat × Bytes) :
    Errs (ReportsWithin limit) (writeBackArgument mc ptbInputs acc output) := by
  refine .next (.okOr trivial) fun arg ↦ ?_
  cases arg with
  | gasCoin => trivial
  | input i =>
    dsimp only
    split
    · trivial
    · refine .next (errs_resolve _ _) fun slot ↦ ?_
      split <;> trivial
    · trivial
  | result c => exact .next (errs_mutateSlot _ _ _) fun _ ↦ trivial
  | nestedResult c j => exact .next (errs_mutateSlot _ _ _) fun _ ↦ trivial

include hvm h in
theorem metered_lowerMoveCall (ptbInputs : List CallArg) (idx : Nat) (mc : MoveCall) :
    Metered limit (fun st ↦ st.session.gas) (engine.lowerMoveCall H ptbInputs idx mc st) := by
  have hr : Metered limit (fun run ↦ run.session.gas)
      (engine.runMoveCall H st.session st.pctx mc) := by
    refine .next ?_ fun named ↦ .next ?_ fun loaded ↦ .next (.foldlM errs_bindArgument)
      fun bound ↦ .next (.mapError fun _ ↦ trivial) fun abilities ↦ ?_
    · exact .next (.mapError fun _ ↦ trivial) fun _ ↦ .next (.mapError fun _ ↦ trivial)
        fun _ ↦ .next (.require trivial) fun _ ↦ trivial
    · exact .next (.mapError fun _ ↦ trivial) fun _ ↦ .next (.forM fun _ ↦ .mapError fun _ ↦
        trivial) fun _ ↦ .next (.mapError fun _ ↦ trivial) fun _ ↦ .next (.require trivial)
        fun _ ↦ trivial
    · exact (metered_run hvm h _ _).bind fun _ hg ↦ .next (.require trivial) fun _ ↦ hg
  refine hr.bind fun run hg ↦ ?_
  exact .next (.foldlM (errs_writeBackArgument mc ptbInputs)) fun _ ↦ hg

theorem errs_coinOperand (pctx : PtbContext) (arg : Argument) (untracked notCoin : String) :
    Errs (ReportsWithin limit) (engine.coinOperand pctx arg untracked notCoin) :=
  .next (errs_resolve _ _) fun _ ↦ .next (.okOr trivial) fun _ ↦ .next (.okOr trivial)
    fun _ ↦ trivial

variable {session : Session S}

theorem metered_writeBackCoin {function : String} {inner : TypeTag} {coinArg : Argument}
    {coinBytes : Bytes} {pctx : PtbContext} (hg : session.gas.Within limit) :
    Metered limit (fun result ↦ result.1.gas)
      (writeBackCoin function inner coinArg coinBytes session pctx) :=
  .next (.okOr trivial) fun _ ↦ .next (errs_mutateSlot _ _ _) fun _ ↦ hg

include hvm h in
theorem metered_lowerSplitCoins (idx : Nat) (coinArg : Argument) (amounts : List Argument) :
    Metered limit (fun st ↦ st.session.gas)
      (engine.lowerSplitCoins H idx coinArg amounts st) := by
  have hr : Metered limit (fun result ↦ result.2.session.gas)
      (engine.runSplitCoins H st coinArg amounts) := by
    refine .next (errs_coinOperand _ _ _ _) fun coin ↦ .next (.mapM fun a ↦ ?_) fun amounts ↦
      .next (.mapError fun _ ↦ trivial) fun _ ↦ .bind (P := fun run ↦ run.session.gas.Within limit)
        (.foldlM h fun run hg amount ↦ ?_) fun _ hg ↦ hg
    · exact .next (errs_resolve _ _) fun _ ↦ trivial
    · refine (metered_run hvm hg _ _).bind fun result hg ↦ .next (.foldlM ?_) fun _ ↦
        .next (.okOr trivial) fun _ ↦ hg
      intro acc output
      unfold applySplitOutput
      split <;> trivial
  exact hr.bind fun run hg ↦ (metered_writeBackCoin hg).bind fun _ hg ↦ hg

include hvm h in
theorem metered_lowerMergeCoins (idx : Nat) (target : Argument) (sources : List Argument) :
    Metered limit (fun st ↦ st.session.gas)
      (engine.lowerMergeCoins H idx target sources st) := by
  have hr : Metered limit (fun run ↦ run.session.gas)
      (engine.runMergeCoins H st target sources) := by
    refine .next (errs_coinOperand _ _ _ _) fun coin ↦ .next (.foldlM fun acc source ↦ ?_)
      fun sources ↦ .next (.mapError fun _ ↦ trivial) fun _ ↦
        .bind (P := fun run ↦ run.1.gas.Within limit)
          (.foldlM h fun run hg source ↦ ?_) fun _ hg ↦ hg
    · exact .next (errs_consume _ _) fun _ ↦ .next (.okOr trivial) fun _ ↦
        .next (.require trivial) fun _ ↦ trivial
    · refine (metered_run hvm hg _ _).bind fun result hg ↦ .next (.foldlM ?_) fun _ ↦ hg
      intro acc output
      unfold applyJoinOutput
      split <;> trivial
  exact hr.bind fun run hg ↦ (metered_writeBackCoin hg).bind fun _ hg ↦ hg

include hvm h in
theorem metered_lowerTransferObjects (idx : Nat) (objects : List Argument)
    (recipient : Argument) :
    Metered limit (fun st ↦ st.session.gas)
      (engine.lowerTransferObjects H idx objects recipient st) := by
  refine .next (errs_resolve _ _) fun _ ↦ .bind (P := fun acc ↦ acc.1.gas.Within limit)
    (.foldlM h fun acc hg obj ↦ ?_) fun _ hg ↦ hg
  exact .next (errs_consume _ _) fun _ ↦ .next (.okOr trivial) fun _ ↦
    .next (.okOr trivial) fun _ ↦ .next (.mapError fun _ ↦ trivial) fun _ ↦
      (metered_run hvm hg _ _).bind fun _ hg ↦ hg

include h in
theorem metered_lowerMakeMoveVec (idx : Nat) (typeTag : Option String) (args : List Argument) :
    Metered limit (fun st ↦ st.session.gas) (engine.lowerMakeMoveVec idx typeTag args st) := by
  refine .next ?_ fun _ ↦ .next (.foldlM fun acc arg ↦ ?_) fun _ ↦ h
  · unfold elementType
    split
    · exact .next (.mapError fun _ ↦ trivial) fun _ ↦ trivial
    · trivial
  · exact .next (errs_consume _ _) fun _ ↦ trivial

include hvm h in
theorem metered_lowerPublish (ctx : MoveExecutionContext) (idx : Nat) (modules : List Bytes) :
    Metered limit (fun st ↦ st.session.gas) (engine.lowerPublish H ctx idx modules st) := by
  unfold lowerPublish
  split
  · exact h
  · refine .next (.mapM fun _ ↦ .mapError fun _ ↦ trivial) fun _ ↦
      (metered_publish hvm h _ _ _).bind fun session hg ↦
        .bind (P := fun minted ↦ minted.1.gas.Within limit) ?_ fun _ hg ↦ hg
    exact (metered_run hvm hg _ _).bind fun _ hg ↦ .next (.okOr trivial) fun _ ↦
      .next (.mapError fun _ ↦ trivial) fun _ ↦ (metered_run hvm hg _ _).bind fun _ hg ↦ hg

theorem errs_checkTicket (modules : List Bytes) (currentPackage : ObjectId)
    (values : List Bytes) :
    Errs (ReportsWithin limit) (engine.checkTicket H modules currentPackage values) := by
  unfold checkTicket
  split
  · exact .next (.okOr trivial) fun _ ↦ .next (.okOr trivial) fun _ ↦ .next (.okOr trivial)
      fun _ ↦ .next (.okOr trivial) fun _ ↦ .next (.okOr trivial) fun _ ↦
        .next (.require trivial) fun _ ↦ .next (.require trivial) fun _ ↦ trivial
  · trivial

include hvm h in
theorem metered_lowerUpgrade (store : RawStore) (ctx : MoveExecutionContext) (idx : Nat)
    (modules : List Bytes) (currentPackage : ObjectId) (upgradeTicket : Argument) :
    Metered limit (fun st ↦ st.session.gas)
      (engine.lowerUpgrade H store ctx idx modules currentPackage upgradeTicket st) := by
  refine .next (.require trivial) fun _ ↦ .next (errs_consume _ _) fun _ ↦
    (metered_run hvm h _ _).bind fun _ hg ↦ .next (errs_checkTicket _ _ _) fun _ ↦
      .next ?_ fun _ ↦ .next (.require trivial) fun _ ↦ .next (.mapM fun _ ↦ ?_) fun _ ↦
        .bind (P := fun session ↦ session.gas.Within limit)
          (.foldlM hg fun session hg item ↦ ?_) fun _ hg ↦
            (metered_publish hvm hg _ _ _).bind fun _ hg ↦
              (metered_run hvm hg _ _).bind fun _ hg ↦ .next (.okOr trivial) fun _ ↦ hg
  · exact .next (.mapError fun _ ↦ trivial) fun _ ↦ .next (.okOr trivial) fun _ ↦ Errs.okOr trivial
  · exact .next (.mapError fun _ ↦ trivial) fun _ ↦ .next (.mapError fun _ ↦ trivial)
      fun _ ↦ trivial
  · exact .next (.mapError fun _ ↦ trivial) fun _ ↦ .next (.okOr trivial) fun _ ↦
      .next (.mapError fun _ ↦ trivial) fun _ ↦ .next (.mapError fun _ ↦ trivial) fun _ ↦
        (metered_charge hg _).bind fun _ hg ↦ .next (.mapError fun _ ↦ trivial) fun _ ↦ hg

include hvm h in
theorem metered_runCommand (store : RawStore) (ctx : MoveExecutionContext)
    (ptbInputs : List CallArg) (cmd : Command × Nat) :
    Metered limit (fun st ↦ st.session.gas)
      (engine.runCommand H store ctx ptbInputs st cmd) := by
  have hc : Metered limit (fun st ↦ st.session.gas) (st.charge (ptbOverheadCost cmd.1)) :=
    (metered_charge h _).bind fun _ hg ↦ hg
  refine hc.bind fun st hg ↦ ?_
  obtain ⟨cmd, idx⟩ := cmd
  cases cmd with
  | moveCall mc => exact metered_lowerMoveCall hvm hg _ _ _
  | splitCoins coin amounts => exact metered_lowerSplitCoins hvm hg _ _ _
  | mergeCoins target sources => exact metered_lowerMergeCoins hvm hg _ _ _
  | transferObjects objects recipient => exact metered_lowerTransferObjects hvm hg _ _ _
  | makeMoveVec typeTag args => exact metered_lowerMakeMoveVec hg _ _ _
  | publish modules deps => exact metered_lowerPublish hvm hg _ _ _
  | upgrade modules deps package ticket => exact metered_lowerUpgrade hvm hg _ _ _ _ _ _

theorem metered_chargeKeys (hg : session.gas.Within limit) (perKey keys : UInt64)
    : Metered limit Session.gas (chargeKeys session perKey keys) := by
  simp only [chargeKeys]
  split
  · exact metered_charge hg _
  · exact hg

theorem metered_beginPtb (store : RawStore) (ptb : ProgrammableTransaction)
    (inputObjects : List InputObject) (dfPreload : List ResolvedDynamicField)
    (ctx : MoveExecutionContext) :
    Metered ctx.gasBudget (fun st ↦ st.session.gas)
      (engine.beginPtb store ptb inputObjects dfPreload ctx) := by
  have hn : (engine.newSession store inputObjects dfPreload ctx
      (.new ctx.gasBudget)).gas.Within ctx.gasBudget := ⟨rfl, UInt64.zero_le⟩
  refine .next (.mapError fun _ ↦ trivial) fun _ ↦ ?_
  dsimp only
  generalize engine.newSession store inputObjects dfPreload ctx _ = session at hn ⊢
  -- the numeral would be unfolded while the charge is matched
  generalize minGasPtb = floor
  refine (metered_charge hn _).bind fun _ hg ↦ ?_
  refine (metered_chargeKeys hg _ _).bind fun _ hg ↦ ?_
  refine .next (.mapM fun input ↦ ?_) fun _ ↦ hg
  unfold initialSlot
  split
  · trivial
  · exact .next (.okOr trivial) fun _ ↦ trivial

theorem errs_sweepSlot (session : Session S) (pctx : PtbContext) (cmdIdx : Nat)
    (slot : Slot × Nat) :
    Errs (ReportsWithin limit) (engine.sweepSlot session pctx cmdIdx slot) := by
  unfold sweepSlot
  split
  · trivial
  · refine .next ?_ fun found ↦ ?_
    · unfold slotAbilities
      split
      · trivial
      · exact .next (.mapError fun _ ↦ trivial) fun _ ↦ .next (.mapError fun _ ↦ trivial)
          fun _ ↦ trivial
      · trivial
    · split
      · trivial
      · exact Errs.require trivial

include h in
theorem gasUsed_finishPtb (ctx : MoveExecutionContext) :
    Yields (fun output ↦ output.gasUsed ≤ limit) (ReportsWithin limit)
      (engine.finishPtb H ctx st) := by
  refine .next (.forM fun _ ↦ .forM fun _ ↦ errs_sweepSlot _ _ _ _) fun _ ↦
    .next (.mapError fun _ ↦ trivial) fun _ ↦ .next (.mapM fun change ↦ ?_) fun _ ↦
      (metered_chargeKeys h _ _).bind fun _ hg ↦ hg.2
  dsimp only
  split <;> trivial

include hvm h in
theorem metered_runCommands (store : RawStore) (ctx : MoveExecutionContext)
    (ptbInputs : List CallArg) (commands : List (Command × Nat)) :
    Metered limit (fun st ↦ st.session.gas)
      (engine.runCommands H store ctx ptbInputs commands st) :=
  .foldlM h fun _ hg cmd ↦ metered_runCommand hvm hg store ctx ptbInputs cmd

variable {store : RawStore} {ptb : ProgrammableTransaction} {inputObjects : List InputObject}
  {dfPreload : List ResolvedDynamicField} {ctx : MoveExecutionContext}
  {output : MoveExecutionOutput}

/-- A block reports no more gas than its budget. -/
theorem gasUsed_executePtb (hvm : engine.vm.Charges)
    (h : engine.executePtb H store ptb inputObjects dfPreload ctx = .ok output) :
    output.gasUsed ≤ ctx.gasBudget := by
  have hb : Yields (fun output ↦ output.gasUsed ≤ ctx.gasBudget) (ReportsWithin ctx.gasBudget)
      (engine.executePtbBody H store ptb inputObjects dfPreload ctx) :=
    (metered_beginPtb store ptb inputObjects dfPreload ctx).bind fun _ hst ↦
      (metered_runCommands hvm hst store ctx ptb.inputs _).bind fun _ hg ↦
        gasUsed_finishPtb hg ctx
  unfold executePtb at h
  split at h
  · cases h
    exact UInt64.zero_le
  · split at h
    · next hx =>
      cases h
      rwa [hx] at hb
    · next hx =>
      cases h
      rwa [hx] at hb
    · cases h

variable (engine) in
/-- The value of a slot cannot be dropped: it is an object, a value of a type without `drop` or
a vector with such an element. -/
inductive LacksDrop (ptb : ProgrammableTransaction) (st : PtbState S) : ArgumentSlot → Prop
  | object {i : Nat} {objArg : ObjectArg} (h : ptb.inputs[i]? = some (.object objArg)) :
      LacksDrop ptb st (.input i)
  | typed {cmd idx : Nat} {slot : Slot} {abilities : AbilitySet} {text : String}
      (hcmd : ∀ typeTag args, ptb.commands[cmd]? ≠ some (.makeMoveVec typeTag args))
      (hslot : st.pctx.slot? (.cmdResult cmd idx) = some slot)
      (habilities : engine.slotAbilities st.session slot = .ok (some (abilities, text)))
      (hdrop : abilities.drop = false) : LacksDrop ptb st (.cmdResult cmd idx)
  | packed {cmd : Nat} {typeTag : Option String} {args : List Argument} {arg : Argument}
      {key : ArgumentSlot} (hcmd : ptb.commands[cmd]? = some (.makeMoveVec typeTag args))
      (harg : arg ∈ args) (hkey : ArgumentSlot.fromArgument arg = some key)
      (h : LacksDrop ptb st key) : LacksDrop ptb st (.cmdResult cmd 0)

variable (engine) in
/-- A result with neither `drop` nor `key` has not been consumed; a vector never has `key`. -/
def LeavesValue (ptb : ProgrammableTransaction) (st : PtbState S) : Prop :=
  ∃ cmd idx slot, st.pctx.Live (.cmdResult cmd idx) slot ∧
    engine.LacksDrop ptb st (.cmdResult cmd idx) ∧
    ((∃ typeTag args, ptb.commands[cmd]? = some (.makeMoveVec typeTag args)) ∨
      ∃ abilities text, engine.slotAbilities st.session slot = .ok (some (abilities, text)) ∧
        abilities.key = false)

variable (H engine) in
/-- The surcharge for what the block writes is above what is left of the budget. -/
def SurchargeExceeds (ctx : MoveExecutionContext) (st : PtbState S) : Prop :=
  ∃ changeSet extracted, engine.vm.finish st.session.data = .ok changeSet ∧
    extractModuleChanges changeSet (st.explicitModuleChanges.map ModuleChange.moduleId) =
      .ok extracted ∧
    let runtime := flushPending st.pendingInputMutations st.session.runtime
    let stateChanges := runtime.stateChanges H engine.tags ctx.currentVersion
    let cost := satMul 100
      (satAdd (len64 stateChanges) (len64 (extracted ++ st.explicitModuleChanges)))
    st.session.gas.maxInstructions.toNat - st.session.gas.instructionsExecuted.toNat < cost.toNat

variable (H engine) in
/-- A command fails, a value is left over or the surcharge is too high. -/
def Fails (store : RawStore) (ptb : ProgrammableTransaction) (inputObjects : List InputObject)
    (dfPreload : List ResolvedDynamicField) (ctx : MoveExecutionContext) : Prop :=
  ∃ st, engine.beginPtb store ptb inputObjects dfPreload ctx = .ok st ∧
    ((∃ error, engine.runCommands H store ctx ptb.inputs ptb.commands.zipIdx st = .error error) ∨
      ∃ st', engine.runCommands H store ctx ptb.inputs ptb.commands.zipIdx st = .ok st' ∧
        (engine.LeavesValue ptb st' ∨ engine.SurchargeExceeds H ctx st'))

variable (H engine) in
/-- The block keeps to its budget, and has no effects if it fails. -/
def AllOrNothing (store : RawStore) (ptb : ProgrammableTransaction)
    (inputObjects : List InputObject) (dfPreload : List ResolvedDynamicField)
    (ctx : MoveExecutionContext) : Prop :=
  ∀ output, engine.executePtb H store ptb inputObjects dfPreload ctx = .ok output →
    output.gasUsed ≤ ctx.gasBudget ∧
    (engine.Fails H store ptb inputObjects dfPreload ctx →
      output.stateChanges = [] ∧ output.moduleChanges = [] ∧ output.events = [])

/-- The element of a vector is a pure input or the result of a command that makes a vector. -/
def Packable (ptb : ProgrammableTransaction) : ArgumentSlot → Prop
  | .input i => ∃ bytes, ptb.inputs[i]? = some (.pure bytes)
  | .cmdResult cmd _ => ∃ typeTag args, ptb.commands[cmd]? = some (.makeMoveVec typeTag args)

/-- The vectors of the block are made of pure values only. -/
def PacksPure (ptb : ProgrammableTransaction) : Prop :=
  ∀ (cmd : Nat) typeTag args, ptb.commands[cmd]? = some (.makeMoveVec typeTag args) →
    ∀ arg ∈ args, ∀ key, ArgumentSlot.fromArgument arg = some key → Packable ptb key

theorem not_packable_of_lacksDrop {st : PtbState S} (hp : PacksPure ptb)
    {key : ArgumentSlot} (h : engine.LacksDrop ptb st key) : ¬ Packable ptb key := by
  induction h with
  | object h =>
    rintro ⟨bytes, hpu⟩
    cases h.symm.trans hpu
  | typed hc =>
    rintro ⟨typeTag, args, hv⟩
    exact hc typeTag args hv
  | packed hc ha hk h ih => exact absurd (hp _ _ _ hc _ ha _ hk) ih

/-- What the sweep lets pass has `drop` or `key`. -/
theorem drop_or_key_of_sweepResults {pctx : PtbContext}
    (h : engine.sweepResults session pctx = .ok ⟨⟩) {cmd idx : Nat} {slot : Slot}
    (hl : pctx.Live (.cmdResult cmd idx) slot) {abilities : AbilitySet} {text : String}
    (ha : engine.slotAbilities session slot = .ok (some (abilities, text))) :
    abilities.drop = true ∨ abilities.key = true := by
  obtain ⟨row, hr, hsl⟩ := Option.bind_eq_some_iff.mp hl.1
  have hro := forM_eq_ok.mp h (row, cmd) (List.mem_zipIdx_iff_getElem?.mpr hr)
  have hs := forM_eq_ok.mp hro (slot, idx) (List.mem_zipIdx_iff_getElem?.mpr hsl)
  have hc : pctx.consumed.contains (.cmdResult cmd idx) = false := by
    simpa using hl.2
  simp only [sweepSlot, hc, Bool.false_eq_true, if_false, ha, bind_eq_ok,
    Except.ok.injEq, exists_eq_left', require_eq_ok, Bool.or_eq_true] at hs
  exact hs

theorem not_leavesValue_of_finishPtb {st : PtbState S} (hp : PacksPure ptb)
    (h : engine.finishPtb H ctx st = .ok output) : ¬ engine.LeavesValue ptb st := by
  simp only [finishPtb, bind_eq_ok] at h
  obtain ⟨_, hs, -⟩ := h
  rintro ⟨cmd, idx, slot, hl, hla, hk⟩
  have hv := not_packable_of_lacksDrop hp hla
  obtain hpa | ⟨abilities, text, ha, hk⟩ := hk
  · exact hv hpa
  · cases hla with
    | typed hc hsl ha' hd =>
      cases hl.1.symm.trans hsl
      cases ha.symm.trans ha'
      have := drop_or_key_of_sweepResults hs hl ha
      simp [hd, hk] at this
    | packed hc => exact hv ⟨_, _, hc⟩

/-- A charge above what is left is refused. -/
theorem chargeKeys_eq_error (hg : session.gas.Within limit) (hl : limit ≤ maxGasBudget)
    {perKey keys : UInt64}
    (h : session.gas.maxInstructions.toNat - session.gas.instructionsExecuted.toNat <
      (satMul perKey keys).toNat) {session' : Session S} :
    chargeKeys session perKey keys ≠ .ok session' := by
  have hc : satMul perKey keys > 0 := UInt64.lt_iff_toNat_lt.mpr (by simp; omega)
  have ht : satAdd session.gas.instructionsExecuted (satMul perKey keys) >
      session.gas.maxInstructions := by
    have hm : session.gas.maxInstructions.toNat ≤ 50000000 := UInt64.le_iff_toNat_le.mp (hg.1 ▸ hl)
    rw [gt_iff_lt, UInt64.lt_iff_toNat_lt, satAdd, UInt64.toNat_ofNat_of_lt'
      (show _ < 2 ^ 64 by omega)]
    omega
  simp [chargeKeys, hc, Session.charge, GasMeter.chargeOuter, ht]

/-- A block without success has no effects. -/
theorem effects_of_not_success
    (h : engine.executePtb H store ptb inputObjects dfPreload ctx = .ok output)
    (hs : output.success = false) :
    output.stateChanges = [] ∧ output.moduleChanges = [] ∧ output.events = [] := by
  unfold executePtb at h
  split at h
  · cases h
    exact ⟨rfl, rfl, rfl⟩
  · split at h
    · next hb =>
      cases h
      obtain ⟨_, _, -, -, hf⟩ := executePtbBody_eq_ok.mp hb
      cases hs.symm.trans (success_of_finishPtb hf)
    · cases h
      exact ⟨rfl, rfl, rfl⟩
    · cases h

section Borrow

/-- A VM whose functions emit an event and return a value without abilities. -/
private def borrowVm : MoveVm Unit where
  newSession _ := ()
  loadType _ _ := .ok ⟨⟩
  typeAbilities _ _ := .ok ⟨false, false, false, false⟩
  loadFunction _ _ _ _ := .ok ⟨[], [.value .u8]⟩
  declaration _ _ _ := some ⟨.public, false⟩
  execute _ _ gas _ := (gas, .ok (⟨[[7]], []⟩, [.emit (packageTag (ident "Borrowed")) [1]], ()))
  publish _ gas _ _ := (gas, .ok ())
  finish _ := .ok []

private def borrowEngine : SetuMoveEngine Unit where
  vm := borrowVm
  stdlibModules := ∅
  tags := ⟨fun _ ↦ .ok .u8, fun _ ↦ .error "", fun _ ↦ ""⟩
  bytecode := ⟨fun _ ↦ .error "", fun _ _ _ ↦ .error "", fun _ ↦ 0, fun _ ↦ 0, fun _ _ _ ↦ .ok ⟨⟩⟩
  texts := ⟨fun _ ↦ "", fun _ ↦ ""⟩

/-- A call whose result goes into a vector, or the packing of a pure value. -/
private def borrowBlock (packs : Argument) : ProgrammableTransaction where
  inputs := [.pure [5]]
  commands := [.moveCall ⟨⟨.replicate 32 2⟩, "pool", "borrow", [], []⟩, .makeMoveVec none [packs]]
  dynamicFieldAccesses := []

private def borrowCtx : MoveExecutionContext := ⟨[], .zero, 10000, 1, 0, false, 0⟩

theorem borrowVm_charges : borrowVm.Charges :=
  ⟨fun _ _ _ _ ↦ ⟨[], rfl⟩, fun _ _ _ _ ↦ ⟨[], rfl⟩⟩

end Borrow

end SetuMoveEngine

end Setu.Move
