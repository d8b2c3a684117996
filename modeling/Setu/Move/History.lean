import Setu.Move.Effects

/-!
# The history of an object runtime

Library `Move`. The record of a session comes about by native calls and by the mutations that the
engine writes back, one after the other. Every execution that comes through has such a history, of
a single call as of a whole block.
-/

namespace Setu.Move

open Setu.Base Setu.Types Setu.Runtime

/-- What is done to the record: a native call or `mutate_object`. -/
inductive RecordOp where
  | native (call : NativeCall)
  | mutate (id : ObjectId) (typeTag : StructTag) (bcsBytes : Bytes)
  deriving DecidableEq

namespace SetuObjectRuntime

variable {D : Type} (H : Blake3 D) (rt : SetuObjectRuntime)

/-- One operation on the record. -/
def perform : RecordOp → Except NativeError SetuObjectRuntime
  | .native call => rt.native H call
  | .mutate id typeTag bcsBytes => pure (rt.mutateObject id typeTag bcsBytes)

/-- A history of operations on the record. -/
def replay (ops : List RecordOp) : Except NativeError SetuObjectRuntime :=
  ops.foldlM (fun rt op ↦ rt.perform H op) rt

/-- Some history leads from one record to the other. -/
def Logs (rt rt' : SetuObjectRuntime) : Prop := ∃ ops, rt.replay H ops = .ok rt'

variable {H}

theorem replay_cons_eq_ok {rt rt' : SetuObjectRuntime} {op : RecordOp} {ops : List RecordOp} :
    rt.replay H (op :: ops) = .ok rt' ↔
      ∃ next, rt.perform H op = .ok next ∧ next.replay H ops = .ok rt' := by
  rw [replay, List.foldlM_cons, bind_eq_ok]
  rfl

theorem Logs.refl : Logs H rt rt := ⟨[], rfl⟩

theorem Logs.trans {a b c : SetuObjectRuntime} (h : Logs H a b) (h' : Logs H b c) :
    Logs H a c := by
  obtain ⟨ops, ho⟩ := h
  obtain ⟨ops', ho'⟩ := h'
  refine ⟨ops ++ ops', ?_⟩
  rw [replay, List.foldlM_append, ← replay, ho]
  exact ho'

theorem logs_perform {rt rt' : SetuObjectRuntime} (op : RecordOp)
    (h : rt.perform H op = .ok rt') : Logs H rt rt' :=
  ⟨[op], replay_cons_eq_ok.mpr ⟨rt', h, rfl⟩⟩

theorem logs_mutateObject (id : ObjectId) (typeTag : StructTag) (bcsBytes : Bytes)
    : Logs H rt (rt.mutateObject id typeTag bcsBytes) :=
  logs_perform (.mutate id typeTag bcsBytes) rfl

theorem logs_natives {rt rt' : SetuObjectRuntime} {calls : List NativeCall}
    (h : rt.natives H calls = .ok rt') : Logs H rt rt' :=
  foldlM_ok_induction (Logs H rt) h (.refl rt) fun call _ _ _ hs hl ↦
    hl.trans (logs_perform (.native call) hs)

end SetuObjectRuntime

open SetuObjectRuntime

variable {D S : Type} {H : Blake3 D} {session session' : Session S} {returned : SerializedReturn}

theorem Session.logs_execute {vm : MoveVm S} {call : FunctionCall}
    (h : (session.execute H vm call).2 = .ok (returned, session')) :
    Logs H session.runtime session'.runtime := by
  simp only [execute, bind_eq_ok, pure_eq_ok, mapError_eq_ok] at h
  obtain ⟨_, -, runtime, hn, heq⟩ := h
  cases heq
  exact logs_natives hn

theorem Session.logs_run {vm : MoveVm S} {call : FunctionCall} {failed : String → String}
    (h : session.run H vm call failed = .ok (returned, session')) :
    Logs H session.runtime session'.runtime :=
  Session.logs_execute (mapError_eq_ok.mp h)

namespace SetuMoveEngine

variable {engine : SetuMoveEngine S}

variable {ctx : MoveExecutionContext} {store : RawStore}

/-- Every command leaves a history. -/
theorem logs_lowerCommand {ptbInputs : List CallArg} {idx : Nat} {cmd : Command}
    {st st' : PtbState S} (h : engine.lowerCommand H store ctx ptbInputs idx cmd st = .ok st') :
    Logs H st.session.runtime st'.session.runtime := by
  have hc : KeptByCalls H engine.vm (Logs H st.session.runtime) :=
    fun _ _ _ _ _ hr hl ↦ hl.trans (Session.logs_run hr)
  exact hc.command (fun _ _ _ hl ↦ hl.trans (logs_mutateObject _ _ _ _)) h (.refl _)

theorem logs_runCommands {ptbInputs : List CallArg} {commands : List (Command × Nat)}
    {st st' : PtbState S} (h : engine.runCommands H store ctx ptbInputs commands st = .ok st') :
    Logs H st.session.runtime st'.session.runtime := by
  refine foldlM_ok_induction (fun st' ↦ Logs H st.session.runtime st'.session.runtime) h
    (.refl _) ?_
  intro cmd _ before after hs hl
  simp only [runCommand, bind_eq_ok] at hs
  obtain ⟨charged, hc, hlo⟩ := hs
  obtain ⟨session, rfl, -, hr⟩ := PtbState.charge_eq_ok hc
  refine hl.trans ?_
  rw [← hr]
  exact logs_lowerCommand hlo

theorem logs_writeBack (mutableArgMap : List (Nat × ObjectId)) (outputs : List (Nat × Bytes))
    (rt : SetuObjectRuntime) : Logs H rt (writeBack mutableArgMap outputs rt) := by
  induction outputs generalizing rt with
  | nil => exact .refl rt
  | cons output rest ih =>
    rw [writeBack, List.foldl_cons, ← writeBack]
    refine .trans ?_ (ih _)
    unfold writeBackOutput
    split
    · exact .refl rt
    · split
      · exact logs_mutateObject _ _ _ _
      · exact .refl rt

theorem logs_flushPending (pending : List (ObjectId × StructTag × Bytes))
    (rt : SetuObjectRuntime) : Logs H rt (flushPending pending rt) := by
  induction pending generalizing rt with
  | nil => exact .refl rt
  | cons mutation rest ih =>
    rw [flushPending, List.foldl_cons, ← flushPending]
    exact (logs_mutateObject _ _ _ _).trans (ih _)

variable {dfPreload : List ResolvedDynamicField} {inputObjects : List InputObject}

/-- The changes of a call that succeeded are those of a record with a history from the loaded
objects. -/
theorem exists_history_execute {moduleId : ModuleId} {function : Identifier}
    {typeArgs : List TypeTag} {args : List Bytes} {mutableArgMap : List (Nat × ObjectId)}
    {output : MoveExecutionOutput}
    (h : engine.execute H store inputObjects dfPreload moduleId function typeArgs args ctx
      mutableArgMap = .ok output) (hs : output.success = true) :
    ∃ ops rt, (SetuObjectRuntime.new inputObjects dfPreload ctx.txHash ctx.sender
        ctx.epochTimestampMs).replay H ops = .ok rt ∧
      output.stateChanges = rt.stateChanges H engine.tags ctx.currentVersion := by
  obtain ⟨_, returned, session, rfl, -, hvm, hf⟩ := execute_success_iff.mp ⟨h, hs⟩
  simp only [finishCall, bind_eq_ok, pure_eq_ok] at hf
  obtain ⟨_, -, _, -, rfl⟩ := hf
  obtain ⟨ops, ho⟩ := (Session.logs_execute hvm).trans
    (logs_writeBack mutableArgMap returned.mutableReferenceOutputs _)
  exact ⟨ops, _, ho, rfl⟩

/-- The same of a block. -/
theorem exists_history_executePtbBody {ptb : ProgrammableTransaction} {output : MoveExecutionOutput}
    (h : engine.executePtbBody H store ptb inputObjects dfPreload ctx = .ok output) :
    ∃ ops rt, (SetuObjectRuntime.new inputObjects dfPreload ctx.txHash ctx.sender
        ctx.epochTimestampMs).replay H ops = .ok rt ∧
      output.stateChanges = rt.stateChanges H engine.tags ctx.currentVersion := by
  obtain ⟨st, st', hb, hr, hf⟩ := executePtbBody_eq_ok.mp h
  obtain ⟨_, -, -, -, hru, -⟩ := beginPtb_eq_ok hb
  simp only [finishPtb, bind_eq_ok, pure_eq_ok] at hf
  obtain ⟨_, -, _, -, _, -, _, -, rfl⟩ := hf
  obtain ⟨ops, ho⟩ := (logs_runCommands hr).trans (logs_flushPending _ _)
  rw [hru] at ho
  exact ⟨ops, _, ho, rfl⟩

end SetuMoveEngine

end Setu.Move
