import Setu.Enclave.StateDiff
import Setu.State.Run
import Setu.Validator.TaskPreparer

/-!
# Serializability of Move executions

Library `Validator`. Move tasks are prepared on the state of some moment and applied later, in
any order and among other events. The state manager compares the old values that an event's
changes record, and nothing else that the execution has read. Reads that no change records are
current at the event's turn only if the events applied since the preparation leave them as the
preparation saw them.
-/

namespace Setu.Validator

open Setu.Base Setu.Types Setu.State Setu.Enclave Setu.Merkle GlobalStateManager

/-- The payload of a Move event. -/
inductive MovePayload where
  | call (payload : MoveCallPayload)
  | ptb (payload : MovePtbPayload)

/-- A client's request. -/
structure MoveRequest where
  event : Event
  payload : MovePayload
  subnetId : SubnetId

variable {D : Type} (H : Blake3 D) (decoders : Decoders)

/-- The preparation of the task of a request. -/
def MoveRequest.prepare (request : MoveRequest) :
    Lookup ObjectId Bytes (Except TaskPrepareError SolverTask) :=
  match request.payload with
  | .call payload => (prepareMoveCallTask H decoders request.event payload request.subnetId).run
  | .ptb payload => (prepareMovePtbTask H decoders request.event payload request.subnetId).run

/-- A request with the view of the state on which its task was prepared: the state after some
number of turns, seen through the speculative overlay. -/
structure MoveTask where
  request : MoveRequest
  snapshot : Nat
  overlay : ObjectId → Option (Option Bytes)
  view : ObjectId → Option Bytes
  solverMessage : String
  suffix : String
  prepared : ((request.prepare H decoders).run view).toOption.isSome

namespace MoveTask

variable {H decoders} (m : MoveTask H decoders)

/-- The task that the solver is given. -/
def task : SolverTask :=
  ((m.request.prepare H decoders).run m.view).toOption.get m.prepared

theorem run_prepare : (m.request.prepare H decoders).run m.view = .ok m.task :=
  eq_ok_get m.prepared

/-- What was read for the execution: input objects, dynamic fields, those found absent among
them, and modules. -/
def reads : List ObjectId := (m.request.prepare H decoders).reads m.view

variable (execute : SolverTask → StfOutput)

/-- The executed event of a task, `tee_executor.rs:540-559`. -/
def eventOf (task : SolverTask) : Event :=
  { task.event with
    executionResult := some (executedResult (.fromStfOutput (execute task)) task.subnetId none
      m.solverMessage m.suffix)
    status := .executed }

/-- The event records what it read at the object: its first write there expects that value and
is checked. -/
def Records (id : ObjectId) : Prop :=
  ∃ w, ((eventWrites H (m.eventOf execute m.task)).getD []).find? (·.key = (.root, id)) = some w ∧
    w.expected = m.view id ∧ w.Checked

end MoveTask

/-- An event of a run: of a Move task, or any other with the changes it carries. -/
inductive Submission where
  | move (m : MoveTask H decoders)
  | other (event : Event)

variable {H decoders} (execute : SolverTask → StfOutput)

/-- The event that the state manager gets. -/
def Submission.event : Submission H decoders → Event
  | move m => m.eventOf execute m.task
  | other event => event

/-- The executions of the applied events one after another: a Move event is prepared and
executed on the state it finds, another event leaves its changes. -/
def reexecute (s : Objects) : Submission H decoders → Objects
  | .move m =>
    match (m.request.prepare H decoders).run fun id ↦ s (.root, id) with
    | .ok task => Write.applyAll s ((eventWrites H (m.eventOf execute task)).getD [])
    | .error _ => s
  | .other event => Write.applyAll s ((eventWrites H event).getD [])

section Runs

variable [DecidableEq D] (g : GlobalStateManager D) (calls : List (Call (Submission H decoders)))

/-- The turns of a run of submissions. -/
abbrev submissionTurns : List (Turn (Submission H decoders) D) :=
  g.runTurns H (Submission.event execute) calls

/-- Each Move task was prepared before its turn on the state of its snapshot, through the
overlay. -/
def Interleaved : Prop :=
  ∀ (j : Nat) (t : Turn (Submission H decoders) D) (m : MoveTask H decoders),
    (submissionTurns execute g calls)[j]? = some t → t.task = .move m →
    m.snapshot ≤ j ∧ ∀ id, m.view id = (m.overlay id).getD
      (stateAt H (Submission.event execute) (g.objects H) (submissionTurns execute g calls)
        m.snapshot (.root, id))

/-- Whatever an applied Move event has read is as it was read, and the objects after the run
are those of executing the applied events one after another. -/
def Serializable : Prop :=
  (∀ (j : Nat) (t : Turn (Submission H decoders) D) (m : MoveTask H decoders),
    (submissionTurns execute g calls)[j]? = some t → t.task = .move m →
    t.Applied (Submission.event execute) → ∀ id ∈ m.reads, t.before (.root, id) = m.view id) ∧
  (g.run H (Submission.event execute) calls).objects H =
    (((submissionTurns execute g calls).filter fun t ↦
      t.Applied (Submission.event execute)).map (·.task)).foldl (reexecute execute) (g.objects H)

/-- Between its preparation and its turn, the events applied leave each object that an applied
Move event read without recording it as the overlay of the preparation had it: the last write
is the overlay's, and there is none if the overlay has none. -/
def ReadsUndisturbed : Prop :=
  ∀ (j : Nat) (t : Turn (Submission H decoders) D) (m : MoveTask H decoders),
    (submissionTurns execute g calls)[j]? = some t → t.task = .move m →
    t.Applied (Submission.event execute) → ∀ id ∈ m.reads, ¬ m.Records execute id →
      Write.lastValue ((((submissionTurns execute g calls).take j).drop m.snapshot).flatMap
        (Turn.appliedWrites H (Submission.event execute))) (.root, id) = m.overlay id

variable {execute g calls}

private theorem read_current (hru : Interleaved execute g calls)
    (hre : ReadsUndisturbed execute g calls) {j : Nat} {t : Turn (Submission H decoders) D}
    {m : MoveTask H decoders} (hj : (submissionTurns execute g calls)[j]? = some t)
    (ht : t.task = .move m) (ha : t.Applied (Submission.event execute)) {id : ObjectId}
    (hid : id ∈ m.reads) : t.before (.root, id) = m.view id := by
  obtain ⟨hc, hl⟩ := chained_runTurns H (Submission.event execute) g calls
  by_cases hr : m.Records execute id
  · -- the conflict check has compared the value
    obtain ⟨w, hf, he, hch⟩ := hr
    have hfi := (hl t (List.mem_of_getElem? hj)).allFit ha
    rw [Turn.writes, ht] at hfi
    have hk : w.key = (.root, id) := by simpa using List.find?_some hf
    rw [← hk, (Write.fits_of_first hfi hf).eq_expected hch, he]
  · obtain ⟨hs, hv⟩ := hru j t m hj ht
    rw [hc.before_eq hj, stateAt_of_le _ _ hs, Write.applyAll_apply,
      hre j t m hj ht ha id hid hr, hv id]

omit [DecidableEq D] in
private theorem reexecute_of_current {t : Turn (Submission H decoders) D}
    (ha : t.Applied (Submission.event execute))
    (hc : ∀ m, t.task = .move m → ∀ id ∈ m.reads, t.before (.root, id) = m.view id) :
    reexecute execute t.before t.task = t.after H (Submission.event execute) := by
  rw [Turn.after, if_pos ha, Turn.writes]
  cases ht : t.task with
  | other event => rfl
  | move m =>
    have hr : (m.request.prepare H decoders).run (fun id ↦ t.before (.root, id)) = .ok m.task :=
      (Lookup.run_congr (hc m ht)).trans m.run_prepare
    simp only [reexecute, hr, Submission.event]

end Runs

/-- A run is serializable if the events applied between the preparation of a Move task and its
turn leave alone what it read without recording it. -/
theorem serializable [DecidableEq D] (g : GlobalStateManager D)
    (calls : List (Call (Submission H decoders))) (hrun : Interleaved execute g calls)
    (hreads : ReadsUndisturbed execute g calls) : Serializable execute g calls := by
  refine ⟨fun j t m hj hta ha id hid ↦ read_current hrun hreads hj hta ha hid, ?_⟩
  have hc := (GlobalStateManager.chained_runTurns H (Submission.event execute) g calls).1
  refine hc.eq_foldl fun t ht ha ↦ reexecute_of_current ha fun m hta id hid ↦ ?_
  obtain ⟨j, hj⟩ := List.mem_iff_getElem?.mp ht
  exact read_current hrun hreads hj hta ha hid

/-! Two calls of one function, which copies the data of its first object into its second, are
prepared on the same state: one copies `X` into `Y`, the other `Y` into `X`. -/

private def alice : Address := ⟨Vector.replicate 32 7⟩

private def object (byte version data : UInt8) : ObjectEnvelope :=
  { id := ⟨Vector.replicate 32 byte⟩
    owner := alice
    version := version.toUInt64
    ownership := .addressOwner alice
    digest := ⟨Vector.replicate 32 0⟩
    typeTag := "0xcafe::m::Cell"
    data := [data] }

private def stored : List ObjectEnvelope :=
  [object 1 1 1, object 2 1 2, object 1 2 2, object 2 2 1]

private def parse (bytes : Bytes) : Option ObjectEnvelope := stored.find? (·.toBytes = bytes)

private def cellDecoders : Decoders where
  detectAndParse bytes := (parse bytes).elim .unknown .envelope
  dfFieldValue _ := .error "unexpected end of input"
  linkage _ := .error "unexpected end of input"
  compiledModule _ := .ok ⟨"m", []⟩
  hexError _ := "Odd number of digits"

private def copyCell (task : SolverTask) : StfOutput :=
  let writes :=
    match task.readSet with
    | [source, target] =>
      match parse source.value, parse target.value with
      | some sourceEnv, some targetEnv =>
        [⟨target.key, some target.value,
          { targetEnv with version := targetEnv.version + 1, data := sourceEnv.data }.toBytes⟩]
      | _, _ => []
    | _ => []
  ⟨⟨writes ++ [processedEntry task.event.id none], []⟩, [task.event.id], [], 0⟩

private def eventAt (id : EventId) (time : UInt64) (eventType : EventType) : Event :=
  { id := id
    eventType := eventType
    parentIds := []
    subnetId := none
    transfer := none
    payload := .moveCall []
    vlcSnapshot := ⟨∅, time, 0⟩
    creator := ""
    status := .pending
    executionResult := none
    timestamp := 0 }

private def setup : Event :=
  { eventAt "setup" 0 .genesis with
    executionResult := some
      { success := true
        message := ""
        stateChanges :=
          [⟨objectKey (object 1 1 1).id, none, some (object 1 1 1).toBytes, none⟩,
            ⟨objectKey (object 2 1 2).id, none, some (object 2 1 2).toBytes, none⟩,
            ⟨moduleKey "0xcafe" "m", none, some [0], none⟩] } }

private def setupWrites : List (Write (SubnetId × ObjectId) Bytes) :=
  (eventWrites Blake3.ideal setup).getD []

private def setupView (id : ObjectId) : Option Bytes :=
  Write.applyAll (fun _ ↦ none) setupWrites (.root, id)

private def copyRequest (id : EventId) (time : UInt64) (source target : UInt8) : MoveRequest where
  event := eventAt id time .contractCall
  payload := .call
    { sender := alice.toText
      package := "0xcafe"
      module := "m"
      function := "copy"
      typeArgs := []
      args := []
      inputObjectIds := [⟨Vector.replicate 32 source⟩, ⟨Vector.replicate 32 target⟩]
      sharedObjectIds := []
      mutableIndices := some [1]
      consumedIndices := none
      needsTxContext := false
      dynamicFieldAccesses := [] }
  subnetId := .root

private def xToY : MoveTask Blake3.ideal cellDecoders where
  request := copyRequest "e2" 2 1 2
  snapshot := 1
  overlay _ := none
  view := setupView
  solverMessage := ""
  suffix := ""
  prepared := by decide +kernel

private def yToX : MoveTask Blake3.ideal cellDecoders where
  request := copyRequest "e1" 1 2 1
  snapshot := 1
  overlay _ := none
  view := setupView
  solverMessage := ""
  suffix := ""
  prepared := by decide +kernel

private abbrev copyEvent : Submission Blake3.ideal cellDecoders → Event := Submission.event copyCell

private abbrev setupCall : Call (Submission Blake3.ideal cellDecoders) := ⟨[.other setup], 0⟩

private abbrev empty : GlobalStateManager (Option Bytes) := .new Blake3.ideal

variable (rest : List (Call (Submission Blake3.ideal cellDecoders)))

private theorem stateAt_setup (id : ObjectId) :
    stateAt Blake3.ideal copyEvent (empty.objects Blake3.ideal)
      (submissionTurns copyCell empty (setupCall :: rest)) 1 (.root, id) = setupView id := by
  have hl : (empty.callTurns Blake3.ideal copyEvent setupCall).length = 1 := by
    decide +kernel
  have hw : (empty.callTurns Blake3.ideal copyEvent setupCall).flatMap
      (Turn.appliedWrites Blake3.ideal copyEvent) = setupWrites := by
    decide +kernel
  rw [stateAt, submissionTurns, runTurns, List.take_left' hl, hw,
    objects_new]
  rfl

private theorem interleaved_setup
    (hr : ∀ call ∈ rest, ∀ m, .move m ∈ call.tasks → m.snapshot = 1 ∧ m.view = setupView ∧ ∀ id,
      m.overlay id = none) : Interleaved copyCell empty (setupCall :: rest) := by
  intro j t m hj ht
  have hme := List.mem_of_getElem? hj
  obtain ⟨call, hc, hm⟩ := task_mem_of_mem_runTurns hme
  rw [ht] at hm
  rcases List.mem_cons.mp hc with rfl | hc
  · simp at hm
  · obtain ⟨hs, hv, ho⟩ := hr call hc m hm
    rw [hs]
    refine ⟨Nat.one_le_iff_ne_zero.mpr ?_, fun id ↦ ?_⟩
    · rintro rfl
      cases (getElem?_task hj).trans (congrArg some ht)
    · rw [hv, ho, stateAt_setup]
      rfl

private def unrelated : Event :=
  { eventAt "e1" 1 .userRegister with
    executionResult := some
      { success := true
        message := ""
        stateChanges := [⟨"user:bob", none, some [1], none⟩] } }

/-- A registration between the preparation and the turn of a call leaves the run
serializable. -/
theorem serializable_unrelated :
    Serializable copyCell empty [setupCall, ⟨[.other unrelated], 1⟩, ⟨[.move xToY], 2⟩] := by
  refine serializable copyCell _ _ (interleaved_setup _ ?_) ?_
  · simp [xToY]
  · intro j t m hj ht ha id hid _
    have hu : ∀ id ∈ xToY.reads, Write.lastValue ((((submissionTurns copyCell empty
        [setupCall, ⟨[.other unrelated], 1⟩, ⟨[.move xToY], 2⟩]).take 2).drop 1).flatMap
          (Turn.appliedWrites Blake3.ideal copyEvent)) (.root, id) = none := by
      decide +kernel
    have hm := (GlobalStateManager.getElem?_task hj).trans (congrArg some ht)
    match j with
    | 0 | 1 => cases hm
    | 2 =>
      cases hm
      exact hu id hid
    | j + 3 => cases hm

/-- The calls copy in opposite directions: both are applied, and the second one has read a value
that the first one has replaced. -/
theorem not_serializable_writeSkew :
    Interleaved copyCell empty [setupCall, ⟨[.move yToX], 1⟩, ⟨[.move xToY], 2⟩] ∧
      ¬ Serializable copyCell empty [setupCall, ⟨[.move yToX], 1⟩, ⟨[.move xToY], 2⟩] := by
  refine ⟨interleaved_setup _ (by simp [xToY, yToX]), fun h ↦ ?_⟩
  set turns := submissionTurns copyCell empty [setupCall, ⟨[.move yToX], 1⟩, ⟨[.move xToY], 2⟩]
  have hs : turns[2]?.any (fun t ↦ t.Applied copyEvent ∧
      t.before (.root, (object 1 1 1).id) ≠ xToY.view (object 1 1 1).id) = true := by
    decide +kernel
  have hr : (object 1 1 1).id ∈ xToY.reads := by decide +kernel
  obtain ⟨t, ht, hs⟩ := (Option.any_eq_true _ _).mp hs
  obtain ⟨ha, hne⟩ := of_decide_eq_true hs
  have hta : t.task = .move xToY := (Option.some.inj (GlobalStateManager.getElem?_task ht)).symm
  exact hne (h.1 2 t xToY ht hta ha _ hr)

end Setu.Validator
