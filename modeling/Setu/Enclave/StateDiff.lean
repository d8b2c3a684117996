import Setu.Runtime.Executor
import Setu.State.Serial

/-!
# From an execution to the state changes of an event

Library `Enclave`. The enclave collects what an execution changed in a state diff, the solver
turns the diff into state changes, and the validator attaches these to the event. Sources
`crates/setu-enclave/src/stf.rs` and `mock/mod.rs`, `setu-solver/src/tee.rs` and
`setu-validator/src/network/tee_executor.rs`.
-/

namespace Setu.Enclave

open Setu.Base Setu.Types Setu.State Setu.Merkle

/-- An entry of the write set, `stf.rs:375-383`. -/
structure WriteSetEntry where
  key : String
  oldValue : Option Bytes
  newValue : Bytes
  deriving DecidableEq

/-- `stf.rs:405-419`. -/
def WriteSetEntry.fromStateChange (objectId : ObjectId) (oldState : Option Bytes)
    (newState : Bytes) : WriteSetEntry :=
  ⟨objectKey objectId, oldState, newState⟩

/-- The objects an execution wrote and deleted, `stf.rs:296-301`. -/
structure StateDiff where
  writes : List WriteSetEntry
  deletes : List String

namespace StateDiff

/-- `stf.rs:304-306`. -/
def new : StateDiff := ⟨[], []⟩

variable (diff : StateDiff)

/-- `stf.rs:308-310`. -/
def addWrite (entry : WriteSetEntry) : StateDiff :=
  { diff with writes := diff.writes ++ [entry] }

/-- `stf.rs:312-314`. -/
def addDelete (key : String) : StateDiff :=
  { diff with deletes := diff.deletes ++ [key] }

/-- The turn of `add_state_changes` for one change, `stf.rs:323-329`: an object without a new
state is written with the empty value. -/
def addStateChange (change : Runtime.StateChange) : StateDiff :=
  diff.addWrite
    (.fromStateChange change.objectId change.oldState (change.newState.getD []))

/-- `stf.rs:322-331`. -/
def addStateChanges (changes : List Runtime.StateChange) : StateDiff :=
  changes.foldl addStateChange diff

/-- What a Move call or transaction block adds for one change, `mock/mod.rs:1408-1422` and
`1540-1554`: a deletion keeps only the key. -/
def addMoveChange (change : Runtime.StateChange) : StateDiff :=
  match change.newState with
  | some newState => diff.addWrite ⟨objectKey change.objectId, change.oldState, newState⟩
  | none => diff.addDelete (objectKey change.objectId)

end StateDiff

/-- The write of `record_event_processed`, `mock/mod.rs:1672-1690`, given the marker found in
the enclave's own state. -/
def processedEntry (eventId : EventId) (oldValue : Option Bytes) : WriteSetEntry :=
  ⟨"event:" ++ eventId, oldValue, strBytes ("processed:" ++ eventId)⟩

/-- An event the enclave could not execute, `stf.rs`. -/
structure FailedEvent where
  eventId : EventId
  reason : String

/-- The part of the enclave's output that the result is made of, `stf.rs:264-293`. -/
structure StfOutput where
  stateDiff : StateDiff
  eventsProcessed : List EventId
  eventsFailed : List FailedEvent
  executionTimeUs : UInt64

/-- `tee.rs:232-256`. -/
def annotateDynamicFieldAbort (reason : String) : String :=
  let lower := reason.toLower.toList
  let contains := fun text : String ↦ decide (text.toList <:+: lower)
  if !contains "dynamic_field" then reason
  else
    let hint :=
      if contains "sub status 0" then "dynamicfield not preloaded"
      else if contains "sub status 1" then "dynamicfield already exists"
      else if contains "sub status 2" then "dynamicfield not found"
      else if contains "sub status 3" then "dynamicfield type mismatch"
      else if contains "sub status 4" then "dynamicfield value has key ability"
      else "dynamicfield error"
    if contains hint then reason else s!"{reason} ({hint})"

/-- `tee.rs:196-230`. -/
structure TeeExecutionResult where
  stateChanges : List StateChange
  eventsProcessed : Nat
  eventsFailed : Nat
  failureReasons : List String
  executionTimeUs : UInt64

/-- The state changes of a diff, `tee.rs:262-278`: a deletion has no old value. -/
def diffChanges (diff : StateDiff) : List StateChange :=
  diff.writes.map (fun w ↦ ⟨w.key, w.oldValue, some w.newValue, none⟩) ++
    diff.deletes.map fun key ↦ ⟨key, none, none, none⟩

/-- `tee.rs:260-299`. -/
def TeeExecutionResult.fromStfOutput (output : StfOutput) : TeeExecutionResult :=
  let failureReasons := output.eventsFailed.map fun failed ↦
    failed.eventId ++ ": " ++ annotateDynamicFieldAbort failed.reason
  { stateChanges := diffChanges output.stateDiff
    eventsProcessed := output.eventsProcessed.length
    eventsFailed := failureReasons.length
    failureReasons := failureReasons
    executionTimeUs := output.executionTimeUs }

variable (r : TeeExecutionResult)

/-- `tee.rs:302-319`. -/
def TeeExecutionResult.toExecutionResult : ExecutionResult where
  success := r.eventsFailed == 0
  message :=
    let all := r.eventsProcessed + r.eventsFailed
    if r.eventsFailed == 0 then
      s!"Processed {r.eventsProcessed} events in {r.executionTimeUs}μs"
    else if r.failureReasons.isEmpty then s!"{r.eventsFailed} events failed out of {all}"
    else s!"{r.eventsFailed} events failed out of {all}: " ++ "; ".intercalate r.failureReasons
  stateChanges := r.stateChanges

/-- `tee_executor.rs:119-162`, with the key and bytes of the
nonce marker that an authorized transfer adds. -/
def buildExecutionStateChanges (changes : List StateChange) (taskSubnet : SubnetId)
    (marker : Option (String × Bytes)) : List StateChange :=
  changes.map (fun change ↦ { change with targetSubnet := some taskSubnet }) ++
    (marker.map fun m ↦ ⟨m.1, none, some m.2, some SubnetId.root⟩).toList

/-- `tee_executor.rs:164-184`. -/
def solverExecutionMessage (solverMessage suffix : String) : String :=
  let text := s!"TEE executed: {r.eventsProcessed} events in {r.executionTimeUs}μs{suffix}"
  if r.eventsFailed == 0 then text
  else if !solverMessage.toList.all Char.isWhitespace then solverMessage
  else s!"{text} ({r.eventsFailed} failed)"

/-- The execution result that the validator sets, `tee_executor.rs:540-557`. -/
def executedResult (taskSubnet : SubnetId) (marker : Option (String × Bytes))
    (solverMessage suffix : String) : ExecutionResult where
  success := r.eventsFailed == 0
  message := solverExecutionMessage r solverMessage suffix
  stateChanges := buildExecutionStateChanges r.stateChanges taskSubnet marker

/-- The state manager reads the object identifier back from an object's key. -/
@[simp]
theorem parseStateChangeKey_objectKey {D : Type} (H : Blake3 D) (id : ObjectId) :
    parseStateChangeKey H (objectKey id) = id := by
  have hl : id.asBytes.length = 32 := by simp [HashValue.asBytes]
  unfold parseStateChangeKey
  simp only [toList_objectKey, hexDecode_hexEncode, hl, dite_true]
  exact congrArg HashValue.mk (Vector.toArray_inj.mp (by simp [HashValue.asBytes, Vector.toList]))

end Setu.Enclave
