import Setu.Consensus.Intake

/-!
# Persistence of finalized anchors

Library `Validator`. A finalized anchor is persisted in phases: its events with their depths, the
waiting frames, the anchor itself, the mark in the engine, the collection of its events from the
DAG. Between two phases other tasks run, and every write can fail. Sources
`setu-validator/src/persistence.rs` and `storage/src/rocks`.
-/

namespace Setu.Validator

open Setu.Base Setu.Types Setu.Consensus

variable {D : Type}

/-- The counts of a batch, `storage/src/types.rs:17-28`, without the lists for the log. -/
structure BatchStoreResult where
  stored : Nat
  skipped : Nat
  failed : Nat

/-- `storage/src/types.rs:37-39`. -/
def BatchStoreResult.hasCriticalFailures (result : BatchStoreResult) : Bool := 0 < result.failed

/-- The keys that are put for an event, `rocks/event_store.rs:292-339`. -/
inductive EventKey where
  | event | depth | depthIdx | creator | status

/-- Which puts into a batch succeed, and whether the batch is written. -/
structure BatchAnswers where
  put : EventId → EventKey → Bool
  write : Bool

/-- The store as the batch will leave it, with the counts so far. -/
structure EventBatch where
  store : EventStore
  result : BatchStoreResult

namespace EventBatch

variable (batch : EventBatch)

/-- A failed put is counted and the puts before it stay in the batch. -/
def fail : EventBatch :=
  { batch with result := { batch.result with failed := batch.result.failed + 1 } }

/-- An event that is stored already gets its depth; a failed put is only logged,
`rocks/event_store.rs:266-288`. -/
def addKnown (put : EventKey → Bool) (entry : Event × UInt64) :
    EventBatch where
  store :=
    if put .depth then
      { batch.store with depths := batch.store.depths.insert entry.1.id entry.2 }
    else batch.store
  result := { batch.result with skipped := batch.result.skipped + 1 }

/-- A new event with its depth and its indexes, `rocks/event_store.rs:290-341`. -/
def addNew (put : EventKey → Bool) (entry : Event × UInt64) : EventBatch :=
  if !put .event then batch.fail
  else
    let batch := { batch with store := batch.store.store entry.1 }
    if !put .depth then batch.fail
    else
      let batch := { batch with
        store := { batch.store with depths := batch.store.depths.insert entry.1.id entry.2 } }
      if put .depthIdx && put .creator && put .status then
        { batch with result := { batch.result with stored := batch.result.stored + 1 } }
      else batch.fail

/-- One turn of the loop of `store_batch_with_depth`, `rocks/event_store.rs:261-342`. Whether the
event is known is asked of the store, not of the batch. -/
def add (store : EventStore) (answers : BatchAnswers) (batch : EventBatch)
    (entry : Event × UInt64) : EventBatch :=
  if entry.1.id ∈ store.events then batch.addKnown (answers.put entry.1.id) entry
  else batch.addNew (answers.put entry.1.id) entry

end EventBatch

/-- `rocks/event_store.rs:243-350`. -/
def storeBatchWithDepth (store : EventStore) (entries : List (Event × UInt64))
    (answers : BatchAnswers) : BatchStoreResult × EventStore :=
  if entries.isEmpty then (⟨0, 0, 0⟩, store)
  else
    let batch := entries.foldl (EventBatch.add store answers) ⟨store, 0, 0, 0⟩
    if answers.write then (batch.result, batch.store)
    else
      ({ batch.result with
        stored := 0
        failed := batch.result.failed + batch.result.stored }, store)

/-- The anchors on disk with the latest one and their number, `rocks/anchor_store.rs:94-136`; the
indexes by place and depth are not read here. -/
structure AnchorStore (D : Type) where
  anchors : HashMap AnchorId (Anchor D)
  latest : Option AnchorId
  count : UInt64

namespace AnchorStore

/-- An empty store. -/
def new : AnchorStore D := ⟨∅, none, 0⟩

/-- `rocks/anchor_store.rs:143-148`. -/
def get (s : AnchorStore D) (anchorId : AnchorId) : Option (Anchor D) := s.anchors.lookup anchorId

/-- `rocks/anchor_store.rs:94-136`, when its batch is written. -/
def store (s : AnchorStore D) (anchor : Anchor D) : AnchorStore D :=
  ⟨s.anchors.insert anchor.id anchor, some anchor.id, s.count + 1⟩

end AnchorStore

/-- The frames on disk, `rocks/cf_store.rs`, and the failed attempts to store a frame,
`persistence.rs:108`. -/
structure FrameIndex (D : Type) where
  frames : HashMap CFId (ConsensusFrame D)
  retries : HashMap CFId Nat

/-- `persistence.rs:38-64`. -/
inductive PersistenceError where
  | eventPersistenceFailed (anchorId : AnchorId) (failed total : Nat)
  | anchorPersistenceFailed (anchorId : AnchorId) (reason : String)
  | cfIndexEscalated (cfId : CFId) (retries : Nat) (reason : String)

/-- `MAX_CF_INDEX_RETRIES`, `persistence.rs:35`. -/
def maxCfIndexRetries : Nat := 5

namespace FrameIndex

/-- The write for a frame, `persistence.rs:132-136`: a new frame is stored as it is, a known one is
marked as finalized, which takes no write if it is already. -/
def write (index : FrameIndex D) (cf : ConsensusFrame D) (answer : Except String Unit)
    (now : UInt64) : Except String (FrameIndex D) := do
  let retries := index.retries.erase cf.id
  match index.frames.lookup cf.id with
  | none =>
    answer
    pure ⟨index.frames.insert cf.id cf, retries⟩
  | some known =>
    if known.status = .finalized then pure ⟨index.frames, retries⟩
    else
      answer
      pure ⟨index.frames.insert cf.id (known.finalize now), retries⟩

/-- The loop of `persist_pending_finalized_cfs`, `persistence.rs:129-178`: the frames stored, the
index, and the error of a frame that failed too often. -/
def persistAll (answer : CFId → Except String Unit) (now : UInt64) :
    List (ConsensusFrame D) → List CFId → FrameIndex D →
      (List CFId × Option PersistenceError) × FrameIndex D
  | [], stored, index => ((stored, none), index)
  | cf :: rest, stored, index =>
    match index.write cf (answer cf.id) now with
    | .ok index => persistAll answer now rest (stored ++ [cf.id]) index
    | .error reason =>
      let attempts := (index.retries.lookup cf.id).getD 0 + 1
      let index := { index with retries := index.retries.insert cf.id attempts }
      if maxCfIndexRetries ≤ attempts then
        ((stored, some (.cfIndexEscalated cf.id attempts reason)), index)
      else persistAll answer now rest stored index

end FrameIndex

/-- `engine.rs:419-422`. -/
def drainPendingFinalizedCfs (e : ConsensusEngine D) (cfIds : List CFId) : ConsensusEngine D :=
  { e with pendingPersistCfs := e.pendingPersistCfs.filter fun cf ↦ !decide (cf.id ∈ cfIds) }

/-- Where a call of `persist_finalized_anchor` stands; `known` is the way of an anchor that is
stored already. -/
inductive PersistPhase where
  | check
  | storeEvents (entries : List (Event × UInt64))
  | indexFrames (known : Bool)
  | storeAnchor
  | markPersisted (known : Bool)
  | collect

/-- A call that is under way. -/
structure PersistCall (D : Type) where
  anchor : Anchor D
  phase : PersistPhase

/-- How a phase ends. -/
inductive PersistOutcome where
  | continue (phase : PersistPhase)
  | done
  | failed (error : PersistenceError)
  | panicked

/-- What the stores answer to a phase, and the clock. -/
structure StoreAnswers where
  events : BatchAnswers
  frame : CFId → Except String Unit
  anchor : Except String Unit
  now : UInt64

/-- The validator with its engine, its stores and the calls under way. -/
structure ValidatorNode (D : Type) where
  intake : IntakeEngine D
  anchorStore : AnchorStore D
  frameIndex : FrameIndex D
  calls : List (PersistCall D)

namespace ValidatorNode

variable (node : ValidatorNode D)

/-- Replace the engine. -/
def withEngine (e : ConsensusEngine D) : ValidatorNode D :=
  { node with intake := { node.intake with engine := e } }

/-- The events of an anchor with their depths, and the missing ones, `persistence.rs:211-233`; an
event without a depth is a panic. -/
def collectEvents (dag : Dag) : List EventId → Option (List (Event × UInt64) × List EventId)
  | [] => some ([], [])
  | id :: rest =>
    match dag.getEvent id with
    | none => (collectEvents dag rest).map fun found ↦ (found.1, id :: found.2)
    | some event => do
      let depth ← dag.depths.lookup id
      let found ← collectEvents dag rest
      pure ((event, depth) :: found.1, found.2)

variable (anchor : Anchor D)

/-- Phase 0 and 1, `persistence.rs:200-248`. -/
def checkPhase : PersistOutcome :=
  if (node.anchorStore.get anchor.id).isSome then .continue (.indexFrames true)
  else
    match collectEvents node.intake.engine.dag anchor.eventIds with
    | none => .panicked
    | some (entries, missing) =>
      if missing.isEmpty then .continue (.storeEvents entries)
      else .failed (.eventPersistenceFailed anchor.id missing.length anchor.eventIds.length)

/-- Phases 2 and 3, `persistence.rs:250-281`. -/
def storeEventsPhase (entries : List (Event × UInt64))
    (answers : StoreAnswers) : PersistOutcome × ValidatorNode D :=
  let (result, store) := storeBatchWithDepth node.intake.eventStore entries answers.events
  let node := { node with intake := { node.intake with eventStore := store } }
  if result.hasCriticalFailures then
    (.failed (.eventPersistenceFailed anchor.id result.failed entries.length), node)
  else (.continue (.indexFrames false), node)

/-- Phase 4, `persistence.rs:124-183`, `persistence.rs:204` and `persistence.rs:301`. -/
def indexFramesPhase (known : Bool) (answers : StoreAnswers) : PersistOutcome × ValidatorNode D :=
  let engine := node.intake.engine
  let ((stored, error), index) := FrameIndex.persistAll answers.frame answers.now
    engine.pendingPersistCfs [] node.frameIndex
  let node := { node.withEngine (drainPendingFinalizedCfs engine stored) with frameIndex := index }
  match error with
  | some error => (.failed error, node)
  | none => (.continue (if known then .markPersisted true else .storeAnchor), node)

/-- Phase 5, `persistence.rs:305-315`. -/
def storeAnchorPhase (answers : StoreAnswers) : PersistOutcome × ValidatorNode D :=
  match answers.anchor with
  | .error reason => (.failed (.anchorPersistenceFailed anchor.id reason), node)
  | .ok () =>
    (.continue (.markPersisted false), { node with anchorStore := node.anchorStore.store anchor })

/-- Phase 7, `persistence.rs:328-344`. -/
def collectPhase (now : UInt64) : PersistOutcome × ValidatorNode D :=
  match node.intake.manager.onAnchorFinalized anchor now with
  | none => (.panicked, node)
  | some (_, m) => (.done, { node with intake := node.intake.withManager m })

/-- One phase of `persist_finalized_anchor`, `persistence.rs:197-347`. -/
def runPhase (call : PersistCall D) (answers : StoreAnswers) : PersistOutcome × ValidatorNode D :=
  match call.phase with
  | .check => (node.checkPhase call.anchor, node)
  | .storeEvents entries => node.storeEventsPhase call.anchor entries answers
  | .indexFrames known => node.indexFramesPhase known answers
  | .storeAnchor => node.storeAnchorPhase call.anchor answers
  | .markPersisted known =>
    (if known then .done else .continue .collect,
      node.withEngine (node.intake.engine.markAnchorPersisted call.anchor.id))
  | .collect => node.collectPhase call.anchor answers.now

/-- Let a call run its next phase; an unknown call does nothing. -/
def resume (index : Nat) (answers : StoreAnswers) : ValidatorNode D :=
  match node.calls[index]? with
  | none => node
  | some call =>
    match node.runPhase call answers with
    | (.continue phase, node) => { node with calls := node.calls.set index ⟨call.anchor, phase⟩ }
    | (_, node) => { node with calls := node.calls.eraseIdx index }

end ValidatorNode

/-- What can happen to a validator: a call of its engine, the start of a call that persists an
anchor, the next phase of such a call. -/
inductive NodeInput (D : Type) where
  | engine (input : EngineInput D) (env : Ambient)
  | persist (anchor : Anchor D)
  | resume (index : Nat) (answers : StoreAnswers)

/-- One step of the validator. -/
def ValidatorNode.step [DecidableEq D] (H : Blake3 D) (S : Ed25519) (node : ValidatorNode D) :
    NodeInput D → Effects D × ValidatorNode D
  | .engine input env =>
    let (effects, e) := node.intake.engine.step H S (input, env)
    (effects, node.withEngine e)
  | .persist anchor => ({}, { node with calls := node.calls ++ [⟨anchor, .check⟩] })
  | .resume index answers => ({}, node.resume index answers)

end Setu.Validator
