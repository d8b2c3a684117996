import Setu.Types.Event
import Setu.Types.Ptb

/-!
# Move requests and the tasks made of them

Library `Types`. The payloads of Move calls and transaction blocks, `types/src/event.rs`, and
the task that a validator sends to a solver, `types/src/task/solver_task.rs`. The state root a
task was prepared at and its gas budget go into no state change and are left out.
-/

namespace Setu.Types

open Setu.Base Setu.Merkle

/-- A client's declared access to a dynamic field, in hex, `event.rs:236-243`. -/
structure DynamicFieldAccess where
  parentObjectId : String
  keyType : String
  keyBcsHex : String
  mode : DfAccessMode
  valueType : Option String
  deriving DecidableEq

/-- A call of a Move function, `event.rs:184-221`. -/
structure MoveCallPayload where
  sender : String
  package : String
  module : String
  function : String
  typeArgs : List String
  args : List Bytes
  inputObjectIds : List ObjectId
  sharedObjectIds : List ObjectId
  mutableIndices : Option (List Nat)
  consumedIndices : Option (List Nat)
  needsTxContext : Bool
  dynamicFieldAccesses : List DynamicFieldAccess
  deriving DecidableEq

/-- A transaction block with its sender, `event.rs:296-302`. -/
structure MovePtbPayload where
  sender : String
  ptb : ProgrammableTransaction
  deriving DecidableEq

/-- A value that the solver is given, `solver_task.rs:396-403`; Move tasks carry no proofs. -/
structure ReadSetEntry where
  key : String
  value : Bytes
  deriving DecidableEq

/-- A reference to an input object, `solver_task.rs:361-370`. -/
structure ResolvedObject where
  objectId : ObjectId
  objectType : String
  expectedVersion : UInt64
  deriving DecidableEq

/-- A dynamic field as the validator found it, `solver_task.rs:343-357`. -/
structure ResolvedDynamicField where
  parentObjectId : ObjectId
  dfObjectId : ObjectId
  nameTypeTag : String
  nameBcs : Bytes
  valueBytes : Option Bytes
  valueTypeTag : String
  mode : DfAccessMode
  envelopeBytes : Option Bytes
  deriving DecidableEq

/-- The Move operations of a task, `solver_task.rs:295-310` and `330`. -/
inductive MoveOperation where
  | moveCall (package moduleName functionName : String) (typeArgs : List String)
      (pureArgs : List Bytes) (mutableIndices consumedIndices : List Nat)
  | programmableTransaction (ptb : ProgrammableTransaction)
  deriving DecidableEq

/-- The inputs of a Move task, `solver_task.rs:106-122`. -/
structure MoveInputs where
  operation : MoveOperation
  inputObjects : List ResolvedObject
  dynamicFields : List ResolvedDynamicField
  deriving DecidableEq

/-- A Move task, `solver_task.rs:25-53`. -/
structure SolverTask where
  taskId : HashValue
  subnetId : SubnetId
  event : Event
  readSet : List ReadSetEntry
  resolvedInputs : MoveInputs
  moduleReadSet : List ReadSetEntry

end Setu.Types
