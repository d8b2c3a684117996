import Mathlib.Data.List.Nodup
import Setu.Base.Checked
import Setu.Types.Object

/-!
# Programmable transaction blocks and dynamic fields

Library `Types`. The wire form of a transaction block and its validation, `types/src/ptb.rs`,
and the declared accesses to dynamic fields, `types/src/dynamic_field.rs`.
-/

namespace Setu.Types

open Setu.Base

/-- How a dynamic field is going to be used, `dynamic_field.rs:41-46`. -/
inductive DfAccessMode where
  | read | mutate | create | delete
  deriving DecidableEq

/-- A declared access to a dynamic field, `ptb.rs:77-89`. -/
structure PtbDfAccess where
  parent : ObjectId
  keyType : String
  keyBcs : Bytes
  mode : DfAccessMode
  valueType : Option String
  deriving DecidableEq

/-- `dynamic_field.rs:66-78`. -/
def deriveDfOid {D : Type} (H : Blake3 D) (parent : ObjectId) (nameTypeTag : String)
    (nameBcs : Bytes) : ObjectId :=
  hashedId H (strBytes "SETU_DF:" ++ parent.asBytes ++ strBytes nameTypeTag ++ [0] ++ nameBcs)

/-- A reference to an object input, `ptb.rs:101-113`. -/
inductive ObjectArg where
  | immOrOwnedObject (id : ObjectId) (version : UInt64) (digest : Bytes)
  | sharedObject (id : ObjectId) (initialSharedVersion : UInt64) (isMutable : Bool)
  deriving DecidableEq

/-- The object an input refers to. -/
def ObjectArg.id : ObjectArg → ObjectId
  | immOrOwnedObject id _ _ | sharedObject id _ _ => id

/-- An input of a transaction block, `ptb.rs:93-97`. -/
inductive CallArg where
  | pure (bytes : Bytes)
  | object (arg : ObjectArg)
  deriving DecidableEq

/-- A reference to an input or to a result, `ptb.rs:177-186`. -/
inductive Argument where
  | gasCoin
  | input (index : Nat)
  | result (command : Nat)
  | nestedResult (command index : Nat)
  deriving DecidableEq

/-- A call of a Move function, `ptb.rs:161-170`. -/
structure MoveCall where
  package : ObjectId
  module : String
  function : String
  typeArguments : List String
  arguments : List Argument
  deriving DecidableEq

/-- A command of a transaction block, `ptb.rs:122-157`. -/
inductive Command where
  | moveCall (call : MoveCall)
  | transferObjects (objects : List Argument) (recipient : Argument)
  | splitCoins (coin : Argument) (amounts : List Argument)
  | mergeCoins (target : Argument) (sources : List Argument)
  | makeMoveVec (typeTag : Option String) (args : List Argument)
  | publish (modules : List Bytes) (deps : List ObjectId)
  | upgrade (modules : List Bytes) (deps : List ObjectId) (currentPackage : ObjectId)
      (upgradeTicket : Argument)
  deriving DecidableEq

/-- A transaction block, `ptb.rs:61-68`. -/
structure ProgrammableTransaction where
  inputs : List CallArg
  commands : List Command
  dynamicFieldAccesses : List PtbDfAccess
  deriving DecidableEq

/-- `MAX_PTB_COMMANDS`, `MAX_PTB_INPUTS` and `MAX_PTB_DF_ACCESSES`, `ptb.rs:42-46`. -/
def maxPtbItems : Nat := 1024

/-- `MAX_MODULE_NAME_LEN` and `MAX_FUNCTION_NAME_LEN`, `ptb.rs:48-50`. -/
def maxNameLen : Nat := 128

/-- Why a transaction block is malformed, `ptb.rs:197-247`. -/
inductive PtbValidationError where
  | tooManyCommands (len max : Nat)
  | tooManyInputs (len max : Nat)
  | tooManyDfAccesses (len max : Nat)
  | inputIndexOutOfRange (idx len : Nat)
  | forwardResultRef (atCmd refCmd : Nat)
  | unitResultConsumed (producingCmd : Nat)
  | moduleNameTooLong (len max : Nat)
  | functionNameTooLong (len max : Nat)
  | invalidTypeTagFormat (idx : Nat) (reason : String)
  | duplicateObjectInput (oid : ObjectId) (firstIdx dupIdx : Nat)
  deriving DecidableEq

/-- The object identifiers among the inputs, each with its index. -/
def objectInputs (inputs : List CallArg) : List (ObjectId × Nat) :=
  inputs.zipIdx.filterMap fun
    | (.object arg, idx) => some (arg.id, idx)
    | (.pure _, _) => none

/-- The scan for an object that occurs twice, `ptb.rs:285-304`. -/
def checkDuplicates : (seen rest : List (ObjectId × Nat)) → Except PtbValidationError PUnit
  | _, [] => .ok ⟨⟩
  | seen, (oid, idx) :: rest =>
    match seen.lookup oid with
    | some firstIdx => .error (.duplicateObjectInput oid firstIdx idx)
    | none => checkDuplicates ((oid, idx) :: seen) rest

/-- `ptb.rs:422-427`. -/
def Command.producesUnit : Command → Bool
  | transferObjects .. | mergeCoins .. => true
  | _ => false

/-- A reference to a result of an earlier command, `ptb.rs:389-416`. -/
def checkResult (cmdIdx : Nat) (commands : List Command) (i : Nat) :
    Except PtbValidationError PUnit := do
  require (decide (i < cmdIdx)) (.forwardResultRef cmdIdx i)
  require (!(commands[i]?.map Command.producesUnit).getD false) (.unitResultConsumed i)

/-- `ptb.rs:371-418`. -/
def checkArgument (cmdIdx inputsLen : Nat) (commands : List Command) :
    Argument → Except PtbValidationError PUnit
  | .gasCoin => .ok ⟨⟩
  | .input i => require (decide (i < inputsLen)) (.inputIndexOutOfRange i inputsLen)
  | .result i | .nestedResult i _ => checkResult cmdIdx commands i

/-- `ptb.rs:450-464`. -/
def checkTypeTagString (s : String) (idx : Nat) : Except PtbValidationError PUnit := do
  require (!s.isEmpty) (.invalidTypeTagFormat idx "empty")
  require (!s.toList.contains '\x00') (.invalidTypeTagFormat idx "contains null byte")

/-- All arguments a command refers to, in the order in which they are checked. -/
def Command.arguments : Command → List Argument
  | moveCall call => call.arguments
  | transferObjects objects recipient => objects ++ [recipient]
  | splitCoins coin amounts => coin :: amounts
  | mergeCoins target sources => target :: sources
  | makeMoveVec _ args => args
  | publish .. => []
  | upgrade _ _ _ upgradeTicket => [upgradeTicket]

/-- The names and type tags a command carries, `ptb.rs:322-327`, `350-353` and `429-448`. -/
def checkNames : Command → Except PtbValidationError PUnit
  | .moveCall call => do
    require (decide (call.module.utf8ByteSize ≤ maxNameLen))
      (.moduleNameTooLong call.module.utf8ByteSize maxNameLen)
    require (decide (call.function.utf8ByteSize ≤ maxNameLen))
      (.functionNameTooLong call.function.utf8ByteSize maxNameLen)
    call.typeArguments.zipIdx.forM fun t ↦ checkTypeTagString t.1 t.2
  | .makeMoveVec (some tag) _ => checkTypeTagString tag 0
  | _ => .ok ⟨⟩

/-- `ptb.rs:315-369`. -/
def checkCommand (inputsLen : Nat) (commands : List Command) (cmd : Command) (cmdIdx : Nat) :
    Except PtbValidationError PUnit := do
  checkNames cmd
  cmd.arguments.forM (checkArgument cmdIdx inputsLen commands)

/-- `ptb.rs:252-312`. -/
def ProgrammableTransaction.validateWire (ptb : ProgrammableTransaction) :
    Except PtbValidationError PUnit := do
  require (decide (ptb.commands.length ≤ maxPtbItems))
    (.tooManyCommands ptb.commands.length maxPtbItems)
  require (decide (ptb.inputs.length ≤ maxPtbItems))
    (.tooManyInputs ptb.inputs.length maxPtbItems)
  require (decide (ptb.dynamicFieldAccesses.length ≤ maxPtbItems))
    (.tooManyDfAccesses ptb.dynamicFieldAccesses.length maxPtbItems)
  checkDuplicates [] (objectInputs ptb.inputs)
  ptb.commands.zipIdx.forM fun c ↦ checkCommand ptb.inputs.length ptb.commands c.1 c.2

private theorem nodup_of_checkDuplicates {seen rest : List (ObjectId × Nat)} {r : PUnit}
    (h : checkDuplicates seen rest = .ok r) :
    (rest.map Prod.fst).Nodup ∧ ∀ item ∈ rest, item.1 ∉ seen.map Prod.fst := by
  induction rest generalizing seen with
  | nil => simp
  | cons item rest ih =>
    obtain ⟨oid, idx⟩ := item
    unfold checkDuplicates at h
    split at h
    · cases h
    · next hs =>
      obtain ⟨hno, hn⟩ := ih h
      refine ⟨List.nodup_cons.mpr ⟨?_, hno⟩, List.forall_mem_cons.mpr ⟨?_, ?_⟩⟩
      · intro hm
        obtain ⟨item, hi, rfl⟩ := List.mem_map.mp hm
        exact hn item hi List.mem_cons_self
      · intro hm
        obtain ⟨item, hi, rfl⟩ := List.mem_map.mp hm
        exact absurd (List.lookup_eq_none_iff.mp hs item hi) (by simp)
      · exact fun item hi hm ↦ hn item hi (List.mem_cons_of_mem _ hm)

/-- In a valid block no object stands at two inputs. -/
theorem ProgrammableTransaction.eq_of_validateWire {ptb : ProgrammableTransaction} {r : PUnit}
    (h : ptb.validateWire = .ok r) {i j : Nat} {arg arg' : ObjectArg}
    (hi : ptb.inputs[i]? = some (.object arg)) (hj : ptb.inputs[j]? = some (.object arg'))
    (hid : arg.id = arg'.id) : i = j := by
  simp only [validateWire, bind_eq_ok] at h
  obtain ⟨_, -, _, -, _, -, _, hs, -⟩ := h
  obtain ⟨hn, -⟩ := nodup_of_checkDuplicates hs
  have hm {i : Nat} {arg : ObjectArg} (hi : ptb.inputs[i]? = some (.object arg)) :
      (arg.id, i) ∈ objectInputs ptb.inputs :=
    List.mem_filterMap.mpr ⟨(.object arg, i), List.mem_zipIdx_iff_getElem?.mpr hi, rfl⟩
  exact congrArg Prod.snd (List.inj_on_of_nodup_map hn (hm hi) (hm hj) hid)

end Setu.Types
