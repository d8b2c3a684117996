import Setu.Move.ObjectRuntime

/-!
# Gas, the VM and its sessions

Library `Move`. The Move VM is foreign code and enters as a parameter: a session's own data
has an arbitrary type, and running a function returns what the VM returns together with the
native calls that were made. The gas meter is that of `crates/setu-move-vm/src/gas.rs`, the
lookup of modules that of `resolver.rs`.
-/

namespace Setu.Move

open Setu.Base Setu.Types Setu.Runtime

/-- `u64::saturating_add`. -/
def satAdd (a b : UInt64) : UInt64 := UInt64.ofNat (min (a.toNat + b.toNat) (2 ^ 64 - 1))

/-- `u64::saturating_mul`. -/
def satMul (a b : UInt64) : UInt64 := UInt64.ofNat (min (a.toNat * b.toNat) (2 ^ 64 - 1))

/-- `InstructionCountGasMeter`, `gas.rs:24-27`. -/
structure GasMeter where
  maxInstructions : UInt64
  instructionsExecuted : UInt64
  deriving DecidableEq

namespace GasMeter

/-- `gas.rs:30-35`. -/
def new (maxInstructions : UInt64) : GasMeter := ⟨maxInstructions, 0⟩

/-- `gas.rs:41-65`: a charge above the limit leaves the meter as it is. -/
def chargeOuter (meter : GasMeter) (cost : UInt64) : Except RuntimeError GasMeter :=
  let newTotal := satAdd meter.instructionsExecuted cost
  if newTotal > meter.maxInstructions then .error (.outOfGas meter.instructionsExecuted)
  else .ok { meter with instructionsExecuted := newTotal }

end GasMeter

/-- `MIN_GAS_PTB`, `gas.rs:91`. -/
def minGasPtb : UInt64 := 1000

/-- `MAX_GAS_BUDGET`, `gas.rs:95`. -/
def maxGasBudget : UInt64 := 50000000

/-- A length as a `u64`. -/
def len64 {α : Type} (l : List α) : UInt64 := UInt64.ofNat l.length

/-- `gas.rs:164-210`, with the table of `gas.rs:142-157`. -/
def ptbOverheadCost : Command → UInt64
  | .moveCall _ => 100
  | .splitCoins _ amounts => satMul 50 (len64 amounts)
  | .mergeCoins _ sources => satMul 50 (len64 sources)
  | .transferObjects objects _ => satMul 20 (len64 objects)
  | .publish modules _ => satMul 5000 (max (len64 modules) 1)
  | .makeMoveVec _ args => satMul 10 (len64 args)
  | .upgrade modules _ _ _ =>
    let base := satMul 5000 (max (len64 modules) 1)
    let relink := satMul 5000 (len64 modules)
    let publish := satMul 1 (UInt64.ofNat (modules.map List.length).sum)
    satAdd (satAdd base relink) publish

/-- The types of the parameters and results of an instantiated function;
`LoadedFunctionInstantiation`. -/
structure Signature where
  parameters : List VmType
  returns : List VmType
  deriving DecidableEq

/-- Who may call a function of a module. -/
inductive Visibility where
  | «private» | friend | «public»
  deriving DecidableEq

/-- How a module declares a function. -/
structure FunctionDecl where
  visibility : Visibility
  isEntry : Bool
  deriving DecidableEq

/-- A function with the arguments it is called on. -/
structure FunctionCall where
  module : ModuleId
  function : Identifier
  typeArgs : List TypeTag
  args : List Bytes
  deriving DecidableEq

/-- What a call returns and how it left its mutable references, by argument position;
`SerializedReturnValues`. -/
structure SerializedReturn where
  returnValues : List Bytes
  mutableReferenceOutputs : List (Nat × Bytes)
  deriving DecidableEq

/-- What a session did to a module; `Op`. -/
inductive ModuleOp where
  | new (bytecode : Bytes)
  | modify
  | delete
  deriving DecidableEq

/-- The Move VM. Its sessions keep data of type `S`. A call reports the meter in either case and,
if it comes through, the native calls it made. Nothing but `declaration` tells how a module
declares a function: `execute_function_bypass_visibility` runs any of them. -/
structure MoveVm (S : Type) where
  newSession : (ModuleId → Except String (Option Bytes)) → S
  loadType : S → TypeTag → Except String PUnit
  typeAbilities : S → VmType → Except String AbilitySet
  loadFunction : S → ModuleId → Identifier → List TypeTag → Except String Signature
  declaration : S → ModuleId → Identifier → Option FunctionDecl
  execute : S → SetuObjectRuntime → GasMeter → FunctionCall →
    GasMeter × Except String (SerializedReturn × List NativeCall × S)
  publish : S → GasMeter → List Bytes → Address → GasMeter × Except String S
  finish : S → Except String (List (ModuleId × ModuleOp))

/-- A session with its extensions and the meter it charges. -/
structure Session (S : Type) where
  data : S
  runtime : SetuObjectRuntime
  gas : GasMeter

/-- The text of a failed native call. -/
def NativeError.toText : NativeError → String
  | abort code => s!"ABORTED with sub status {code}"
  | valueDeserialization => "VALUE_DESERIALIZATION_ERROR"

namespace Session

variable {D S : Type} (H : Blake3 D) (vm : MoveVm S)

/-- `execute_function_bypass_visibility`, with the meter as it is left in either case. -/
def execute (session : Session S) (call : FunctionCall) :
    GasMeter × Except String (SerializedReturn × Session S) :=
  let (gas, result) := vm.execute session.data session.runtime session.gas call
  (gas, do
    let (returned, calls, data) ← result
    let runtime ← (session.runtime.natives H calls).mapError NativeError.toText
    pure (returned, ⟨data, runtime, gas⟩))

/-- A call whose failure ends the block with a text. -/
def run (session : Session S) (call : FunctionCall) (failed : String → String) :
    Except RuntimeError (SerializedReturn × Session S) :=
  (session.execute H vm call).2.mapError fun e ↦ .vmExecutionError (failed e)

/-- `load_type`, whose failure ends the block with a text. -/
def loadType (session : Session S) (tag : TypeTag) (failed : String → String) :
    Except RuntimeError PUnit :=
  (vm.loadType session.data tag).mapError fun e ↦ .vmExecutionError (failed e)

/-- A charge on the session's meter. -/
def charge (session : Session S) (cost : UInt64) : Except RuntimeError (Session S) := do
  let gas ← session.gas.chargeOuter cost
  pure { session with gas := gas }

/-- `publish_module_bundle`, whose failure ends the block with a text. -/
def publish (session : Session S) (modules : List Bytes) (sender : Address)
    (failed : String → String) : Except RuntimeError (Session S) := do
  let (gas, result) := vm.publish session.data session.gas modules sender
  let data ← result.mapError fun e ↦ .vmExecutionError (failed e)
  pure ⟨data, session.runtime, gas⟩

variable {H vm} {session session' : Session S} {returned : SerializedReturn}

variable {failed : String → String} {call : FunctionCall}

/-- A call that came through is a run of the VM with its native calls. -/
theorem run_eq_ok :
    session.run H vm call failed = .ok (returned, session') ↔
      ∃ calls, (vm.execute session.data session.runtime session.gas call).2 =
          .ok (returned, calls, session'.data) ∧
        session.runtime.natives H calls = .ok session'.runtime ∧
        session'.gas = (vm.execute session.data session.runtime session.gas call).1 := by
  simp only [run, execute, mapError_eq_ok, bind_eq_ok, pure_eq_ok, Prod.exists,
    Prod.mk.injEq]
  constructor
  · rintro ⟨returned', calls, data, hvm, runtime, hn, rfl, rfl⟩
    exact ⟨calls, hvm, hn, rfl⟩
  · rintro ⟨calls, hvm, hn, hg⟩
    exact ⟨returned, calls, session'.data, hvm, session'.runtime, hn, rfl, by rw [← hg]⟩

/-- A call leaves the loaded objects and the recorded mutations alone. -/
theorem preserved_execute (h : (session.execute H vm call).2 = .ok (returned, session')) :
    session.runtime.Preserved session'.runtime := by
  simp only [execute, bind_eq_ok, pure_eq_ok, mapError_eq_ok] at h
  obtain ⟨_, -, runtime, hn, heq⟩ := h
  cases heq
  exact SetuObjectRuntime.preserved_natives hn

theorem preserved_run (h : session.run H vm call failed = .ok (returned, session')) :
    session.runtime.Preserved session'.runtime :=
  preserved_execute (mapError_eq_ok.mp h)

/-- A charge changes the meter only. -/
theorem charge_eq_ok {cost : UInt64} (h : session.charge cost = .ok session') :
    session'.data = session.data ∧ session'.runtime = session.runtime := by
  simp only [charge, bind_eq_ok, pure_eq_ok] at h
  obtain ⟨gas, -, rfl⟩ := h
  exact ⟨rfl, rfl⟩

/-- Publishing leaves the object runtime alone. -/
theorem runtime_publish {modules : List Bytes} {sender : Address}
    (h : session.publish vm modules sender failed = .ok session') :
    session'.runtime = session.runtime := by
  simp only [publish, bind_eq_ok, pure_eq_ok] at h
  obtain ⟨data, -, rfl⟩ := h
  rfl

end Session

end Setu.Move
