import Setu.Runtime.Executor
import Setu.Types.Event

/-!
# Power and flux

Library `Runtime`. Every account has a life counter and a credit score, which are kept as objects
in JSON and charged around each event that a solver executes. Sources `types/src/resource.rs` and
`crates/setu-runtime/src/executor.rs:151-215`.
-/

namespace Setu.Runtime

open Setu.Base Setu.Types

/-- `resource.rs:29-38`. -/
structure FluxState where
  address : String
  flux : UInt64
  lastActiveAt : UInt64
  version : UInt64
  deriving DecidableEq

/-- `resource.rs:61-68`. -/
structure PowerState where
  address : String
  powerRemaining : UInt64
  version : UInt64
  deriving DecidableEq

/-- `resource.rs:42-49`. -/
def FluxState.new (address : String) (timestamp : UInt64) : FluxState := ⟨address, 0, timestamp, 0⟩

/-- `resource.rs:72-78`. -/
def PowerState.new (address : String) : PowerState := ⟨address, 21000000, 0⟩

/-- `resource.rs:137-158`; the parameters that execution reads. -/
structure ResourceParams where
  powerCostPerEvent : UInt64
  fluxRewardOnSuccess : UInt64
  fluxPenaltyOnFailure : UInt64
  deriving DecidableEq

/-- `resource.rs:160-180`. -/
def ResourceParams.default : ResourceParams := ⟨1, 1, 0⟩

/-- The JSON forms of the resource objects, as `serde_json` writes and reads them. -/
structure ResourceJson where
  powerBytes : PowerState → Bytes
  parsePower : Bytes → Option PowerState
  fluxBytes : FluxState → Bytes
  parseFlux : Bytes → Option FluxState
  parseParams : Bytes → Option ResourceParams

/-- What is written can be read back. -/
structure ResourceJson.Lawful (json : ResourceJson) : Prop where
  parsePower_powerBytes : ∀ power, json.parsePower (json.powerBytes power) = some power
  parseFlux_fluxBytes : ∀ flux, json.parseFlux (json.fluxBytes flux) = some flux

variable {D : Type} (H : Blake3 D)

/-- The identifier of a resource object; `setu_hash_with_domain` of the address in lower case. -/
def resourceObjectId (domain address : String) : ObjectId :=
  hashedId H (strBytes domain ++ strBytes (address.map Char.toLower))

/-- `resource.rs:236-239`. -/
def fluxStateObjectId (address : String) : ObjectId := resourceObjectId H "SETU_FLUX:" address

/-- `resource.rs:246-249`. -/
def powerStateObjectId (address : String) : ObjectId := resourceObjectId H "SETU_POWER:" address

/-- `resource.rs:253-255`. -/
def resourceParamsObjectId : ObjectId := resourceObjectId H "SETU_RESOURCE_PARAMS:" ""

/-- `executor.rs:155-157`. -/
def shouldConsumePower (type : EventType) : Bool := !type.isValidatorExecuted

variable (json : ResourceJson)

/-- `executor.rs:163-178`. -/
def decrementPower (state : PowerState) (cost : UInt64) :
    Except String (StateChange × PowerState) :=
  if state.powerRemaining < cost then .error "Account frozen: Power depleted"
  else
    let next := { state with
      powerRemaining := state.powerRemaining - cost
      version := state.version + 1 }
    .ok (⟨.update, powerStateObjectId H state.address, some (json.powerBytes state),
      some (json.powerBytes next)⟩, next)

/-- The change of a power charge. -/
def powerChange (cost : UInt64) (state : PowerState) : StateChange :=
  ⟨.update, powerStateObjectId H state.address, some (json.powerBytes state),
    some (json.powerBytes { state with
      powerRemaining := state.powerRemaining - cost
      version := state.version + 1 })⟩

theorem decrementPower_eq_ok {state next : PowerState} {cost : UInt64} {change : StateChange}
    (h : decrementPower H json state cost = .ok (change, next)) :
    change = powerChange H json cost state := by
  unfold decrementPower at h
  split at h
  · cases h
  · cases h
    rfl

variable (state : FluxState)

/-- A change of the flux, which `increment_flux` and `penalize_flux` have in common. -/
def updateFlux (timestamp flux : UInt64) : StateChange × FluxState :=
  let next := { state with
    flux := flux
    lastActiveAt := timestamp
    version := state.version + 1 }
  (⟨.update, fluxStateObjectId H state.address, some (json.fluxBytes state),
    some (json.fluxBytes next)⟩, next)

/-- `executor.rs:183-196`. -/
def incrementFlux (timestamp reward : UInt64) : StateChange × FluxState :=
  updateFlux H json state timestamp (state.flux + reward)

/-- `executor.rs:202-215`: the flux stops at zero. -/
def penalizeFlux (timestamp penalty : UInt64) : StateChange × FluxState :=
  updateFlux H json state timestamp (if penalty ≤ state.flux then state.flux - penalty else 0)

end Setu.Runtime
