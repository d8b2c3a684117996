import Setu.Base.Checked
import Setu.Types.Object

/-!
# Proposals

Library `Governance`. A proposal is pending until a decision approves or rejects it; an approval
has the effect that the proposal names. Sources `crates/setu-governance/src`,
`types/src/governance.rs` and `types/src/resource.rs`.
-/

namespace Setu.Governance

open Setu.Base Setu.Types

/-- `resource.rs:90-95`. -/
inductive ResourceGovernanceMode where
  | enabled | disabled | dryRun
  deriving DecidableEq

/-- All of `ResourceParams`, `resource.rs:137-158`. -/
structure ResourceParams where
  powerMode : ResourceGovernanceMode
  powerCostPerEvent : UInt64
  fluxMode : ResourceGovernanceMode
  fluxRewardOnSuccess : UInt64
  fluxPenaltyOnFailure : UInt64
  gasMode : ResourceGovernanceMode
  gasBasePrice : UInt64
  minTransferAmount : UInt64
  maxTransferAmount : UInt64
  maxMergeSources : UInt32
  maxSplitOutputs : UInt32
  powerRevivalPrice : UInt64
  transferFeeRateBps : UInt32
  version : UInt64
  lastUpdatedAt : UInt64
  deriving DecidableEq

/-- `resource.rs:160-180`. -/
def ResourceParams.default : ResourceParams where
  powerMode := .disabled
  powerCostPerEvent := 1
  fluxMode := .disabled
  fluxRewardOnSuccess := 1
  fluxPenaltyOnFailure := 0
  gasMode := .disabled
  gasBasePrice := 0
  minTransferAmount := 1
  maxTransferAmount := 0xffffffffffffffff
  maxMergeSources := 50
  maxSplitOutputs := 50
  powerRevivalPrice := 0
  transferFeeRateBps := 0
  version := 0
  lastUpdatedAt := 0

/-- `resource.rs:184-203`. -/
inductive ResourceParamChange where
  | setPowerMode (value : ResourceGovernanceMode)
  | setPowerCostPerEvent (value : UInt64)
  | setFluxMode (value : ResourceGovernanceMode)
  | setFluxRewardOnSuccess (value : UInt64)
  | setFluxPenaltyOnFailure (value : UInt64)
  | setGasMode (value : ResourceGovernanceMode)
  | setGasBasePrice (value : UInt64)
  | setMinTransferAmount (value : UInt64)
  | setMaxTransferAmount (value : UInt64)
  | setMaxMergeSources (value : UInt32)
  | setMaxSplitOutputs (value : UInt32)
  | setPowerRevivalPrice (value : UInt64)
  | setTransferFeeRateBps (value : UInt32)
  deriving DecidableEq

/-- The field that a change sets, `resource.rs:211-225`. -/
def ResourceParamChange.set (params : ResourceParams) : ResourceParamChange → ResourceParams
  | setPowerMode v => { params with powerMode := v }
  | setPowerCostPerEvent v => { params with powerCostPerEvent := v }
  | setFluxMode v => { params with fluxMode := v }
  | setFluxRewardOnSuccess v => { params with fluxRewardOnSuccess := v }
  | setFluxPenaltyOnFailure v => { params with fluxPenaltyOnFailure := v }
  | setGasMode v => { params with gasMode := v }
  | setGasBasePrice v => { params with gasBasePrice := v }
  | setMinTransferAmount v => { params with minTransferAmount := v }
  | setMaxTransferAmount v => { params with maxTransferAmount := v }
  | setMaxMergeSources v => { params with maxMergeSources := v }
  | setMaxSplitOutputs v => { params with maxSplitOutputs := v }
  | setPowerRevivalPrice v => { params with powerRevivalPrice := v }
  | setTransferFeeRateBps v => { params with transferFeeRateBps := v }

/-- `resource.rs:205-228`. -/
def applyResourceParamChange (params : ResourceParams) (change : ResourceParamChange)
    (timestamp : UInt64) : ResourceParams :=
  { change.set params with version := params.version + 1, lastUpdatedAt := timestamp }

/-- `governance.rs:166-172`. -/
inductive ProposalType where
  | parameterChange | validatorSlash | disputeResolution | subnetPolicy | resourceParamChange
  deriving DecidableEq

/-- `governance.rs:176-181`. -/
inductive ProposalEffect where
  | updateParameter (key : String) (value : Bytes)
  | slashValidator (validatorId : String) (amount : UInt64)
  | resolveDispute (disputeId : ObjectId) (resolution : Bytes)
  | updateResourceParam (change : ResourceParamChange)
  deriving DecidableEq

/-- `governance.rs:151-162`. -/
structure ProposalContent where
  proposer : String
  proposalType : ProposalType
  title : String
  description : String
  action : ProposalEffect
  deriving DecidableEq

/-- `governance.rs:185-189`. -/
structure GovernanceDecision where
  approved : Bool
  reasoning : String
  conditions : List String
  deriving DecidableEq

/-- `governance.rs:207-216`. -/
inductive ProposalStatus where
  | pending | approved | rejected | failed
  deriving DecidableEq

/-- `governance.rs:195-203`. -/
structure GovernanceProposal where
  proposalId : ObjectId
  content : ProposalContent
  status : ProposalStatus
  decision : Option GovernanceDecision
  createdAt : UInt64
  decidedAt : Option UInt64
  deriving DecidableEq

/-- `effect.rs:14-40`. -/
inductive GovernanceEffect where
  | updateProposal (proposalId : ObjectId) (newStatus : ProposalStatus)
      (decision : Option GovernanceDecision)
  | slashValidator (validatorId : String) (amount : UInt64)
  | updateParameter (key : String) (value : Bytes)
  | resolveDispute (disputeId : ObjectId) (resolution : Bytes)
  | updateResourceParam (change : ResourceParamChange)
  deriving DecidableEq

/-- `error.rs:6-24`, the errors that are returned. -/
inductive GovernanceError where
  | duplicateProposal
  | proposalNotFound
  | invalidStatus (expected actual : ProposalStatus)
  | invalidContent (message : String)
  deriving DecidableEq

/-- The status after a decision. -/
def GovernanceDecision.newStatus (decision : GovernanceDecision) : ProposalStatus :=
  if decision.approved then .approved else .rejected

/-- The effect of an approved proposal, `effect.rs:65-88`. -/
def ProposalEffect.toEffect : ProposalEffect → GovernanceEffect
  | slashValidator validatorId amount => .slashValidator validatorId amount
  | updateParameter key value => .updateParameter key value
  | resolveDispute disputeId resolution => .resolveDispute disputeId resolution
  | updateResourceParam change => .updateResourceParam change

/-- `effect.rs:48-92`. -/
def EffectExecutor.execute (proposalId : ObjectId) (effect : ProposalEffect)
    (decision : GovernanceDecision) : List GovernanceEffect :=
  .updateProposal proposalId decision.newStatus (some decision) ::
    if decision.approved then [effect.toEffect] else []

namespace ProposalStateMachine

/-- `state_machine.rs:13-26`. -/
def create (proposalId : ObjectId) (content : ProposalContent) (timestamp : UInt64) :
    GovernanceProposal :=
  ⟨proposalId, content, .pending, none, timestamp, none⟩

/-- `state_machine.rs:31-65`. -/
def transition (proposal : GovernanceProposal) (decision : GovernanceDecision)
    (timestamp : UInt64) : Except GovernanceError (GovernanceProposal × List GovernanceEffect) := do
  require (proposal.status == .pending) (.invalidStatus .pending proposal.status)
  let effects := EffectExecutor.execute proposal.proposalId proposal.content.action decision
  pure ({ proposal with
    status := decision.newStatus
    decision := some decision
    decidedAt := some timestamp }, effects)

end ProposalStateMachine

namespace ProposalValidator

/-- `validator.rs:40-48`. -/
def validateContent (content : ProposalContent) : Except GovernanceError PUnit := do
  require (content.title != "") (.invalidContent "title cannot be empty")
  require (content.proposer != "") (.invalidContent "proposer cannot be empty")

/-- `validator.rs:13-22`. -/
def validatePropose (content : ProposalContent) (existing : Option GovernanceProposal) :
    Except GovernanceError PUnit := do
  require existing.isNone .duplicateProposal
  validateContent content

/-- `validator.rs:25-38`. -/
def validateExecute (proposal : Option GovernanceProposal) : Except GovernanceError PUnit := do
  let proposal ← okOr proposal .proposalNotFound
  require (proposal.status == .pending) (.invalidStatus .pending proposal.status)

end ProposalValidator

end Setu.Governance
