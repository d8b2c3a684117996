import Mathlib.Data.Countable.Basic
import Mathlib.Logic.Equiv.List
import Mathlib.Tactic.DeriveCountable
import Setu.Enclave.StateDiff
import Setu.Governance.Proposal
import Setu.Runtime.Resources
import Setu.State.Commute
import Setu.State.Run

/-!
# Governance decisions

Library `Governance`. Proposals are objects of the governance subnet. A decision updates the
proposal, and an approval writes its effect in the same event. Parameters, slashes and dispute
resolutions are written as creations, so an approved proposal takes effect exactly if its object is
not there yet; only the resource parameters are updated. Source
`setu-validator/src/governance/executor.rs`.
-/

namespace Setu.Governance

open Setu.Base Setu.Types Setu.State ProposalStateMachine ProposalEffect ProposalValidator Write

/-- `GovernanceAction` of proposals, `governance.rs`. -/
inductive GovernanceAction where
  | propose (content : ProposalContent)
  | execute (decision : GovernanceDecision)
  deriving DecidableEq

/-- The JSON forms that `serde_json` writes and reads. -/
structure GovernanceJson where
  proposalBytes : GovernanceProposal → Bytes
  parseProposal : Bytes → Option GovernanceProposal
  paramsBytes : ResourceParams → Bytes
  parseParams : Bytes → Option ResourceParams
  slashBytes : (validatorId : String) → (amount : UInt64) → Bytes
  payloadBytes : (proposalId : ObjectId) → GovernanceAction → Bytes

/-- What is written can be read back. -/
structure GovernanceJson.Lawful (json : GovernanceJson) : Prop where
  parseProposal_proposalBytes : ∀ proposal,
    json.parseProposal (json.proposalBytes proposal) = some proposal
  parseParams_paramsBytes : ∀ params, json.parseParams (json.paramsBytes params) = some params

variable {D : Type} (H : Blake3 D) (json : GovernanceJson)

/-- The object of a parameter, `executor.rs:258-261`. -/
def parameterObjectId (key : String) : ObjectId := hashedId H (strBytes ("param:" ++ key))

/-- The marker of a slash, `executor.rs:243-246`. -/
def slashObjectId (validatorId : String) (amount : UInt64) : ObjectId :=
  hashedId H (strBytes s!"slash:{validatorId}:{amount}")

/-- `resource_params_object_id`, `resource.rs:253-255`. -/
def paramsObjectId : ObjectId := Runtime.resourceParamsObjectId H

namespace GovernanceExecutor

/-- What the changes of a decision are made from. -/
structure Decided where
  proposalId : ObjectId
  original : GovernanceProposal
  updated : GovernanceProposal
  currentParams : Option ResourceParams
  timestamp : UInt64

/-- The change of an effect, `executor.rs:223-300`. Parameters, slashes and resolutions are
inserted, the resource parameters are updated if there are any. -/
def materializeEffect (d : Decided) : GovernanceEffect → StateChange
  | .updateProposal .. =>
    ⟨objectKey d.proposalId, some (json.proposalBytes d.original),
      some (json.proposalBytes d.updated), none⟩
  | .slashValidator validatorId amount =>
    ⟨objectKey (slashObjectId H validatorId amount), none,
      some (json.slashBytes validatorId amount), some .root⟩
  | .updateParameter key value =>
    ⟨objectKey (parameterObjectId H key), none, some value, some .root⟩
  | .resolveDispute disputeId resolution =>
    ⟨objectKey disputeId, none, some resolution, some .root⟩
  | .updateResourceParam change =>
    let current := d.currentParams.getD .default
    let updated := applyResourceParamChange current change d.timestamp
    ⟨objectKey (paramsObjectId H), d.currentParams.map fun _ ↦ json.paramsBytes current,
      some (json.paramsBytes updated), none⟩

variable (proposalId : ObjectId)

/-- A governance event with its result. -/
def governanceEvent (action : GovernanceAction) (vlc : VLCSnapshot) (creator : String)
    (now : UInt64) (changes : List StateChange) : Event :=
  { Event.new H .governance [] vlc creator now with
    payload := .governance (json.payloadBytes proposalId action)
    executionResult := some ⟨true, none, changes⟩
    status := .executed }

/-- `executor.rs:27-64`. -/
def executePropose (content : ProposalContent) (timestamp : UInt64) (vlc : VLCSnapshot)
    (existing : Option GovernanceProposal) (creator : String) (now : UInt64) :
    Except GovernanceError Event := do
  validatePropose content existing
  let proposal := create proposalId content timestamp
  pure (governanceEvent H json proposalId (.propose content) vlc creator now
    [⟨objectKey proposalId, none, some (json.proposalBytes proposal), none⟩])

/-- `executor.rs:71-113`. -/
def executeDecision (decision : GovernanceDecision) (timestamp : UInt64) (vlc : VLCSnapshot)
    (proposal : GovernanceProposal) (creator : String) (currentParams : Option ResourceParams)
    (now : UInt64) : Except GovernanceError Event := do
  validateExecute (some proposal)
  let (updated, effects) ← transition proposal decision timestamp
  let changes := effects.map
    (materializeEffect H json ⟨proposalId, proposal, updated, currentParams, timestamp⟩)
  pure (governanceEvent H json proposalId (.execute decision) vlc creator now changes)

end GovernanceExecutor

/-- `governance/service.rs:160-164`. -/
def generateProposalId (proposer : String) (nonce timestamp : UInt64) : ObjectId :=
  hashedId H (strBytes s!"SETU_PROPOSAL:{proposer}:{nonce}:{timestamp}")

/-- A proposal that is submitted or a decision on one, with the clocks at that time and the depth
of the frame that finalizes its event. -/
structure Op where
  proposalId : ObjectId
  action : GovernanceAction
  timestamp : UInt64
  vlc : VLCSnapshot
  creator : String
  now : UInt64
  depth : UInt64

variable (s : Objects)

/-- The proposal in the governance subnet, `network/service.rs:1931-1948`. -/
def storedProposal (proposalId : ObjectId) : Option GovernanceProposal :=
  (s (.governance, proposalId)).bind json.parseProposal

/-- The resource parameters in the governance subnet, `network/service.rs:1983-1988`. -/
def storedParams : Option ResourceParams :=
  (s (.governance, paramsObjectId H)).bind json.parseParams

/-- The event that the executor makes against the current state; a new proposal is not looked up,
`governance/handler.rs:127-134`. -/
def Op.event (op : Op) (s : Objects) : Except GovernanceError Event :=
  match op.action with
  | .propose content =>
    GovernanceExecutor.executePropose H json op.proposalId content op.timestamp op.vlc none
      op.creator op.now
  | .execute decision => do
    let proposal ← okOr (storedProposal json s op.proposalId) .proposalNotFound
    GovernanceExecutor.executeDecision H json op.proposalId decision op.timestamp op.vlc proposal
      op.creator (storedParams H json s) op.now

/-- The proposal that the operation approves in the state, if it is a decision on a pending
one. -/
def Op.approves (op : Op) (s : Objects) : Option GovernanceProposal :=
  match op.action with
  | .propose _ => none
  | .execute decision =>
    (storedProposal json s op.proposalId).filter fun proposal ↦
      decision.approved && proposal.status == .pending

/-- The object that an effect inserts in the root subnet. -/
def ProposalEffect.inserts : ProposalEffect → Option (SubnetId × ObjectId)
  | updateParameter key _ => some (.root, parameterObjectId H key)
  | slashValidator validatorId amount => some (.root, slashObjectId H validatorId amount)
  | resolveDispute disputeId _ => some (.root, disputeId)
  | updateResourceParam _ => none

/-- The object that the operation inserts in the root subnet by an approval. -/
def Op.inserts (op : Op) (s : Objects) : Option (SubnetId × ObjectId) :=
  (op.approves json s).bind fun proposal ↦ proposal.content.action.inserts H

/-- What the effect leaves in the state: the approved value, and for the resource parameters the
change of those before. -/
def ProposalEffect.Holds (before after : Objects) (timestamp : UInt64) : ProposalEffect → Prop
  | updateParameter key value => after (.root, parameterObjectId H key) = some value
  | slashValidator validatorId amount =>
    after (.root, slashObjectId H validatorId amount) = some (json.slashBytes validatorId amount)
  | resolveDispute disputeId resolution => after (.root, disputeId) = some resolution
  | updateResourceParam change =>
    storedParams H json after = some (applyResourceParamChange
      ((storedParams H json before).getD .default) change timestamp)

section Run

variable [DecidableEq D]

/-- The event of the operation is applied in a call of its own; a refused operation has none. -/
def step (g : GlobalStateManager D) (op : Op) : GlobalStateManager D × StateApplySummary D :=
  match op.event H json (g.objects H) with
  | .error _ => (g, .new)
  | .ok event => g.applyCommittedEvents H [event] op.depth

/-- An approved proposal takes effect: its event is neither failed nor in conflict, the proposal
is no longer pending and its effect holds in the state. -/
structure TakesEffect (g : GlobalStateManager D) (op : Op) (proposal : GovernanceProposal) :
    Prop where
  applied : ∃ event, op.event H json (g.objects H) = .ok event ∧
    ¬ (step H json g op).2.Reports event.id
  decided : ∃ updated, storedProposal json ((step H json g op).1.objects H) op.proposalId =
    some updated ∧ updated.status ≠ .pending
  holds : proposal.content.action.Holds H json (g.objects H) ((step H json g op).1.objects H)
    op.timestamp

/-- Every approved proposal of the run takes effect. -/
def AllTakeEffect : GlobalStateManager D → List Op → Prop
  | _, [] => True
  | g, op :: rest =>
    (∀ proposal ∈ op.approves json (g.objects H), TakesEffect H json g op proposal) ∧
      AllTakeEffect (step H json g op).1 rest

/-- What a decision reads is stored as the node writes it. -/
structure AsWritten (s : Objects) (op : Op) (proposal : GovernanceProposal) : Prop where
  stored : s (.governance, op.proposalId) = some (json.proposalBytes proposal)
  params : proposal.content.action.inserts H = none →
    s (.governance, paramsObjectId H) = (storedParams H json s).map json.paramsBytes

/-- What the approvals of the run read is stored as the node writes it. -/
def AllAsWritten : GlobalStateManager D → List Op → Prop
  | _, [] => True
  | g, op :: rest =>
    (∀ proposal ∈ op.approves json (g.objects H), AsWritten H json (g.objects H) op proposal) ∧
      AllAsWritten (step H json g op).1 rest

/-- The objects that the approved proposals of the run insert, in order. -/
def inserted : GlobalStateManager D → List Op → List (SubnetId × ObjectId)
  | _, [] => []
  | g, op :: rest =>
    (op.inserts H json (g.objects H)).toList ++ inserted (step H json g op).1 rest

end Run

variable {H json}

theorem root_ne_governance : SubnetId.root ≠ SubnetId.governance := by
  decide

variable (H json) in
/-- The write of an approved effect. -/
def ProposalEffect.write (timestamp : UInt64) :
    ProposalEffect → Write (SubnetId × ObjectId) Bytes
  | updateParameter key value => ⟨(.root, parameterObjectId H key), none, some value⟩
  | slashValidator validatorId amount =>
    ⟨(.root, slashObjectId H validatorId amount), none, some (json.slashBytes validatorId amount)⟩
  | resolveDispute disputeId resolution => ⟨(.root, disputeId), none, some resolution⟩
  | updateResourceParam change =>
    ⟨(.governance, paramsObjectId H), (storedParams H json s).map json.paramsBytes,
      some (json.paramsBytes (applyResourceParamChange ((storedParams H json s).getD .default)
        change timestamp))⟩

private theorem eventWrites_governanceEvent (proposalId : ObjectId) (action : GovernanceAction)
    (vlc : VLCSnapshot) (creator : String) (now : UInt64) (changes : List StateChange) :
    eventWrites H (GovernanceExecutor.governanceEvent H json proposalId action vlc creator now
      changes) = some (changes.map (changeWrite H .governance)) := rfl

private theorem changeWrite_materializeEffect (d : GovernanceExecutor.Decided) (s : Objects)
    (hp : d.currentParams = storedParams H json s) (effect : ProposalEffect) :
    changeWrite H .governance (GovernanceExecutor.materializeEffect H json d effect.toEffect) =
      effect.write H json s d.timestamp := by
  cases effect with
  | updateResourceParam change =>
    simp only [toEffect, GovernanceExecutor.materializeEffect, changeWrite,
      changeTarget, write, hp, Enclave.parseStateChangeKey_objectKey]
    cases storedParams H json s <;> rfl
  | _ =>
    simp only [toEffect, GovernanceExecutor.materializeEffect, changeWrite,
      changeTarget, write, Enclave.parseStateChangeKey_objectKey,
      Option.getD_some]

/-- The proposal after the decision. -/
private def decidedProposal (op : Op) (decision : GovernanceDecision)
    (proposal : GovernanceProposal) : GovernanceProposal :=
  { proposal with
    status := decision.newStatus
    decision := some decision
    decidedAt := some op.timestamp }

variable {decision : GovernanceDecision} {proposal : GovernanceProposal}

private theorem event_execute {op : Op} {s : Objects} (ha : op.action = .execute decision)
    (hs : storedProposal json s op.proposalId = some proposal)
    (hp : proposal.status = .pending) :
    op.event H json s = .ok (GovernanceExecutor.governanceEvent H json op.proposalId
      (.execute decision) op.vlc op.creator op.now
      ((EffectExecutor.execute proposal.proposalId proposal.content.action decision).map
        (GovernanceExecutor.materializeEffect H json ⟨op.proposalId, proposal,
          decidedProposal op decision proposal, storedParams H json s, op.timestamp⟩))) := by
  have hc : (proposal.status == .pending) = true := by simp [hp]
  simp only [Op.event, ha, GovernanceExecutor.executeDecision,
    validateExecute, transition, bind_eq_ok,
    okOr_eq_ok, require_eq_ok, pure_eq_ok]
  exact ⟨proposal, hs, ⟨⟩, ⟨proposal, rfl, hc⟩, _, ⟨⟨⟩, hc, rfl⟩, rfl⟩

private theorem eventWrites_propose {op : Op} {s : Objects} {content : ProposalContent}
    {event : Event} (ha : op.action = .propose content)
    (he : op.event H json s = .ok event) :
    eventWrites H event = some [⟨(.governance, op.proposalId), none, some (json.proposalBytes
      (create op.proposalId content op.timestamp))⟩] := by
  simp only [Op.event, ha, GovernanceExecutor.executePropose, bind_eq_ok, pure_eq_ok] at he
  obtain ⟨-, -, rfl⟩ := he
  rw [eventWrites_governanceEvent]
  simp [changeWrite, changeTarget]

variable (H json) in
/-- What an operation does in a state: it is refused, it writes its proposal alone, or it approves
a proposal and writes that and the effect. -/
inductive Does (op : Op) (s : Objects) : Prop
  | refused (error : GovernanceError) (hevent : op.event H json s = .error error)
      (happroves : op.approves json s = none)
  | writes (event : Event) (expected : Option Bytes) (proposal : GovernanceProposal)
      (hevent : op.event H json s = .ok event) (happroves : op.approves json s = none)
      (hwrites : eventWrites H event =
        some [⟨(.governance, op.proposalId), expected, some (json.proposalBytes proposal)⟩])
  | approves (event : Event) (proposal updated : GovernanceProposal)
      (hevent : op.event H json s = .ok event) (happroves : op.approves json s = some proposal)
      (hstored : storedProposal json s op.proposalId = some proposal)
      (hupdated : updated.status = .approved)
      (hwrites : eventWrites H event = some
        [⟨(.governance, op.proposalId), some (json.proposalBytes proposal),
            some (json.proposalBytes updated)⟩,
          proposal.content.action.write H json s op.timestamp])

theorem Op.does (op : Op) (s : Objects) : Does H json op s := by
  cases ha : op.action with
  | propose content =>
    have hap : op.approves json s = none := by simp [Op.approves, ha]
    cases he : op.event H json s with
    | error error => exact .refused error he hap
    | ok event =>
      apply Does.writes _ none
        (create op.proposalId content op.timestamp) he hap
      exact eventWrites_propose ha he
  | execute decision =>
    cases hs : storedProposal json s op.proposalId with
    | none =>
      apply Does.refused .proposalNotFound
      · simp only [Op.event, ha, hs]
        rfl
      · simp [Op.approves, ha, hs]
    | some proposal =>
      by_cases hp : proposal.status = .pending
      · have he := event_execute (H := H) ha hs hp
        have hpr (d : GovernanceExecutor.Decided) (status : ProposalStatus)
            (made : Option GovernanceDecision) :
            changeWrite H .governance (GovernanceExecutor.materializeEffect H json d
              (.updateProposal proposal.proposalId status made)) =
              ⟨(.governance, d.proposalId), some (json.proposalBytes d.original),
                some (json.proposalBytes d.updated)⟩ := by
          simp [GovernanceExecutor.materializeEffect, changeWrite, changeTarget]
        cases har : decision.approved with
        | false =>
          apply Does.writes _ _ _ he
          · simp [Op.approves, ha, hs, har]
          · rw [eventWrites_governanceEvent, EffectExecutor.execute, har, List.map_map,
              List.map_cons, Function.comp_apply, hpr]
            rfl
        | true =>
          have hu : (decidedProposal op decision proposal).status = .approved := by
            simp [decidedProposal, GovernanceDecision.newStatus, har]
          have hap : op.approves json s = some proposal := by
            simp [Op.approves, ha, hs, har, hp]
          apply Does.approves _ proposal _ he hap hs hu
          rw [eventWrites_governanceEvent, EffectExecutor.execute, har, if_pos rfl,
            List.map_map, List.map_cons, Function.comp_apply, hpr, List.map_cons,
            Function.comp_apply, changeWrite_materializeEffect _ s rfl]
          rfl
      · have hap : op.approves json s = none := by
          simp [Op.approves, ha, hs, hp]
        cases he : op.event H json s with
        | error error => exact .refused error he hap
        | ok event =>
          simp only [Op.event, ha, GovernanceExecutor.executeDecision, bind_eq_ok,
            validateExecute, okOr_eq_ok, require_eq_ok] at he
          obtain ⟨other, ho, -, ⟨same, hsa, hc⟩, -⟩ := he
          cases hsa
          cases hs.symm.trans ho
          exact absurd (beq_iff_eq.mp hc) hp

variable (timestamp : UInt64) (effect : ProposalEffect)

/-- Every effect leaves a value. -/
theorem value_write_ne_none : (effect.write H json s timestamp).value ≠ none := by
  cases effect <;> exact Option.some_ne_none _

/-- The proposal and the effect are different objects. -/
theorem key_write_ne {proposalId : ObjectId} (hid : proposalId ≠ paramsObjectId H) :
    (effect.write H json s timestamp).key ≠ (.governance, proposalId) := by
  cases effect with
  | updateResourceParam change =>
    intro heq
    exact hid (Prod.mk.inj heq).2.symm
  | _ =>
    intro heq
    exact root_ne_governance (Prod.mk.inj heq).1

/-- An effect fits exactly if it inserts nothing that is there, and changes resource parameters as
the node writes them. -/
theorem fits_write_iff :
    (effect.write H json s timestamp).Fits s ↔ (∀ key ∈ effect.inserts H, s key = none) ∧
      (effect.inserts H = none →
        s (.governance, paramsObjectId H) = (storedParams H json s).map json.paramsBytes) := by
  rw [fits_iff_of_checked (.inr (value_write_ne_none s timestamp effect))]
  cases effect <;> simp [inserts, write]

variable {key : SubnetId × ObjectId}

/-- In the root subnet an effect writes what it inserts. -/
theorem key_write_eq_iff (hr : key.1 = .root) :
    (effect.write H json s timestamp).key = key ↔ effect.inserts H = some key := by
  cases effect with
  | updateResourceParam change =>
    apply iff_of_false
    · intro heq
      exact root_ne_governance (hr.symm.trans (congrArg Prod.fst heq.symm))
    · exact nofun
  | _ => exact (Option.some_inj).symm

theorem root_of_inserts {effect : ProposalEffect} (h : effect.inserts H = some key)
    : key.1 = .root := by
  cases effect <;> cases h <;> rfl

theorem holds_of_value (hj : json.Lawful) {before after : Objects} {timestamp : UInt64}
    {effect : ProposalEffect} (h : after (effect.write H json before timestamp).key =
      (effect.write H json before timestamp).value) :
    effect.Holds H json before after timestamp := by
  cases effect with
  | updateResourceParam change =>
    simp only [write] at h
    simp [ProposalEffect.Holds, storedParams, h, hj.parseParams_paramsBytes]
  | _ => exact h

variable [DecidableEq D] {g : GlobalStateManager D} {op : Op}

theorem step_refused {error : GovernanceError} (h : op.event H json (g.objects H) = .error error) :
    (step H json g op).1 = g := by
  simp [step, h]

/-- The call of an event is a transaction, and reports the event exactly if it does not pass. -/
theorem step_of_writes {event : Event} {ws : List (Write (SubnetId × ObjectId) Bytes)}
    (he : op.event H json (g.objects H) = .ok event) (hw : eventWrites H event = some ws) :
    (step H json g op).1.objects H = transact (g.objects H) ws ∧
      ((step H json g op).2.Reports event.id ↔ ¬ Write.Passes (g.objects H) ws) := by
  have hs : step H json g op = g.applyCommittedEvents H [event] op.depth := by simp [step, he]
  rw [hs]
  exact g.applyCommittedEvents_singleton op.depth hw

/-- An operation that approves nothing changes nothing in the root subnet. -/
theorem objects_step_of_approves_none (h : op.approves json (g.objects H) = none)
    (hr : key.1 = .root) : (step H json g op).1.objects H key = g.objects H key := by
  have hd : Does H json op (g.objects H) := op.does _
  cases hd with
  | refused error he => rw [step_refused he]
  | writes event expected proposal he ha hwr =>
    rw [(step_of_writes he hwr).1, transact_of_ne]
    intro w hw heq
    rw [List.mem_singleton.mp hw] at heq
    exact root_ne_governance (hr.symm.trans (congrArg Prod.fst heq.symm))
  | approves event proposal updated he ha => cases h.symm.trans ha

/-- An approved proposal takes effect exactly if what it reads is as the node writes it and what it
inserts is not there. -/
theorem takesEffect_iff (hj : json.Lawful) (hid : op.proposalId ≠ paramsObjectId H)
    (ha : op.approves json (g.objects H) = some proposal) :
    TakesEffect H json g op proposal ↔ AsWritten H json (g.objects H) op proposal ∧
      ∀ key ∈ proposal.content.action.inserts H, g.objects H key = none := by
  have hd : Does H json op (g.objects H) := op.does _
  cases hd with
  | refused error he hn => cases hn.symm.trans ha
  | writes event expected written he hn => cases hn.symm.trans ha
  | approves event approved updated he hs hst hu hw =>
    cases hs.symm.trans ha
    obtain ⟨ho, hr⟩ := step_of_writes he hw
    have hne : (proposal.content.action.write H json (g.objects H) op.timestamp).key ≠
        (.governance, op.proposalId) := key_write_ne _ _ _ hid
    have hp := passes_pair_iff (s := g.objects H) (w := ⟨(.governance, op.proposalId),
      some (json.proposalBytes proposal), some (json.proposalBytes updated)⟩) hne
    rw [fits_write_iff, fits_of_expected rfl] at hp
    constructor
    · rintro ⟨⟨event', he', hun⟩, -, -⟩
      cases he.symm.trans he'
      obtain ⟨hpr, hi, hpa⟩ := hp.mp (not_not.mp fun hf ↦ hun (hr.mpr hf))
      exact ⟨⟨hpr, hpa⟩, hi⟩
    · rintro ⟨⟨hpr, hpa⟩, hi⟩
      have hps := hp.mpr ⟨hpr, hi, hpa⟩
      rw [transact_of_passes hps] at ho
      refine ⟨⟨event, he, fun hre ↦ hr.mp hre hps⟩, ⟨updated, ?_, by simp [hu]⟩, ?_⟩
      · rw [ho, storedProposal, applyAll_pair_left hne, Option.bind_some]
        exact hj.parseProposal_proposalBytes updated
      · apply holds_of_value hj
        rw [ho, applyAll_pair_right]

/-- After an operation whose approval takes effect, the root subnet has what it had and what the
effect inserts. -/
theorem objects_step_eq_none_iff
    (h : ∀ proposal ∈ op.approves json (g.objects H), TakesEffect H json g op proposal)
    (hr : key.1 = .root) :
    (step H json g op).1.objects H key = none ↔
      g.objects H key = none ∧ key ∉ op.inserts H json (g.objects H) := by
  have hd : Does H json op (g.objects H) := op.does _
  cases hd with
  | refused error he hn =>
    simp [objects_step_of_approves_none hn hr, Op.inserts, hn]
  | writes event expected proposal he hn =>
    simp [objects_step_of_approves_none hn hr, Op.inserts, hn]
  | approves event proposal updated he hs hst hup hw =>
    obtain ⟨ho, hre⟩ := step_of_writes he hw
    obtain ⟨event', he', hu⟩ := (h proposal hs).applied
    cases he.symm.trans he'
    have hp := not_not.mp fun hf ↦ hu (hre.mpr hf)
    have hi : key ∈ op.inserts H json (g.objects H) ↔
        (proposal.content.action.write H json (g.objects H) op.timestamp).key = key := by
      rw [key_write_eq_iff _ _ _ hr]
      simp [Op.inserts, hs]
    rw [ho, transact_of_passes hp, hi]
    by_cases hk : (proposal.content.action.write H json (g.objects H) op.timestamp).key = key
    · subst hk
      rw [applyAll_pair_right]
      simp [value_write_ne_none]
    · rw [applyAll_of_ne]
      · exact (and_iff_left hk).symm
      · simp only [List.mem_cons, List.not_mem_nil, or_false, forall_eq_or_imp, forall_eq]
        refine ⟨?_, hk⟩
        intro heq
        exact root_ne_governance (hr.symm.trans (congrArg Prod.fst heq.symm))

theorem root_of_mem_inserted {ops : List Op} (h : key ∈ inserted H json g ops) : key.1 = .root := by
  induction ops generalizing g with
  | nil => cases h
  | cons op rest ih =>
    obtain hh | hr := List.mem_append.mp h
    · obtain ⟨proposal, -, hi⟩ := Option.bind_eq_some_iff.mp (Option.mem_toList.mp hh)
      exact root_of_inserts hi
    · exact ih hr

/-- The approvals of an operation take effect exactly if what they read is as the node writes it
and what they insert is not there. -/
theorem forall_takesEffect_iff (hj : json.Lawful) (hid : op.proposalId ≠ paramsObjectId H) :
    (∀ proposal ∈ op.approves json (g.objects H), TakesEffect H json g op proposal) ↔
      (∀ proposal ∈ op.approves json (g.objects H), AsWritten H json (g.objects H) op proposal) ∧
        ∀ key ∈ op.inserts H json (g.objects H), g.objects H key = none := by
  cases ha : op.approves json (g.objects H) with
  | none => simp [Op.inserts, ha]
  | some proposal => simp [Op.inserts, ha, takesEffect_iff hj hid ha]

variable (H json) in
/-- The value of an object of the governance subnet as the node writes it. -/
def WrittenAt (key : SubnetId × ObjectId) (bytes : Bytes) : Prop :=
  key.1 = .governance → (key.2 = paramsObjectId H → ∃ params, bytes = json.paramsBytes params) ∧
    (key.2 ≠ paramsObjectId H → ∃ proposal, bytes = json.proposalBytes proposal)

variable (H json) in
/-- The governance subnet holds the resource parameters and proposals, as the node writes them. -/
def Written : Prop := ∀ key bytes, s key = some bytes → WrittenAt H json key bytes

omit [DecidableEq D] in
theorem writtenAt_proposal {proposalId : ObjectId} (hid : proposalId ≠ paramsObjectId H)
    (proposal : GovernanceProposal) :
    WrittenAt H json (.governance, proposalId) (json.proposalBytes proposal) :=
  fun _ ↦ ⟨fun heq ↦ absurd heq hid, fun _ ↦ ⟨proposal, rfl⟩⟩

omit [DecidableEq D] in
theorem writtenAt_effect {s : Objects} {timestamp : UInt64} (effect : ProposalEffect)
    {bytes : Bytes} (h : (effect.write H json s timestamp).value = some bytes) :
    WrittenAt H json (effect.write H json s timestamp).key bytes := by
  intro hg
  cases effect with
  | updateResourceParam change =>
    cases h
    exact ⟨fun _ ↦ ⟨_, rfl⟩, fun hne ↦ absurd rfl hne⟩
  | _ => exact absurd hg root_ne_governance

theorem written_step (hid : op.proposalId ≠ paramsObjectId H)
    (h : Written H json (g.objects H)) : Written H json ((step H json g op).1.objects H) := by
  have hd : Does H json op (g.objects H) := op.does _
  cases hd with
  | refused error he =>
    rw [step_refused he]
    exact h
  | writes event expected proposal he ha hwr =>
    rw [(step_of_writes he hwr).1]
    apply forall_transact h
    intro w hw v hv
    cases List.mem_singleton.mp hw
    cases hv
    exact writtenAt_proposal hid proposal
  | approves event proposal updated he ha hs hu hwr =>
    rw [(step_of_writes he hwr).1]
    apply forall_transact h
    intro w hw v hv
    obtain rfl | rfl := List.mem_pair.mp hw
    · cases hv
      exact writtenAt_proposal hid updated
    · exact writtenAt_effect _ hv

omit [DecidableEq D] in
/-- In a state of the node, decisions read what the node has written. -/
theorem asWritten_of_written (hj : json.Lawful) (hid : op.proposalId ≠ paramsObjectId H)
    (h : Written H json (g.objects H))
    (ha : op.approves json (g.objects H) = some proposal) :
    AsWritten H json (g.objects H) op proposal := by
  have hd : Does H json op (g.objects H) := op.does _
  cases hd with
  | refused error he hn => cases hn.symm.trans ha
  | writes event expected written he hn => cases hn.symm.trans ha
  | approves event approved updated he hs hst =>
    cases hs.symm.trans ha
    constructor
    · obtain ⟨bytes, hb, hpa⟩ := Option.bind_eq_some_iff.mp hst
      obtain ⟨other, rfl⟩ := (h _ bytes hb rfl).2 hid
      rw [hj.parseProposal_proposalBytes] at hpa
      cases hpa
      exact hb
    · intro _
      cases hp : g.objects H (.governance, paramsObjectId H) with
      | none => simp [storedParams, hp]
      | some bytes =>
        obtain ⟨params, rfl⟩ := (h _ bytes hp rfl).1 rfl
        simp [storedParams, hp, hj.parseParams_paramsBytes]

/-- From a state of the node, the approvals of every run read what the node has written. -/
theorem allAsWritten_of_written (hj : json.Lawful) {ops : List Op}
    (hi : ∀ op ∈ ops, op.proposalId ≠ paramsObjectId H) (h : Written H json (g.objects H)) :
    AllAsWritten H json g ops := by
  induction ops generalizing g with
  | nil => trivial
  | cons op rest ih =>
    have hid := hi op List.mem_cons_self
    constructor
    · intro proposal hp
      exact asWritten_of_written hj hid h hp
    · apply ih
      · exact fun op hop ↦ hi op (List.mem_cons_of_mem _ hop)
      · exact written_step hid h

/-- Another object of the governance subnet than the proposal and the resource parameters is not
written. -/
theorem objects_step_of_ne {id : ObjectId} (hid : id ≠ op.proposalId)
    (hp : id ≠ paramsObjectId H) :
    (step H json g op).1.objects H (.governance, id) = g.objects H (.governance, id) := by
  have hd : Does H json op (g.objects H) := op.does _
  cases hd with
  | refused error he => rw [step_refused he]
  | writes event expected proposal he ha hw =>
    rw [(step_of_writes he hw).1, transact_of_ne]
    simpa using hid.symm
  | approves event proposal updated he ha hs hu hw =>
    rw [(step_of_writes he hw).1, transact_of_ne]
    simpa using ⟨hid.symm, key_write_ne _ _ _ hp⟩

/-- A new proposal is stored. -/
theorem objects_step_propose {content : ProposalContent} (ha : op.action = .propose content)
    (hv : validateContent content = .ok ⟨⟩)
    (hn : g.objects H (.governance, op.proposalId) = none) :
    (step H json g op).1.objects H = Function.update (g.objects H) (.governance, op.proposalId)
      (some (json.proposalBytes
        (create op.proposalId content op.timestamp))) := by
  obtain ⟨event, he⟩ : ∃ event, op.event H json (g.objects H) = .ok event := by
    simp only [Op.event, ha, GovernanceExecutor.executePropose,
      validatePropose, bind_eq_ok, require_eq_ok, pure_eq_ok]
    exact ⟨_, ⟨⟩, ⟨⟨⟩, rfl, hv⟩, rfl⟩
  rw [(step_of_writes he (eventWrites_propose ha he)).1, transact_of_passes]
  · rfl
  · have hf : Write.Fits (g.objects H) ⟨(.governance, op.proposalId), none, some (json.proposalBytes
          (create op.proposalId content op.timestamp))⟩ :=
      (fits_of_creates ⟨rfl, Option.some_ne_none _⟩).mpr hn
    exact ⟨⟨hf, trivial⟩, not_recreates_of_fits (by simpa using hf)⟩

omit [DecidableEq D] in
/-- The approval of a stored pending proposal. -/
theorem approves_of_stored (hj : json.Lawful) {s : Objects}
    (ha : op.action = .execute decision) (hap : decision.approved = true)
    (hp : proposal.status = .pending)
    (hs : s (.governance, op.proposalId) = some (json.proposalBytes proposal)) :
    op.approves json s = some proposal := by
  simp [Op.approves, ha, storedProposal, hs, hj.parseProposal_proposalBytes, hap, hp]

/-- A new proposal that is approved next takes effect exactly if what it inserts was not there
before it. -/
theorem takesEffect_next_iff (hj : json.Lawful) {op' : Op} {content : ProposalContent}
    (ha : op.action = .propose content)
    (hv : validateContent content = .ok ⟨⟩)
    (hn : g.objects H (.governance, op.proposalId) = none)
    (ha' : op'.action = .execute decision) (har : decision.approved = true)
    (hsa : op'.proposalId = op.proposalId) (hid : op'.proposalId ≠ paramsObjectId H)
    (hi : content.action.inserts H = some key) :
    ∃ proposal, op'.approves json ((step H json g op).1.objects H) = some proposal ∧
      proposal.content = content ∧
      (TakesEffect H json (step H json g op).1 op' proposal ↔ g.objects H key = none) := by
  let proposal := create op.proposalId content op.timestamp
  have hs : (step H json g op).1.objects H (.governance, op'.proposalId) =
      some (json.proposalBytes proposal) := by
    rw [objects_step_propose ha hv hn, hsa]
    exact Function.update_self ..
  have hap : op'.approves json ((step H json g op).1.objects H) = some proposal :=
    approves_of_stored hj ha' har rfl hs
  have hr : (step H json g op).1.objects H key = g.objects H key := by
    apply objects_step_of_approves_none _ (root_of_inserts hi)
    simp [Op.approves, ha]
  refine ⟨proposal, hap, rfl, ?_⟩
  rw [takesEffect_iff hj hid hap, ← hr]
  change _ ∧ (∀ k ∈ content.action.inserts H, _) ↔ _
  rw [hi]
  constructor
  · rintro ⟨-, hf⟩
    exact hf key rfl
  · intro hf
    refine ⟨⟨hs, ?_⟩, ?_⟩
    · intro hno
      cases hi.symm.trans hno
    · rintro _ ⟨⟩
      exact hf

instance countableUInt8 : Countable UInt8 := Function.Injective.countable fun _ _ ↦ UInt8.toNat_inj.mp
instance countableUInt32 : Countable UInt32 := Function.Injective.countable fun _ _ ↦ UInt32.toNat_inj.mp
instance countableUInt64 : Countable UInt64 := Function.Injective.countable fun _ _ ↦ UInt64.toNat_inj.mp
instance countableChar : Countable Char := Function.Injective.countable fun _ _ ↦ Char.toNat_inj.mp
instance countableString : Countable String := Function.Injective.countable fun _ _ ↦ String.toList_inj.mp
instance : Countable Bytes := inferInstanceAs (Countable (List UInt8))
instance : Countable Merkle.HashValue :=
  Function.Injective.countable fun _ _ ↦ Merkle.HashValue.asBytes_inj.mp

deriving instance Countable for ResourceGovernanceMode, ResourceParams, ResourceParamChange,
  ProposalType, ProposalEffect, ProposalContent, GovernanceDecision, ProposalStatus,
  GovernanceProposal

/-- Bytes for the values of a countable type. -/
private noncomputable def unary (α : Type) [Countable α] (a : α) : Bytes :=
  List.replicate ((Countable.exists_injective_nat α).choose a) 0

private theorem unary_injective (α : Type) [Countable α] : Function.Injective (unary α) := by
  intro a b h
  apply (Countable.exists_injective_nat α).choose_spec
  simpa [unary] using congrArg List.length h

/-- Forms in which everything written can be read back. -/
noncomputable def GovernanceJson.unary : GovernanceJson where
  proposalBytes := Governance.unary GovernanceProposal
  parseProposal := Function.partialInv (Governance.unary GovernanceProposal)
  paramsBytes := Governance.unary ResourceParams
  parseParams := Function.partialInv (Governance.unary ResourceParams)
  slashBytes validatorId amount := strBytes s!"\x7bvalidator:{validatorId},amount:{amount}\x7d"
  payloadBytes proposalId _ := proposalId.asBytes

theorem GovernanceJson.unary_lawful : GovernanceJson.unary.Lawful where
  parseProposal_proposalBytes := Function.partialInv_left (unary_injective GovernanceProposal)
  parseParams_paramsBytes := Function.partialInv_left (unary_injective ResourceParams)

/-- Every approved proposal of a run takes effect exactly if no two of them insert the same
object, none inserts one that is there before the run, and what they read is stored as the node
writes it. -/
theorem allTakeEffect_iff (hjson : json.Lawful) {ops : List Op}
    (hids : ∀ op ∈ ops, op.proposalId ≠ paramsObjectId H) :
    AllTakeEffect H json g ops ↔ (inserted H json g ops).Nodup ∧
      (∀ key ∈ inserted H json g ops, g.objects H key = none) ∧ AllAsWritten H json g ops := by
  induction ops generalizing g with
  | nil => simp [AllTakeEffect, inserted, AllAsWritten]
  | cons op rest ih =>
    have hid := hids op List.mem_cons_self
    have hh := forall_takesEffect_iff (g := g) hjson hid
    rw [AllTakeEffect, ih fun op hop ↦ hids op (List.mem_cons_of_mem _ hop), inserted,
      AllAsWritten, List.nodup_append, List.forall_mem_append]
    -- an object that the rest inserts is missing after the operation iff it was missing before
    -- and is not the one just inserted
    have hf : (∀ proposal ∈ op.approves json (g.objects H), TakesEffect H json g op proposal) →
        ((∀ key ∈ inserted H json (step H json g op).1 rest,
            (step H json g op).1.objects H key = none) ↔
          ∀ key ∈ inserted H json (step H json g op).1 rest,
            g.objects H key = none ∧ key ∉ op.inserts H json (g.objects H)) := by
      intro ht
      apply forall₂_congr
      intro key hk
      exact objects_step_eq_none_iff ht (root_of_mem_inserted hk)
    constructor
    · rintro ⟨ht, hn, hm, hw⟩
      rw [hf ht] at hm
      obtain ⟨hr, hne⟩ := hh.mp ht
      have hs : (op.inserts H json (g.objects H)).toList.Nodup := by
        cases op.inserts H json (g.objects H) <;> simp
      refine ⟨⟨hs, hn, ?_⟩, ⟨?_, fun key hk ↦ (hm key hk).1⟩, hr, hw⟩
      · rintro key hk _ hk' rfl
        exact (hm key hk').2 (Option.mem_toList.mp hk)
      · intro key hk
        exact hne key (Option.mem_toList.mp hk)
    · rintro ⟨⟨-, hn, hd⟩, ⟨hne, hm⟩, hr, hw⟩
      have ht := hh.mpr ⟨hr, fun key hk ↦ hne key (Option.mem_toList.mpr hk)⟩
      refine ⟨ht, hn, (hf ht).mpr ?_, hw⟩
      intro key hk
      refine ⟨hm key hk, ?_⟩
      intro hk'
      exact hd key (Option.mem_toList.mpr hk') key hk rfl

section MaxBlockSize

/-- A change of the parameter `max_block_size`. -/
private def blockSize (value : Bytes) : ProposalContent :=
  ⟨"alice", .parameterChange, "Block size", "", .updateParameter "max_block_size" value⟩

private def proposeBlockSize (nonce : UInt64) (value : Bytes) : Op :=
  ⟨generateProposalId Blake3.fnv "alice" nonce 1000, .propose (blockSize value), 1000,
    ⟨∅, 0, 1000⟩, "validator-1", 1000, 1⟩

private def approveBlockSize (nonce : UInt64) : Op :=
  ⟨generateProposalId Blake3.fnv "alice" nonce 1000, .execute ⟨true, "", []⟩, 2000,
    ⟨∅, 0, 2000⟩, "validator-1", 2000, 2⟩

private theorem blockSize_ids : (approveBlockSize 0).proposalId ≠ paramsObjectId Blake3.fnv ∧
    (approveBlockSize 1).proposalId ≠ paramsObjectId Blake3.fnv ∧
    (proposeBlockSize 1 [2]).proposalId ≠ (approveBlockSize 0).proposalId := by
  decide +kernel

private theorem objects_new_eq_none (key : SubnetId × ObjectId) :
    (GlobalStateManager.new Blake3.fnv).objects Blake3.fnv key = none := by
  rw [GlobalStateManager.objects_new]

private theorem blockSize_next {g : GlobalStateManager UInt64} {nonce : UInt64} (value : Bytes)
    (hid : (approveBlockSize nonce).proposalId ≠ paramsObjectId Blake3.fnv)
    (hn : g.objects Blake3.fnv (.governance, (proposeBlockSize nonce value).proposalId) =
      none) :
    ∃ proposal, (approveBlockSize nonce).approves .unary
        ((step Blake3.fnv .unary g (proposeBlockSize nonce value)).1.objects Blake3.fnv) =
          some proposal ∧ proposal.content = blockSize value ∧
      (TakesEffect Blake3.fnv .unary (step Blake3.fnv .unary g (proposeBlockSize nonce value)).1
          (approveBlockSize nonce) proposal ↔
        g.objects Blake3.fnv (.root, parameterObjectId Blake3.fnv "max_block_size") = none) := by
  have ha : (proposeBlockSize nonce value).action = .propose (blockSize value) := rfl
  have ha' : (approveBlockSize nonce).action = .execute ⟨true, "", []⟩ := rfl
  have hi : (blockSize value).action.inserts Blake3.fnv =
      some (.root, parameterObjectId Blake3.fnv "max_block_size") := rfl
  exact takesEffect_next_iff GovernanceJson.unary_lawful ha rfl hn ha' rfl rfl hid hi

/-- On the empty state a first change of the parameter takes effect. -/
theorem allTakeEffect_blockSize :
    AllTakeEffect Blake3.fnv .unary (.new Blake3.fnv)
      [proposeBlockSize 0 [1], approveBlockSize 0] ∧
    inserted Blake3.fnv .unary (.new Blake3.fnv) [proposeBlockSize 0 [1], approveBlockSize 0] =
      [(.root, parameterObjectId Blake3.fnv "max_block_size")] := by
  obtain ⟨proposal, ha, hc, -⟩ := blockSize_next [1] blockSize_ids.1 (objects_new_eq_none _)
  have hi : inserted Blake3.fnv .unary (.new Blake3.fnv)
      [proposeBlockSize 0 [1], approveBlockSize 0] =
        [(.root, parameterObjectId Blake3.fnv "max_block_size")] := by
    simp only [inserted, Op.inserts, ha, Option.bind_some, hc]
    rfl
  have hid : ∀ op ∈ [proposeBlockSize 0 [1], approveBlockSize 0],
      op.proposalId ≠ paramsObjectId Blake3.fnv := by
    rw [List.forall_mem_cons, List.forall_mem_singleton]
    exact ⟨blockSize_ids.1, blockSize_ids.1⟩
  refine ⟨(allTakeEffect_iff GovernanceJson.unary_lawful hid).mpr ⟨?_, ?_, ?_⟩, hi⟩
  · rw [hi]
    exact List.nodup_singleton _
  · intro key _
    exact objects_new_eq_none key
  · apply allAsWritten_of_written GovernanceJson.unary_lawful hid
    intro key bytes hb
    cases (objects_new_eq_none key).symm.trans hb

/-- A second change of the parameter is approved and does not take effect. -/
theorem not_allTakeEffect_blockSize_twice :
    ¬ AllTakeEffect Blake3.fnv .unary (.new Blake3.fnv)
      [proposeBlockSize 0 [1], approveBlockSize 0, proposeBlockSize 1 [2], approveBlockSize 1] := by
  rintro ⟨-, hf, -, hs, -⟩
  obtain ⟨hid, hid', hne⟩ := blockSize_ids
  obtain ⟨proposal, ha, hc, -⟩ := blockSize_next [1] hid (objects_new_eq_none _)
  have hh := (hf proposal ha).holds
  rw [hc] at hh
  have hn : (step Blake3.fnv .unary (step Blake3.fnv .unary (.new Blake3.fnv)
      (proposeBlockSize 0 [1])).1 (approveBlockSize 0)).1.objects Blake3.fnv
        (.governance, (proposeBlockSize 1 [2]).proposalId) = none := by
    have hne' : (proposeBlockSize 1 [2]).proposalId ≠ (proposeBlockSize 0 [1]).proposalId := hne
    rw [objects_step_of_ne hne hid', objects_step_of_ne hne' hid', objects_new_eq_none]
  obtain ⟨proposal', ha', -, hi⟩ := blockSize_next [2] hid' hn
  cases hh.symm.trans (hi.mp (hs proposal' ha'))

private theorem objects_step_of_decided (hj : json.Lawful) {id : ObjectId}
    (hid : id ≠ paramsObjectId H) (hp : proposal.status ≠ .pending)
    (hs : g.objects H (.governance, id) = some (json.proposalBytes proposal)) (op : Op) :
    (step H json g op).1.objects H (.governance, id) = g.objects H (.governance, id) := by
  by_cases heq : id = op.proposalId
  · subst heq
    cases he : op.event H json (g.objects H) with
    | error error => rw [step_refused he]
    | ok event =>
      cases ha : op.action with
      | propose content =>
        rw [(step_of_writes he (eventWrites_propose ha he)).1, transact_of_not_passes]
        rintro ⟨hf, -⟩
        have hn := (fits_of_creates ⟨rfl, Option.some_ne_none _⟩).mp (allFit_cons.mp hf).1
        cases hn.symm.trans hs
      | execute decision =>
        simp only [Op.event, ha, storedProposal, hs, Option.bind_some,
          hj.parseProposal_proposalBytes, bind_eq_ok, okOr_eq_ok, Option.some.injEq,
          exists_eq_left', GovernanceExecutor.executeDecision, validateExecute, require_eq_ok,
          beq_iff_eq] at he
        obtain ⟨-, hpe, -⟩ := he
        exact absurd hpe hp
  · exact objects_step_of_ne heq hid

/-- Decisions are final: in every run a proposal that is no longer pending stays as it is. -/
theorem objects_run_of_decided (hjson : json.Lawful) {id : ObjectId}
    (hid : id ≠ paramsObjectId H) (hdecided : proposal.status ≠ .pending)
    (hstored : g.objects H (.governance, id) = some (json.proposalBytes proposal))
    (ops : List Op) :
    (ops.foldl (fun g op ↦ (step H json g op).1) g).objects H (.governance, id) =
      some (json.proposalBytes proposal) := by
  induction ops generalizing g with
  | nil => exact hstored
  | cons op rest ih =>
    exact ih ((objects_step_of_decided hjson hid hdecided hstored op).trans hstored)

/-- Neither a proposal under the same identifier nor an approval changes a rejected one. -/
theorem objects_run_of_rejected :
    let id := (approveBlockSize 0).proposalId
    let bytes := GovernanceJson.unary.proposalBytes
      { create id (blockSize [1]) 0 with status := .rejected }
    let g := (GlobalStateManager.new Blake3.fnv).modifySubnet Blake3.fnv .governance
      (·.upsert Blake3.fnv id bytes)
    ([proposeBlockSize 0 [2], approveBlockSize 0].foldl
      (fun g op ↦ (step Blake3.fnv .unary g op).1) g).objects Blake3.fnv (.governance, id) =
      some bytes := by
  apply objects_run_of_decided GovernanceJson.unary_lawful blockSize_ids.1 (by simp)
  rw [GlobalStateManager.objects_modifySubnet_upsert, Function.update_self]

end MaxBlockSize

end Setu.Governance
