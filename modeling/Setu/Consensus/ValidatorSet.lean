import Mathlib.Data.String.Basic
import Setu.Base.Bytes
import Setu.Base.HashMap
import Setu.Base.Sort

/-!
# Validators and proposer rotation

Library `Consensus`. The registered validators with their public keys, the current round, and
the election of a proposer for each round. Source `consensus/src/validator_set.rs` and
`consensus/src/liveness/rotating_proposer_election.rs`.
-/

namespace Setu.Consensus

open Setu.Base

/-- Identifiers of validators, `liveness/proposer_election.rs`. -/
abbrev ValidatorId := String

/-- Round-robin election, `rotating_proposer_election.rs:25-36`. -/
structure RotatingProposer where
  proposers : List ValidatorId
  contiguousRounds : UInt32

namespace RotatingProposer

/-- `rotating_proposer_election.rs:43-50`. -/
def new (proposers : List ValidatorId) : RotatingProposer := ⟨proposers, 1⟩

/-- `rotating_proposer_election.rs:57-64`. -/
def withContiguousRounds (proposers : List ValidatorId) (contiguousRounds : UInt32) :
    RotatingProposer :=
  ⟨proposers, max contiguousRounds 1⟩

variable (election : RotatingProposer)

/-- `rotating_proposer_election.rs:84-90`. -/
def getProposerIndex (round : UInt64) : Nat :=
  if election.proposers.isEmpty then 0
  else round.toNat / election.contiguousRounds.toNat % election.proposers.length

/-- `rotating_proposer_election.rs:145-151`. -/
def getValidProposer (round : UInt64) : Option ValidatorId :=
  if election.proposers.isEmpty then none
  else election.proposers[election.getProposerIndex round]?

/-- `rotating_proposer_election.rs:153-155`. -/
def isValidProposer (validatorId : ValidatorId) (round : UInt64) : Bool :=
  election.getValidProposer round == some validatorId

end RotatingProposer

/-- What consensus reads of a node, `types/src/node.rs:20-29`. -/
structure NodeInfo where
  id : ValidatorId
  publicKey : Bytes

/-- A registered validator, `types/src/node.rs:89-93`. -/
structure ValidatorInfo where
  node : NodeInfo
  isLeader : Bool
  leaderRound : UInt64

/-- How proposers are elected, `validator_set.rs:21-31`. The parameters of the reputation
strategy are not read. -/
inductive ElectionStrategy where
  | rotating (contiguousRounds : UInt32)
  | reputation
  | fixed (leader : ValidatorId)

/-- The validators and the election, `validator_set.rs:43-58`. A validator is only ever
registered under its own identifier. -/
structure ValidatorSet where
  validators : HashMap ValidatorId ValidatorInfo
  leaderId : Option ValidatorId
  currentRound : UInt64
  strategy : ElectionStrategy
  election : Option RotatingProposer
  keyed : ∀ {id info}, validators.lookup id = some info → info.node.id = id

namespace ValidatorSet

/-- `validator_set.rs:73-81`. -/
def withStrategy (strategy : ElectionStrategy) : ValidatorSet where
  validators := ∅
  leaderId := none
  currentRound := 0
  strategy := strategy
  election := none
  keyed h := by cases h

/-- `validator_set.rs:62-70`. -/
def new : ValidatorSet := withStrategy (.rotating 1)

variable (vs : ValidatorSet)

/-- The identifiers in ascending order. -/
def sortedIds : List ValidatorId := sortOn (fun id ↦ id) vs.validators.keys

/-- `validator_set.rs:228-243`. -/
def rebuildElection : ValidatorSet :=
  { vs with
    election :=
      match vs.strategy with
      | .rotating contiguousRounds =>
        some (.withContiguousRounds vs.sortedIds contiguousRounds)
      | .fixed _ => none
      | .reputation => some (.new vs.sortedIds) }

/-- `validator_set.rs:207-216`. -/
def setLeader (leaderId : ValidatorId) : ValidatorSet where
  validators := vs.validators.mapVal fun info ↦
    { info with
      isLeader := info.node.id == leaderId
      leaderRound := if info.node.id == leaderId then vs.currentRound else info.leaderRound }
  leaderId := some leaderId
  currentRound := vs.currentRound
  strategy := vs.strategy
  election := vs.election
  keyed := by
    intro id info h
    rw [HashMap.lookup_mapVal, Option.map_eq_some_iff] at h
    obtain ⟨old, hold, rfl⟩ := h
    have hid : old.node.id = id := vs.keyed hold
    exact hid

variable (round : UInt64)

/-- `validator_set.rs:185-204`. -/
def updateLeaderForRound : ValidatorSet :=
  let newLeader :=
    match vs.election with
    | some election => election.getValidProposer round
    | none => vs.sortedIds[round.toNat % vs.sortedIds.length]?
  match newLeader with
  | some leaderId => vs.setLeader leaderId
  | none => vs

/-- `validator_set.rs:219-226`. -/
def electFallbackLeader : ValidatorSet :=
  match vs.validators.keys.min? with
  | some leaderId => vs.setLeader leaderId
  | none => { vs with leaderId := none }

/-- `validator_set.rs:170-182`. -/
def electNextLeader : ValidatorSet :=
  match vs.strategy with
  | .fixed id => if id ∈ vs.validators then vs.setLeader id else vs.electFallbackLeader
  | _ => vs.updateLeaderForRound vs.currentRound

/-- `validator_set.rs:84-97`. -/
def addValidator (info : ValidatorInfo) : ValidatorSet :=
  let isFirst := vs.validators.keys.isEmpty
  let info := if isFirst then { info with isLeader := true } else info
  rebuildElection
    { vs with
      leaderId := if isFirst then some info.node.id else vs.leaderId
      validators := vs.validators.insert info.node.id info
      keyed := by
        intro id found h
        rcases HashMap.lookup_insert_cases h with ⟨rfl, rfl⟩ | ⟨-, hold⟩
        · rfl
        · exact vs.keyed hold }

/-- `validator_set.rs:100-112`. -/
def removeValidator (validatorId : ValidatorId) : ValidatorSet :=
  let removed := rebuildElection
    { vs with
      validators := vs.validators.erase validatorId
      keyed := by
        intro id found h
        exact vs.keyed (HashMap.lookup_of_lookup_erase h) }
  if vs.leaderId = some validatorId then removed.electNextLeader else removed

/-- `validator_set.rs:137-142`. -/
def isValidProposer (validatorId : ValidatorId) (round : UInt64) : Bool :=
  match vs.election with
  | some election => election.isValidProposer validatorId round
  | none => vs.leaderId == some validatorId

/-- `validator_set.rs:160-163`. -/
def setRound : ValidatorSet :=
  { vs with currentRound := round }.updateLeaderForRound round

/-- `validator_set.rs:153-157`. -/
def advanceRound : ValidatorSet := vs.setRound (vs.currentRound + 1)

/-- `validator_set.rs:246-248`. -/
def count : Nat := vs.validators.keys.length

/-- `all_validators().iter().find(|v| v.node.id == id)`, as at `engine.rs:1223-1225`. -/
def findValidator (id : ValidatorId) : Option ValidatorInfo :=
  vs.validators.values.find? (·.node.id == id)

/-- Searching the listed validators is looking the identifier up. -/
theorem findValidator_eq_lookup (id : ValidatorId) :
    vs.findValidator id = vs.validators.lookup id := by
  unfold findValidator
  cases h : vs.validators.values.find? (·.node.id == id) with
  | some info =>
    obtain ⟨id', hl⟩ := HashMap.mem_values.mp (List.mem_of_find?_eq_some h)
    have hid : info.node.id = id := by simpa using List.find?_some h
    rw [← vs.keyed hl, hid] at hl
    exact hl.symm
  | none =>
    cases hl : vs.validators.lookup id with
    | none => rfl
    | some info =>
      have hm := List.find?_eq_none.mp h info (HashMap.mem_values.mpr ⟨id, hl⟩)
      exact absurd (beq_iff_eq.mpr (vs.keyed hl)) hm

/-- The public key a validator is registered with. -/
def publicKey (id : ValidatorId) : Option Bytes :=
  (vs.validators.lookup id).map (·.node.publicKey)

/-- The identifiers of the registered validators. -/
def ids : Finset ValidatorId := vs.validators.keys.toFinset

theorem card_ids : vs.ids.card = vs.count :=
  List.toFinset_card_of_nodup vs.validators.keys_nodup

theorem mem_ids {vs : ValidatorSet} {id : ValidatorId} {key : Bytes}
    (h : vs.publicKey id = some key) : id ∈ vs.ids := by
  obtain ⟨info, hi, -⟩ := Option.map_eq_some_iff.mp h
  unfold ids
  rw [List.mem_toFinset]
  exact AList.mem_keys.mp (AList.lookup_isSome.mp (Option.isSome_of_eq_some hi))

theorem publicKey_of_findValidator {vs : ValidatorSet} {id : ValidatorId}
    {validator : ValidatorInfo} (h : vs.findValidator id = some validator) :
    vs.publicKey id = some validator.node.publicKey := by
  rw [vs.findValidator_eq_lookup] at h
  unfold publicKey
  rw [h]
  rfl

theorem setRound_cases : vs.setRound round = { vs with currentRound := round } ∨
      ∃ leaderId, vs.setRound round = { vs with currentRound := round }.setLeader leaderId := by
  unfold setRound updateLeaderForRound
  dsimp only
  split
  · exact .inr ⟨_, rfl⟩
  · exact .inl rfl

/-- A new round registers nobody and removes nobody. -/
@[simp]
theorem publicKey_setRound : (vs.setRound round).publicKey = vs.publicKey := by
  rcases vs.setRound_cases round with hr | ⟨leaderId, hr⟩
  · rw [hr]
    rfl
  · rw [hr]
    funext id
    unfold publicKey setLeader
    rw [HashMap.lookup_mapVal, Option.map_map]
    rfl

@[simp]
theorem count_setRound : (vs.setRound round).count = vs.count := by
  rcases vs.setRound_cases round with hr | ⟨leaderId, hr⟩
  · rw [hr]
    rfl
  · rw [hr]
    unfold count setLeader
    rw [HashMap.keys_mapVal]

end ValidatorSet

end Setu.Consensus
