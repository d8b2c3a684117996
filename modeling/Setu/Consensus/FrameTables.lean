import Setu.Consensus.ChainIntegrity

/-!
# The tables of the consensus manager

Library `Consensus`. Pending frames, open builds, stored events, early votes and finalized frames
stand in separate tables, which each way of opening and closing a frame updates one by one. Every
call of the manager comes down to a few elementary moves of the tables, and every step of the
engine to a few calls; what the moves keep holds over whole runs. Source `consensus/src/folder.rs`.
-/

namespace Setu.Consensus

open Setu.Base Setu.Types Setu.State

variable {D : Type}

/-- The routed events of a build are those of its anchor. -/
def PendingAnchorBuild.Routed (build : PendingAnchorBuild D) : Prop :=
  (build.allEvents.map (·.id)).Perm build.anchor.eventIds

/-- The tables of the manager. -/
structure FrameTables (D : Type) where
  pendingCfs : HashMap CFId (ConsensusFrame D)
  pendingBuilds : HashMap CFId (PendingAnchorBuild D)
  pendingCfEvents : HashMap CFId (List Event)
  bufferedVotes : HashMap CFId (List Vote)
  finalizedCfs : List (ConsensusFrame D)

/-- The tables of a manager. -/
def ConsensusManager.tables (m : ConsensusManager D) : FrameTables D :=
  ⟨m.pendingCfs, m.pendingBuilds, m.pendingCfEvents, m.bufferedVotes, m.finalizedCfs⟩

namespace FrameTables

/-- Without a frame, its build and its events. -/
def close (t : FrameTables D) (id : CFId) : FrameTables D :=
  { t with
    pendingCfs := t.pendingCfs.erase id
    pendingBuilds := t.pendingBuilds.erase id
    pendingCfEvents := t.pendingCfEvents.erase id }

/-- What a call can do to the tables, move by move. `Opens` is what is known of a frame when the
validator opens it, `Joins` what is known of a frame that comes as finalized while one of its
identifier is pending. -/
inductive Move (H : Blake3 D) (Opens : FrameTables D → ConsensusFrame D → Prop)
    (Joins : ConsensusFrame D → ConsensusFrame D → Prop) (t : FrameTables D) :
    FrameTables D → Prop where
  | opens (cf : ConsensusFrame D) (build : PendingAnchorBuild D)
      (hnone : ∀ id, id ∉ t.pendingBuilds) (hverified : cf.verifyId H = true)
      (hanchor : cf.anchor = build.anchor) (hrouted : build.Routed) (hopens : Opens t cf) :
      Move H Opens Joins t { t with
        pendingCfs := t.pendingCfs.insert cf.id cf
        pendingBuilds := t.pendingBuilds.insert cf.id build }
  | receives (dag : Dag) (cf : ConsensusFrame D) (votes : List Vote)
      (hverified : cf.verifyId H = true) (hnew : cf.id ∉ t.pendingCfs)
      (hopen : ∀ finalized ∈ t.finalizedCfs, finalized.id ≠ cf.id) :
      Move H Opens Joins t { t with
        pendingCfs := t.pendingCfs.insert cf.id (cf.addMissingVotes votes)
        pendingCfEvents :=
          t.pendingCfEvents.insert cf.id (cf.anchor.eventIds.filterMap dag.getEvent)
        bufferedVotes := t.bufferedVotes.erase cf.id }
  | stores (dag : Dag) (cf : ConsensusFrame D) {existing : ConsensusFrame D}
      (hpending : t.pendingCfs.lookup cf.id = some existing) (hjoins : Joins existing cf) :
      Move H Opens Joins t { t with
        pendingCfEvents :=
          t.pendingCfEvents.insert cf.id (cf.anchor.eventIds.filterMap dag.getEvent) }
  | votes (id : CFId) {cf : ConsensusFrame D} (votes : HashMap String Vote)
      (hpending : t.pendingCfs.lookup id = some cf) :
      Move H Opens Joins t
        { t with pendingCfs := t.pendingCfs.insert id { cf with votes := votes } }
  | buffers (vote : Vote) (hpending : vote.cfId ∉ t.pendingCfs) :
      Move H Opens Joins t { t with bufferedVotes := t.bufferedVotes.pushAt vote.cfId vote }
  | closes (id : CFId) : Move H Opens Joins t (t.close id)
  | cleans (id : CFId) :
      Move H Opens Joins t { t.close id with bufferedVotes := t.bufferedVotes.erase id }
  | finalizes (id : CFId) {cf : ConsensusFrame D} (now : UInt64)
      (hpending : t.pendingCfs.lookup id = some cf) :
      Move H Opens Joins t { t.close id with finalizedCfs := t.finalizedCfs ++ [cf.finalize now] }
  | collects (kept : List (ConsensusFrame D)) (hkept : kept.Sublist t.finalizedCfs) :
      Move H Opens Joins t { t with finalizedCfs := kept }

/-- Moves one after the other. -/
abbrev Moves (H : Blake3 D) (Opens : FrameTables D → ConsensusFrame D → Prop)
    (Joins : ConsensusFrame D → ConsensusFrame D → Prop) : FrameTables D → FrameTables D → Prop :=
  Relation.ReflTransGen (Move H Opens Joins)

variable {H : Blake3 D} {Opens : FrameTables D → ConsensusFrame D → Prop}
  {Joins : ConsensusFrame D → ConsensusFrame D → Prop} {t t' : FrameTables D}

/-- At most one build is open, and builds and stored events belong to pending frames. -/
structure Kept (t : FrameTables D) : Prop where
  oneBuild : ∀ {id id'}, id ∈ t.pendingBuilds → id' ∈ t.pendingBuilds → id = id'
  builds : ∀ {id}, id ∈ t.pendingBuilds → id ∈ t.pendingCfs
  events : ∀ {id}, id ∈ t.pendingCfEvents → id ∈ t.pendingCfs

theorem Kept.close (h : t.Kept) (id : CFId) : (t.close id).Kept where
  oneBuild hid hid' := h.oneBuild (AList.mem_erase.mp hid).2 (AList.mem_erase.mp hid').2
  builds hid := by
    obtain ⟨hne, hid⟩ := AList.mem_erase.mp hid
    exact AList.mem_erase.mpr ⟨hne, h.builds hid⟩
  events hid := by
    obtain ⟨hne, hid⟩ := AList.mem_erase.mp hid
    exact AList.mem_erase.mpr ⟨hne, h.events hid⟩

theorem Kept.move (h : t.Kept) (hm : t.Move H Opens Joins t') : t'.Kept := by
  cases hm with
  | opens cf build hn hv ha hr ho =>
    constructor
    case oneBuild =>
      have heq : ∀ {id}, id ∈ t.pendingBuilds.insert cf.id build → id = cf.id :=
        fun hid ↦ ((AList.mem_insert _).mp hid).resolve_right (hn _)
      intro id id' hid hid'
      rw [heq hid, heq hid']
    case builds =>
      intro id hid
      apply (AList.mem_insert _).mpr
      exact ((AList.mem_insert _).mp hid).imp_right h.builds
    case events =>
      intro id hid
      exact (AList.mem_insert _).mpr (.inr (h.events hid))
  | receives dag cf votes hv hne hop =>
    constructor
    case oneBuild => exact h.oneBuild
    case builds =>
      intro id hid
      exact (AList.mem_insert _).mpr (.inr (h.builds hid))
    case events =>
      intro id hid
      apply (AList.mem_insert _).mpr
      exact ((AList.mem_insert _).mp hid).imp_right h.events
  | stores dag cf hp hj =>
    refine ⟨h.oneBuild, h.builds, ?_⟩
    intro id hid
    rcases (AList.mem_insert _).mp hid with rfl | hid
    · exact AList.lookup_isSome.mp (Option.isSome_of_eq_some hp)
    · exact h.events hid
  | votes id votes hp =>
    constructor
    case oneBuild => exact h.oneBuild
    case builds =>
      intro id hid
      exact (AList.mem_insert _).mpr (.inr (h.builds hid))
    case events =>
      intro id hid
      exact (AList.mem_insert _).mpr (.inr (h.events hid))
  | buffers vote hp => exact ⟨h.oneBuild, h.builds, h.events⟩
  | closes id => exact h.close id
  | cleans id =>
    have hc := h.close id
    exact ⟨hc.oneBuild, hc.builds, hc.events⟩
  | finalizes id now hp =>
    have hc := h.close id
    exact ⟨hc.oneBuild, hc.builds, hc.events⟩
  | collects kept hk => exact ⟨h.oneBuild, h.builds, h.events⟩

theorem Kept.moves (h : t.Kept) (hm : Moves H Opens Joins t t') : t'.Kept := by
  induction hm with
  | refl => exact h
  | tail _ hmo ih => exact ih.move hmo

/-- Frames stand under identifiers that were verified, and no identifier is both pending and
finalized. -/
structure Apart (H : Blake3 D) (t : FrameTables D) : Prop where
  pending : ∀ {id cf}, t.pendingCfs.lookup id = some cf → cf.id = id ∧ cf.verifyId H = true
  finalized : ∀ cf ∈ t.finalizedCfs, cf.verifyId H = true
  disjoint : ∀ cf ∈ t.finalizedCfs, cf.id ∉ t.pendingCfs

private theorem verifyId_addMissingVotes (cf : ConsensusFrame D) (votes : List Vote) :
    (cf.addMissingVotes votes).id = cf.id ∧
      (cf.addMissingVotes votes).verifyId H = cf.verifyId H := by
  rw [ConsensusFrame.addMissingVotes]
  induction votes generalizing cf with
  | nil => exact ⟨rfl, rfl⟩
  | cons vote rest ih =>
    rw [List.foldl_cons]
    split
    · exact ih cf
    · exact ih (cf.addVote vote)

theorem Apart.close (h : t.Apart H) (id : CFId) : (t.close id).Apart H where
  pending hid := h.pending (HashMap.lookup_of_lookup_erase hid)
  finalized := h.finalized
  disjoint cf hcf hp := h.disjoint cf hcf (AList.mem_erase.mp hp).2

private theorem Apart.insertFrame (h : t.Apart H) {id : CFId} {cf : ConsensusFrame D}
    (hcf : cf.id = id ∧ cf.verifyId H = true)
    (ho : ∀ finalized ∈ t.finalizedCfs, finalized.id ≠ id) :
    { t with pendingCfs := t.pendingCfs.insert id cf }.Apart H where
  pending := by
    intro id' found hfo
    rcases HashMap.lookup_insert_cases hfo with ⟨rfl, rfl⟩ | ⟨-, hol⟩
    · exact hcf
    · exact h.pending hol
  finalized := h.finalized
  disjoint := by
    intro finalized hf hp
    rcases (AList.mem_insert _).mp hp with heq | hp
    · exact ho finalized hf heq
    · exact h.disjoint finalized hf hp

theorem Apart.move (h : t.Apart H) (hm : t.Move H Opens Joins t')
    (ho : ∀ {cf}, Opens t cf → cf.verifyId H = true →
      ∀ finalized ∈ t.finalizedCfs, finalized.id ≠ cf.id) : t'.Apart H := by
  have hpN : ∀ {id cf}, t.pendingCfs.lookup id = some cf →
      ∀ finalized ∈ t.finalizedCfs, finalized.id ≠ id := by
    intro id cf hcf finalized hf heq
    apply h.disjoint finalized hf
    rw [heq]
    exact AList.lookup_isSome.mp (Option.isSome_of_eq_some hcf)
  cases hm with
  | opens cf build hn hv ha hr hcf =>
    have hs := h.insertFrame ⟨rfl, hv⟩ (ho hcf hv)
    exact ⟨hs.pending, hs.finalized, hs.disjoint⟩
  | receives dag cf votes hv hne hop =>
    have hvo := verifyId_addMissingVotes (H := H) cf votes
    have hs := h.insertFrame ⟨hvo.1, hvo.2.trans hv⟩ hop
    exact ⟨hs.pending, hs.finalized, hs.disjoint⟩
  | stores dag cf hp hj => exact ⟨h.pending, h.finalized, h.disjoint⟩
  | votes id votes hp =>
    have hcf := h.pending hp
    exact h.insertFrame ⟨hcf.1, hcf.2⟩ (hpN hp)
  | buffers vote hp => exact ⟨h.pending, h.finalized, h.disjoint⟩
  | closes id => exact h.close id
  | cleans id =>
    have hc := h.close id
    exact ⟨hc.pending, hc.finalized, hc.disjoint⟩
  | @finalizes id cf now hp =>
    have hc := h.close id
    refine ⟨hc.pending, ?_, ?_⟩
    · intro finalized hf
      rcases List.mem_append.mp hf with hf | hf
      · exact h.finalized finalized hf
      · rw [List.mem_singleton.mp hf]
        exact (h.pending hp).2
    · intro finalized hf hid
      rcases List.mem_append.mp hf with hf | hf
      · exact hc.disjoint finalized hf hid
      · rw [List.mem_singleton.mp hf] at hid
        exact (AList.mem_erase.mp hid).1 (h.pending hp).1
  | collects kept hk =>
    exact ⟨h.pending, fun cf hcf ↦ h.finalized cf (hk.subset hcf),
      fun cf hcf ↦ h.disjoint cf (hk.subset hcf)⟩

end FrameTables

/-- A call of the manager, as the engine makes it. A received frame is looked up, and its events are
stored, under the same lock, `engine.rs:1077-1094` and `engine.rs:1178-1191`. -/
inductive ManagerCall (D : Type) where
  | tryCreateCf (dag : Dag) (vlc : VLCSnapshot) (round : UInt64)
  | tryCreateCfHeartbeat (dag : Dag) (vlc : VLCSnapshot) (heartbeatInterval : Nat) (round : UInt64)
  | receiveCf (dag : Dag) (cf : ConsensusFrame D)
  | receiveFinalizedCf (dag : Dag) (cf : ConsensusFrame D)
  | voteForCf (cfId : CFId) (approve : Bool) (privateKey : Option Bytes)
  | classifyFinalization (cfId : CFId)
  | receiveVote (vote : Vote)
  | cleanupTimeoutCfs
  | markAnchorPersisted (anchorId : AnchorId)

/-- A received frame passed the check of its identifier. -/
def ManagerCall.Verified (H : Blake3 D) : ManagerCall D → Prop
  | .receiveCf _ cf | .receiveFinalizedCf _ cf => cf.verifyId H = true
  | _ => True

/-- The round of the frame that a call may open. -/
def ManagerCall.round? : ManagerCall D → Option UInt64
  | .tryCreateCf _ _ round | .tryCreateCfHeartbeat _ _ _ round => some round
  | _ => none

/-- The frame that a call receives as finalized. -/
def ManagerCall.finalized? : ManagerCall D → Option (ConsensusFrame D)
  | .receiveFinalizedCf _ cf => some cf
  | _ => none

namespace ConsensusManager

variable [DecidableEq D] {H : Blake3 D} {S : Ed25519}
  {Opens : FrameTables D → ConsensusFrame D → Prop}
  {Joins : ConsensusFrame D → ConsensusFrame D → Prop}

variable (m : ConsensusManager D)

/-- The frames that time out, `folder.rs:771-776`. -/
def timeoutIds (env : Ambient) : List CFId :=
  (m.pendingCfs.toList.filter fun entry ↦
    entry.2.isTimeout m.config.cfTimeoutMs env.now).map Prod.fst

/-- A call of the manager: what became of which frames, and the manager after it. -/
def call (H : Blake3 D) (S : Ed25519) (m : ConsensusManager D) (input : ManagerCall D × Ambient) :
    List (CfLifecycleOutcome D) × ConsensusManager D :=
  let env := input.2
  match input.1 with
  | .tryCreateCf dag vlc round => ([], (m.tryCreateCf H dag vlc round env).2)
  | .tryCreateCfHeartbeat dag vlc interval round =>
    ([], (m.tryCreateCfHeartbeat H dag vlc interval round env).2)
  | .receiveCf dag cf =>
    ([], if m.hasCf cf.id then m else (m.applyCfStateChanges dag cf).receiveCf cf)
  | .receiveFinalizedCf dag cf =>
    if m.isFinalizedCf cf.id then ([], m)
    else
      let settled := (m.applyCfStateChanges dag cf).receiveFinalizedCf H cf env
      ([settled.1], settled.2)
  | .voteForCf cfId approve key => ([], (m.voteForCf S cfId approve key env.now).2)
  | .classifyFinalization cfId =>
    let settled := m.classifyFinalization H cfId env
    ([settled.1], settled.2)
  | .receiveVote vote =>
    let settled := m.receiveVote H vote env
    ([settled.1], settled.2)
  | .cleanupTimeoutCfs =>
    ((m.timeoutIds env).map .timedOut, (m.cleanupTimeoutCfs env).2)
  | .markAnchorPersisted anchorId => ([], m.markAnchorPersisted anchorId)

omit [DecidableEq D] in
private theorem sublist_gcScan (persisted : HashSet AnchorId) (excess : Nat)
    (cfs : List (ConsensusFrame D)) : (gcScan persisted excess cfs).1.Sublist cfs := by
  induction cfs generalizing excess with
  | nil => exact .slnil
  | cons cf rest ih =>
    cases excess with
    | zero => exact .refl _
    | succ excess =>
      rw [gcScan]
      split
      · exact (ih excess).cons cf
      · exact (ih (excess + 1)).cons_cons cf

omit [DecidableEq D] in
private theorem move_gcFinalizedCfs : m.tables.Moves H Opens Joins m.gcFinalizedCfs.tables := by
  rw [gcFinalizedCfs]
  dsimp only
  split
  · exact .refl
  · exact .single (.collects _ (sublist_gcScan ..))

omit [DecidableEq D] in
theorem isFinalizedCf_eq_false_iff {m : ConsensusManager D} {id : CFId} :
    m.isFinalizedCf id = false ↔ ∀ cf ∈ m.finalizedCfs, cf.id ≠ id := by
  simp [isFinalizedCf]

theorem moves_classifyFinalization (id : CFId) (env : Ambient) :
    m.tables.Moves H Opens Joins (m.classifyFinalization H id env).2.tables := by
  rw [classifyFinalization]
  cases hcf : m.pendingCfs.lookup id with
  | none => exact .refl
  | some cf =>
    dsimp only
    cases m.decision cf env.now with
    | none => exact .refl
    | some decision =>
      cases decision with
      | reject | timeout => exact .single (.closes id)
      | finalize =>
        obtain ⟨result, b, built, ha, -⟩ := applyFinalized_cases (H := H)
          { m with pendingCfs := m.pendingCfs.erase id } id (cf.finalize env.now) env
        dsimp only
        rw [ha]
        cases result with
        | error failure => exact .single (.closes id)
        | ok _ =>
          refine .trans (.single (.finalizes id env.now hcf)) ?_
          exact move_gcFinalizedCfs { m with
            pendingCfs := m.pendingCfs.erase id
            anchorBuilder := b
            pendingBuilds := m.pendingBuilds.erase id
            pendingCfEvents := m.pendingCfEvents.erase id
            lastBuildResult := built
            lastApplyFailure := none
            finalizedCfs := m.finalizedCfs ++ [cf.finalize env.now] }

private theorem routed_of_prepareBuild {b : AnchorBuilder D} {dag : Dag} {vlc : VLCSnapshot}
    {inFlight : HashSet EventId} (interval instant : Nat) {now : UInt64}
    {build : PendingAnchorBuild D}
    (h : b.prepareBuild H dag vlc inFlight now = .ok build ∨
      b.prepareBuildHeartbeat H dag vlc interval instant inFlight now = .ok build) :
    build.Routed := by
  obtain ⟨selected, -, rfl⟩ := AnchorBuilder.selected_of_ok h
  exact (RoutedEvents.allEvents_routeEvents selected).map _

omit [DecidableEq D] in
theorem moves_propose (round : UInt64) (env : Ambient)
    (prepare : HashSet EventId → Except (AnchorBuildError D) (PendingAnchorBuild D))
    (hr : ∀ {inFlight build}, prepare inFlight = .ok build → build.Routed)
    (ho : ∀ anchor, Opens m.tables (ConsensusFrame.new H round anchor m.localValidatorId env.now)) :
    m.tables.Moves H Opens Joins (m.propose H round env prepare).2.tables := by
  rw [propose]
  split
  · exact .refl
  · next hs =>
    have hn : ∀ id, id ∉ m.pendingBuilds := by
      simpa [canStartNewPendingBuild, List.eq_nil_iff_forall_not_mem, AList.mem_keys] using hs
    split
    · next build hb =>
      exact .single (.opens _ build hn (ConsensusFrame.verifyId_new ..) rfl (hr hb)
        (ho build.anchor))
    · exact .refl

omit [DecidableEq D] in
private theorem move_receiveCf (dag : Dag) {cf : ConsensusFrame D} (hv : cf.verifyId H = true)
    (hn : cf.id ∉ m.pendingCfs) (ho : m.isFinalizedCf cf.id = false) :
    m.tables.Move H Opens Joins ((m.applyCfStateChanges dag cf).receiveCf cf).tables := by
  have hn' : cf.id ∉ (m.applyCfStateChanges dag cf).pendingCfs := hn
  rw [receiveCf, if_neg hn']
  exact .receives dag cf _ hv hn (isFinalizedCf_eq_false_iff.mp ho)

omit [DecidableEq D] in
theorem moves_voteForCf (id : CFId) (approve : Bool) (key : Option Bytes) (now : UInt64)
    : m.tables.Moves H Opens Joins (m.voteForCf S id approve key now).2.tables := by
  rcases voteForCf_cases S m id approve key now with hs | ⟨cf, hcf, hv⟩
  · rw [hs]
  · rw [hv]
    exact .single (.votes id _ hcf)

private theorem moves_receiveVote (vote : Vote) (env : Ambient) :
    m.tables.Moves H Opens Joins (m.receiveVote H vote env).2.tables := by
  rw [receiveVote]
  split
  · next hn =>
    exact .single (.buffers vote fun hm ↦ AList.lookup_eq_none.mp hn hm)
  · next cf hcf =>
    split
    · exact .refl
    · refine .trans (.single (.votes vote.cfId (cf.addVote vote).votes hcf)) ?_
      exact moves_classifyFinalization { m with
        pendingCfs := m.pendingCfs.insert vote.cfId (cf.addVote vote) } vote.cfId env

omit [DecidableEq D] in
private theorem addMissingVotes_eq (cf : ConsensusFrame D) (votes : List Vote) :
    ∃ joined, cf.addMissingVotes votes = { cf with votes := joined } := by
  rw [ConsensusFrame.addMissingVotes]
  induction votes generalizing cf with
  | nil => exact ⟨cf.votes, rfl⟩
  | cons vote rest ih =>
    rw [List.foldl_cons]
    split
    · exact ih cf
    · exact ih (cf.addVote vote)

private theorem moves_receiveFinalizedCf (dag : Dag) {cf : ConsensusFrame D} (env : Ambient)
    (hv : cf.verifyId H = true) (ho : m.isFinalizedCf cf.id = false)
    (hj : ∀ existing ∈ m.pendingCfs.lookup cf.id, Joins existing cf) :
    m.tables.Moves H Opens Joins
      ((m.applyCfStateChanges dag cf).receiveFinalizedCf H cf env).2.tables := by
  have hc : ¬ (m.applyCfStateChanges dag cf).isFinalizedCf cf.id = true := by
    rw [Bool.not_eq_true]
    exact ho
  rw [receiveFinalizedCf, if_neg hc]
  refine .trans ?_ (moves_classifyFinalization _ cf.id env)
  rw [mergeFinalizedCf]
  split
  · next existing he =>
    obtain ⟨joined, hjo⟩ := addMissingVotes_eq existing cf.votes.values
    refine .trans (.single (.stores dag cf he (hj existing he))) ?_
    rw [hjo]
    exact .single (.votes cf.id joined he)
  · next hn =>
    have hne : cf.id ∉ m.pendingCfs := AList.lookup_eq_none.mp hn
    exact .single (move_receiveCf m dag hv hne ho)

omit [DecidableEq D] in
private theorem moves_cleanupTimeoutCfs (env : Ambient) :
    m.tables.Moves H Opens Joins (m.cleanupTimeoutCfs env).2.tables := by
  rw [cleanupTimeoutCfs]
  dsimp only
  generalize List.map Prod.fst _ = ids
  induction ids generalizing m with
  | nil => exact .refl
  | cons id rest ih => exact .head (.cleans id) (ih (m.cleanupTimeoutCf id))

/-- A call moves the tables. -/
theorem moves_call {input : ManagerCall D × Ambient} (hv : input.1.Verified H)
    (ho : ∀ round ∈ input.1.round?, ∀ anchor, Opens m.tables (ConsensusFrame.new H round anchor
      m.localValidatorId input.2.now))
    (hj : ∀ cf ∈ input.1.finalized?, ∀ existing ∈ m.pendingCfs.lookup cf.id, Joins existing cf) :
    m.tables.Moves H Opens Joins (m.call H S input).2.tables := by
  obtain ⟨input, env⟩ := input
  cases input with
  | tryCreateCf dag vlc round =>
    exact m.moves_propose round env _ (fun h ↦ routed_of_prepareBuild 0 0 (.inl h)) (ho round rfl)
  | tryCreateCfHeartbeat dag vlc interval round =>
    exact m.moves_propose round env _ (fun h ↦ routed_of_prepareBuild _ _ (.inr h)) (ho round rfl)
  | receiveCf dag cf =>
    rw [call]
    dsimp only
    split
    · exact .refl
    · next hn =>
      rw [hasCf, Bool.or_eq_true, not_or, decide_eq_true_iff, Bool.not_eq_true] at hn
      exact .single (move_receiveCf m dag hv hn.1 hn.2)
  | receiveFinalizedCf dag cf =>
    rw [call]
    dsimp only
    split
    · exact .refl
    · next hop =>
      exact m.moves_receiveFinalizedCf dag env hv (Bool.eq_false_of_not_eq_true hop) (hj cf rfl)
  | voteForCf id approve key => exact m.moves_voteForCf id approve key env.now
  | classifyFinalization id => exact m.moves_classifyFinalization id env
  | receiveVote vote => exact m.moves_receiveVote vote env
  | cleanupTimeoutCfs => exact m.moves_cleanupTimeoutCfs env
  | markAnchorPersisted anchorId => exact .refl

/-- Calls one after the other. -/
abbrev Calls (H : Blake3 D) (S : Ed25519)
    (Makes : ConsensusManager D → ManagerCall D × Ambient → Prop) :
    ConsensusManager D → ConsensusManager D → Prop :=
  Relation.ReflTransGen fun m m' ↦ ∃ input, Makes m input ∧ (m.call H S input).2 = m'

end ConsensusManager

namespace ConsensusEngine

variable [DecidableEq D] {H : Blake3 D} {S : Ed25519} {e : ConsensusEngine D} {creates : Bool}

/-- The calls an engine makes: received frames are verified, and a frame is opened first of all, in
the current round, if it is to be opened. -/
structure Makes (H : Blake3 D) (e : ConsensusEngine D) (creates : Bool) (env : Ambient)
    (m : ConsensusManager D) (input : ManagerCall D × Ambient) : Prop where
  verified : input.1.Verified H
  opens : ∀ round ∈ input.1.round?, creates = true ∧
    round = e.validatorSet.currentRound ∧ input.2 = env ∧ m = e.consensusManager

variable {env : Ambient}

private theorem call_single {m : ConsensusManager D} (c : ManagerCall D) (hv : c.Verified H)
    (hr : c.round? = none) :
    ConsensusManager.Calls H S (e.Makes H creates env) m (m.call H S (c, env)).2 := by
  refine .single ⟨(c, env), ⟨hv, ?_⟩, rfl⟩
  rw [hr]
  nofun

private theorem calls_vote (env : Ambient) (m : ConsensusManager D) (id : CFId) :
    ConsensusManager.Calls H S (e.Makes H creates env) m
        (m.voteForCf S id true e.privateKey env.now).2 ∧
      ConsensusManager.Calls H S (e.Makes H creates env) m
        ((m.voteForCf S id true e.privateKey env.now).2.classifyFinalization H id env).2 := by
  have hv : ConsensusManager.Calls H S (e.Makes H creates env) m _ :=
    call_single (.voteForCf id true e.privateKey) trivial rfl
  exact ⟨hv, hv.trans (call_single (.classifyFinalization id) trivial rfl)⟩

private theorem calls_announce {created : Option (ConsensusFrame D) × ConsensusManager D}
    (hc : ConsensusManager.Calls H S (e.Makes H creates env) e.consensusManager created.2) :
    ConsensusManager.Calls H S (e.Makes H creates env) e.consensusManager
      (e.announce H S env created).engine.consensusManager := by
  obtain ⟨frame, m⟩ := created
  cases frame with
  | none => exact hc
  | some frame =>
    obtain ⟨hv, hs⟩ := calls_vote (e := e) (H := H) (S := S) env m frame.id
    rw [announce]
    dsimp only
    split
    · exact hc.trans hv
    · split <;> exact hc.trans hs

private theorem calls_create {c : ManagerCall D} (hv : c.Verified H)
    (hr : ∀ round ∈ c.round?, round = e.validatorSet.currentRound) :
    ConsensusManager.Calls H S (e.Makes H true env) e.consensusManager
      (e.consensusManager.call H S (c, env)).2 :=
  .single ⟨(c, env), ⟨hv, fun round hc ↦ ⟨rfl, hr round hc, rfl, rfl⟩⟩, rfl⟩

private theorem calls_propose
    {prepare : HashSet EventId → Except (AnchorBuildError D) (PendingAnchorBuild D)}
    (hp : e.Prepares H env prepare) :
    ConsensusManager.Calls H S (e.Makes H true env) e.consensusManager
      (e.consensusManager.propose H e.validatorSet.currentRound env prepare).2 := by
  cases hp with
  | fold =>
    apply calls_create (c := .tryCreateCf e.dag e.vlc e.validatorSet.currentRound) trivial
    exact fun round hr ↦ (Option.some.inj hr).symm
  | heartbeat interval =>
    apply calls_create
      (c := .tryCreateCfHeartbeat e.dag e.vlc interval e.validatorSet.currentRound) trivial
    exact fun round hr ↦ (Option.some.inj hr).symm

private theorem calls_acceptCf {cf : ConsensusFrame D} {dag : Dag} {vlc : VLCSnapshot}
    (hv : cf.verifyId H = true) (hn : e.consensusManager.hasCf cf.id = false) :
    ConsensusManager.Calls H S (e.Makes H creates env) e.consensusManager
      (acceptCf H S { e with dag := dag, vlc := vlc } cf env).engine.consensusManager := by
  have hr : ConsensusManager.Calls H S (e.Makes H creates env) e.consensusManager
      ((e.consensusManager.applyCfStateChanges dag cf).receiveCf cf) := by
    have hc : ConsensusManager.Calls H S (e.Makes H creates env) e.consensusManager _ :=
      call_single (.receiveCf dag cf) hv rfl
    rw [ConsensusManager.call] at hc
    dsimp only at hc
    rwa [hn, if_neg Bool.false_ne_true] at hc
  obtain ⟨hvo, hs⟩ := calls_vote (e := e) (H := H) (S := S) env
    ((e.consensusManager.applyCfStateChanges dag cf).receiveCf cf) cf.id
  rw [acceptCf]
  dsimp only
  split
  · exact hr.trans hvo
  · rw [Handled.map, consensusManager_conclude]
    exact hr.trans hs

/-- A step makes a few calls of the manager. -/
theorem calls_step (e : ConsensusEngine D) (input : EngineInput D × Ambient) :
    ConsensusManager.Calls H S (e.Makes H input.1.creates input.2) e.consensusManager
      (e.step H S input).2.consensusManager := by
  obtain ⟨input, env⟩ := input
  have hs := e.acts_step (H := H) (S := S) input env
  generalize e.step H S (input, env) = after at hs ⊢
  cases hs with
  | answers | completes | advances => exact .refl
  | announces hinput hprepare =>
    rw [hinput]
    exact calls_announce (calls_propose hprepare)
  | accepts cf fetch dag vlc votes hid hvotes hnew => exact calls_acceptCf hid hnew
  | merges cf fetch dag vlc hid hvotes hnew =>
    have hc : ConsensusManager.Calls H S (e.Makes H false env) e.consensusManager _ :=
      call_single (.receiveFinalizedCf dag cf) hid rfl
    rw [ConsensusManager.call] at hc
    dsimp only at hc
    rw [hnew, if_neg Bool.false_ne_true] at hc
    rwa [Handled.outcome, consensusManager_conclude]
  | counts vote hvalidator hsigned =>
    rw [Handled.outcome, consensusManager_conclude]
    exact call_single (.receiveVote vote) trivial rfl
  | cleans => exact call_single .cleanupTimeoutCfs trivial rfl
  | marks anchorId => exact call_single (.markAnchorPersisted anchorId) trivial rfl

/-- A frame that the engine opens in a step. -/
structure Opened (e : ConsensusEngine D) (input : EngineInput D × Ambient) (t : FrameTables D)
    (cf : ConsensusFrame D) : Prop where
  creates : input.1.creates = true
  tables_eq : t = e.consensusManager.tables
  round_eq : cf.round = e.validatorSet.currentRound
  createdAt_eq : cf.createdAt = input.2.now

/-- A step moves the tables. -/
theorem moves_step (e : ConsensusEngine D) (input : EngineInput D × Ambient) :
    e.consensusManager.tables.Moves H (e.Opened input) (fun _ _ ↦ True)
      (e.step H S input).2.consensusManager.tables := by
  have hc := e.calls_step (H := H) (S := S) input
  generalize (e.step H S input).2.consensusManager = m at hc ⊢
  induction hc with
  | refl => exact .refl
  | tail _ hca ih =>
    obtain ⟨call, hma, rfl⟩ := hca
    refine ih.trans (ConsensusManager.moves_call _ hma.verified ?_ fun _ _ _ _ ↦ trivial)
    intro round hr anchor
    obtain ⟨hcr, rfl, he, hm⟩ := hma.opens round hr
    rw [hm, he]
    exact ⟨hcr, rfl, rfl, rfl⟩

end ConsensusEngine

end Setu.Consensus
