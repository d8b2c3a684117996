import Setu.Base.Checked
import Setu.Consensus.AnchorBuilder
import Setu.State.Simulation

/-!
# Leader and follower compute the same state

Library `Consensus`. A leader prepares an anchor on a copy of its state and commits it later;
a follower verifies and applies the anchor's events in whatever order it holds them. From one
starting state both reach the state whose root the anchor declares.
-/

namespace Setu.Consensus

open Setu.Base Setu.Types Setu.Merkle Setu.State

variable {D : Type} {H : Blake3 D}

private theorem kept_foldl_step (events : List Event) (scan : FoldScan) :
    ∃ kept, (events.foldl (FoldScan.step H) scan).kept = scan.kept ++ kept ∧
      kept.Sublist events := by
  induction events generalizing scan with
  | nil => exact ⟨[], (List.append_nil _).symm, .slnil⟩
  | cons event rest ih =>
    obtain ⟨kept, hk, hs⟩ := ih (scan.step H event)
    rw [List.foldl_cons, hk, FoldScan.step]
    split
    · exact ⟨kept, rfl, hs.cons event⟩
    · exact ⟨event :: kept, by simp, hs.cons_cons event⟩

/-- The fold policy keeps a part of the sorted events, in order. -/
theorem applyStrictSameKeyFoldPolicy_sublist (events : List Event) :
    (applyStrictSameKeyFoldPolicy H events).1.Sublist (sortOn eventOrder events) := by
  obtain ⟨kept, hk, hs⟩ := kept_foldl_step (H := H) (sortOn eventOrder events) ⟨∅, [], []⟩
  rw [List.nil_append] at hk
  change (List.foldl (FoldScan.step H) ⟨∅, [], []⟩ (sortOn eventOrder events)).kept.Sublist _
  rwa [hk]

namespace AnchorBuilder

variable [DecidableEq D] {b f b' : AnchorBuilder D} {inFlight : HashSet EventId}
    {events : List Event}

omit [DecidableEq D] in
/-- What a builder selects are the first events that the fold policy keeps. -/
theorem selectEvents_eq_ok {dag : Dag} (h : b.selectEvents H dag inFlight = .ok events) :
    events = (applyStrictSameKeyFoldPolicy H (dag.getPendingEvents.filter
      fun event ↦ !decide (event.id ∈ inFlight))).1.take b.config.maxEventsPerCf := by
  unfold selectEvents at h
  dsimp only at h
  split at h
  · cases h
  · split at h
    · cases h
    · cases h
      rfl

omit [DecidableEq D] in
private theorem nodup_of_selectEvents {dag : Dag} (h : b.selectEvents H dag inFlight = .ok events) :
    (events.map (·.id)).Nodup := by
  have hs := (List.take_sublist b.config.maxEventsPerCf _).trans
    (applyStrictSameKeyFoldPolicy_sublist (H := H)
      (dag.getPendingEvents.filter fun event ↦ !decide (event.id ∈ inFlight)))
  rw [selectEvents_eq_ok h]
  apply (hs.map _).nodup
  apply ((sortOn_perm eventOrder _).map _).nodup_iff.mpr
  exact (List.filter_sublist.map _).nodup dag.nodup_getPendingEvents

variable {pending : PendingAnchorBuild D}

/-- Both ways of preparing run the same construction on the events they select. -/
theorem selected_of_ok {dag : Dag} {vlc : VLCSnapshot} {interval instant : Nat} {now : UInt64}
    (h : b.prepareBuild H dag vlc inFlight now = .ok pending ∨
      b.prepareBuildHeartbeat H dag vlc interval instant inFlight now = .ok pending) :
    ∃ selected : List Event, b.selectEvents H dag inFlight = .ok selected ∧
      pending = b.prepareBuildInternal H selected vlc dag.maxDepth now := by
  have hs : (do
      let events ← b.selectEvents H dag inFlight
      .ok (b.prepareBuildInternal H events vlc dag.maxDepth now)) = Except.ok pending →
      ∃ selected : List Event, b.selectEvents H dag inFlight = .ok selected ∧
        pending = b.prepareBuildInternal H selected vlc dag.maxDepth now := by
    intro hok
    obtain ⟨selected, hse, hp⟩ := bind_eq_ok.mp hok
    exact ⟨selected, hse, (Except.ok.inj hp).symm⟩
  unfold prepareBuild prepareBuildHeartbeat at h
  dsimp only at h
  rcases h with h | h
  · split at h
    · cases h
    · exact hs h
  · split at h
    · cases h
    · exact hs h

/-- Both ways of preparing run the same construction on events with distinct identifiers. -/
theorem prepared_of_ok {dag : Dag} {vlc : VLCSnapshot} {interval instant : Nat} {now : UInt64}
    (h : b.prepareBuild H dag vlc inFlight now = .ok pending ∨
      b.prepareBuildHeartbeat H dag vlc interval instant inFlight now = .ok pending) :
    ∃ selected : List Event, (selected.map (·.id)).Nodup ∧
      pending = b.prepareBuildInternal H selected vlc dag.maxDepth now := by
  obtain ⟨selected, hs, rfl⟩ := selected_of_ok h
  exact ⟨selected, nodup_of_selectEvents hs, rfl⟩

/-- Applying and committing, when the backend accepts. -/
theorem applyAndCommit_of_ok {depth : UInt64} {answer : Except MerkleError Unit}
    {summary : StateApplySummary D}
    (h : b.applyAndCommit H events depth answer = (.ok summary, b')) :
    summary = (b.manager.applyCommittedEvents H events depth).2 ∧
      b' = { b with manager :=
        ((b.manager.applyCommittedEvents H events depth).1.commit H (b.anchorDepth + 1)
          answer).2 } := by
  unfold applyAndCommit at h
  dsimp only at h
  split at h <;> cases h
  exact ⟨rfl, rfl⟩

/-- Applying and committing succeeds when the backend accepts. -/
theorem applyAndCommit_ok (b : AnchorBuilder D) (events : List Event) (depth : UInt64) :
    (b.applyAndCommit H events depth (.ok ())).1 =
      .ok (b.manager.applyCommittedEvents H events depth).2 := by
  have hc : ∀ (g : GlobalStateManager D) (anchorId : UInt64),
      (g.commit H anchorId (.ok ())).1 = .ok () := by
    intro g anchorId
    unfold GlobalStateManager.commit
    cases g.store <;> rfl
  unfold applyAndCommit
  dsimp only
  rw [hc]

theorem verifySnapshot_takeSnapshot (b : AnchorBuilder D) :
    b.verifySnapshot b.takeSnapshot = true := by
  simp [verifySnapshot, takeSnapshot]

/-- A build can be committed from the state it was prepared in. -/
theorem commitBuild_prepareBuildInternal (b : AnchorBuilder D) (events : List Event)
    (vlc : VLCSnapshot) (toDepth now : UInt64) (instant : Nat) :
    ∃ summary b', b.commitBuild H (b.prepareBuildInternal H events vlc toDepth now) (.ok ())
      instant = (.ok summary, b') := by
  unfold commitBuild
  have hs : b.verifySnapshot
      (b.prepareBuildInternal H events vlc toDepth now).preBuildSnapshot = true :=
    b.verifySnapshot_takeSnapshot
  rw [hs]
  dsimp only [Bool.not_true, Bool.false_eq_true, if_false]
  rw [applyAndCommit_ok]
  exact ⟨_, _, rfl⟩

/-- A successful commit, in terms of the manager it started from. -/
theorem commitBuild_of_ok {answer : Except MerkleError Unit} {instant : Nat}
    {summary : StateApplySummary D}
    (h : b.commitBuild H pending answer instant = (.ok summary, b')) :
    summary = (b.manager.applyCommittedEvents H pending.allEvents pending.newAnchorDepth).2 ∧
      b'.manager = ((b.manager.applyCommittedEvents H pending.allEvents
        pending.newAnchorDepth).1.commit H (b.anchorDepth + 1) answer).2 ∧
      b'.takeSnapshot = ⟨some pending.anchor.id, pending.newAnchorDepth, pending.newLastFoldVlc,
        pending.newAnchorChainRoot, b.totalAnchorCount + 1⟩ ∧
      b'.outcomesSink = b.outcomesSink.map (· ++ pending.allEvents.map fun event ↦
        (event.id, outcomeOf pending.anchor.id summary event)) := by
  unfold commitBuild at h
  split at h
  · cases h
  · generalize hc :
      b.applyAndCommit H pending.allEvents pending.newAnchorDepth answer = committed at h
    obtain ⟨result, committed⟩ := committed
    cases result with
    | error e => cases h
    | ok summary =>
      have ha := applyAndCommit_of_ok hc
      cases h
      rw [ha.2]
      exact ⟨ha.1, rfl, rfl, rfl⟩

/-- What a follower's success amounts to when the declared root is the one it computes. -/
theorem applyFollowerFinalizedCf_of_root (f : AnchorBuilder D) (cf : ConsensusFrame D)
    {roots : AnchorMerkleRoots D} (hl : events.length = cf.anchor.eventIds.length)
    (hr : cf.anchor.merkleRoots = some roots)
    (hro : ((f.manager.clone.applyCommittedEvents H events (cf.anchor.depth +
      1)).1.computeGlobalRoot H).1 = roots.globalStateRoot) (instant : Nat) :
    let applied := f.manager.applyCommittedEvents H events (cf.anchor.depth + 1)
    ∃ f', f.applyFollowerFinalizedCf H events cf (.ok ()) instant = (.ok applied.2, f') ∧
      f'.manager = (applied.1.commit H (f.anchorDepth + 1) (.ok ())).2 ∧
      f'.takeSnapshot = ⟨some cf.anchor.id, cf.anchor.depth + 1, cf.anchor.vlcSnapshot.logicalTime,
        chainHash H roots.anchorChainRoot (cf.anchor.computeHash H), f.totalAnchorCount + 1⟩ ∧
      f'.outcomesSink = f.outcomesSink.map (· ++ events.map fun event ↦
        (event.id, outcomeOf cf.anchor.id applied.2 event)) := by
  intro applied
  have hv : f.verifyAndApply H events cf.anchor (.ok ()) =
      f.applyAndCommit H events (cf.anchor.depth + 1) (.ok ()) := by
    unfold verifyAndApply
    simp only [hr, hro, ne_eq, not_true_eq_false, if_false]
  have hok : (f.applyAndCommit H events (cf.anchor.depth + 1) (.ok ())).1 = .ok applied.2 :=
    applyAndCommit_ok f events (cf.anchor.depth + 1)
  generalize hc : f.applyAndCommit H events (cf.anchor.depth + 1) (.ok ()) = committed at hv hok
  obtain ⟨result, committed⟩ := committed
  cases hok
  have ha := applyAndCommit_of_ok hc
  refine ⟨(committed.ingestOutcomes cf.anchor.id events applied.2).synchronizeFinalizedAnchor H
    cf.anchor instant, ?_, ?_⟩
  · unfold applyFollowerFinalizedCf
    rw [if_neg (not_not.mpr hl), hv]
  · rw [ha.2]
    refine ⟨rfl, ?_, rfl⟩
    simp [synchronizeFinalizedAnchor, ingestOutcomes, takeSnapshot, hr]

section Agreement

variable {R : IncrementalSparseMerkleTree D → IncrementalSparseMerkleTree D → Prop}
  {selected events : List Event}

/-- The dry run's root is the root after applying the events, in any order, to any manager in
the builder's state. -/
theorem computeGlobalRoot_eq_dryRun (hR : TreeSim H R) {g : GlobalStateManager D}
    (hs : Sim R g b.manager) (hi : (selected.map (·.id)).Nodup)
    (hp : selected.Perm events) (depth : UInt64) :
    ((g.applyCommittedEvents H events depth).1.computeGlobalRoot H).1 =
      (b.buildMerkleRoots H selected).globalStateRoot := by
  have hc : Sim R b.manager.clone g := Sim.clone_left hR (hs.symm hR)
  exact ((hc.applyCommittedEvents hR hp hi 0 depth).1.computeGlobalRoot hR).symm

/-- The simulation behind the agreement of leader and follower, for any relation of trees. -/
theorem follower_simulates_leader (hR : TreeSim H R) (hi : (selected.map (·.id)).Nodup)
    {vlc : VLCSnapshot} {toDepth now : UInt64} {pending : PendingAnchorBuild D}
    (hpe : pending = b.prepareBuildInternal H selected vlc toDepth now)
    {answer : Except MerkleError Unit} {instant : Nat} {summary : StateApplySummary D}
    (hco : b.commitBuild H pending answer instant = (.ok summary, b'))
    (hsp : f.takeSnapshot = b.takeSnapshot) (hst : Sim R b.manager f.manager)
    (he : events.Perm pending.allEvents) {cf : ConsensusFrame D}
    (hcf : cf.anchor = pending.anchor) (instant' : Nat) :
    (b'.manager.computeGlobalRoot H).1 = (b.buildMerkleRoots H selected).globalStateRoot ∧
    ∃ f', f.applyFollowerFinalizedCf H events cf (.ok ()) instant' = (.ok summary, f') ∧
      Sim R b'.manager f'.manager ∧ f'.takeSnapshot = b'.takeSnapshot ∧
      ∃ verdicts verdicts' : List (EventId × ExecutionOutcome), verdicts.Perm verdicts' ∧
        b'.outcomesSink = b.outcomesSink.map (· ++ verdicts) ∧
        f'.outcomesSink = f.outcomesSink.map (· ++ verdicts') := by
  subst hpe
  have hse : Sim R b.manager b.manager := hst.trans hR (hst.symm hR)
  have hp : selected.Perm (RoutedEvents.routeEvents selected).allEvents :=
    (RoutedEvents.allEvents_routeEvents selected).symm
  have hp' : selected.Perm events := hp.trans he.symm
  obtain ⟨hsu, hm, hsn, hs⟩ := commitBuild_of_ok hco
  -- the leader: its committed state is the applied one
  have hl := Sim.commit_left hR
    (hse.applyCommittedEvents hR (.refl _) ((hp.map _).nodup_iff.mp hi) (toDepth + 1)
      (toDepth + 1)).1 (b.anchorDepth + 1) answer
  have hr : (b'.manager.computeGlobalRoot H).1 =
      (b.buildMerkleRoots H selected).globalStateRoot := by
    rw [hm]
    exact (hl.computeGlobalRoot hR).trans (computeGlobalRoot_eq_dryRun hR hse hi hp (toDepth + 1))
  refine ⟨hr, ?_⟩
  -- the follower: same sorted events on a related state
  have hb := hst.applyCommittedEvents hR (hp.symm.trans hp')
    ((hp.map _).nodup_iff.mp hi) (toDepth + 1) (toDepth + 1)
  have hd : cf.anchor.depth = toDepth := by rw [hcf]; rfl
  obtain ⟨f', ha, hm', hsn', hs'⟩ := applyFollowerFinalizedCf_of_root f cf
      (by rw [hcf, ← hp'.length_eq]; exact (List.length_map _).symm)
      (by rw [hcf]; rfl)
      (computeGlobalRoot_eq_dryRun hR (Sim.clone_left hR (hst.symm hR)) hi hp' _) instant'
  rw [hd] at ha hm' hs'
  have hv : (f.manager.applyCommittedEvents H events (toDepth + 1)).2 = summary :=
    hb.2.symm.trans hsu.symm
  rw [hv] at ha hs'
  refine ⟨f', ha, ?_, ?_, _, _, ?_, hs, hs'⟩
  · rw [hm, hm']
    exact Sim.commit_left hR
      ((Sim.commit_left hR (hb.1.symm hR) (f.anchorDepth + 1) (.ok ())).symm hR) _ _
  · rw [hsn, hsn', hcf]
    have hc := congrArg BuilderStateSnapshot.totalAnchorCount hsp
    change f.totalAnchorCount = b.totalAnchorCount at hc
    rw [hc]
    rfl
  · rw [hcf]
    exact he.symm.map _

end Agreement

/-- Leader and follower compute the same state. When an anchor is prepared (by either variant)
and committed from one state of the builder, the committed root is the declared one; and a
follower with the same builder snapshot and the same trees, given the events in any order,
applies the frame with the same summary, and ends with the same trees, global root, builder
snapshot and verdict on each event. -/
theorem leader_follower_agree {dag : Dag} {vlc : VLCSnapshot} {inFlight : HashSet EventId}
    {interval instant : Nat} {now : UInt64} {pending : PendingAnchorBuild D}
    (hbuild : b.prepareBuild H dag vlc inFlight now = .ok pending ∨
      b.prepareBuildHeartbeat H dag vlc interval instant inFlight now = .ok pending)
    {answer : Except MerkleError Unit} {commitInstant : Nat} {summary : StateApplySummary D}
    (hcommit : b.commitBuild H pending answer commitInstant = (.ok summary, b'))
    (hsnapshot : f.takeSnapshot = b.takeSnapshot) (hstate : Sim SameTree b.manager f.manager)
    {events : List Event} (hevents : events.Perm pending.allEvents) {cf : ConsensusFrame D}
    (hcf : cf.anchor = pending.anchor) (followInstant : Nat) :
    (∃ roots, pending.anchor.merkleRoots = some roots ∧
      (b'.manager.computeGlobalRoot H).1 = roots.globalStateRoot) ∧
    ∃ f', f.applyFollowerFinalizedCf H events cf (.ok ()) followInstant = (.ok summary, f') ∧
      Sim SameTree b'.manager f'.manager ∧
      (f'.manager.computeGlobalRoot H).1 = (b'.manager.computeGlobalRoot H).1 ∧
      f'.takeSnapshot = b'.takeSnapshot ∧
      ∃ verdicts verdicts' : List (EventId × ExecutionOutcome), verdicts.Perm verdicts' ∧
        b'.outcomesSink = b.outcomesSink.map (· ++ verdicts) ∧
        f'.outcomesSink = f.outcomesSink.map (· ++ verdicts') := by
  obtain ⟨selected, hi, hp⟩ := prepared_of_ok hbuild
  obtain ⟨hr, f', ha, hs, hre⟩ := follower_simulates_leader (treeSim_sameTree H) hi
    hp hcommit hsnapshot hstate hevents hcf followInstant
  have hro : pending.anchor.merkleRoots = some (b.buildMerkleRoots H selected) := by
    rw [hp]
    rfl
  have hg := (hs.computeGlobalRoot (treeSim_sameTree H)).symm
  exact ⟨⟨_, hro, hr⟩, f', ha, hs, hg, hre⟩

/-- An event that creates the object with identifier zero. -/
def mintEvent : Event :=
  { Event.new Blake3.ideal .system [] ⟨∅, 5, 0⟩ "validator-1" 3 with
    id := "e1"
    executionResult := some ⟨true, none,
      [⟨"oid:" ++ String.ofList (List.replicate 64 '0'), none, some [1], none⟩]⟩ }

/-- A builder at genesis with an outcome sink. -/
def genesisBuilder : AnchorBuilder (Option Bytes) :=
  { new Blake3.ideal {} with outcomesSink := some [] }

/-- A leader at genesis folds one event, and a follower without an outcome sink follows. -/
theorem leader_follower_agree_mint :
    ∃ pending summary b' f', genesisBuilder.prepareBuild Blake3.ideal (Dag.new.store mintEvent 0)
        ⟨∅, 12, 0⟩ ∅ 9 = .ok pending ∧
      genesisBuilder.commitBuild Blake3.ideal pending (.ok ()) 0 = (.ok summary, b') ∧
      (new Blake3.ideal {}).applyFollowerFinalizedCf Blake3.ideal [mintEvent]
        (ConsensusFrame.new Blake3.ideal 0 pending.anchor "validator-1" 9) (.ok ()) 0 =
          (.ok summary, f') ∧
      f'.takeSnapshot = b'.takeSnapshot := by
  obtain ⟨summary, b', hc⟩ := genesisBuilder.commitBuild_prepareBuildInternal
    (H := Blake3.ideal) [mintEvent] ⟨∅, 12, 0⟩ 0 9 0
  have he : [mintEvent].Perm (genesisBuilder.prepareBuildInternal Blake3.ideal [mintEvent]
      ⟨∅, 12, 0⟩ 0 9).allEvents := (RoutedEvents.allEvents_routeEvents [mintEvent]).symm
  have hs : genesisBuilder.selectEvents Blake3.ideal (Dag.new.store mintEvent 0) ∅ =
      .ok [mintEvent] := rfl
  have hb : genesisBuilder.prepareBuild Blake3.ideal (Dag.new.store mintEvent 0) ⟨∅, 12, 0⟩ ∅ 9 =
      .ok (genesisBuilder.prepareBuildInternal Blake3.ideal [mintEvent] ⟨∅, 12, 0⟩ 0 9) := by
    unfold prepareBuild
    rw [hs]
    rfl
  generalize genesisBuilder.prepareBuildInternal Blake3.ideal [mintEvent] ⟨∅, 12, 0⟩ 0 9 = pending
    at hb hc he
  have hsn : (new Blake3.ideal {}).takeSnapshot = genesisBuilder.takeSnapshot := rfl
  have hst : Sim SameTree genesisBuilder.manager (new Blake3.ideal {}).manager := by
    intro subnetId
    cases h : genesisBuilder.manager.subnetStates.lookup subnetId with
    | none => exact .inl ⟨rfl, h⟩
    | some smt => exact .inr ⟨smt, smt, rfl, h, rfl⟩
  have hcf : (ConsensusFrame.new Blake3.ideal 0 pending.anchor "validator-1" 9).anchor =
      pending.anchor := rfl
  have hp : _ ∨ genesisBuilder.prepareBuildHeartbeat Blake3.ideal (Dag.new.store mintEvent 0)
      ⟨∅, 12, 0⟩ 0 0 ∅ 9 = .ok pending := .inl hb
  have ha := leader_follower_agree hp hc hsn hst he hcf 0
  obtain ⟨-, f', hap, -, -, hsp, -⟩ := ha
  exact ⟨pending, summary, b', f', hb, hc, hap, hsp⟩

variable (H) in
/-- The leader prepares and commits one anchor after another; each reaches the followers in a
frame, with its events in some order. -/
def Leads : AnchorBuilder D → List (ConsensusFrame D × List Event) → AnchorBuilder D → Prop
  | b, [], b' => b = b'
  | b, (cf, events) :: frames, b' =>
    ∃ dag vlc inFlight interval instant now pending answer commitInstant summary committed,
      (b.prepareBuild H dag vlc inFlight now = .ok pending ∨
        b.prepareBuildHeartbeat H dag vlc interval instant inFlight now = .ok pending) ∧
      b.commitBuild H pending answer commitInstant = (.ok summary, committed) ∧
      cf.anchor = pending.anchor ∧ events.Perm pending.allEvents ∧ Leads committed frames b'

variable (H) in
/-- A follower applies frames one after another, as long as each is accepted. -/
def follow (f : AnchorBuilder D) (frames : List (ConsensusFrame D × List Event)) :
    Except (AnchorBuildError D) (AnchorBuilder D) :=
  frames.foldlM (fun f frame ↦
    let applied := f.applyFollowerFinalizedCf H frame.2 frame.1 (.ok ()) 0
    applied.1.map fun _ ↦ applied.2) f

/-- Leader and follower agree over whole sequences of anchors: from the leader's snapshot and
related trees, a follower accepts every frame and ends with the leader's snapshot and root. -/
theorem follow_of_leads {R : IncrementalSparseMerkleTree D → IncrementalSparseMerkleTree D → Prop}
    (hR : TreeSim H R) {frames : List (ConsensusFrame D × List Event)}
    (hleads : Leads H b frames b') (hsnapshot : f.takeSnapshot = b.takeSnapshot)
    (hstate : Sim R b.manager f.manager) :
    ∃ f', f.follow H frames = .ok f' ∧ Sim R b'.manager f'.manager ∧
      (f'.manager.computeGlobalRoot H).1 = (b'.manager.computeGlobalRoot H).1 ∧
      f'.takeSnapshot = b'.takeSnapshot := by
  induction frames generalizing b f with
  | nil =>
    cases hleads
    exact ⟨f, rfl, hstate, (hstate.computeGlobalRoot hR).symm, hsnapshot⟩
  | cons frame frames ih =>
    obtain ⟨_, _, _, _, _, _, _, _, _, _, _, hbuild, hcommit, hcf, hevents, hrest⟩ := hleads
    obtain ⟨_, hi, hp⟩ := prepared_of_ok hbuild
    obtain ⟨-, f₁, ha, hs, hsn, -⟩ :=
      follower_simulates_leader hR hi hp hcommit hsnapshot hstate hevents hcf 0
    obtain ⟨f', hf, hre⟩ := ih hrest hsn hs
    refine ⟨f', ?_, hre⟩
    rw [follow, List.foldlM_cons, ha]
    exact hf

theorem follow_of_leads_mint :
    ∃ frame b' f', Leads Blake3.ideal genesisBuilder [frame] b' ∧
      (new Blake3.ideal {}).follow Blake3.ideal [frame] = .ok f' ∧
      f'.takeSnapshot = b'.takeSnapshot := by
  obtain ⟨summary, b', hc⟩ := genesisBuilder.commitBuild_prepareBuildInternal
    (H := Blake3.ideal) [mintEvent] ⟨∅, 12, 0⟩ 0 9 0
  have hl : Leads Blake3.ideal genesisBuilder [(.new Blake3.ideal 0 (prepareBuildInternal
      Blake3.ideal genesisBuilder [mintEvent] ⟨∅, 12, 0⟩ 0 9).anchor "v" 9, [mintEvent])] b' :=
    ⟨Dag.new.store mintEvent 0, ⟨∅, 12, 0⟩, ∅, 0, 0, 9, _, _, _, _, _, .inl rfl, hc, rfl,
      (RoutedEvents.allEvents_routeEvents _).symm, rfl⟩
  let g := { genesisBuilder.manager with subnetStates := ∅ }
  have hR := treeSim_sameTree Blake3.ideal
  have hg : Sim SameTree g g := fun _ ↦ .inl ⟨rfl, rfl⟩
  obtain ⟨f', hf, -, -, hs⟩ := follow_of_leads (f := new Blake3.ideal {}) hR hl rfl
    ((hg.touchSubnet hR .root).touchSubnet hR .governance)
  exact ⟨_, b', f', hl, hf, hs⟩

end AnchorBuilder

/-- Routing and collecting gives every event once, whatever order the groups come in. The state
after applying the collected events is that of the original list, provided that events with the same
logical time and identifier are the same. -/
theorem routing_keeps_events [DecidableEq D] (events : List Event) :
    (RoutedEvents.routeEvents events).allEvents.Perm events ∧
      ∀ (g : GlobalStateManager D) (depth : UInt64) (collected : List Event),
        collected.Perm (RoutedEvents.routeEvents events).allEvents →
        (∀ a ∈ events, ∀ b ∈ events, eventOrder a = eventOrder b → a = b) →
        g.applyCommittedEvents H collected depth = g.applyCommittedEvents H events depth := by
  have hp := RoutedEvents.allEvents_routeEvents events
  refine ⟨hp, fun g depth collected hc hi ↦ ?_⟩
  rw [GlobalStateManager.applyCommittedEvents, GlobalStateManager.applyCommittedEvents,
    sortOn_eq_of_perm_of_injOn (hc.trans hp).symm hi]

/-- Two events with one identifier and logical time, the first without a subnet, each creating the
same object: routing puts the second before the first, and the other object stays. -/
theorem routing_reorders_equal_ids :
    let unrouted := { AnchorBuilder.mintEvent with
      subnetId := none
      executionResult := some ⟨true, none,
        [⟨"oid:" ++ String.ofList (List.replicate 64 '0'), none, some [2], none⟩]⟩ }
    let events := [unrouted, AnchorBuilder.mintEvent]
    let applied := (GlobalStateManager.new Blake3.ideal).applyCommittedEvents Blake3.ideal
    let leaf := fun events : List Event ↦
      ((applied events 0).1.subnet Blake3.ideal .root).get ⟨Vector.replicate 32 0⟩
    leaf events = some [2] ∧ leaf (RoutedEvents.routeEvents events).allEvents = some [1] := by
  decide +kernel

end Setu.Consensus
