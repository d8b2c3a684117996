import Setu.State.Manager

/-!
# Managers in the same state

Library `State`. Two managers that hold the same object state take the same decisions on the
same events and stay in the same state, whatever their storage backend, change tracking and
modification records. The argument is a simulation over any relation of trees that the tree
operations preserve, as copying does.
-/

namespace Setu.State

open Setu.Base Setu.Types Setu.Merkle

variable {D : Type} [DecidableEq D]

/-- A partial equivalence of trees that every operation preserves and that shows only the
leaves and the root. -/
structure TreeSim (H : Blake3 D)
    (R : IncrementalSparseMerkleTree D → IncrementalSparseMerkleTree D → Prop) : Prop where
  symm : ∀ {t t'}, R t t' → R t' t
  trans : ∀ {t t' t''}, R t t' → R t' t'' → R t t''
  new : R (.new H) (.new H)
  clone : ∀ {t t'}, R t t' → R t.clone t'
  insert : ∀ {t t'}, R t t' → ∀ key value, R (t.insert H key value).1 (t'.insert H key value).1
  remove : ∀ {t t'}, R t t' → ∀ key, R (t.remove H key).1 (t'.remove H key).1
  lookup : ∀ {t t'}, R t t' → ∀ key, t.leaves.lookup key = t'.leaves.lookup key
  root : ∀ {t t'}, R t t' → t.rootHash = t'.rootHash

/-- Trees that differ in their change tracking only. -/
def SameTree (t t' : IncrementalSparseMerkleTree D) : Prop := t.clone = t'.clone

/-- Copies simulate each other; no assumption on the hash is needed. -/
theorem treeSim_sameTree (H : Blake3 D) : TreeSim H SameTree where
  symm h := Eq.symm h
  trans h h' := Eq.trans h h'
  new := rfl
  clone h := h
  insert := by
    rintro ⟨root, leaves, nodes, _, _⟩ ⟨_, _, _, _, _⟩ h key value
    cases h
    rfl
  remove := by
    rintro ⟨root, leaves, nodes, dirty, deleted⟩ ⟨_, _, _, dirty', deleted'⟩ h key
    cases h
    unfold SameTree IncrementalSparseMerkleTree.remove
    cases leaves.lookup key <;> rfl
  lookup h key := congrArg (fun t ↦ t.leaves.lookup key) h
  root h := congrArg (fun t ↦ t.rootHash) h

/-- The managers have the same subnets, with related trees. -/
def Sim (R : IncrementalSparseMerkleTree D → IncrementalSparseMerkleTree D → Prop)
    (g g' : GlobalStateManager D) : Prop :=
  ∀ subnetId,
    (g.subnetStates.lookup subnetId = none ∧ g'.subnetStates.lookup subnetId = none) ∨
      ∃ smt smt', g.subnetStates.lookup subnetId = some smt ∧
        g'.subnetStates.lookup subnetId = some smt' ∧ R smt.tree smt'.tree

variable {H : Blake3 D}
  {R : IncrementalSparseMerkleTree D → IncrementalSparseMerkleTree D → Prop}
  {g g' g'' : GlobalStateManager D}

namespace Sim

theorem symm (hR : TreeSim H R) (h : Sim R g g') : Sim R g' g := by
  intro subnetId
  rcases h subnetId with hn | ⟨smt, smt', hg, hg', hs⟩
  · exact .inl hn.symm
  · exact .inr ⟨smt', smt, hg', hg, hR.symm hs⟩

theorem trans (hR : TreeSim H R) (h : Sim R g g') (h' : Sim R g' g'') : Sim R g g'' := by
  intro subnetId
  rcases h subnetId with hn | ⟨smt, smt', hg, hg', hs⟩ <;>
    rcases h' subnetId with hn' | ⟨mid, smt'', hm, hg'', hs'⟩
  · exact .inl ⟨hn.1, hn'.2⟩
  · exact absurd (hn.2.symm.trans hm) (by simp)
  · exact absurd (hn'.1.symm.trans hg') (by simp)
  · cases hg'.symm.trans hm
    exact .inr ⟨smt, smt'', hg, hg'', hR.trans hs hs'⟩

omit [DecidableEq D] in
private theorem mapVal_left {f : SubnetStateSMT D → SubnetStateSMT D}
    (hf : ∀ {smt smt' : SubnetStateSMT D}, R smt.tree smt'.tree → R (f smt).tree smt'.tree)
    (h : Sim R g g') : Sim R { g with subnetStates := g.subnetStates.mapVal f } g' := by
  intro subnetId
  change (HashMap.mapVal f g.subnetStates).lookup subnetId = none ∧ _ ∨
    ∃ smt smt', (HashMap.mapVal f g.subnetStates).lookup subnetId = some smt ∧ _
  rw [HashMap.lookup_mapVal]
  rcases h subnetId with hn | ⟨smt, smt', hg, hg', hs⟩
  · exact .inl ⟨by rw [hn.1]; rfl, hn.2⟩
  · exact .inr ⟨f smt, smt', by rw [hg]; rfl, hg', hf hs⟩

/-- A copy is in the state of its original. -/
theorem clone_left (hR : TreeSim H R) (h : Sim R g g') : Sim R g.clone g' :=
  mapVal_left hR.clone h

/-- A commit, answered or refused by the backend, does not change the state. -/
theorem commit_left (hR : TreeSim H R) (h : Sim R g g') (anchorId : UInt64)
    (answer : Except MerkleError Unit) : Sim R (g.commit H anchorId answer).2 g' := by
  have hm := mapVal_left (f := fun smt ↦ { smt with lastUpdatedAnchor := anchorId }) id h
  have hd := mapVal_left (f := SubnetStateSMT.clone) hR.clone hm
  unfold GlobalStateManager.commit
  split
  · exact hm
  · cases answer with
    | error e => exact hd
    | ok _ => exact hd

theorem subnet (hR : TreeSim H R) (h : Sim R g g') (subnetId : SubnetId) :
    R (g.subnet H subnetId).tree (g'.subnet H subnetId).tree := by
  unfold GlobalStateManager.subnet
  rcases h subnetId with hn | ⟨smt, smt', hg, hg', hs⟩
  · rw [hn.1, hn.2]
    exact hR.new
  · rw [hg, hg']
    exact hs

theorem get (hR : TreeSim H R) (h : Sim R g g') (subnetId : SubnetId) (objectId : HashValue) :
    (g.subnet H subnetId).get objectId = (g'.subnet H subnetId).get objectId :=
  hR.lookup (h.subnet hR subnetId) objectId

theorem modifySubnet (hR : TreeSim H R) (h : Sim R g g') (subnetId : SubnetId)
    {f f' : SubnetStateSMT D → SubnetStateSMT D}
    (hf : ∀ {smt smt'}, R smt.tree smt'.tree → R (f smt).tree (f' smt').tree) :
    Sim R (g.modifySubnet H subnetId f) (g'.modifySubnet H subnetId f') := by
  intro other
  unfold GlobalStateManager.modifySubnet
  by_cases heq : other = subnetId
  · subst heq
    exact .inr ⟨_, _, AList.lookup_insert _, AList.lookup_insert _, hf (h.subnet hR other)⟩
  · rw [AList.lookup_insert_ne heq, AList.lookup_insert_ne heq]
    exact h other

theorem touchSubnet (hR : TreeSim H R) (h : Sim R g g') (subnetId : SubnetId) :
    Sim R (g.touchSubnet H subnetId) (g'.touchSubnet H subnetId) :=
  h.modifySubnet hR subnetId id

theorem applyStateChange (hR : TreeSim H R) (h : Sim R g g') (subnetId : SubnetId)
    (change : StateChange) :
    Sim R (g.applyStateChange H subnetId change) (g'.applyStateChange H subnetId change) := by
  unfold GlobalStateManager.applyStateChange
  cases change.newValue with
  | some value => exact h.modifySubnet hR subnetId fun hs ↦ hR.insert hs _ _
  | none => exact h.modifySubnet hR subnetId fun hs ↦ hR.remove hs _

theorem applyExecutionResult (hR : TreeSim H R) (h : Sim R g g') (subnetId : SubnetId)
    (result : ExecutionResult) :
    Sim R (g.applyExecutionResult H subnetId result).1
        (g'.applyExecutionResult H subnetId result).1 ∧
      (g.applyExecutionResult H subnetId result).2 =
        (g'.applyExecutionResult H subnetId result).2 := by
  unfold GlobalStateManager.applyExecutionResult
  have ha : Sim R
      (result.stateChanges.foldl (fun g change ↦ g.applyStateChange H (changeTarget change subnetId)
        change) g)
      (result.stateChanges.foldl (fun g change ↦ g.applyStateChange H (changeTarget change subnetId)
        change) g') := by
    induction result.stateChanges generalizing g g' with
    | nil => exact h
    | cons change rest ih => exact ih (h.applyStateChange hR _ change)
  exact ⟨ha.touchSubnet hR subnetId, hR.root (ha.subnet hR subnetId)⟩

/-- The conflict check reports the same change on both sides. -/
theorem findConflict (hR : TreeSim H R) (subnetId : SubnetId) (changes : List StateChange) :
    ∀ {g g' : GlobalStateManager D} (pending : GlobalStateManager.PendingWrites), Sim R g g' →
      Sim R (g.findConflict H subnetId pending changes).1
          (g'.findConflict H subnetId pending changes).1 ∧
        (g.findConflict H subnetId pending changes).2 =
          (g'.findConflict H subnetId pending changes).2 := by
  induction changes with
  | nil => exact fun _ h ↦ ⟨h, rfl⟩
  | cons change rest ih =>
    intro g g' pending h
    have ht := h.touchSubnet hR (changeTarget change subnetId)
    simp only [GlobalStateManager.findConflict, h.get hR]
    split
    · split
      · split
        · exact ih _ h
        · exact ⟨h, rfl⟩
      · split
        · exact ih _ ht
        · exact ⟨ht, rfl⟩
    · split
      · split
        · exact ⟨ht, rfl⟩
        · exact ih _ ht
      · exact ih _ h

/-- One event: same verdict, related states. The recorded depth may differ. -/
theorem applyEvent (hR : TreeSim H R) (depth depth' : UInt64)
    {state state' : GlobalStateManager D × StateApplySummary D} (h : Sim R state.1 state'.1)
    (hs : state.2 = state'.2) (event : Event) :
    Sim R (GlobalStateManager.applyEvent H depth state event).1
        (GlobalStateManager.applyEvent H depth' state' event).1 ∧
      (GlobalStateManager.applyEvent H depth state event).2 =
        (GlobalStateManager.applyEvent H depth' state' event).2 := by
  unfold GlobalStateManager.applyEvent
  rw [hs]
  cases event.executionResult with
  | none => exact ⟨h, hs⟩
  | some result =>
    have hc := findConflict hR event.getSubnetId result.stateChanges ∅ h
    have ha := hc.1.applyExecutionResult hR event.getSubnetId result
    dsimp only
    split
    · exact ⟨h, rfl⟩
    · rw [hc.2, ha.2]
      split
      · exact ⟨hc.1, rfl⟩
      · exact ⟨ha.1, rfl⟩

private theorem foldl_applyEvent (hR : TreeSim H R) (depth depth' : UInt64) (events : List Event) :
    ∀ {state state' : GlobalStateManager D × StateApplySummary D}, Sim R state.1 state'.1 →
      state.2 = state'.2 →
      Sim R (events.foldl (GlobalStateManager.applyEvent H depth) state).1
          (events.foldl (GlobalStateManager.applyEvent H depth') state').1 ∧
        (events.foldl (GlobalStateManager.applyEvent H depth) state).2 =
          (events.foldl (GlobalStateManager.applyEvent H depth') state').2 := by
  induction events with
  | nil => exact fun h hs ↦ ⟨h, hs⟩
  | cons event rest ih =>
    intro state state' h hs
    have hst := h.applyEvent hR depth depth' hs event
    exact ih hst.1 hst.2

/-- Committed events with distinct identifiers, given in any two orders: same verdicts, related
states. -/
theorem applyCommittedEvents (hR : TreeSim H R) (h : Sim R g g') {events events' : List Event}
    (hp : events.Perm events') (hi : (events.map (·.id)).Nodup) (depth depth' : UInt64) :
    Sim R (g.applyCommittedEvents H events depth).1 (g'.applyCommittedEvents H events' depth').1 ∧
      (g.applyCommittedEvents H events depth).2 = (g'.applyCommittedEvents H events' depth').2 := by
  unfold GlobalStateManager.applyCommittedEvents
  rw [sortOn_eq_of_perm hp (nodup_map_eventOrder hi)]
  exact foldl_applyEvent hR depth depth' _ h rfl

/-- Managers in the same state have the same global root. -/
theorem computeGlobalRoot (hR : TreeSim H R) (h : Sim R g g') :
    (g.computeGlobalRoot H).1 = (g'.computeGlobalRoot H).1 := by
  have hr : ∀ subnetId, (g.subnetStates.mapVal SubnetStateSMT.root).lookup subnetId =
      (g'.subnetStates.mapVal SubnetStateSMT.root).lookup subnetId := by
    intro subnetId
    rw [HashMap.lookup_mapVal, HashMap.lookup_mapVal]
    rcases h subnetId with hn | ⟨smt, smt', hg, hg', hs⟩
    · rw [hn.1, hn.2]
    · rw [hg, hg']
      exact congrArg some (hR.root hs)
  have hp := HashMap.perm_toList_of_lookup_eq hr
  rw [HashMap.toList_mapVal, HashMap.toList_mapVal] at hp
  have he := hp.map fun e ↦ (⟨e.1.bytes, e.2⟩ : SubnetStateEntry D)
  rw [List.map_map, List.map_map] at he
  have hi : ((g.subnetStates.toList.map fun e ↦
      (⟨e.1.bytes, e.2.root⟩ : SubnetStateEntry D)).map (·.subnetId)).Nodup := by
    have hin : Function.Injective SubnetId.bytes := by
      rintro ⟨a⟩ ⟨b⟩ rfl
      rfl
    rw [List.map_map]
    have hk := g.subnetStates.nodup_keys_toList.map hin
    rwa [List.map_map] at hk
  have hb := SubnetAggregationTree.build_eq_of_perm H he hi
  unfold GlobalStateManager.computeGlobalRoot
  dsimp only
  rw [show (g.subnetStates.toList.map fun e ↦ (⟨e.1.bytes, e.2.root⟩ : SubnetStateEntry D)).isEmpty
    = (g'.subnetStates.toList.map fun e ↦ (⟨e.1.bytes, e.2.root⟩ : SubnetStateEntry D)).isEmpty from
    he.isEmpty_eq]
  split
  · rfl
  · exact congrArg SubnetAggregationTree.root hb

end Sim

end Setu.State
