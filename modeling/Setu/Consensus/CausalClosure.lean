import Setu.Consensus.DagInvariant
import Setu.Consensus.LeaderFollower

/-!
# Parents of the events in an anchor

Library `Consensus`. A parent of a pending event was finalized before, is in flight, or waits for a
frame itself. In the last case it stands in the frame of its child if it comes before the child in
the order of events and no earlier event takes a key from it that the child leaves alone. The fold
policy and the limit on events do not look at parents: without that a child is put into a frame
before its parent. Sources `consensus/src/anchor_builder.rs` and `consensus/src/dag_manager.rs`.
-/

namespace Setu.Consensus

open Setu.Base Setu.Types Setu.State

variable {D : Type} {H : Blake3 D}

namespace FoldScan

/-- The event writes a key that an event kept before it writes. -/
def Conflicts (H : Blake3 D) (scan : FoldScan) (event : Event) : Prop :=
  ∃ key ∈ collectEventWriteKeys H event, key ∈ scan.claimed

theorem step_of_conflicts {scan : FoldScan} {event : Event} (h : scan.Conflicts H event) :
    scan.step H event = { scan with deferred := scan.deferred ++ [event] } := by
  obtain ⟨key, hk, hc⟩ := h
  have ha : ((collectEventWriteKeys H event).keys.any fun key ↦
      decide (key ∈ scan.claimed)) = true :=
    List.any_eq_true.mpr ⟨key, AList.mem_keys.mp hk, decide_eq_true hc⟩
  rw [step]
  exact if_pos ha

theorem step_of_not_conflicts {scan : FoldScan} {event : Event} (h : ¬ scan.Conflicts H event) :
    (∀ key, key ∈ (scan.step H event).claimed ↔
        key ∈ scan.claimed ∨ key ∈ collectEventWriteKeys H event) ∧
      (scan.step H event).kept = scan.kept ++ [event] ∧
      (scan.step H event).deferred = scan.deferred := by
  have ha : ((collectEventWriteKeys H event).keys.any fun key ↦
      decide (key ∈ scan.claimed)) = false := by
    refine List.any_eq_false.mpr ?_
    intro key hk hc
    exact h ⟨key, AList.mem_keys.mpr hk, of_decide_eq_true hc⟩
  rw [step]
  simp only [ha, Bool.false_eq_true, if_false, and_true]
  intro key
  rw [HashMap.mem_insertAll, HashMap.mem_keys_toList]

/-- Claimed keys stay claimed, and are keys of events that were scanned. -/
theorem claimed_foldl (events : List Event) (scan : FoldScan) (key : ClaimedWriteKey) :
    (key ∈ scan.claimed → key ∈ (events.foldl (step H) scan).claimed) ∧
      (key ∈ (events.foldl (step H) scan).claimed →
        key ∈ scan.claimed ∨ ∃ event ∈ events, key ∈ collectEventWriteKeys H event) := by
  induction events generalizing scan with
  | nil => exact ⟨id, .inl⟩
  | cons event rest ih =>
    obtain ⟨hm, ho⟩ := ih (scan.step H event)
    have hs : (key ∈ scan.claimed → key ∈ (scan.step H event).claimed) ∧
        (key ∈ (scan.step H event).claimed →
          key ∈ scan.claimed ∨ key ∈ collectEventWriteKeys H event) := by
      by_cases hc : scan.Conflicts H event
      · rw [step_of_conflicts hc]
        exact ⟨id, .inl⟩
      · rw [(step_of_not_conflicts hc).1]
        exact ⟨.inl, id⟩
    refine ⟨fun hk ↦ hm (hs.1 hk), ?_⟩
    intro hk
    rcases ho hk with hk | ⟨other, hot, hk⟩
    · rcases hs.2 hk with hk | hk
      · exact .inl hk
      · exact .inr ⟨event, List.mem_cons_self, hk⟩
    · exact .inr ⟨other, List.mem_cons_of_mem _ hot, hk⟩

/-- An event is kept exactly if it does not conflict where it stands. -/
theorem mem_kept_foldl (events : List Event) (scan : FoldScan) (event : Event) :
    event ∈ (events.foldl (step H) scan).kept ↔ event ∈ scan.kept ∨
      ∃ before after, events = before ++ event :: after ∧
        ¬ (before.foldl (step H) scan).Conflicts H event := by
  induction events generalizing scan with
  | nil => simp
  | cons first rest ih =>
    have hk : event ∈ (scan.step H first).kept ↔
        event ∈ scan.kept ∨ event = first ∧ ¬ scan.Conflicts H first := by
      by_cases hc : scan.Conflicts H first
      · simp [step_of_conflicts hc, hc]
      · simp [(step_of_not_conflicts hc).2.1, hc]
    rw [List.foldl_cons, ih, hk, or_assoc]
    refine or_congr_right ?_
    constructor
    · rintro (⟨rfl, hc⟩ | ⟨before, after, rfl, hc⟩)
      · exact ⟨[], rest, rfl, hc⟩
      · exact ⟨first :: before, after, rfl, hc⟩
    · rintro ⟨before, after, heq, hc⟩
      cases before with
      | nil =>
        obtain ⟨rfl, rfl⟩ := List.cons.inj heq
        exact .inl ⟨rfl, hc⟩
      | cons other before =>
        obtain ⟨rfl, rfl⟩ := List.cons.inj heq
        exact .inr ⟨before, after, rfl, hc⟩

end FoldScan

/-- The events a frame can be made of: pending and not in flight. -/
def Dag.candidates (dag : Dag) (inFlight : HashSet EventId) : List Event :=
  dag.getPendingEvents.filter fun event ↦ !decide (event.id ∈ inFlight)

theorem Dag.mem_candidates {dag : Dag} {inFlight : HashSet EventId} {event : Event} :
    event ∈ dag.candidates inFlight ↔ event.id ∈ dag.pending ∧
      dag.events.lookup event.id = some event ∧ event.id ∉ inFlight := by
  rw [candidates, List.mem_filter, mem_getPendingEvents, Bool.not_eq_true',
    decide_eq_false_iff_not, and_assoc]

/-- Every candidate comes after its parents among the candidates, and writes each key of a parent
that an earlier candidate writes. -/
def Dag.ParentsFirst (H : Blake3 D) (dag : Dag) (inFlight : HashSet EventId) : Prop :=
  ∀ child ∈ dag.candidates inFlight, ∀ parent ∈ dag.candidates inFlight,
    parent.id ∈ child.parentIds → eventOrder parent < eventOrder child ∧
      ∀ other ∈ dag.candidates inFlight, eventOrder other < eventOrder parent →
        ∀ key ∈ (collectEventWriteKeys H parent).keys, key ∈ collectEventWriteKeys H other →
          key ∈ collectEventWriteKeys H child

instance Dag.ParentsFirst.decidable (H : Blake3 D) (dag : Dag) (inFlight : HashSet EventId) :
    Decidable (dag.ParentsFirst H inFlight) :=
  inferInstanceAs (Decidable (∀ child ∈ dag.candidates inFlight, ∀ parent ∈ _, _ → _))

/-- If the policy keeps an event, it keeps an earlier one whose taken keys the event writes too. -/
theorem mem_kept_of_lt {events : List Event} {child parent : Event}
    (hso : (sortOn eventOrder events).Pairwise fun x y ↦ eventOrder x < eventOrder y)
    (hch : child ∈ (applyStrictSameKeyFoldPolicy H events).1) (hp : parent ∈ events)
    (hlt : eventOrder parent < eventOrder child)
    (hk : ∀ other ∈ events, eventOrder other < eventOrder parent →
      ∀ key ∈ (collectEventWriteKeys H parent).keys, key ∈ collectEventWriteKeys H other →
        key ∈ collectEventWriteKeys H child) :
    parent ∈ (applyStrictSameKeyFoldPolicy H events).1 := by
  obtain ⟨before, after, hs, hke⟩ :=
    ((FoldScan.mem_kept_foldl _ _ child).mp hch).resolve_left List.not_mem_nil
  have hm : parent ∈ before := by
    refine mem_before_of_lt (hs ▸ hso) ?_ hlt
    rw [← hs]
    exact (sortOn_perm _ _).mem_iff.mpr hp
  obtain ⟨first, between, rfl⟩ := List.append_of_mem hm
  refine (FoldScan.mem_kept_foldl _ _ parent).mpr (.inr ⟨first, between ++ child :: after, ?_, ?_⟩)
  · rw [hs, List.append_assoc, List.cons_append]
  · rintro ⟨key, hky, hc⟩
    -- a key that is taken before the parent is still taken when the child is scanned
    rcases (FoldScan.claimed_foldl first _ key).2 hc with hn | ⟨other, ho, hw⟩
    · cases hn
    · have hb : eventOrder other < eventOrder parent := by
        rw [hs, List.append_assoc] at hso
        exact (List.pairwise_append.mp hso).2.2 other ho parent List.mem_cons_self
      have he : other ∈ events := by
        rw [← (sortOn_perm eventOrder events).mem_iff, hs]
        exact List.mem_append_left _ (List.mem_append_left _ ho)
      refine hke ⟨key, hk other he hb key (AList.mem_keys.mp hky) hw, ?_⟩
      rw [List.foldl_append]
      exact (FoldScan.claimed_foldl _ _ key).1 hc

namespace AnchorBuilder

variable {b : AnchorBuilder D} {dag : Dag} {inFlight : HashSet EventId} {selected : List Event}

theorem candidate_of_selectEvents (h : b.selectEvents H dag inFlight = .ok selected) {event : Event}
    (he : event ∈ selected) : event ∈ dag.candidates inFlight := by
  rw [selectEvents_eq_ok h] at he
  exact (sortOn_perm eventOrder _).mem_iff.mp
    ((applyStrictSameKeyFoldPolicy_sublist _).subset (List.mem_of_mem_take he))

/-- A candidate is selected with its children. -/
theorem parent_mem_selectEvents (hf : dag.ParentsFirst H inFlight)
    (h : b.selectEvents H dag inFlight = .ok selected) {child parent : Event}
    (hc : child ∈ selected) (hp : parent ∈ dag.candidates inFlight)
    (hm : parent.id ∈ child.parentIds) : parent ∈ selected := by
  obtain ⟨hlt, hk⟩ := hf child (candidate_of_selectEvents h hc) parent hp hm
  have hi : ((dag.candidates inFlight).map (·.id)).Nodup :=
    (List.filter_sublist.map _).nodup dag.nodup_getPendingEvents
  have hs := pairwise_lt_sortOn (nodup_map_eventOrder hi)
  rw [selectEvents_eq_ok h] at hc ⊢
  refine mem_take_of_lt (hs.sublist (applyStrictSameKeyFoldPolicy_sublist _)) hc ?_ hlt
  exact mem_kept_of_lt hs (List.mem_of_mem_take hc) hp hlt hk

end AnchorBuilder

/-- Every event that was added is pending or anchored, and so are the parents of a resident one. -/
structure Dag.Anchored (inserted : HashMap EventId UInt64) (anchored : List EventId) (dag : Dag) :
    Prop where
  parents : ∀ {id event}, dag.events.lookup id = some event → ∀ p ∈ event.parentIds, p ∈ inserted
  resident : ∀ id ∈ dag.pending, id ∈ dag.events
  settled : ∀ id ∈ inserted, id ∈ dag.pending ∨ id ∈ anchored
  finalized : ∀ {id event}, dag.events.lookup id = some event → event.status = .finalized →
    id ∈ anchored

namespace Dag.Anchored

variable {inserted : HashMap EventId UInt64} {anchored ids : List EventId} {dag : Dag}

theorem new : Anchored ∅ [] Dag.new where
  parents h := by cases h
  resident id h := by cases h
  settled id h := by cases h
  finalized h := by cases h

theorem addEventWithDepth (h : Anchored inserted anchored dag) {event : Event} {depth : UInt64}
    {dag' : Dag} (hs : event.status ≠ .finalized)
    (hpa : ∀ p ∈ event.parentIds, p ∈ inserted)
    (ha : dag.addEventWithDepth event depth = .ok dag') :
    Anchored (inserted.insert event.id depth) anchored dag' := by
  obtain ⟨-, rfl⟩ := addEventWithDepth_eq_ok.mp ha
  obtain ⟨he, -, hpe⟩ := linkParents_eq event.id
    (event.parentIds.filter fun p ↦ decide (p ∈ dag.events)) dag
  constructor
  case parents =>
    intro id found hf p hp
    simp only [store, he] at hf
    rw [AList.mem_insert]
    rcases HashMap.lookup_insert_cases hf with ⟨rfl, rfl⟩ | ⟨-, ho⟩
    · exact .inr (hpa p hp)
    · exact .inr (h.parents ho p hp)
  case resident =>
    intro id hid
    simp only [store, hpe, he, AList.mem_insert] at hid ⊢
    exact hid.imp_right (h.resident id)
  case settled =>
    intro id hid
    simp only [store, hpe, AList.mem_insert] at hid ⊢
    rcases hid with rfl | hid
    · exact .inl (.inl rfl)
    · exact (h.settled id hid).imp_left .inr
  case finalized =>
    intro id found hf hfi
    simp only [store, he] at hf
    rcases HashMap.lookup_insert_cases hf with ⟨rfl, rfl⟩ | ⟨-, ho⟩
    · exact absurd hfi hs
    · exact h.finalized ho hfi

theorem mono (h : Anchored inserted anchored dag) {anchored' : List EventId}
    (hs : anchored ⊆ anchored') : Anchored inserted anchored' dag :=
  ⟨h.parents, h.resident, fun id hid ↦ (h.settled id hid).imp_right fun hm ↦ hs hm,
    fun he hst ↦ hs (h.finalized he hst)⟩

theorem finalizeEvents (h : Anchored inserted anchored dag) (hi : ids ⊆ anchored) :
    Anchored inserted anchored (dag.finalizeEvents ids) := by
  constructor
  case parents =>
    intro id found hf
    rw [lookup_finalizeEvents, Option.map_eq_some_iff] at hf
    obtain ⟨old, ho, rfl⟩ := hf
    rw [parentIds_finalizedAs]
    exact h.parents ho
  case resident =>
    intro id hid
    rw [mem_finalizeEvents]
    exact h.resident id ((mem_pending_finalizeEvents dag ids id).mp hid).1
  case settled =>
    intro id hid
    by_cases hm : id ∈ ids
    · exact .inr (hi hm)
    · refine (h.settled id hid).imp_left ?_
      exact fun hp ↦ (mem_pending_finalizeEvents dag ids id).mpr ⟨hp, hm⟩
  case finalized =>
    intro id found hf hfi
    rw [lookup_finalizeEvents, Option.map_eq_some_iff] at hf
    obtain ⟨old, ho, rfl⟩ := hf
    by_cases hm : id ∈ ids
    · exact hi hm
    · rw [finalizedAs, if_neg hm] at hfi
      exact h.finalized ho hfi

theorem without (h : Anchored inserted anchored dag) {id : EventId} (parentIds : List EventId)
    (hid : id ∈ anchored) : Anchored inserted anchored (dag.without id parentIds) := by
  constructor
  case parents => exact fun he ↦ h.parents (HashMap.lookup_of_lookup_erase he)
  case resident =>
    intro other ho
    obtain ⟨hne, ho⟩ := AList.mem_erase.mp ho
    exact AList.mem_erase.mpr ⟨hne, h.resident other ho⟩
  case settled =>
    intro other ho
    by_cases heq : other = id
    · exact .inr (heq ▸ hid)
    · exact (h.settled other ho).imp_left fun hm ↦ AList.mem_erase.mpr ⟨heq, hm⟩
  case finalized => exact fun he ↦ h.finalized (HashMap.lookup_of_lookup_erase he)

theorem gcFinalizedEvents (h : Anchored inserted anchored dag) (hi : ids ⊆ anchored)
    {s : Collector} (hgc : dag.gcFinalizedEvents ids = some s) :
    Anchored inserted anchored s.dag := by
  refine (loop_induction (fun s : Collector ↦ Anchored inserted anchored s.dag ∧
    s.queue ⊆ anchored) ?_ ⟨h, hi⟩ hgc).1.1
  rintro s s' ⟨hd, hq⟩ hs
  rw [Collector.step] at hs
  split at hs
  · cases hs
  · next id rest heq =>
    rw [heq, List.cons_subset] at hq
    split at hs
    · next parentIds dag' hre =>
      cases hs
      obtain ⟨-, event, -, rfl, rfl⟩ := removeEvent_eq_some hre
      have hr := hd.without event.parentIds hq.1
      refine ⟨hr, List.append_subset.mpr ⟨hq.2, ?_⟩⟩
      intro p hp
      have hf := (List.mem_filter.mp hp).2
      rw [isFinalized] at hf
      split at hf
      · next found hfo => exact hr.finalized hfo (of_decide_eq_true hf)
      · cases hf
    · cases hs
      exact ⟨hd, hq.2⟩

end Dag.Anchored

/-- The manager of events with the identifiers of all events that were finalized, which are kept
for the statements only. -/
structure AnchoredNode where
  node : DagNode
  anchored : List EventId

/-- The events that an input finalizes. -/
def DagInput.anchoredIds : DagInput D → List EventId
  | .markFinalized ids => ids
  | .anchorFinalized anchor _ => anchor.eventIds
  | _ => []

namespace AnchoredNode

/-- A node that has just started. -/
def new (config : DagManagerConfig) : AnchoredNode := ⟨.new config, []⟩

/-- One step of the node, with the error it reports. -/
def step (s : AnchoredNode) (input : DagInput D) : Option DagManagerError × AnchoredNode :=
  let (error, node) := s.node.step input
  (error, ⟨node, s.anchored ++ input.anchoredIds⟩)

/-- Honest validators send events that they have not marked as finalized. -/
def Honest (_ : List (Option DagManagerError)) (_ : AnchoredNode) : DagInput D → Prop
  | .resolve event => event.status ≠ .finalized
  | _ => True

instance Honest.decidable (errors : List (Option DagManagerError)) (s : AnchoredNode) :
    (input : DagInput D) → Decidable (Honest errors s input)
  | .resolve event => inferInstanceAs (Decidable (event.status ≠ .finalized))
  | .write _ | .markFinalized _ | .storeSynced _ | .persist _ | .anchorFinalized _ _
  | .updateMinDepth _ | .warmup _ => isTrue trivial

/-- Each parent of an event in the frame is in the frame too, was finalized, or is in flight. -/
def CausallyClosed (s : AnchoredNode) (inFlight : HashSet EventId) (anchor : Anchor D) : Prop :=
  ∀ id ∈ anchor.eventIds, ∃ event, s.node.manager.dag.getEvent id = some event ∧
    ∀ p ∈ event.parentIds, p ∈ anchor.eventIds ∨ p ∈ s.anchored ∨ p ∈ inFlight

/-- The events on record in any layer, or resolved for an addition under way, were added. -/
structure Settled (s : AnchoredNode) : Prop where
  dag : s.node.manager.dag.Anchored s.node.inserted s.anchored
  recorded : ∀ {id d}, s.node.manager.Records id d → id ∈ s.node.inserted
  resolved : ∀ entry ∈ s.node.resolved, entry.1.status ≠ .finalized ∧
    ∀ p ∈ entry.1.parentIds, p ∈ s.node.inserted

namespace Settled

variable {s : AnchoredNode}

theorem new (config : DagManagerConfig) : (AnchoredNode.new config).Settled where
  dag := .new
  recorded h := by rcases h with h | ⟨_, h, -⟩ | h <;> cases h
  resolved := List.forall_mem_nil _

/-- Only the manager and the finalized events change, and no depth is put on record. -/
theorem of_records (h : s.Settled) {m : DagManager} {anchored : List EventId}
    (hda : m.dag.Anchored s.node.inserted anchored)
    (hr : ∀ {id d}, m.Records id d → s.node.manager.Records id d) :
    Settled ⟨{ s.node with manager := m }, anchored⟩ where
  dag := hda
  recorded hd := h.recorded (hr hd)
  resolved := h.resolved

theorem resolve (h : s.Settled) {event : Event} (hs : event.status ≠ .finalized) :
    Settled ⟨(s.node.step (.resolve event : DagInput D)).2, s.anchored⟩ := by
  obtain ⟨hr, hre⟩ := s.node.manager.resolveParents_spec event
  rw [DagNode.step]
  rcases ha : s.node.manager.resolveParents event with ⟨answer, m⟩
  rw [ha] at hr hre
  have hrc : ∀ {id d}, m.Records id d → s.node.manager.Records id d :=
    fun {id d} ↦ (hr.records_iff id d).mp
  obtain ⟨cache, rfl, -⟩ := hr
  cases answer with
  | error e => exact h.of_records h.dag hrc
  | ok resolved =>
    obtain ⟨hi, hf, -⟩ := hre resolved rfl
    refine ⟨h.dag, fun hd ↦ h.recorded (hrc hd), ?_⟩
    intro entry he
    rcases List.mem_append.mp he with he | he
    · exact h.resolved entry he
    · obtain rfl := List.mem_singleton.mp he
      refine ⟨hs, ?_⟩
      intro p hp
      rw [← hi, List.mem_map] at hp
      obtain ⟨result, hrs, rfl⟩ := hp
      exact h.recorded (DagManager.records_of_queryParent (hf result hrs))

theorem write (h : s.Settled) (index : Nat) :
    Settled ⟨(s.node.write index).2, s.anchored⟩ := by
  rw [DagNode.write]
  split
  · exact h
  · next event resolved he =>
    have hr : ∀ entry ∈ s.node.resolved.eraseIdx index, entry ∈ s.node.resolved :=
      fun entry he ↦ List.mem_of_mem_eraseIdx he
    dsimp only
    split
    · exact { h with resolved := fun entry he ↦ h.resolved entry (hr entry he) }
    · next m hw =>
      obtain ⟨hs, hpa⟩ := h.resolved _ (List.mem_of_getElem? he)
      have ho : ∀ id ∈ s.node.inserted,
          id ∈ s.node.inserted.insert event.id resolved.newEventDepth :=
        fun id hid ↦ (AList.mem_insert _).mpr (.inr hid)
      constructor
      case dag =>
        simp only [DagManager.writeResolved, bind_eq_ok, mapError_eq_ok,
          pure_eq_ok] at hw
        obtain ⟨-, -, dag, ha, rfl⟩ := hw
        exact h.dag.addEventWithDepth hs hpa ha
      case recorded =>
        intro id d hd
        rcases DagManager.records_of_writeResolved hw hd with rfl | hd
        · exact (AList.mem_insert _).mpr (.inl rfl)
        · exact ho id (h.recorded hd)
      case resolved =>
        intro entry he
        obtain ⟨hs, hpa⟩ := h.resolved entry (hr entry he)
        exact ⟨hs, fun p hp ↦ ho p (hpa p hp)⟩

theorem anchorFinalized (h : s.Settled) {anchor : Anchor D} {now : UInt64}
    {collected : Dag.Collector} {m : DagManager}
    (hm : s.node.manager.onAnchorFinalized anchor now = some (collected, m)) :
    Settled ⟨{ s.node with manager := m }, s.anchored ++ anchor.eventIds⟩ := by
  have hr : ∀ {id d}, m.Records id d → s.node.manager.Records id d :=
    DagManager.records_of_onAnchorFinalized hm
  simp only [DagManager.onAnchorFinalized, Option.bind_eq_bind, Option.bind_eq_some_iff,
    Option.pure_def, Option.some.injEq, Prod.mk.injEq] at hm
  obtain ⟨cache, -, collector, hc, rfl, rfl⟩ := hm
  have ha := h.dag.mono (List.subset_append_left s.anchored anchor.eventIds)
  have hi := List.subset_append_right s.anchored anchor.eventIds
  exact h.of_records ((ha.finalizeEvents hi).gcFinalizedEvents hi hc) hr

/-- Every step of honest validators keeps added events pending or finalized. -/
theorem step (h : s.Settled) {errors : List (Option DagManagerError)} {input : DagInput D}
    (hi : Honest errors s input) : (s.step input).2.Settled := by
  have hk : ∀ {node : DagNode}, Settled ⟨node, s.anchored⟩ → Settled ⟨node, s.anchored ++ []⟩ := by
    intro node hn
    rwa [List.append_nil]
  cases input with
  | resolve event => exact hk (h.resolve (D := D) hi)
  | write index => exact hk (h.write index)
  | markFinalized ids =>
    have ha := h.dag.mono (List.subset_append_left s.anchored ids)
    exact h.of_records (ha.finalizeEvents (List.subset_append_right s.anchored ids))
      DagManager.records_of_finalizeEvents
  | storeSynced event => exact hk (h.of_records h.dag fun hd ↦ hd)
  | persist ids => exact hk (h.of_records h.dag DagManager.records_of_persist)
  | anchorFinalized anchor now =>
    change Settled ⟨(s.node.step (.anchorFinalized anchor now)).2, s.anchored ++ anchor.eventIds⟩
    rw [DagNode.step]
    split
    · exact ⟨h.dag.mono (List.subset_append_left _ _), h.recorded, h.resolved⟩
    · next hm => exact h.anchorFinalized hm
  | updateMinDepth depth => exact hk (h.of_records h.dag fun hd ↦ hd)
  | warmup anchors => exact hk (h.of_records h.dag DagManager.records_of_warmupFromAnchors)

end Settled

/-- In every run of honest validators, a frame that is made while candidates come after their
parents and write the keys taken from them is closed under parents. -/
theorem causallyClosed_of_parentsFirst [DecidableEq D] {config : DagManagerConfig}
    {errors : List (Option DagManagerError)} {s : AnchoredNode}
    (hrun : Run (step (D := D)) Honest (new config) errors s) {b : AnchorBuilder D}
    {vlc : VLCSnapshot} {inFlight : HashSet EventId} {interval instant : Nat} {now : UInt64}
    {build : PendingAnchorBuild D} (hfirst : s.node.manager.dag.ParentsFirst H inFlight)
    (hbuild : b.prepareBuild H s.node.manager.dag vlc inFlight now = .ok build ∨
      b.prepareBuildHeartbeat H s.node.manager.dag vlc interval instant inFlight now = .ok build) :
    s.CausallyClosed inFlight build.anchor := by
  have hse : s.Settled :=
    hrun.invariant (fun _ s ↦ s.Settled) (.new config) fun hs hin ↦ hs.step hin
  obtain ⟨selected, hsl, rfl⟩ := AnchorBuilder.selected_of_ok hbuild
  have hi : (b.prepareBuildInternal H selected vlc s.node.manager.dag.maxDepth
      now).anchor.eventIds = selected.map (·.id) := rfl
  intro id hid
  rw [hi, List.mem_map] at hid
  obtain ⟨event, he, rfl⟩ := hid
  obtain ⟨-, hl, -⟩ := Dag.mem_candidates.mp (AnchorBuilder.candidate_of_selectEvents hsl he)
  refine ⟨event, hl, ?_⟩
  intro p hp
  rw [hi]
  by_cases hf : p ∈ inFlight
  · exact .inr (.inr hf)
  · rcases hse.dag.settled p (hse.dag.parents hl p hp) with hpe | ha
    · obtain ⟨parent, hpa⟩ := Option.isSome_iff_exists.mp
        (AList.lookup_isSome.mpr (hse.dag.resident p hpe))
      obtain rfl : parent.id = p := s.node.manager.dag.keyed hpa
      have hm := AnchorBuilder.parent_mem_selectEvents hfirst hsl he
        (Dag.mem_candidates.mpr ⟨hpe, hpa, hf⟩) hp
      exact .inl (List.mem_map_of_mem hm)
    · exact .inr (.inl ha)

/-! Alice pays Bob with a coin; Bob passes the new coin on, and makes a payment with another coin.
Another payment with Alice's coin, of an earlier time, keeps the first one out of the frame, but not
its children. -/

private def coinKey (digit : Char) : String := "oid:" ++ String.ofList (List.replicate 64 digit)

private def payment (id : EventId) (time : UInt64) (parentIds : List EventId) (coins : List Char) :
    Event :=
  ⟨id, .transfer, parentIds, none, none, .none, ⟨∅, time, 0⟩, "", .pending,
    some ⟨true, none, coins.map fun coin ↦ ⟨coinKey coin, none, some [1], none⟩⟩, 0⟩

private def payments : List (DagInput (Option Bytes)) :=
  [.resolve (payment "p" 12 [] ['a', 'b']), .write 0,
    .resolve (payment "e" 13 ["p"] ['b', 'c']), .write 0,
    .resolve (payment "f" 14 ["p"] ['f']), .write 0]

private def contested : List (DagInput (Option Bytes)) :=
  payments ++ [.resolve (payment "a" 11 [] ['a', 'd']), .write 0]

variable (inputs : List (DagInput (Option Bytes)))

private def paid : AnchoredNode :=
  (feed step ([], new .default) inputs).2

private def proposer : AnchorBuilder (Option Bytes) := .new Blake3.ideal {}

private theorem prepareBuild_paid (ids : List EventId)
    (h : (proposer.selectEvents Blake3.ideal (paid inputs).node.manager.dag ∅).toOption.map
      (·.map (·.id)) = some ids) :
    ∃ build, proposer.prepareBuild Blake3.ideal (paid inputs).node.manager.dag ⟨∅, 15, 0⟩ ∅ 0 =
      .ok build ∧ build.anchor.eventIds = ids := by
  obtain ⟨selected, hs, rfl⟩ := Option.map_eq_some_iff.mp h
  rw [toOption_eq_some_iff] at hs
  refine ⟨proposer.prepareBuildInternal Blake3.ideal selected ⟨∅, 15, 0⟩
    (paid inputs).node.manager.dag.maxDepth 0, ?_, rfl⟩
  rw [AnchorBuilder.prepareBuild, hs]
  rfl

/-- Without the other payment, the frame has the first one and the child that shares no coin. -/
theorem causallyClosed_payments :
    ∃ build, proposer.prepareBuild Blake3.ideal (paid payments).node.manager.dag ⟨∅, 15, 0⟩ ∅ 0 =
      .ok build ∧ build.anchor.eventIds = ["p", "f"] ∧
      (paid payments).CausallyClosed ∅ build.anchor := by
  obtain ⟨build, hb, hi⟩ := prepareBuild_paid payments ["p", "f"] (by decide +kernel)
  have hf : Feeds step Honest ([], new .default) payments := by decide +kernel
  have hfi : (paid payments).node.manager.dag.ParentsFirst Blake3.ideal ∅ := by decide +kernel
  refine ⟨build, hb, hi, ?_⟩
  have hp : _ ∨ proposer.prepareBuildHeartbeat Blake3.ideal (paid payments).node.manager.dag
      ⟨∅, 15, 0⟩ 0 0 ∅ 0 = .ok build := .inl hb
  exact causallyClosed_of_parentsFirst (Run.start.feed hf) hfi hp

/-- The child is in the frame, its parent is left out and was not finalized before. -/
theorem not_causallyClosed_contested :
    Feeds step Honest ([], new .default) contested ∧
      ∃ build, proposer.prepareBuild Blake3.ideal (paid contested).node.manager.dag ⟨∅, 15, 0⟩ ∅ 0 =
        .ok build ∧ ¬ (paid contested).CausallyClosed ∅ build.anchor := by
  refine ⟨by decide +kernel, ?_⟩
  obtain ⟨build, hb, hi⟩ := prepareBuild_paid contested ["a", "e", "f"] (by decide +kernel)
  refine ⟨build, hb, ?_⟩
  intro hc
  obtain ⟨event, he, hpr⟩ := hc "e" (by rw [hi]; decide)
  have hpa : ((paid contested).node.manager.dag.getEvent "e").map (·.parentIds) = some ["p"] := by
    decide +kernel
  rw [he, Option.map_some, Option.some.injEq] at hpa
  have ha : (paid contested).anchored = [] := by decide +kernel
  have hp := hpr "p" (by rw [hpa]; decide)
  rw [hi, ha] at hp
  revert hp
  decide

end AnchoredNode

end Setu.Consensus
