import Mathlib.Logic.Relation
import Setu.Base.Checked
import Setu.Base.Machine
import Setu.Consensus.DagManager

/-!
# The structure of the DAG

Library `Consensus`. The child index holds the edges between resident events, depths grow along
edges, and a tip has no child. Every addition, finalization and collection keeps this as long as no
event is added again after it was collected. Sources `consensus/src/dag.rs` and
`consensus/src/dag_manager.rs`.
-/

namespace Setu.Consensus

open Setu.Base Setu.Types

namespace Dag

variable (dag : Dag)

/-- Both events are resident and the first is a parent of the second. -/
def Edge (parentId childId : EventId) : Prop :=
  parentId ∈ dag.events ∧ ∃ event, dag.events.lookup childId = some event ∧
    parentId ∈ event.parentIds

/-- The child index lists the second event as a child of the first. -/
def Indexed (parentId childId : EventId) : Prop :=
  childId ∈ (dag.children.lookup parentId).getD ∅

theorem Edge.child_mem {dag : Dag} {p c : EventId} (h : dag.Edge p c) : c ∈ dag.events := by
  obtain ⟨-, event, he, -⟩ := h
  exact AList.lookup_isSome.mp (Option.isSome_of_eq_some he)

private theorem getD_insert (children : HashMap EventId (HashSet EventId)) (p q : EventId)
    (siblings : HashSet EventId) :
    ((children.insert q siblings).lookup p).getD ∅ =
      if p = q then siblings else (children.lookup p).getD ∅ := by
  by_cases h : p = q
  · subst h
    simp
  · rw [AList.lookup_insert_ne h, if_neg h]

variable (id : EventId) (parents : List EventId)

theorem linkParents_eq (dag : Dag) :
    (parents.foldl (linkParent id) dag).events = dag.events ∧
      (parents.foldl (linkParent id) dag).depths = dag.depths ∧
      (parents.foldl (linkParent id) dag).pending = dag.pending := by
  induction parents generalizing dag with
  | nil => exact ⟨rfl, rfl, rfl⟩
  | cons p rest ih => exact ih (dag.linkParent id p)

theorem indexed_linkParents (dag : Dag) (p c : EventId) :
    (parents.foldl (linkParent id) dag).Indexed p c ↔ dag.Indexed p c ∨ c = id ∧ p ∈ parents := by
  induction parents generalizing dag with
  | nil => simp
  | cons q rest ih =>
    rw [List.foldl_cons, ih, List.mem_cons]
    have hl : (dag.linkParent id q).Indexed p c ↔ dag.Indexed p c ∨ c = id ∧ p = q := by
      rw [Indexed, linkParent, getD_insert, Indexed]
      split
      · next h =>
        subst h
        rw [AList.mem_insert]
        tauto
      · tauto
    rw [hl]
    tauto

theorem mem_tips_linkParents (dag : Dag) (t : EventId) :
    t ∈ (parents.foldl (linkParent id) dag).tips ↔ t ∈ dag.tips ∧ t ∉ parents := by
  induction parents generalizing dag with
  | nil => simp
  | cons q rest ih =>
    rw [List.foldl_cons, ih, linkParent, AList.mem_erase, List.mem_cons]
    tauto

private theorem mem_unlinkParents (children : HashMap EventId (HashSet EventId)) (p c : EventId) :
    c ∈ ((parents.foldl (unlinkParent id) children).lookup p).getD ∅ ↔
      c ∈ (children.lookup p).getD ∅ ∧ ¬ (c = id ∧ p ∈ parents) := by
  induction parents generalizing children with
  | nil => simp
  | cons q rest ih =>
    rw [List.foldl_cons, ih, List.mem_cons]
    have hu : c ∈ ((unlinkParent id children q).lookup p).getD ∅ ↔
        c ∈ (children.lookup p).getD ∅ ∧ ¬ (c = id ∧ p = q) := by
      rw [unlinkParent]
      split
      · next siblings hs =>
        rw [getD_insert]
        split
        · next h =>
          subst h
          rw [hs, Option.getD_some, AList.mem_erase]
          tauto
        · tauto
      · next hn =>
        by_cases h : p = q
        · subst h
          simp [hn]
        · tauto
    rw [hu]
    tauto

theorem indexed_without (id : EventId) (parents : List EventId) (p c : EventId) :
    (dag.without id parents).Indexed p c ↔
      dag.Indexed p c ∧ p ≠ id ∧ ¬ (c = id ∧ p ∈ parents) := by
  rw [Indexed, without]
  by_cases h : p = id
  · subst h
    simp
  · rw [AList.lookup_erase_ne h, mem_unlinkParents, Indexed]
    tauto

variable (ids : List EventId)

/-- The event once the listed ones are finalized. -/
def finalizedAs (id : EventId) : Event → Event :=
  if id ∈ ids then fun event ↦ { event with status := .finalized } else fun event ↦ event

theorem parentIds_finalizedAs (id : EventId) (event : Event) :
    (finalizedAs ids id event).parentIds = event.parentIds := by
  rw [finalizedAs]
  split <;> rfl

private theorem lookup_finalizeEvent (target id : EventId) :
    (dag.finalizeEvent target).events.lookup id =
      (dag.events.lookup id).map (finalizedAs [target] id) := by
  simp only [finalizeEvent]
  split
  · next event he =>
    by_cases h : id = target
    · subst h
      simp [finalizedAs, he]
    · simp [finalizedAs, h, AList.lookup_insert_ne h]
  · next hn =>
    by_cases h : id = target
    · subst h
      simp [hn]
    · simp [finalizedAs, h]

theorem lookup_finalizeEvents (id : EventId) :
    (dag.finalizeEvents ids).events.lookup id =
      (dag.events.lookup id).map (finalizedAs ids id) := by
  induction ids generalizing dag with
  | nil => simp [finalizeEvents, finalizedAs]
  | cons target rest ih =>
    change ((dag.finalizeEvent target).finalizeEvents rest).events.lookup id = _
    rw [ih, lookup_finalizeEvent, Option.map_map]
    congr 1
    simp only [finalizedAs, List.mem_cons]
    rcases eq_or_ne id target with rfl | h
    · by_cases h' : id ∈ rest <;> simp [h', Function.comp_def]
    · by_cases h' : id ∈ rest <;> simp [h, h', Function.comp_def]

theorem mem_finalizeEvents (id : EventId) :
    id ∈ (dag.finalizeEvents ids).events ↔ id ∈ dag.events := by
  rw [← AList.lookup_isSome, lookup_finalizeEvents, Option.isSome_map, AList.lookup_isSome]

theorem finalizeEvents_eq :
    (dag.finalizeEvents ids).children = dag.children ∧
      (dag.finalizeEvents ids).depths = dag.depths ∧ (dag.finalizeEvents ids).tips = dag.tips := by
  induction ids generalizing dag with
  | nil => exact ⟨rfl, rfl, rfl⟩
  | cons target rest ih => exact ih (dag.finalizeEvent target)

theorem mem_pending_finalizeEvents (id : EventId) :
    id ∈ (dag.finalizeEvents ids).pending ↔ id ∈ dag.pending ∧ id ∉ ids := by
  induction ids generalizing dag with
  | nil => simp [finalizeEvents]
  | cons target rest ih =>
    change id ∈ ((dag.finalizeEvent target).finalizeEvents rest).pending ↔ _
    rw [ih, finalizeEvent, AList.mem_erase, List.mem_cons]
    tauto

theorem edge_finalizeEvents (p c : EventId) : (dag.finalizeEvents ids).Edge p c ↔ dag.Edge p c := by
  simp only [Edge, mem_finalizeEvents, lookup_finalizeEvents, Option.map_eq_some_iff]
  constructor
  · rintro ⟨hp, event, ⟨old, ho, rfl⟩, hm⟩
    exact ⟨hp, old, ho, (parentIds_finalizedAs ids c old) ▸ hm⟩
  · rintro ⟨hp, old, ho, hm⟩
    exact ⟨hp, _, ⟨old, ho, rfl⟩, (parentIds_finalizedAs ids c old).symm ▸ hm⟩

theorem addEventWithDepth_eq_ok {dag dag' : Dag} {event : Event} {depth : UInt64} :
    dag.addEventWithDepth event depth = .ok dag' ↔ event.id ∉ dag.events ∧
      (((event.parentIds.filter fun p ↦ decide (p ∈ dag.events)).foldl (linkParent event.id)
        dag).store event depth) = dag' := by
  rw [addEventWithDepth]
  split
  · next h => simp [h]
  · next h => simp [h]

theorem indexed_store (event : Event) (depth : UInt64) (p c : EventId) :
    (dag.store event depth).Indexed p c ↔ dag.Indexed p c := Iff.rfl

/-- The edges of a DAG with a new event that no resident one has as a parent. -/
theorem edge_store {dag base : Dag} {event : Event} {depth : UInt64}
    (hb : base.events = dag.events) (hs : event.id ∉ event.parentIds)
    (hn : ∀ {c e}, dag.events.lookup c = some e → event.id ∉ e.parentIds) (p c : EventId) :
    (base.store event depth).Edge p c ↔
      dag.Edge p c ∧ c ≠ event.id ∨ c = event.id ∧ p ∈ event.parentIds ∧ p ∈ dag.events := by
  simp only [Edge, store, hb, AList.mem_insert]
  by_cases hc : c = event.id
  · subst hc
    simp only [AList.lookup_insert, Option.some.injEq, exists_eq_left', ne_eq, not_true_eq_false,
      and_false, true_and, false_or]
    constructor
    · rintro ⟨rfl | hp, hm⟩
      · exact absurd hm hs
      · exact ⟨hm, hp⟩
    · rintro ⟨hm, hp⟩
      exact ⟨.inr hp, hm⟩
  · simp only [AList.lookup_insert_ne hc, hc, ne_eq, not_false_eq_true, and_true, false_and,
      or_false]
    constructor
    · rintro ⟨rfl | hp, e, he, hm⟩
      · exact absurd hm (hn he)
      · exact ⟨hp, e, he, hm⟩
    · rintro ⟨hp, h⟩
      exact ⟨.inr hp, h⟩

/-- The edges of a DAG without an event. -/
theorem edge_without (id : EventId) (parents : List EventId) (p c : EventId) :
    (dag.without id parents).Edge p c ↔ dag.Edge p c ∧ p ≠ id ∧ c ≠ id := by
  simp only [Edge, without, AList.mem_erase]
  by_cases hc : c = id
  · subst hc
    simp
  · rw [AList.lookup_erase_ne hc]
    tauto

theorem removeEvent_eq_some {dag dag' : Dag} {id : EventId} {parentIds : List EventId}
    (h : dag.removeEvent id = some (parentIds, dag')) :
    dag.hasActiveChildren id = false ∧ ∃ event, dag.events.lookup id = some event ∧
      parentIds = event.parentIds ∧ dag' = dag.without id event.parentIds := by
  rw [removeEvent] at h
  split at h
  · cases h
  · next ha =>
    obtain ⟨event, he, heq⟩ := Option.map_eq_some_iff.mp h
    cases heq
    exact ⟨Bool.eq_false_iff.mpr ha, event, he, rfl, rfl⟩

/-- The structure of a DAG in which every event was added once, at the recorded depth, and a parent
stands at a depth related to that of its child. -/
structure Grown (below : UInt64 → UInt64 → Prop) (inserted : HashMap EventId UInt64) (dag : Dag) :
    Prop where
  indexed_iff : ∀ p c, dag.Indexed p c ↔ dag.Edge p c
  resident_iff : ∀ id, id ∈ dag.events ↔ id ∈ dag.depths
  depth_eq : ∀ {id d}, dag.depths.lookup id = some d → inserted.lookup id = some d
  deeper : ∀ {id event}, dag.events.lookup id = some event → ∀ p ∈ event.parentIds,
    ∃ dp d, inserted.lookup p = some dp ∧ inserted.lookup id = some d ∧ below dp d
  pending : ∀ id ∈ dag.pending, id ∈ dag.events
  tip : ∀ id ∈ dag.tips, id ∈ dag.events ∧ ∀ c, ¬ dag.Edge id c

namespace Grown

variable {below : UInt64 → UInt64 → Prop} {inserted : HashMap EventId UInt64} {dag : Dag}

theorem new : Grown below inserted Dag.new where
  indexed_iff p c := by
    constructor
    · rintro ⟨⟩
    · rintro ⟨⟨⟩, -⟩
  resident_iff id := Iff.rfl
  depth_eq h := by cases h
  deeper h := by cases h
  pending id h := by cases h
  tip id h := by cases h

/-- An event that was never added is no parent of a resident one. -/
theorem not_edge (h : Grown below inserted dag) {id c : EventId} {event : Event}
    (hn : id ∉ inserted) (hc : dag.events.lookup c = some event) : id ∉ event.parentIds := by
  intro hm
  obtain ⟨dp, -, hdp, -, -⟩ := h.deeper hc id hm
  exact hn (AList.lookup_isSome.mp (Option.isSome_of_eq_some hdp))

/-- Depths grow along edges, so there is no cycle. -/
theorem lt_of_transGen (h : Grown (· < ·) inserted dag) {p c : EventId}
    (hpa : Relation.TransGen dag.Edge p c) :
    ∃ dp dc, inserted.lookup p = some dp ∧ inserted.lookup c = some dc ∧ dp < dc := by
  have he : ∀ {p c}, dag.Edge p c →
      ∃ dp dc, inserted.lookup p = some dp ∧ inserted.lookup c = some dc ∧ dp < dc := by
    rintro p c ⟨-, event, hev, hm⟩
    exact h.deeper hev p hm
  induction hpa with
  | single hs => exact he hs
  | tail _ hs ih =>
    obtain ⟨dp, dc, hp, hc, hlt⟩ := ih
    obtain ⟨dc', d, hc', hd, hlt'⟩ := he hs
    obtain rfl : dc = dc' := Option.some.inj (hc.symm.trans hc')
    exact ⟨dp, d, hp, hd, UInt64.lt_trans hlt hlt'⟩

theorem acyclic (h : Grown (· < ·) inserted dag) (id : EventId) :
    ¬ Relation.TransGen dag.Edge id id := by
  intro hp
  obtain ⟨d, d', hd, hd', hlt⟩ := h.lt_of_transGen hp
  obtain rfl : d = d' := Option.some.inj (hd.symm.trans hd')
  exact UInt64.lt_irrefl d hlt

/-- A new event below parents that were added before it. -/
theorem addEventWithDepth (h : Grown below inserted dag) {event : Event} {depth : UInt64}
    {dag' : Dag} (hn : event.id ∉ inserted)
    (hpa : ∀ p ∈ event.parentIds, ∃ dp, inserted.lookup p = some dp ∧ below dp depth)
    (ha : dag.addEventWithDepth event depth = .ok dag') :
    Grown below (inserted.insert event.id depth) dag' := by
  obtain ⟨hf, rfl⟩ := addEventWithDepth_eq_ok.mp ha
  obtain ⟨hev, hde, hpe⟩ := linkParents_eq event.id
    (event.parentIds.filter fun p ↦ decide (p ∈ dag.events)) dag
  have hs : event.id ∉ event.parentIds := by
    intro hm
    obtain ⟨dp, hdp, -⟩ := hpa _ hm
    exact hn (AList.lookup_isSome.mp (Option.isSome_of_eq_some hdp))
  have hed := @edge_store dag _ event depth hev hs fun hc ↦ h.not_edge hn hc
  have ho : ∀ {id d}, inserted.lookup id = some d →
      (inserted.insert event.id depth).lookup id = some d := by
    intro id d hd
    rw [AList.lookup_insert_ne, hd]
    rintro rfl
    exact hn (AList.lookup_isSome.mp (Option.isSome_of_eq_some hd))
  constructor
  case indexed_iff =>
    intro p c
    rw [hed, indexed_store, indexed_linkParents, h.indexed_iff, List.mem_filter, decide_eq_true_iff]
    constructor
    · rintro (hpc | hpc)
      · refine .inl ⟨hpc, ?_⟩
        rintro rfl
        exact hf hpc.child_mem
      · exact .inr hpc
    · rintro (hpc | hpc)
      · exact .inl hpc.1
      · exact .inr hpc
  case resident_iff =>
    intro id
    simp only [store, AList.mem_insert, hev, hde, h.resident_iff id]
  case depth_eq =>
    intro id d hd
    rcases HashMap.lookup_insert_cases hd with ⟨rfl, rfl⟩ | ⟨-, hd⟩
    · exact AList.lookup_insert _
    · rw [hde] at hd
      exact ho (h.depth_eq hd)
  case deeper =>
    intro id e he p hp
    rcases HashMap.lookup_insert_cases he with ⟨rfl, rfl⟩ | ⟨-, he⟩
    · obtain ⟨dp, hdp, hlt⟩ := hpa p hp
      exact ⟨dp, depth, ho hdp, AList.lookup_insert _, hlt⟩
    · rw [hev] at he
      obtain ⟨dp, d, hdp, hd, hlt⟩ := h.deeper he p hp
      exact ⟨dp, d, ho hdp, ho hd, hlt⟩
  case pending =>
    intro id hid
    simp only [store, AList.mem_insert, hev, hpe] at hid ⊢
    exact hid.imp_right (h.pending id)
  case tip =>
    intro id hid
    rw [store, AList.mem_insert, mem_tips_linkParents, List.mem_filter, decide_eq_true_iff] at hid
    refine ⟨?_, ?_⟩
    · simp only [store, AList.mem_insert, hev]
      exact hid.imp_right fun hid ↦ (h.tip id hid.1).1
    · intro c hc
      rw [hed] at hc
      rcases hid with rfl | ⟨ht, hno⟩
      · rcases hc with ⟨⟨hm, -⟩, -⟩ | ⟨-, hm, -⟩
        · exact hf hm
        · exact hs hm
      · rcases hc with ⟨hc, -⟩ | ⟨-, hc⟩
        · exact (h.tip id ht).2 c hc
        · exact hno hc

theorem finalizeEvents (h : Grown below inserted dag) (ids : List EventId) :
    Grown below inserted (dag.finalizeEvents ids) := by
  obtain ⟨hc, hde, ht⟩ := dag.finalizeEvents_eq ids
  constructor
  case indexed_iff =>
    intro p c
    rw [Indexed, hc, edge_finalizeEvents]
    exact h.indexed_iff p c
  case resident_iff =>
    intro id
    rw [mem_finalizeEvents, hde]
    exact h.resident_iff id
  case depth_eq =>
    intro id d hd
    rw [hde] at hd
    exact h.depth_eq hd
  case deeper =>
    intro id event he p hp
    rw [lookup_finalizeEvents, Option.map_eq_some_iff] at he
    obtain ⟨old, ho, rfl⟩ := he
    rw [parentIds_finalizedAs] at hp
    exact h.deeper ho p hp
  case pending =>
    intro id hid
    rw [mem_finalizeEvents]
    exact h.pending id ((mem_pending_finalizeEvents dag ids id).mp hid).1
  case tip =>
    intro id hid
    rw [ht] at hid
    simp only [mem_finalizeEvents, edge_finalizeEvents]
    exact h.tip id hid

theorem without (h : Grown below inserted dag) {id : EventId} {event : Event}
    (hev : dag.events.lookup id = some event) :
    Grown below inserted (dag.without id event.parentIds) := by
  constructor
  case indexed_iff =>
    intro p c
    rw [indexed_without, edge_without, h.indexed_iff]
    constructor
    · rintro ⟨hed, hp, hn⟩
      refine ⟨hed, hp, ?_⟩
      rintro rfl
      obtain ⟨-, e, he, hm⟩ := hed
      obtain rfl : event = e := Option.some.inj (hev.symm.trans he)
      exact hn ⟨rfl, hm⟩
    · rintro ⟨hed, hp, hc⟩
      exact ⟨hed, hp, fun hn ↦ hc hn.1⟩
  case resident_iff =>
    intro other
    simp only [Dag.without, AList.mem_erase, h.resident_iff other]
  case depth_eq => exact fun hd ↦ h.depth_eq (HashMap.lookup_of_lookup_erase hd)
  case deeper => exact fun he ↦ h.deeper (HashMap.lookup_of_lookup_erase he)
  case pending =>
    intro other ho
    simp only [Dag.without, AList.mem_erase] at ho ⊢
    exact ⟨ho.1, h.pending other ho.2⟩
  case tip =>
    intro other ho
    simp only [Dag.without, AList.mem_erase] at ho
    obtain ⟨hm, hed⟩ := h.tip other ho.2
    refine ⟨AList.mem_erase.mpr ⟨ho.1, hm⟩, ?_⟩
    intro c hc
    exact hed c ((edge_without dag id _ other c).mp hc).1

theorem collectorStep {targets : List EventId} {s s' : Collector} (h : Grown below inserted s.dag)
    (hs : s.step targets = some s') : Grown below inserted s'.dag := by
  rw [Collector.step] at hs
  split at hs
  · cases hs
  · split at hs
    · next hr =>
      cases hs
      obtain ⟨-, event, he, -, rfl⟩ := removeEvent_eq_some hr
      exact h.without he
    · cases hs
      exact h

theorem gcFinalizedEvents (h : Grown below inserted dag) {ids : List EventId} {s : Collector}
    (hgc : dag.gcFinalizedEvents ids = some s) : Grown below inserted s.dag :=
  (loop_induction (fun s ↦ Grown below inserted s.dag) (fun hs hst ↦ hs.collectorStep hst) h hgc).1

end Grown

theorem lookup_depths_of_gcFinalizedEvents {dag : Dag} {ids : List EventId} {s : Collector}
    (hgc : dag.gcFinalizedEvents ids = some s) {id : EventId} {d : UInt64}
    (hd : s.dag.depths.lookup id = some d) : dag.depths.lookup id = some d := by
  refine (loop_induction (fun s : Collector ↦ ∀ {id d}, s.dag.depths.lookup id = some d →
    dag.depths.lookup id = some d) ?_ (fun hd ↦ hd) hgc).1 hd
  intro s s' hs hst id d hd
  rw [Collector.step] at hst
  split at hst
  · cases hst
  · split at hst
    · next hr =>
      cases hst
      obtain ⟨-, event, -, -, rfl⟩ := removeEvent_eq_some hr
      exact hs (HashMap.lookup_of_lookup_erase hd)
    · cases hst
      exact hs hd

end Dag

namespace DagManager

variable (m : DagManager)

/-- Some layer has the depth of the event on record. -/
def Records (id : EventId) (depth : UInt64) : Prop :=
  m.dag.depths.lookup id = some depth ∨
    (∃ info, m.recentCache.peek id = some info ∧ info.depth = depth) ∨
    m.eventStore.getDepth id = some depth

instance Records.decidable (m : DagManager) (id : EventId) (depth : UInt64) :
    Decidable (m.Records id depth) :=
  have : Decidable (∃ info, m.recentCache.peek id = some info ∧ info.depth = depth) :=
    decidable_of_iff ((m.recentCache.peek id).any (·.depth = depth))
      (by cases m.recentCache.peek id <;> simp)
  inferInstanceAs (Decidable (_ ∨ _ ∨ _))

/-- The structure of the DAG: the child index holds the edges between resident events, there is no
cycle, an event is deeper than its parents, depths and pending marks belong to resident events, and
a tip is resident and has no resident child. -/
structure Structured (m : DagManager) : Prop where
  indexed_iff : ∀ p c, m.dag.Indexed p c ↔ m.dag.Edge p c
  acyclic : ∀ id, ¬ Relation.TransGen m.dag.Edge id id
  deeper : ∀ {id event}, m.dag.events.lookup id = some event → ∃ depth,
    m.dag.depths.lookup id = some depth ∧ ∀ p ∈ event.parentIds, ∀ d, m.Records p d → d < depth
  resident_of_depth : ∀ id ∈ m.dag.depths, id ∈ m.dag.events
  resident_of_pending : ∀ id ∈ m.dag.pending, id ∈ m.dag.events
  tip : ∀ id ∈ m.dag.tips, id ∈ m.dag.events ∧ ∀ c, ¬ m.dag.Edge id c

/-- The same manager up to the order in which the cache forgets. -/
def Refreshed (m m' : DagManager) : Prop :=
  ∃ cache : RecentEventCache, m' = { m with recentCache := cache } ∧
    ∀ id, cache.peek id = m.recentCache.peek id

theorem Refreshed.refl : m.Refreshed m := ⟨m.recentCache, rfl, fun _ ↦ rfl⟩

theorem Refreshed.trans {m m' m'' : DagManager} (h : m.Refreshed m') (h' : m'.Refreshed m'') :
    m.Refreshed m'' := by
  obtain ⟨cache, rfl, hp⟩ := h
  obtain ⟨cache', rfl, hp'⟩ := h'
  exact ⟨cache', rfl, fun id ↦ (hp' id).trans (hp id)⟩

theorem Refreshed.records_iff {m m' : DagManager} (h : m.Refreshed m') (id : EventId)
    (depth : UInt64) : m'.Records id depth ↔ m.Records id depth := by
  obtain ⟨cache, rfl, hp⟩ := h
  simp only [Records, hp]

/-! Only an addition puts a depth on record: finalization, persistence and warm-up copy depths from
one layer to another. -/

section Copies

variable {D : Type} {m m' : DagManager} {id : EventId} {d : UInt64}

/-- The cache has no depths but those on record. -/
private def Copies (m : DagManager) (cache : RecentEventCache) : Prop :=
  ∀ id info, cache.peek id = some info → m.Records id info.depth

private theorem copies_recentCache (m : DagManager) : Copies m m.recentCache :=
  fun _ info hi ↦ .inr (.inl ⟨info, hi, rfl⟩)

variable {ids : List EventId}

private theorem copies_cacheFinalized {dag : Dag} {anchorId : AnchorId} {now : UInt64}
    {cache cache' : RecentEventCache} (hd : ∀ id d, dag.depths.lookup id = some d → m.Records id d)
    (hc : Copies m cache)
    (h : ids.foldlM (cacheFinalized dag anchorId now) cache = some cache') : Copies m cache' := by
  induction ids generalizing cache with
  | nil =>
    cases h
    exact hc
  | cons target rest ih =>
    rw [List.foldlM_cons, Option.bind_eq_bind, Option.bind_eq_some_iff] at h
    obtain ⟨next, hn, hr⟩ := h
    refine ih ?_ hr
    intro id info hi
    rw [cacheFinalized] at hn
    split at hn
    · cases hn
      exact hc id info hi
    · obtain ⟨depth, hde, rfl⟩ := Option.map_eq_some_iff.mp hn
      rcases LruCache.peek_put_cases hi with ⟨rfl, rfl⟩ | ⟨-, ho⟩
      · exact hd id depth hde
      · exact hc id info ho

theorem records_of_onAnchorFinalized {anchor : Anchor D} {now : UInt64} {collected : Dag.Collector}
    (h : m.onAnchorFinalized anchor now = some (collected, m')) (hd : m'.Records id d) :
    m.Records id d := by
  simp only [onAnchorFinalized, Option.bind_eq_bind, Option.bind_eq_some_iff, Option.pure_def,
    Option.some.injEq, Prod.mk.injEq] at h
  obtain ⟨cache, hc, s, hs, rfl, rfl⟩ := h
  have hde : (m.dag.finalizeEvents anchor.eventIds).depths = m.dag.depths :=
    (m.dag.finalizeEvents_eq anchor.eventIds).2.1
  rcases hd with hd | ⟨info, hi, rfl⟩ | hd
  · left
    rw [← hde]
    exact Dag.lookup_depths_of_gcFinalizedEvents hs hd
  · refine copies_cacheFinalized ?_ m.copies_recentCache hc id info hi
    intro id d hd
    exact .inl (hde ▸ hd)
  · exact .inr (.inr hd)

theorem records_of_finalizeEvents
    (hd : Records { m with dag := m.dag.finalizeEvents ids } id d) : m.Records id d := by
  rwa [Records, (m.dag.finalizeEvents_eq ids).2.1] at hd

theorem records_of_writeResolved {event : Event} {resolved : ResolvedParents}
    (h : m.writeResolved event resolved = .ok m') (hd : m'.Records id d) :
    id = event.id ∨ m.Records id d := by
  simp only [writeResolved, bind_eq_ok, mapError_eq_ok, pure_eq_ok] at h
  obtain ⟨-, -, dag, ha, rfl⟩ := h
  obtain ⟨-, rfl⟩ := Dag.addEventWithDepth_eq_ok.mp ha
  rcases hd with hd | hd | hd
  · rw [Dag.store, (Dag.linkParents_eq _ _ _).2.1] at hd
    exact (HashMap.lookup_insert_cases hd).imp And.left fun ho ↦ .inl ho.2
  · exact .inr (.inr (.inl hd))
  · exact .inr (.inr (.inr hd))

theorem records_of_persist
    (hd : Records { m with
      eventStore := m.eventStore.storeBatchWithDepth (m.eventsWithDepths ids) } id d) :
    m.Records id d := by
  have hs : ∀ id d, (m.eventStore.storeBatchWithDepth (m.eventsWithDepths ids)).getDepth id =
      some d → m.Records id d := by
    refine List.foldlRecOn (motive := fun store : EventStore ↦
      ∀ id d, store.getDepth id = some d → m.Records id d) _ _ (fun id d hd ↦ .inr (.inr hd)) ?_
    intro store hs entry he id d hd
    simp only [eventsWithDepths, List.mem_filterMap, Option.bind_eq_bind, Option.bind_eq_some_iff,
      Option.pure_def, Option.some.injEq] at he
    obtain ⟨target, -, event, hev, depth, hde, rfl⟩ := he
    rcases HashMap.lookup_insert_cases hd with ⟨rfl, rfl⟩ | ⟨-, ho⟩
    · rw [m.dag.keyed hev]
      exact .inl hde
    · exact hs id d ho
  rcases hd with hd | hd | hd
  · exact .inl hd
  · exact .inr (.inl hd)
  · exact hs id d hd

theorem records_of_warmupFromAnchors {anchors : List (Anchor D)}
    (hd : (m.warmupFromAnchors anchors).Records id d) : m.Records id d := by
  have hca : Copies m (m.warmupFromAnchors anchors).recentCache := by
    refine List.foldlRecOn _ _ m.copies_recentCache ?_
    intro cache hc anchor _
    refine List.foldlRecOn _ _ hc ?_
    intro cache hc target _
    rw [warmupEvent]
    split
    · next depth parentIds hde hp =>
      intro id info hi
      rcases LruCache.peek_put_cases hi with ⟨rfl, rfl⟩ | ⟨-, ho⟩
      · exact .inr (.inr hde)
      · exact hc id info ho
    · exact hc
  rcases hd with hd | ⟨info, hi, rfl⟩ | hd
  · exact .inl hd
  · exact hca id info hi
  · exact .inr (.inr hd)

end Copies

theorem refreshed_queryParent (id : EventId) : m.Refreshed (m.queryParent id).2 := by
  have hg : m.Refreshed { m with recentCache := (m.recentCache.get id).2 } :=
    ⟨_, rfl, fun other ↦ m.recentCache.peek_get id other⟩
  rw [queryParent]
  split
  · exact .refl m
  · dsimp only
    split
    · exact hg
    · split <;> exact hg

/-- The answer of a lookup, apart from what it does to the cache. -/
theorem fst_queryParent (m : DagManager) (id : EventId) :
    (m.queryParent id).1 = match m.dag.depths.lookup id with
      | some depth => some (.inDag depth)
      | none => match m.recentCache.peek id with
        | some info => some (.inCache info.depth info.anchorId)
        | none => if m.config.enableDiskFallback then (m.eventStore.getDepth id).map .inStore
          else none := by
  rw [queryParent, ← LruCache.fst_get]
  cases m.dag.depths.lookup id with
  | some depth => rfl
  | none =>
    rcases m.recentCache.get id with ⟨found, cache⟩
    cases found with
    | some info => rfl
    | none =>
      dsimp only
      split <;> rfl

theorem records_of_queryParent {m : DagManager} {id : EventId} {info : ParentInfo}
    (h : (m.queryParent id).1 = some info) : m.Records id info.depth := by
  rw [fst_queryParent] at h
  split at h
  · next depth hd =>
    cases h
    exact .inl hd
  · split at h
    · next found hf =>
      cases h
      exact .inr (.inl ⟨found, hf, rfl⟩)
    · split at h
      · obtain ⟨depth, hd, rfl⟩ := Option.map_eq_some_iff.mp h
        exact .inr (.inr hd)
      · cases h

theorem Refreshed.queryParent_eq {m m' : DagManager} (h : m.Refreshed m') (id : EventId) :
    (m'.queryParent id).1 = (m.queryParent id).1 := by
  obtain ⟨cache, rfl, hp⟩ := h
  simp only [fst_queryParent, hp]

theorem queryParents_spec (ids : List EventId) :
    m.Refreshed (m.queryParents ids).2 ∧ ∀ results, (m.queryParents ids).1 = .ok results →
      results.map Prod.fst = ids ∧
        ∀ result ∈ results, (m.queryParent result.1).1 = some result.2 := by
  induction ids generalizing m with
  | nil =>
    refine ⟨.refl m, ?_⟩
    intro results h
    cases h
    exact ⟨rfl, List.forall_mem_nil _⟩
  | cons id rest ih =>
    have hq := m.refreshed_queryParent id
    rw [queryParents]
    split
    · next m' heq =>
      rw [heq] at hq
      exact ⟨hq, fun results h ↦ by cases h⟩
    · next info m' heq =>
      rw [heq] at hq
      obtain ⟨hre, hrs⟩ := ih m'
      refine ⟨hq.trans hre, ?_⟩
      intro results h
      obtain ⟨found, hf, rfl⟩ : ∃ found, (m'.queryParents rest).1 = .ok found ∧
          (id, info) :: found = results := by
        rcases hf : m'.queryParents rest with ⟨answer, m''⟩
        rw [hf] at h
        cases answer with
        | error e => cases h
        | ok found =>
          cases h
          exact ⟨found, rfl, rfl⟩
      obtain ⟨hi, hrc⟩ := hrs found hf
      refine ⟨congrArg (id :: ·) hi, ?_⟩
      intro result hr
      rcases List.mem_cons.mp hr with rfl | hr
      · exact congrArg Prod.fst heq
      · exact (hq.queryParent_eq _).symm.trans (hrc result hr)

theorem resolveParents_spec (event : Event) :
    m.Refreshed (m.resolveParents event).2 ∧
      ∀ resolved, (m.resolveParents event).1 = .ok resolved →
        resolved.results.map Prod.fst = event.parentIds ∧
        (∀ result ∈ resolved.results, (m.queryParent result.1).1 = some result.2) ∧
        ∃ m', resolved.newEventDepth = newEventDepth m' resolved.results := by
  obtain ⟨hr, hre⟩ := m.queryParents_spec event.parentIds
  rw [resolveParents]
  rcases hq : m.queryParents event.parentIds with ⟨answer, m'⟩
  rw [hq] at hr hre
  refine ⟨hr, ?_⟩
  intro resolved h
  simp only [bind_eq_ok, pure_eq_ok] at h
  obtain ⟨results, ha, -, -, rfl⟩ := h
  obtain ⟨hi, hrc⟩ := hre results ha
  exact ⟨hi, hrc, m', rfl⟩

private theorem le_max_iff {a b c : UInt64} : a ≤ max b c ↔ a ≤ b ∨ a ≤ c := by
  change a ≤ (if b ≤ c then c else b) ↔ _
  split <;> grind

private theorem foldl_max_depth (results : List (EventId × ParentInfo)) (start : UInt64) :
    let deepest := results.foldl (fun deepest result ↦ max deepest result.2.depth) start
    (deepest = start ∨ ∃ result ∈ results, deepest = result.2.depth) ∧ start ≤ deepest ∧
      ∀ result ∈ results, result.2.depth ≤ deepest := by
  induction results generalizing start with
  | nil => exact ⟨.inl rfl, UInt64.le_refl _, List.forall_mem_nil _⟩
  | cons first rest ih =>
    obtain ⟨heq, hle, hre⟩ := ih (max start first.2.depth)
    have hs : start ≤ max start first.2.depth := le_max_iff.mpr (.inl (UInt64.le_refl _))
    have hf : first.2.depth ≤ max start first.2.depth := le_max_iff.mpr (.inr (UInt64.le_refl _))
    refine ⟨?_, UInt64.le_trans hs hle, ?_⟩
    · rcases heq with heq | ⟨result, hr, heq⟩
      · rw [List.foldl_cons, heq]
        change (if start ≤ first.2.depth then first.2.depth else start) = start ∨
          ∃ result ∈ first :: rest, (if start ≤ first.2.depth then _ else _) = _
        split
        · exact .inr ⟨first, List.mem_cons_self, rfl⟩
        · exact .inl rfl
      · exact .inr ⟨result, List.mem_cons_of_mem _ hr, heq⟩
    · intro result hr
      rcases List.mem_cons.mp hr with rfl | hr
      · exact UInt64.le_trans hf hle
      · exact hre result hr

theorem lt_newEventDepth {m : DagManager} {results : List (EventId × ParentInfo)}
    (hb : ∀ result ∈ results, result.2.depth ≠ -1) {result : EventId × ParentInfo}
    (hr : result ∈ results) : result.2.depth < m.newEventDepth results := by
  obtain ⟨heq, -, hle⟩ := foldl_max_depth results 0
  have hn : results.isEmpty = false := by
    cases results with
    | nil => cases hr
    | cons first rest => rfl
  rw [newEventDepth, hn]
  simp only [Bool.false_eq_true, if_false]
  generalize results.foldl (fun deepest result ↦ max deepest result.2.depth) 0 = deepest at *
  have hd : deepest ≠ -1 := by
    rcases heq with rfl | ⟨other, ho, rfl⟩
    · decide
    · exact hb other ho
  have hne : result.2.depth < deepest + 1 := by
    have := hle result hr
    grind
  exact UInt64.lt_of_lt_of_le hne (le_max_iff.mpr (.inl (UInt64.le_refl _)))

theorem lt_of_resolveParents {event : Event} {resolved : ResolvedParents}
    (hd : ∀ p ∈ event.parentIds, ¬ m.Records p (-1))
    (h : (m.resolveParents event).1 = .ok resolved) :
    ∀ result ∈ resolved.results, result.2.depth < resolved.newEventDepth := by
  obtain ⟨-, hs⟩ := m.resolveParents_spec event
  obtain ⟨hi, hre, m', hde⟩ := hs resolved h
  have hb : ∀ result ∈ resolved.results, result.2.depth ≠ -1 := by
    intro result hr heq
    have hp : result.1 ∈ event.parentIds := hi ▸ List.mem_map_of_mem hr
    exact hd _ hp (heq ▸ records_of_queryParent (hre result hr))
  intro result hr
  rw [hde]
  exact lt_newEventDepth hb hr

end DagManager

/-- The manager with the additions that have resolved their parents and are still to be written;
other tasks may run in between. The depth each event was given when it was added is kept for the
statements only. -/
structure DagNode where
  manager : DagManager
  resolved : List (Event × ResolvedParents)
  inserted : HashMap EventId UInt64

/-- What can happen to the manager: the two phases of an addition, the mark of a finalized frame in
the active DAG, synchronized and persisted events, the end of a finalization, a raised floor and
the warm-up of the cache. -/
inductive DagInput (D : Type) where
  | resolve (event : Event)
  | write (index : Nat)
  | markFinalized (ids : List EventId)
  | storeSynced (event : Event)
  | persist (ids : List EventId)
  | anchorFinalized (anchor : Anchor D) (now : UInt64)
  | updateMinDepth (depth : UInt64)
  | warmup (anchors : List (Anchor D))

namespace DagNode

variable {D : Type}

/-- A node that has just started. -/
def new (config : DagManagerConfig) : DagNode := ⟨.new config, [], ∅⟩

variable (node : DagNode)

/-- The end of an addition. -/
def write (index : Nat) : Option DagManagerError × DagNode :=
  match node.resolved[index]? with
  | none => (none, node)
  | some (event, resolved) =>
    let node := { node with resolved := node.resolved.eraseIdx index }
    match node.manager.writeResolved event resolved with
    | .error e => (some e, node)
    | .ok m =>
      (none, { node with
        manager := m
        inserted := node.inserted.insert event.id resolved.newEventDepth })

/-- One step of the node, with the error it reports. -/
def step : DagInput D → Option DagManagerError × DagNode
  | .resolve event =>
    let (answer, m) := node.manager.resolveParents event
    match answer with
    | .error e => (some e, { node with manager := m })
    | .ok resolved =>
      (none, { node with manager := m, resolved := node.resolved ++ [(event, resolved)] })
  | .write index => node.write index
  | .markFinalized ids =>
    (none, { node with
      manager := { node.manager with dag := node.manager.dag.finalizeEvents ids } })
  | .storeSynced event =>
    (none, { node with
      manager := { node.manager with eventStore := node.manager.eventStore.store event } })
  | .persist ids =>
    let entries := node.manager.eventsWithDepths ids
    (none, { node with
      manager := { node.manager with
        eventStore := node.manager.eventStore.storeBatchWithDepth entries } })
  | .anchorFinalized anchor now =>
    match node.manager.onAnchorFinalized anchor now with
    | none => (none, node)
    | some (_, m) => (none, { node with manager := m })
  | .updateMinDepth depth =>
    (none, { node with manager := node.manager.updateMinDepth depth })
  | .warmup anchors => (none, { node with manager := node.manager.warmupFromAnchors anchors })

/-- No event is added again after it was collected. -/
def WritesOnce : DagInput D → Prop
  | .write index => ∀ entry ∈ node.resolved[index]?,
      entry.1.id ∈ node.manager.dag.events ∨ entry.1.id ∉ node.inserted
  | _ => True

/-- No event is added below the last depth there is. -/
def DepthsLeft : DagInput D → Prop
  | .resolve event => ∀ p ∈ event.parentIds, ¬ node.manager.Records p (-1)
  | _ => True

/-- The runs in which events are added once. -/
def AddsOnce (_ : List (Option DagManagerError)) (node : DagNode) (input : DagInput D) : Prop :=
  node.WritesOnce input ∧ node.DepthsLeft input

instance WritesOnce.decidable (node : DagNode) :
    (input : DagInput D) → Decidable (node.WritesOnce input)
  | .write index =>
    decidable_of_iff ((node.resolved[index]?).all fun entry ↦
        decide (entry.1.id ∈ node.manager.dag.events ∨ entry.1.id ∉ node.inserted))
      (by simp [WritesOnce, Option.all_eq_true])
  | .resolve _ | .markFinalized _ | .storeSynced _ | .persist _ | .anchorFinalized _ _
  | .updateMinDepth _ | .warmup _ => isTrue trivial

instance DepthsLeft.decidable (node : DagNode) :
    (input : DagInput D) → Decidable (node.DepthsLeft input)
  | .resolve event =>
    inferInstanceAs (Decidable (∀ p ∈ event.parentIds, ¬ node.manager.Records p (-1)))
  | .write _ | .markFinalized _ | .storeSynced _ | .persist _ | .anchorFinalized _ _
  | .updateMinDepth _ | .warmup _ => isTrue trivial

instance AddsOnce.decidable (errors : List (Option DagManagerError)) (node : DagNode)
    (input : DagInput D) : Decidable (AddsOnce errors node input) :=
  inferInstanceAs (Decidable (_ ∧ _))

/-- The cache has the depths that the events were given. -/
def Cached (inserted : HashMap EventId UInt64) (cache : RecentEventCache) : Prop :=
  ∀ id info, cache.peek id = some info → inserted.lookup id = some info.depth

/-- The store has the depths that the events were given. -/
def Stored (inserted : HashMap EventId UInt64) (store : EventStore) : Prop :=
  ∀ id d, store.getDepth id = some d → inserted.lookup id = some d

/-- Every layer, and every addition under way, has the depth that the event was given. -/
structure Sound (below : UInt64 → UInt64 → Prop) (node : DagNode) : Prop where
  grown : node.manager.dag.Grown below node.inserted
  cached : Cached node.inserted node.manager.recentCache
  stored : Stored node.inserted node.manager.eventStore
  resolved : ∀ entry ∈ node.resolved, entry.2.results.map Prod.fst = entry.1.parentIds ∧
    ∀ result ∈ entry.2.results, node.inserted.lookup result.1 = some result.2.depth ∧
      below result.2.depth entry.2.newEventDepth

namespace Sound

variable {below : UInt64 → UInt64 → Prop} {node : DagNode}

theorem new (config : DagManagerConfig) : (DagNode.new config).Sound below where
  grown := .new
  cached id info h := by cases h
  stored id d h := by cases h
  resolved := List.forall_mem_nil _

theorem lookup_inserted (h : node.Sound below) {id : EventId} {d : UInt64}
    (hd : node.manager.Records id d) : node.inserted.lookup id = some d := by
  rcases hd with hd | ⟨info, hi, rfl⟩ | hd
  · exact h.grown.depth_eq hd
  · exact h.cached id info hi
  · exact h.stored id d hd

theorem structured (h : node.Sound (· < ·)) : node.manager.Structured where
  indexed_iff := h.grown.indexed_iff
  acyclic := h.grown.acyclic
  deeper := by
    intro id event he
    have hm : id ∈ node.manager.dag.events := AList.lookup_isSome.mp (Option.isSome_of_eq_some he)
    obtain ⟨depth, hde⟩ := Option.isSome_iff_exists.mp
      (AList.lookup_isSome.mpr ((h.grown.resident_iff id).mp hm))
    refine ⟨depth, hde, ?_⟩
    intro p hp d hd
    obtain ⟨dp, depth', hdp, hde', hlt⟩ := h.grown.deeper he p hp
    rw [h.lookup_inserted hd, Option.some.injEq] at hdp
    rw [h.grown.depth_eq hde, Option.some.injEq] at hde'
    rwa [hdp, hde']
  resident_of_depth id hid := (h.grown.resident_iff id).mpr hid
  resident_of_pending := h.grown.pending
  tip := h.grown.tip

/-- Only the manager changes, and it puts no depth on record. -/
theorem of_records (h : node.Sound below) {m : DagManager}
    (hg : m.dag.Grown below node.inserted)
    (hr : ∀ {id d}, m.Records id d → node.manager.Records id d) :
    Sound below { node with manager := m } where
  grown := hg
  cached _ info hi := h.lookup_inserted (hr (.inr (.inl ⟨info, hi, rfl⟩)))
  stored _ _ hd := h.lookup_inserted (hr (.inr (.inr hd)))
  resolved := h.resolved

theorem refreshed (h : node.Sound below) {m : DagManager} (hm : node.manager.Refreshed m) :
    Sound below { node with manager := m } := by
  have hr : ∀ {id d}, m.Records id d → node.manager.Records id d :=
    fun {id d} ↦ (hm.records_iff id d).mp
  obtain ⟨cache, rfl, -⟩ := hm
  exact h.of_records h.grown hr

theorem resolve (h : node.Sound below) {event : Event}
    (hb : ∀ resolved, (node.manager.resolveParents event).1 = .ok resolved →
      ∀ result ∈ resolved.results, below result.2.depth resolved.newEventDepth) :
    (node.step (.resolve event : DagInput D)).2.Sound below := by
  obtain ⟨hr, hre⟩ := node.manager.resolveParents_spec event
  rw [step]
  rcases ha : node.manager.resolveParents event with ⟨answer, m⟩
  rw [ha] at hr hre hb
  cases answer with
  | error e => exact h.refreshed hr
  | ok resolved =>
    obtain ⟨hi, hrc, -⟩ := hre resolved rfl
    refine { h.refreshed hr with resolved := ?_ }
    intro entry he
    rcases List.mem_append.mp he with he | he
    · exact h.resolved entry he
    · obtain rfl := List.mem_singleton.mp he
      refine ⟨hi, ?_⟩
      exact fun result hrs ↦
        ⟨h.lookup_inserted (DagManager.records_of_queryParent (hrc result hrs)),
          hb resolved rfl result hrs⟩

theorem write (h : node.Sound below) {index : Nat}
    (hon : node.WritesOnce (.write index : DagInput D)) :
    (node.write index).2.Sound below := by
  rw [DagNode.write]
  split
  · exact h
  · next event resolved he =>
    have hrs : ∀ entry ∈ node.resolved.eraseIdx index, entry ∈ node.resolved :=
      fun entry he ↦ List.mem_of_mem_eraseIdx he
    dsimp only
    split
    · exact { h with resolved := fun entry he ↦ h.resolved entry (hrs entry he) }
    · next m hw =>
      obtain ⟨hi, hr⟩ := h.resolved _ (List.mem_of_getElem? he)
      simp only [DagManager.writeResolved, bind_eq_ok, mapError_eq_ok, pure_eq_ok] at hw
      obtain ⟨-, -, dag, ha, rfl⟩ := hw
      have hn : event.id ∉ node.inserted :=
        (hon _ he).resolve_left (Dag.addEventWithDepth_eq_ok.mp ha).1
      have ho : ∀ {id d}, node.inserted.lookup id = some d →
          (node.inserted.insert event.id resolved.newEventDepth).lookup id = some d := by
        intro id d hd
        rw [AList.lookup_insert_ne, hd]
        rintro rfl
        exact hn (AList.lookup_isSome.mp (Option.isSome_of_eq_some hd))
      have hpa : ∀ p ∈ event.parentIds,
          ∃ dp, node.inserted.lookup p = some dp ∧ below dp resolved.newEventDepth := by
        intro p hp
        rw [← hi, List.mem_map] at hp
        obtain ⟨result, hre, rfl⟩ := hp
        exact ⟨_, hr result hre⟩
      constructor
      · exact h.grown.addEventWithDepth hn hpa ha
      · exact fun id info hin ↦ ho (h.cached id info hin)
      · exact fun id d hd ↦ ho (h.stored id d hd)
      · intro entry he
        obtain ⟨hi, hr⟩ := h.resolved entry (hrs entry he)
        exact ⟨hi, fun result hre ↦
          ⟨ho (hr result hre).1, (hr result hre).2⟩⟩

theorem anchorFinalized (h : node.Sound below) {anchor : Anchor D} {now : UInt64}
    {collected : Dag.Collector} {m : DagManager}
    (hm : node.manager.onAnchorFinalized anchor now = some (collected, m)) :
    Sound below { node with manager := m } := by
  have hr : ∀ {id d}, m.Records id d → node.manager.Records id d :=
    DagManager.records_of_onAnchorFinalized hm
  simp only [DagManager.onAnchorFinalized, Option.bind_eq_bind, Option.bind_eq_some_iff,
    Option.pure_def, Option.some.injEq, Prod.mk.injEq] at hm
  obtain ⟨cache, -, s, hs, rfl, rfl⟩ := hm
  exact h.of_records ((h.grown.finalizeEvents anchor.eventIds).gcFinalizedEvents hs) hr

/-- Every step that adds no event again keeps the records true. -/
theorem step (h : node.Sound below) {input : DagInput D}
    (hr : ∀ event, input = .resolve event →
      ∀ resolved, (node.manager.resolveParents event).1 = .ok resolved →
        ∀ result ∈ resolved.results, below result.2.depth resolved.newEventDepth)
    (hw : node.WritesOnce input) : (node.step input).2.Sound below := by
  cases input with
  | resolve event => exact h.resolve (hr event rfl)
  | write index => exact h.write hw
  | markFinalized ids =>
    exact h.of_records (h.grown.finalizeEvents ids) DagManager.records_of_finalizeEvents
  | storeSynced event => exact h.of_records h.grown fun hd ↦ hd
  | persist ids => exact h.of_records h.grown DagManager.records_of_persist
  | anchorFinalized anchor now =>
    rw [DagNode.step]
    split
    · exact h
    · next hm => exact h.anchorFinalized hm
  | updateMinDepth depth => exact h.of_records h.grown fun hd ↦ hd
  | warmup anchors => exact h.of_records h.grown DagManager.records_of_warmupFromAnchors

end Sound

/-- In every run in which no event is added again after it was collected, the DAG has its
structure. -/
theorem structured_of_addsOnce {config : DagManagerConfig}
    {errors : List (Option DagManagerError)} {node : DagNode}
    (hrun : Run (step (D := D)) AddsOnce (new config) errors node) : node.manager.Structured := by
  refine (hrun.invariant (fun _ (node : DagNode) ↦ node.Sound (· < ·)) (.new config) ?_).structured
  intro errors node input hs hi
  refine hs.step ?_ hi.1
  rintro event rfl
  exact fun resolved hr ↦ node.manager.lt_of_resolveParents hi.2 hr

/-! Three events in a chain, of which the anchor finalizes the first two: the first one is
collected, the second one is kept for the third. -/

private def chainEvent (id : EventId) (parentIds : List EventId) : Event :=
  ⟨id, .transfer, parentIds, none, none, .none, ⟨∅, 1, 0⟩, "", .pending, none, 0⟩

private def chainAnchor : Anchor Bytes := ⟨"anchor", ["a", "b"], ⟨∅, 3, 0⟩, "", none, none, 2, 0⟩

private def chainInputs : List (DagInput Bytes) :=
  [.resolve (chainEvent "a" []), .write 0, .resolve (chainEvent "b" ["a"]), .write 0,
    .resolve (chainEvent "c" ["b"]), .write 0, .persist ["a", "b"], .anchorFinalized chainAnchor 0]

private def chainNode (inputs : List (DagInput Bytes)) : DagNode :=
  (feed step ([], new .default) inputs).2

/-- The chain after the collection. -/
theorem structured_chain :
    "a" ∉ (chainNode chainInputs).manager.dag.events ∧
      (chainNode chainInputs).manager.Structured := by
  refine ⟨by decide +kernel, ?_⟩
  have hf : Feeds step AddsOnce ([], new .default) chainInputs := by decide +kernel
  exact structured_of_addsOnce (Run.start.feed hf)

/-- The first event is sent again: it is added above its child, which the index does not list. -/
theorem not_structured_resent :
    ¬ (chainNode (chainInputs ++ [.resolve (chainEvent "a" []), .write 0])).manager.Structured := by
  intro h
  have ht : "a" ∈ (chainNode (chainInputs ++
      [.resolve (chainEvent "a" []), .write 0])).manager.dag.tips := by decide +kernel
  have hm : "a" ∈ (chainNode (chainInputs ++
      [.resolve (chainEvent "a" []), .write 0])).manager.dag.events := by decide +kernel
  have hp : ((chainNode (chainInputs ++ [.resolve (chainEvent "a" []),
      .write 0])).manager.dag.events.lookup "b").map (·.parentIds) = some ["a"] := by
    decide +kernel
  obtain ⟨event, he, hi⟩ := Option.map_eq_some_iff.mp hp
  exact (h.tip "a" ht).2 "b" ⟨hm, event, he, hi ▸ List.mem_cons_self⟩

end DagNode

end Setu.Consensus
