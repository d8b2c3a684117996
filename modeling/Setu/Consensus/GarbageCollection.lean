import Setu.Consensus.DagInvariant

/-!
# Collection of finalized events

Library `Consensus`. The collector ends, removes only finalized events whose children are finalized,
and leaves a finalized event only above one that is not. It relies on the child index: an event
that is added again after it was collected is removed although it has an active child. Sources
`consensus/src/dag.rs` and `consensus/src/dag_manager.rs`.
-/

namespace Setu.Consensus

open Setu.Base Setu.Types
open Relation (TransGen ReflTransGen)

namespace Dag

/-- The event is resident and not finalized. -/
def Active (dag : Dag) (id : EventId) : Prop :=
  ∃ event, dag.events.lookup id = some event ∧ event.status ≠ .finalized

/-- Every finalized event stands above an active one. -/
def Thorough (dag : Dag) : Prop :=
  ∀ id event, dag.events.lookup id = some event → event.status = .finalized →
    ∃ d, TransGen dag.Edge id d ∧ dag.Active d

variable {id c : EventId}

/-- An event that is not removed has left the DAG or has an active child. -/
theorem removeEvent_eq_none {dag : Dag} (h : dag.removeEvent id = none) :
    dag.events.lookup id = none ∨ dag.hasActiveChildren id = true := by
  rw [removeEvent] at h
  split at h
  · next ha => exact .inr ha
  · exact .inl (Option.map_eq_none_iff.mp h)

/-- A round takes an event out of the queue and queues at most the parents of the event it
removes. -/
theorem Collector.rounds_step {targets : List EventId} {s s' : Collector}
    (h : s.step targets = some s') : s'.rounds < s.rounds := by
  rw [Collector.step] at h
  split at h
  · cases h
  · next id rest hq =>
    split at h
    · next parentIds dag hr =>
      obtain ⟨-, event, he, rfl, rfl⟩ := removeEvent_eq_some hr
      cases h
      have hs := HashMap.sumOver_erase (fun event : Event ↦ event.parentIds.length + 1)
        s.dag.events id
      have hf := List.length_filter_le (s.dag.without id event.parentIds).isFinalized
        event.parentIds
      rw [he] at hs
      simp only [Collector.rounds, hq, List.length_append, List.length_cons, without,
        Option.elim_some] at hs hf ⊢
      omega
    · cases h
      simp only [Collector.rounds, hq, List.length_cons]
      omega

/-- The collector ends, on every DAG and every queue. -/
theorem exists_gcFinalizedEvents (dag : Dag) (ids : List EventId) :
    ∃ s, dag.gcFinalizedEvents ids = some s :=
  exists_loop_of_measure Collector.rounds Collector.rounds_step (Nat.lt_succ_self _)

variable {below : UInt64 → UInt64 → Prop} {inserted : HashMap EventId UInt64} {dag : Dag}

/-- With a complete index, an event without indexed active children has no active child. -/
theorem Grown.not_active_of_edge (h : Grown below inserted dag)
    (ha : dag.hasActiveChildren id = false) (he : dag.Edge id c) : ¬ dag.Active c := by
  rintro ⟨event, hev, hs⟩
  have hi := (h.indexed_iff id c).mpr he
  rw [Indexed] at hi
  rw [hasActiveChildren] at ha
  split at ha
  · next hn =>
    rw [hn] at hi
    cases hi
  · next children hch =>
    rw [hch, Option.getD_some] at hi
    have hc := List.any_eq_false.mp ha c (AList.mem_keys.mp hi)
    rw [hev] at hc
    exact hc (decide_eq_true hs)

theorem Grown.exists_active_of_hasActiveChildren (h : Grown below inserted dag)
    (ha : dag.hasActiveChildren id = true) : ∃ c, dag.Edge id c ∧ dag.Active c := by
  rw [hasActiveChildren] at ha
  split at ha
  · cases ha
  · next children hch =>
    obtain ⟨c, hc, hs⟩ := List.any_eq_true.mp ha
    have hi : dag.Indexed id c := by
      rw [Indexed, hch]
      exact AList.mem_keys.mpr hc
    refine ⟨c, (h.indexed_iff id c).mp hi, ?_⟩
    split at hs
    · next event he => exact ⟨event, he, of_decide_eq_true hs⟩
    · cases hs

/-- A path of a DAG avoids an event that is removed, or goes through a parent of it that the path
reaches without the event. -/
theorem reaches_without {z x : EventId} (parents : List EventId) (hz : z ≠ id)
    (h : ReflTransGen dag.Edge z x) :
    ReflTransGen (dag.without id parents).Edge z x ∧ x ≠ id ∨
      ∃ p, ReflTransGen (dag.without id parents).Edge z p ∧ p ≠ id ∧ dag.Edge p id := by
  induction h with
  | refl => exact .inl ⟨.refl, hz⟩
  | @tail x y _ he ih =>
    rcases ih with ⟨hp, hx⟩ | ht
    · by_cases hy : y = id
      · exact .inr ⟨x, hp, hx, hy ▸ he⟩
      · exact .inl ⟨hp.tail ((edge_without dag id parents x y).mpr ⟨he, hx, hy⟩), hy⟩
    · exact .inr ht

theorem Active.of_without {parents : List EventId} (h : (dag.without id parents).Active c)
    : dag.Active c := by
  obtain ⟨event, he, hs⟩ := h
  exact ⟨event, HashMap.lookup_of_lookup_erase he, hs⟩

theorem Active.without {parents : List EventId} (h : dag.Active c) (hne : c ≠ id)
    : (dag.without id parents).Active c := by
  obtain ⟨event, he, hs⟩ := h
  exact ⟨event, (AList.lookup_erase_ne hne).trans he, hs⟩

theorem not_active_of_isFinalized (h : dag.isFinalized id = true) : ¬ dag.Active id := by
  rintro ⟨event, he, hs⟩
  rw [isFinalized, he] at h
  exact hs (of_decide_eq_true h)

theorem isFinalized_or_active (h : id ∈ dag.events) :
    dag.isFinalized id = true ∨ dag.Active id := by
  obtain ⟨event, he⟩ := Option.isSome_iff_exists.mp (AList.lookup_isSome.mpr h)
  by_cases hs : event.status = .finalized
  · left
    rw [isFinalized, he]
    exact decide_eq_true hs
  · exact .inr ⟨event, he, hs⟩

/-- An active event that is reached from a finalized one is a proper descendant of it. -/
theorem exists_active_descendant {z d : EventId} {event : Event}
    (hz : dag.events.lookup z = some event) (hs : event.status = .finalized)
    (hp : ReflTransGen dag.Edge z d) (hd : dag.Active d) :
    ∃ d, TransGen dag.Edge z d ∧ dag.Active d := by
  rcases Relation.reflTransGen_iff_eq_or_transGen.mp hp with rfl | hp
  · obtain ⟨found, hf, ha⟩ := hd
    rw [hz, Option.some.injEq] at hf
    exact absurd (hf ▸ hs) ha
  · exact ⟨d, hp, hd⟩

/-- What holds while the collector works on a DAG. -/
structure Collecting (below : UInt64 → UInt64 → Prop) (inserted : HashMap EventId UInt64)
    (dag : Dag) (s : Collector) : Prop where
  grown : Grown below inserted s.dag
  kept : ∀ {id event}, s.dag.events.lookup id = some event → dag.events.lookup id = some event
  removed : ∀ {id event}, dag.events.lookup id = some event → id ∉ s.dag.events →
    event.status = .finalized ∧ ∀ c, dag.Edge id c → ¬ dag.Active c
  queued : ∀ id ∈ s.queue, ¬ s.dag.Active id
  covered : ∀ id event, s.dag.events.lookup id = some event → event.status = .finalized →
    (∃ d, TransGen s.dag.Edge id d ∧ s.dag.Active d) ∨
      ∃ q ∈ s.queue, ReflTransGen s.dag.Edge id q

namespace Collecting

variable {s : Collector} {id : EventId} {rest : List EventId}

/-- The event at the head of the queue is removed, and its finalized parents are queued. -/
theorem remove (h : Collecting below inserted dag s) (hqu : s.queue = id :: rest)
    (ha : s.dag.hasActiveChildren id = false) {event : Event}
    (he : s.dag.events.lookup id = some event) (removed retained : Nat) :
    Collecting below inserted dag ⟨s.dag.without id event.parentIds,
      rest ++ event.parentIds.filter (s.dag.without id event.parentIds).isFinalized, removed,
      retained⟩ := by
  have hs : event.status = .finalized := by
    by_contra hs
    exact h.queued id (hqu ▸ List.mem_cons_self) ⟨event, he, hs⟩
  constructor
  case grown => exact h.grown.without he
  case kept => exact fun hf ↦ h.kept (HashMap.lookup_of_lookup_erase hf)
  case removed =>
    intro other found hf hg
    by_cases ho : other = id
    · subst ho
      rw [h.kept he, Option.some.injEq] at hf
      subst hf
      refine ⟨hs, ?_⟩
      rintro c ⟨-, child, hch, hm⟩ hc
      by_cases hr : c ∈ s.dag.events
      · obtain ⟨child', hch'⟩ := Option.isSome_iff_exists.mp (AList.lookup_isSome.mpr hr)
        obtain rfl : child = child' := Option.some.inj (hch.symm.trans (h.kept hch'))
        have hed : s.dag.Edge other c :=
          ⟨AList.lookup_isSome.mp (Option.isSome_of_eq_some he), child, hch', hm⟩
        obtain ⟨active, ha', ha''⟩ := hc
        obtain rfl : child = active := Option.some.inj (hch.symm.trans ha')
        exact h.grown.not_active_of_edge ha hed ⟨child, hch', ha''⟩
      · obtain ⟨active, ha', ha''⟩ := hc
        exact ha'' (h.removed ha' hr).1
    · refine h.removed hf ?_
      exact fun hm ↦ hg (AList.mem_erase.mpr ⟨ho, hm⟩)
  case queued =>
    intro q hq
    rcases List.mem_append.mp hq with hq | hq
    · exact fun ha ↦ h.queued q (hqu ▸ List.mem_cons_of_mem _ hq) ha.of_without
    · exact not_active_of_isFinalized (List.mem_filter.mp hq).2
  case covered =>
    intro z ez hz hfi
    have hne : z ≠ id := by
      rintro rfl
      rw [without, AList.lookup_erase] at hz
      cases hz
    -- a path through the removed event leads to a parent of it, which is queued or active
    have ht : ∀ p, ReflTransGen (s.dag.without id event.parentIds).Edge z p → p ≠ id →
        s.dag.Edge p id → (∃ d, TransGen (s.dag.without id event.parentIds).Edge z d ∧
          (s.dag.without id event.parentIds).Active d) ∨ ∃ q ∈ rest ++ event.parentIds.filter
            (s.dag.without id event.parentIds).isFinalized,
          ReflTransGen (s.dag.without id event.parentIds).Edge z q := by
      rintro p hpa hp ⟨hr, found, hf, hm⟩
      rw [he, Option.some.injEq] at hf
      subst hf
      have hl : p ∈ (s.dag.without id event.parentIds).events := AList.mem_erase.mpr ⟨hp, hr⟩
      rcases isFinalized_or_active hl with hq | ha
      · exact .inr ⟨p, List.mem_append_right _ (List.mem_filter.mpr ⟨hm, hq⟩), hpa⟩
      · exact .inl (exists_active_descendant hz hfi hpa ha)
    rcases h.covered z ez (HashMap.lookup_of_lookup_erase hz) hfi with
      ⟨d, hpa, hd⟩ | ⟨q, hq, hpa⟩
    · rcases reaches_without event.parentIds hne hpa.to_reflTransGen with
        ⟨hpa, hdn⟩ | ⟨p, hpa, hp, hed⟩
      · exact .inl (exists_active_descendant hz hfi hpa (hd.without hdn))
      · exact ht p hpa hp hed
    · rcases reaches_without event.parentIds hne hpa with
        ⟨hpa, hqn⟩ | ⟨p, hpa, hp, hed⟩
      · rw [hqu, List.mem_cons] at hq
        exact .inr ⟨q, List.mem_append_left _ (hq.resolve_left hqn), hpa⟩
      · exact ht p hpa hp hed

/-- The event at the head of the queue is kept. -/
theorem keep (h : Collecting below inserted dag s) (hqu : s.queue = id :: rest)
    (hk : s.dag.events.lookup id = none ∨ s.dag.hasActiveChildren id = true)
    (removed retained : Nat) : Collecting below inserted dag ⟨s.dag, rest, removed, retained⟩ := by
  refine { h with queued := ?_, covered := ?_ }
  · exact fun q hq ↦ h.queued q (hqu ▸ List.mem_cons_of_mem _ hq)
  · intro z event hz hs
    rcases h.covered z event hz hs with ha | ⟨q, hq, hp⟩
    · exact .inl ha
    · rw [hqu, List.mem_cons] at hq
      rcases hq with rfl | hq
      · rcases hk with hn | ha
        · -- the path ends in a resident event
          exfalso
          rcases ReflTransGen.cases_tail hp with rfl | ⟨p, -, he⟩
          · rw [hn] at hz
            cases hz
          · obtain ⟨-, found, hf, -⟩ := he
            rw [hn] at hf
            cases hf
        · obtain ⟨c, he, hc⟩ := h.grown.exists_active_of_hasActiveChildren ha
          exact .inl ⟨c, TransGen.tail' hp he, hc⟩
      · exact .inr ⟨q, hq, hp⟩

theorem step (h : Collecting below inserted dag s) {targets : List EventId} {s' : Collector}
    (hs : s.step targets = some s') : Collecting below inserted dag s' := by
  rw [Collector.step] at hs
  split at hs
  · cases hs
  · next id rest hq =>
    split at hs
    · next hr =>
      obtain ⟨ha, event, he, rfl, rfl⟩ := removeEvent_eq_some hr
      cases hs
      exact h.remove hq ha he _ _
    · next hn =>
      cases hs
      exact h.keep hq (removeEvent_eq_none hn) _ _

end Collecting

/-- A DAG in which every finalized event stood above an active one is collected thoroughly once
more events are finalized. -/
theorem Grown.collect (h : Grown below inserted dag) (ht : dag.Thorough)
    {ids : List EventId} {s : Collector}
    (hs : (dag.finalizeEvents ids).gcFinalizedEvents ids = some s) :
    Collecting below inserted (dag.finalizeEvents ids) s ∧ s.dag.Thorough := by
  have hsr : Collecting below inserted (dag.finalizeEvents ids)
      ⟨dag.finalizeEvents ids, ids, 0, 0⟩ := by
    constructor
    case grown => exact h.finalizeEvents ids
    case kept => exact id
    case removed =>
      intro id event he hg
      exact absurd (AList.lookup_isSome.mp (Option.isSome_of_eq_some he)) hg
    case queued =>
      rintro id hid ⟨event, he, hst⟩
      rw [lookup_finalizeEvents, Option.map_eq_some_iff] at he
      obtain ⟨old, -, rfl⟩ := he
      simp [finalizedAs, if_pos hid] at hst
    case covered =>
      intro id event he hst
      have hed : (dag.finalizeEvents ids).Edge = dag.Edge := by
        funext p c
        exact propext (edge_finalizeEvents dag ids p c)
      by_cases hid : id ∈ ids
      · exact .inr ⟨id, hid, .refl⟩
      · rw [lookup_finalizeEvents, finalizedAs, if_neg hid, Option.map_id'] at he
        obtain ⟨d, hp, active, ha, ha'⟩ := ht id event he hst
        rw [hed]
        by_cases hd : d ∈ ids
        · exact .inr ⟨d, hd, hp.to_reflTransGen⟩
        · refine .inl ⟨d, hp, active, ?_, ha'⟩
          rw [lookup_finalizeEvents, finalizedAs, if_neg hd, Option.map_id']
          exact ha
  obtain ⟨hc, hen⟩ := loop_induction (Collecting below inserted (dag.finalizeEvents ids))
    (fun hs hsp ↦ hs.step hsp) hsr hs
  refine ⟨hc, ?_⟩
  intro id event he hst
  rcases hc.covered id event he hst with ha | ⟨q, hq, -⟩
  · exact ha
  · rw [Collector.step] at hen
    split at hen
    · next hqu =>
      rw [hqu] at hq
      cases hq
    · split at hen <;> cases hen

/-- An event that is not finalized leaves every finalized event above an active one. -/
theorem Thorough.addEventWithDepth {dag' : Dag} {event : Event} {depth : UInt64}
    (h : dag.Thorough) (hs : event.status ≠ .finalized)
    (had : dag.addEventWithDepth event depth = .ok dag') : dag'.Thorough := by
  obtain ⟨hfr, rfl⟩ := addEventWithDepth_eq_ok.mp had
  obtain ⟨hev, -, -⟩ := linkParents_eq event.id
    (event.parentIds.filter fun p ↦ decide (p ∈ dag.events)) dag
  intro id found hfo hf
  rcases HashMap.lookup_insert_cases hfo with ⟨-, rfl⟩ | ⟨-, ho⟩
  · exact absurd hf hs
  · rw [hev] at ho
    have hl : ∀ {c e}, dag.events.lookup c = some e → (AList.insert event.id event
        (List.foldl (linkParent event.id) dag (event.parentIds.filter fun p ↦
          decide (p ∈ dag.events))).events).lookup c = some e := by
      intro c e he
      rw [hev, AList.lookup_insert_ne, he]
      rintro rfl
      exact hfr (AList.lookup_isSome.mp (Option.isSome_of_eq_some he))
    obtain ⟨d, hpa, active, ha, ha'⟩ := h id found ho hf
    refine ⟨d, TransGen.mono ?_ _ _ hpa, active, hl ha, ha'⟩
    rintro p c ⟨hp, e, he, hm⟩
    obtain ⟨ep, hep⟩ := Option.isSome_iff_exists.mp (AList.lookup_isSome.mpr hp)
    exact ⟨AList.lookup_isSome.mp (Option.isSome_of_eq_some (hl hep)), e, hl he, hm⟩

/-- What a collection has done to a DAG in which the events of the anchor are finalized. -/
structure Collected (dag dag' : Dag) : Prop where
  kept : ∀ {id event}, dag'.events.lookup id = some event → dag.events.lookup id = some event
  removed : ∀ {id event}, dag.events.lookup id = some event → id ∉ dag'.events →
    event.status = .finalized ∧ ∀ c, dag.Edge id c → ¬ dag.Active c
  thorough : dag'.Thorough

end Dag

namespace DagNode

variable {D : Type}

/-- Events enter the DAG with another status than finalized, and only the end of a finalization
gives them that status. -/
def FinalizedByAnchors : DagInput D → Prop
  | .resolve event => event.status ≠ .finalized
  | .markFinalized _ => False
  | _ => True

/-- The runs in which anchors finalize events that are added once. -/
def AddsActive (_ : List (Option DagManagerError)) (node : DagNode) (input : DagInput D) : Prop :=
  FinalizedByAnchors input ∧ node.WritesOnce input

instance FinalizedByAnchors.decidable : (input : DagInput D) → Decidable (FinalizedByAnchors input)
  | .resolve event => inferInstanceAs (Decidable (event.status ≠ .finalized))
  | .markFinalized _ => isFalse id
  | .write _ | .storeSynced _ | .persist _ | .anchorFinalized _ _ | .updateMinDepth _
  | .warmup _ => isTrue trivial

instance AddsActive.decidable (errors : List (Option DagManagerError)) (node : DagNode)
    (input : DagInput D) : Decidable (AddsActive errors node input) :=
  inferInstanceAs (Decidable (_ ∧ _))

/-- What such a run keeps. -/
structure Tidy (node : DagNode) : Prop where
  sound : node.Sound fun _ _ ↦ True
  active : ∀ entry ∈ node.resolved, entry.1.status ≠ .finalized
  thorough : node.manager.dag.Thorough

/-- The end of a finalization answers, and collects what it may. -/
theorem Tidy.anchorFinalized {node : DagNode} (h : node.Tidy) (anchor : Anchor D) (now : UInt64) :
    ∃ collected m, node.manager.onAnchorFinalized anchor now = some (collected, m) ∧
      Dag.Collected (node.manager.dag.finalizeEvents anchor.eventIds) m.dag := by
  obtain ⟨collected, hco⟩ := Dag.exists_gcFinalizedEvents
    (node.manager.dag.finalizeEvents anchor.eventIds) anchor.eventIds
  obtain ⟨hcl, ht⟩ := h.sound.grown.collect h.thorough hco
  have hc : ∀ (ids : List EventId) (cache : RecentEventCache), ∃ cache', ids.foldlM
      (DagManager.cacheFinalized (node.manager.dag.finalizeEvents anchor.eventIds) anchor.id now)
      cache = some cache' := by
    intro ids
    induction ids with
    | nil => exact fun cache ↦ ⟨cache, rfl⟩
    | cons target rest ih =>
      intro cache
      obtain ⟨next, hn⟩ : ∃ next, DagManager.cacheFinalized
          (node.manager.dag.finalizeEvents anchor.eventIds) anchor.id now cache target =
            some next := by
        rw [DagManager.cacheFinalized]
        split
        · exact ⟨cache, rfl⟩
        · next event he =>
          have hd := ((h.sound.grown.finalizeEvents anchor.eventIds).resident_iff target).mp
            (AList.lookup_isSome.mp (Option.isSome_of_eq_some he))
          obtain ⟨depth, hd⟩ := Option.isSome_iff_exists.mp (AList.lookup_isSome.mpr hd)
          exact ⟨_, Option.map_eq_some_iff.mpr ⟨depth, hd, rfl⟩⟩
      obtain ⟨cache', hc'⟩ := ih next
      refine ⟨cache', ?_⟩
      rw [List.foldlM_cons, hn]
      exact hc'
  obtain ⟨cache, hc⟩ := hc anchor.eventIds node.manager.recentCache
  refine ⟨collected, { node.manager.updateMinDepth (anchor.depth + 1) with
    dag := collected.dag, recentCache := cache }, ?_,
    ⟨hcl.kept, hcl.removed, ht⟩⟩
  simp only [DagManager.onAnchorFinalized, Option.bind_eq_bind, Option.bind_eq_some_iff,
    Option.pure_def, Option.some.injEq, Prod.mk.injEq]
  exact ⟨cache, hc, collected, hco, rfl, rfl⟩

theorem Tidy.step {node : DagNode} (h : node.Tidy) {errors : List (Option DagManagerError)}
    {input : DagInput D} (hi : AddsActive errors node input) : (node.step input).2.Tidy := by
  have hs : (node.step input).2.Sound fun _ _ ↦ True :=
    h.sound.step (fun _ _ _ _ _ _ ↦ trivial) hi.2
  cases input with
  | resolve event =>
    obtain ⟨hr, -⟩ := node.manager.resolveParents_spec event
    rw [DagNode.step] at hs ⊢
    rcases ha : node.manager.resolveParents event with ⟨answer, m⟩
    rw [ha] at hr hs
    obtain ⟨cache, rfl, -⟩ := hr
    cases answer with
    | error e => exact ⟨hs, h.active, h.thorough⟩
    | ok resolved =>
      refine ⟨hs, ?_, h.thorough⟩
      intro entry he
      rcases List.mem_append.mp he with he | he
      · exact h.active entry he
      · obtain rfl := List.mem_singleton.mp he
        exact hi.1
  | write index =>
    have hre : ∀ entry ∈ node.resolved.eraseIdx index, entry.1.status ≠ .finalized :=
      fun entry he ↦ h.active entry (List.mem_of_mem_eraseIdx he)
    refine ⟨hs, ?_, ?_⟩
    · rw [DagNode.step, DagNode.write]
      split
      · exact h.active
      · dsimp only
        split <;> exact hre
    · rw [DagNode.step, DagNode.write]
      split
      · exact h.thorough
      · next event resolved he =>
        dsimp only
        split
        · exact h.thorough
        · next m hw =>
          simp only [DagManager.writeResolved, bind_eq_ok, mapError_eq_ok,
            pure_eq_ok] at hw
          obtain ⟨-, -, dag, had, rfl⟩ := hw
          exact h.thorough.addEventWithDepth (h.active _ (List.mem_of_getElem? he)) had
  | markFinalized ids => exact hi.1.elim
  | anchorFinalized anchor now =>
    obtain ⟨collected, m, hm, hc⟩ := h.anchorFinalized anchor now
    rw [DagNode.step, hm] at hs ⊢
    exact ⟨hs, h.active, hc.thorough⟩
  | storeSynced event => exact ⟨hs, h.active, h.thorough⟩
  | persist ids => exact ⟨hs, h.active, h.thorough⟩
  | updateMinDepth depth => exact ⟨hs, h.active, h.thorough⟩
  | warmup anchors => exact ⟨hs, h.active, h.thorough⟩

/-- In every run in which no event is added again after it was collected, the end of a finalization
answers; it removes only finalized events without active children, and leaves a finalized event
only above an active one. -/
theorem collected_of_addsActive {config : DagManagerConfig}
    {errors : List (Option DagManagerError)} {node : DagNode}
    (hrun : Run (step (D := D)) AddsActive (new config) errors node) (anchor : Anchor D)
    (now : UInt64) :
    ∃ collected m, node.manager.onAnchorFinalized anchor now = some (collected, m) ∧
      Dag.Collected (node.manager.dag.finalizeEvents anchor.eventIds) m.dag := by
  have hst : (new config).Tidy := ⟨.new config, List.forall_mem_nil _, fun id event h ↦ by cases h⟩
  have ht := hrun.invariant (fun _ (node : DagNode) ↦ node.Tidy) hst fun hs hi ↦ hs.step hi
  exact ht.anchorFinalized anchor now

/-! An event with two children that are not finalized, and an event that is sent again once it was
collected, when another one has named it as its parent. -/

private def parentEvent (id : EventId) (parentIds : List EventId) : Event :=
  ⟨id, .transfer, parentIds, none, none, .none, ⟨∅, 1, 0⟩, "", .pending, none, 0⟩

private def parentAnchor : Anchor Bytes := ⟨"anchor", ["a", "b"], ⟨∅, 3, 0⟩, "", none, none, 2, 0⟩

private def addInputs (id : EventId) (parentIds : List EventId) : List (DagInput Bytes) :=
  [.resolve (parentEvent id parentIds), .write 0]

private def fedNode (inputs : List (DagInput Bytes)) : DagNode :=
  (feed step ([], new .default) inputs).2

/-- The collection of a chain. -/
theorem collected_chain :
    ∃ collected m, (fedNode (addInputs "a" [] ++ addInputs "b" ["a"] ++
      addInputs "c" ["b"])).manager.onAnchorFinalized parentAnchor 0 = some (collected, m) ∧
      Dag.Collected ((fedNode (addInputs "a" [] ++ addInputs "b" ["a"] ++
        addInputs "c" ["b"])).manager.dag.finalizeEvents ["a", "b"]) m.dag := by
  have hf : Feeds step AddsActive ([], new .default)
      (addInputs "a" [] ++ addInputs "b" ["a"] ++ addInputs "c" ["b"]) := by decide +kernel
  exact collected_of_addsActive (Run.start.feed hf) parentAnchor 0

private def resentNode : DagNode :=
  fedNode (addInputs "a" [] ++ [.persist ["a"], .anchorFinalized parentAnchor 0] ++
    addInputs "f" ["a"] ++ addInputs "a" [])

/-- The event that was sent again is removed while its child is active. -/
theorem not_collected_resent :
    (∀ input ∈ addInputs "a" [] ++ [.persist ["a"], .anchorFinalized parentAnchor 0] ++
      addInputs "f" ["a"] ++ addInputs "a" [], FinalizedByAnchors input) ∧
    ∃ collected m, resentNode.manager.onAnchorFinalized parentAnchor 0 = some (collected, m) ∧
      ¬ Dag.Collected (resentNode.manager.dag.finalizeEvents ["a", "b"]) m.dag := by
  refine ⟨by decide +kernel, ?_⟩
  have hm : ((resentNode.manager.onAnchorFinalized parentAnchor 0).map fun r ↦
      decide ("a" ∈ r.2.dag.events)) = some false := by decide +kernel
  obtain ⟨⟨collected, m⟩, hm, hg⟩ := Option.map_eq_some_iff.mp hm
  refine ⟨collected, m, hm, ?_⟩
  intro h
  have ha : ((resentNode.manager.dag.finalizeEvents ["a", "b"]).events.lookup
      "a").isSome = true := by
    decide +kernel
  obtain ⟨event, he⟩ := Option.isSome_iff_exists.mp ha
  have hc : ((resentNode.manager.dag.finalizeEvents ["a", "b"]).events.lookup "f").map
      (fun e ↦ (e.parentIds, e.status)) = some (["a"], .pending) := by decide +kernel
  obtain ⟨child, hc, heq⟩ := Option.map_eq_some_iff.mp hc
  obtain ⟨hp, hs⟩ := Prod.mk.inj heq
  refine (h.removed he (of_decide_eq_false hg)).2 "f"
    ⟨AList.lookup_isSome.mp ha, child, hc, hp ▸ List.mem_cons_self⟩
    ⟨child, hc, ?_⟩
  rw [hs]
  decide

end DagNode

end Setu.Consensus
