import Setu.Consensus.CausalClosure
import Setu.State.Commute

/-!
# The same-key fold policy

Library `Consensus`. The greedy scan splits the candidates of a frame into events that are kept
and events that wait. What it has claimed are the keys of the kept events, so no two of these
share a key, and an event that waits shares one with a kept event before it. Since the scan
claims keys in the form in which the state manager looks them up, the kept events can be applied
in any order. Source `consensus/src/anchor_builder.rs`.
-/

namespace Setu.Consensus

open Setu.Base Setu.Types Setu.Merkle Setu.State

variable {D : Type} {H : Blake3 D}

/-- The keys of an event are the keys of its writes. -/
theorem mem_collectEventWriteKeys {event : Event} {key : ClaimedWriteKey} :
    key ∈ collectEventWriteKeys H event ↔ ∃ w ∈ writesOf H event, w.key = key := by
  unfold collectEventWriteKeys writesOf eventWrites
  cases event.executionResult with
  | none => simp [AList.notMem_empty]
  | some result =>
    cases hs : result.success with
    | false => simp [hs, AList.notMem_empty]
    | true =>
      simp [hs, HashMap.mem_insertAll, AList.notMem_empty, resultWrites, changeWrite]

variable (H) in
/-- No object is written by both events. -/
def WritesApart (a b : Event) : Prop :=
  ∀ key ∈ collectEventWriteKeys H a, key ∉ collectEventWriteKeys H b

theorem WritesApart.independent {a b : Event} (h : WritesApart H a b) :
    Write.Independent (writesOf H a) (writesOf H b) := by
  intro w hw w' hw' heq
  apply h w.key
  · exact mem_collectEventWriteKeys.mpr ⟨w, hw, rfl⟩
  · exact mem_collectEventWriteKeys.mpr ⟨w', hw', heq.symm⟩

namespace FoldScan

/-- What the scan maintains: the claimed keys are those of the kept events, these write
different objects, and each deferred event waits for a kept one before it. -/
structure Greedy (H : Blake3 D) (scan : FoldScan) : Prop where
  mem_claimed : ∀ key, key ∈ scan.claimed ↔ ∃ event ∈ scan.kept, key ∈ collectEventWriteKeys H event
  apart : scan.kept.Pairwise (WritesApart H)
  waits : ∀ event ∈ scan.deferred, ∃ other ∈ scan.kept, eventOrder other < eventOrder event ∧
    ∃ key ∈ collectEventWriteKeys H event, key ∈ collectEventWriteKeys H other

theorem Greedy.empty : Greedy H ⟨∅, [], []⟩ where
  mem_claimed key := by simp [AList.notMem_empty]
  apart := .nil
  waits event h := absurd h List.not_mem_nil

/-- A conflicting event waits for the kept event whose key it needs. -/
theorem Greedy.exists_kept {scan : FoldScan} (h : scan.Greedy H) {event : Event}
    (hc : scan.Conflicts H event) :
    ∃ other ∈ scan.kept, ∃ key ∈ collectEventWriteKeys H event,
      key ∈ collectEventWriteKeys H other := by
  obtain ⟨key, hk, hcl⟩ := hc
  obtain ⟨other, ho, hw⟩ := (h.mem_claimed key).mp hcl
  exact ⟨other, ho, key, hk, hw⟩

/-- One event of the scan, in the order of events. -/
theorem Greedy.step {scan : FoldScan} (h : scan.Greedy H) {event : Event}
    (hor : ∀ other ∈ scan.kept, eventOrder other < eventOrder event) :
    (scan.step H event).Greedy H := by
  by_cases hc : scan.Conflicts H event
  · rw [step_of_conflicts hc]
    refine ⟨h.mem_claimed, h.apart, ?_⟩
    intro waiting hw
    rcases List.mem_append.mp hw with hw | hw
    · exact h.waits waiting hw
    · obtain rfl := List.mem_singleton.mp hw
      obtain ⟨other, ho, hs⟩ := h.exists_kept hc
      exact ⟨other, ho, hor other ho, hs⟩
  · obtain ⟨hcl, hk, hd⟩ := step_of_not_conflicts hc
    constructor
    case mem_claimed =>
      intro key
      rw [hcl, hk, h.mem_claimed]
      simp only [List.mem_append, List.mem_singleton, or_and_right, exists_or, exists_eq_left]
    case apart =>
      rw [hk, List.pairwise_append]
      refine ⟨h.apart, List.pairwise_singleton _ _, ?_⟩
      intro other ho last hl key hke hs
      obtain rfl := List.mem_singleton.mp hl
      exact hc ⟨key, hs, (h.mem_claimed key).mpr ⟨other, ho, hke⟩⟩
    case waits =>
      rw [hk, hd]
      intro waiting hw
      obtain ⟨other, ho, hwa⟩ := h.waits waiting hw
      exact ⟨other, List.mem_append_left _ ho, hwa⟩

/-- The whole scan, over events in strictly ascending order. -/
theorem Greedy.foldl {events : List Event} {scan : FoldScan} (h : scan.Greedy H)
    (hs : events.Pairwise fun a b ↦ eventOrder a < eventOrder b)
    (hor : ∀ other ∈ scan.kept, ∀ event ∈ events, eventOrder other < eventOrder event) :
    (events.foldl (FoldScan.step H) scan).Greedy H := by
  induction events generalizing scan with
  | nil => exact h
  | cons event rest ih =>
    rw [List.pairwise_cons] at hs
    apply ih (h.step fun other ho ↦ hor other ho event List.mem_cons_self) hs.2
    intro other ho later hl
    have hk : other ∈ scan.kept ∨ other = event := by
      by_cases hc : scan.Conflicts H event
      · rw [step_of_conflicts hc] at ho
        exact .inl ho
      · rw [(step_of_not_conflicts hc).2.1, List.mem_append, List.mem_singleton] at ho
        exact ho
    rcases hk with hk | rfl
    · exact hor other hk later (List.mem_cons_of_mem _ hl)
    · exact hs.1 later hl

/-- Each event goes to one of the two lists. -/
theorem perm_step (scan : FoldScan) (event : Event) :
    ((scan.step H event).kept ++ (scan.step H event).deferred).Perm
      (scan.kept ++ scan.deferred ++ [event]) := by
  by_cases hc : scan.Conflicts H event
  · rw [step_of_conflicts hc, List.append_assoc]
  · rw [(step_of_not_conflicts hc).2.1, (step_of_not_conflicts hc).2.2,
      List.append_assoc, List.append_assoc]
    exact List.perm_append_comm.append_left _

theorem perm_foldl (events : List Event) (scan : FoldScan) :
    ((events.foldl (step H) scan).kept ++ (events.foldl (step H) scan).deferred).Perm
      (scan.kept ++ scan.deferred ++ events) := by
  induction events generalizing scan with
  | nil => rw [List.append_nil]; exact .refl _
  | cons event rest ih =>
    rw [List.foldl_cons, ← List.singleton_append, ← List.append_assoc]
    exact (ih _).trans ((perm_step scan event).append_right rest)

end FoldScan

/-- The scan of distinct events is greedy. -/
theorem greedy_foldPolicy {events : List Event} (hi : (events.map (·.id)).Nodup) :
    ((sortOn eventOrder events).foldl (FoldScan.step H) ⟨∅, [], []⟩).Greedy H :=
  FoldScan.Greedy.empty.foldl (pairwise_lt_sortOn (nodup_map_eventOrder hi))
    fun _ h ↦ absurd h List.not_mem_nil

/-- The fold policy splits distinct events into kept ones, which write different objects, and
deferred ones, each of which shares an object with a kept event before it. The split does not
depend on the order of the input, and however the kept events are ordered and split into calls
of the state manager, they leave the same object state. -/
theorem foldPolicy_spec [DecidableEq D] (H : Blake3 D) (events : List Event)
    (hids : (events.map (·.id)).Nodup) :
    let kept := (applyStrictSameKeyFoldPolicy H events).1
    let deferred := (applyStrictSameKeyFoldPolicy H events).2
    (kept ++ deferred).Perm events ∧ kept.Pairwise (WritesApart H) ∧
      (∀ event ∈ deferred, ∃ other ∈ kept, eventOrder other < eventOrder event ∧
        ∃ key ∈ collectEventWriteKeys H event, key ∈ collectEventWriteKeys H other) ∧
      (∀ events' : List Event, events'.Perm events →
        applyStrictSameKeyFoldPolicy H events' = applyStrictSameKeyFoldPolicy H events) ∧
      ∀ (g : GlobalStateManager D) (calls calls' : List (List Event × UInt64)),
        (calls.flatMap Prod.fst).Perm kept → (calls'.flatMap Prod.fst).Perm kept →
          (g.applyCalls H calls).objects H = (g.applyCalls H calls').objects H := by
  intro kept deferred
  have hg := greedy_foldPolicy (H := H) hids
  refine ⟨?_, hg.apart, hg.waits, ?_, ?_⟩
  · exact (FoldScan.perm_foldl _ _).trans (sortOn_perm eventOrder events)
  · intro events' hp
    have hs := sortOn_eq_of_perm hp.symm (nodup_map_eventOrder hids)
    rw [applyStrictSameKeyFoldPolicy, applyStrictSameKeyFoldPolicy, hs]
  · intro g calls calls' hc hc'
    have hi : kept.Pairwise fun a b ↦
        Write.Independent (writesOf H a) (writesOf H b) :=
      hg.apart.imp WritesApart.independent
    apply GlobalStateManager.objects_applyCalls_eq (hc.trans hc'.symm)
    exact hi.perm hc.symm fun h ↦ Write.Independent.symm h

/-- An event that writes the object `key` without looking at it. -/
private def writer (id : EventId) (time : UInt64) (key : String) : Event where
  id := id
  eventType := .contractCall
  parentIds := []
  subnetId := none
  transfer := none
  payload := .none
  vlcSnapshot := ⟨∅, time, 0⟩
  creator := ""
  status := .executed
  executionResult := some ⟨true, none, [⟨key, none, some [1], none⟩]⟩
  timestamp := 0

/-- Of two events that write one object the later one waits. The two that are kept can be applied
in one call or from the back, one by one. -/
theorem foldPolicy_spec_contended :
    let split := applyStrictSameKeyFoldPolicy Blake3.ideal
      [writer "a" 2 "x", writer "c" 1 "y", writer "b" 1 "x"]
    let g := GlobalStateManager.new Blake3.ideal
    split.1.map (·.id) = ["b", "c"] ∧ split.2.map (·.id) = ["a"] ∧
      (g.applyCalls Blake3.ideal [(split.1, 1)]).objects Blake3.ideal =
        (g.applyCalls Blake3.ideal (split.1.reverse.map fun event ↦ ([event], 1))).objects
          Blake3.ideal := by
  intro split g
  have hs := foldPolicy_spec Blake3.ideal
    [writer "a" 2 "x", writer "c" 1 "y", writer "b" 1 "x"] (by decide)
  refine ⟨by decide +kernel, by decide +kernel, hs.2.2.2.2 g _ _ ?_ ?_⟩
  · rw [List.flatMap_singleton]
  · rw [List.flatMap_map, List.flatMap_singleton']
    exact List.reverse_perm _

end Setu.Consensus
