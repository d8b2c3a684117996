import Setu.Enclave.StateDiff
import Setu.State.Run

/-!
# Consumption of object values

Library `Enclave`. An execution records its changes in order, each with the value it found, and
an event carries what the pipeline makes of the record. A value is consumed by the first
recorded change of its object. Writes keep the value they found all the way to the conflict
check, deletions of a Move execution lose it, so that the guarantee against consuming a value
twice ends with the first such deletion.
-/

namespace Setu.Enclave

open Setu.Base Setu.Types Setu.State StateDiff

/-- A change as the execution reports it: of the coin runtime, of the Move engine, or a direct
write of the enclave (modules, linkage, the processed marker). -/
inductive Recorded where
  | runtime (change : Runtime.StateChange)
  | move (change : Runtime.StateChange)
  | entry (entry : WriteSetEntry)
  deriving DecidableEq

namespace Recorded

/-- The key of the changed object. -/
def key : Recorded → String
  | runtime change | move change => objectKey change.objectId
  | entry e => e.key

/-- The value the execution found. -/
def old : Recorded → Option Bytes
  | runtime change | move change => change.oldState
  | entry e => e.oldValue

/-- The write that the diff gets for the change, unless it is a deletion. -/
def write? : Recorded → Option WriteSetEntry
  | runtime change =>
    some (.fromStateChange change.objectId change.oldState (change.newState.getD []))
  | move change =>
    change.newState.map fun newState ↦ ⟨objectKey change.objectId, change.oldState, newState⟩
  | entry e => some e

/-- The key that the diff deletes for the change, if any. -/
def delete? : Recorded → Option String
  | move ⟨_, objectId, _, none⟩ => some (objectKey objectId)
  | _ => none

/-- What a write keeps of the change. -/
theorem eq_of_write? {r : Recorded} {e : WriteSetEntry} (h : r.write? = some e) :
    e.key = r.key ∧ e.oldValue = r.old := by
  cases r with
  | runtime change => cases h; exact ⟨rfl, rfl⟩
  | move change =>
    obtain ⟨newState, -, rfl⟩ := Option.map_eq_some_iff.mp h
    exact ⟨rfl, rfl⟩
  | entry e' => cases h; exact ⟨rfl, rfl⟩

/-- A change that is not deleted is written. -/
theorem exists_write_of_delete? {r : Recorded} (h : r.delete? = none) : ∃ e, r.write? = some e := by
  cases r with
  | runtime change => exact ⟨_, rfl⟩
  | entry e => exact ⟨_, rfl⟩
  | move change =>
    obtain ⟨_, _, _, _ | newState⟩ := change
    · cases h
    · exact ⟨_, rfl⟩

end Recorded

/-- The diff after one more change. -/
def StateDiff.record (diff : StateDiff) : Recorded → StateDiff
  | .runtime change => diff.addStateChange change
  | .move change => diff.addMoveChange change
  | .entry e => diff.addWrite e

/-- The diff of a record. -/
def recordedDiff (recorded : List Recorded) : StateDiff :=
  recorded.foldl record .new

/-- The diff holds the writes and the deletions of the record, each in order. -/
theorem recordedDiff_eq (recorded : List Recorded) :
    recordedDiff recorded =
      ⟨recorded.filterMap Recorded.write?, recorded.filterMap Recorded.delete?⟩ := by
  have hs : ∀ (diff : StateDiff) (r : Recorded), diff.record r =
      ⟨diff.writes ++ r.write?.toList, diff.deletes ++ r.delete?.toList⟩ := by
    intro diff r
    cases r with
    | runtime change =>
      simp [record, addStateChange, addWrite, Recorded.write?,
        Recorded.delete?]
    | entry e => simp [record, addWrite, Recorded.write?, Recorded.delete?]
    | move change =>
      obtain ⟨_, _, _, _ | newState⟩ := change <;>
        simp [record, addMoveChange, addWrite, addDelete,
          Recorded.write?, Recorded.delete?]
  have hf : ∀ (rs : List Recorded) (diff : StateDiff), rs.foldl record diff =
      ⟨diff.writes ++ rs.filterMap Recorded.write?,
        diff.deletes ++ rs.filterMap Recorded.delete?⟩ := by
    intro rs
    induction rs with
    | nil => simp
    | cons r rs ih =>
      intro diff
      rw [List.foldl_cons, ih, hs]
      cases hw : r.write? <;> cases hd : r.delete? <;> simp [hw, hd]
  simpa [recordedDiff, new] using hf recorded .new

/-- An event with the record of its execution and what the pipeline made of it. -/
structure PipelineEvent where
  event : Event
  recorded : List Recorded
  stf : StfOutput
  taskSubnet : SubnetId
  marker : Option (String × Bytes)
  solverMessage : String
  suffix : String
  stateDiff_eq : stf.stateDiff = recordedDiff recorded
  executionResult_eq : event.executionResult =
    some (executedResult (.fromStfOutput stf) taskSubnet marker solverMessage suffix)

variable {D : Type} (H : Blake3 D)

/-- The write of an entry of the diff. -/
def entryWrite (subnetId : SubnetId) (entry : WriteSetEntry) :
    Write (SubnetId × ObjectId) Bytes :=
  ⟨(subnetId, parseStateChangeKey H entry.key), entry.oldValue, some entry.newValue⟩

/-- The write of a deletion of the diff. -/
def deleteWrite (subnetId : SubnetId) (key : String) : Write (SubnetId × ObjectId) Bytes :=
  ⟨(subnetId, parseStateChangeKey H key), none, none⟩

namespace PipelineEvent

variable (e : PipelineEvent)

/-- The execution of the event replaced or removed the value of an existing object: the first
change it recorded for the object found that value. -/
def Consumes (k : SubnetId × ObjectId) (v : Bytes) : Prop :=
  k.1 = e.taskSubnet ∧
    (e.recorded.find? fun r ↦ parseStateChangeKey H r.key = k.2).bind Recorded.old = some v

instance (e : PipelineEvent) (k : SubnetId × ObjectId) (v : Bytes) :
    Decidable (e.Consumes H k v) :=
  inferInstanceAs (Decidable (_ ∧ _))

/-- The event leaves the value at the object. -/
def Leaves (k : SubnetId × ObjectId) (v : Bytes) : Prop :=
  Write.lastValue ((eventWrites H e.event).getD []) k = some (some v)

instance (e : PipelineEvent) (k : SubnetId × ObjectId) (v : Bytes) : Decidable (e.Leaves H k v) :=
  inferInstanceAs (Decidable (_ = _))

variable {H}

/-- The writes of an event are those of its diff, the deletions last, and the marker's. -/
theorem writes_eq {ws : List (Write (SubnetId × ObjectId) Bytes)}
    (hws : eventWrites H e.event = some ws) :
    ws = e.stf.stateDiff.writes.map (entryWrite H e.taskSubnet) ++
      e.stf.stateDiff.deletes.map (deleteWrite H e.taskSubnet) ++
      e.marker.toList.map (entryWrite H .root ∘ fun m ↦ ⟨m.1, none, m.2⟩) := by
  obtain ⟨result, hr, -, rfl⟩ := exists_result_of_eventWrites hws
  cases e.executionResult_eq.symm.trans hr
  cases e.marker <;>
    simp [resultWrites, executedResult, buildExecutionStateChanges, diffChanges,
      TeeExecutionResult.fromStfOutput] <;>
    rfl

private theorem find?_write {recorded : List Recorded} (hn : ∀ r ∈ recorded, r.delete? = none)
    {id : ObjectId} {r : Recorded}
    (h : recorded.find? (fun r ↦ parseStateChangeKey H r.key = id) = some r) :
    ∃ entry, (recorded.filterMap Recorded.write?).find?
      (fun entry ↦ parseStateChangeKey H entry.key = id) = some entry ∧ entry.oldValue = r.old := by
  induction recorded with
  | nil => cases h
  | cons r' rest ih =>
    obtain ⟨entry, he⟩ := Recorded.exists_write_of_delete? (hn r' List.mem_cons_self)
    obtain ⟨hke, ho⟩ := Recorded.eq_of_write? he
    rw [List.filterMap_cons_some he]
    by_cases hk : parseStateChangeKey H r'.key = id
    · rw [List.find?_cons_of_pos (by simpa using hk)] at h
      cases h
      exact ⟨entry, List.find?_cons_of_pos (by simpa [hke] using hk), ho⟩
    · rw [List.find?_cons_of_neg (by simpa using hk)] at h
      rw [List.find?_cons_of_neg (by simpa [hke] using hk)]
      exact ih (fun r hr ↦ hn r (List.mem_cons_of_mem _ hr)) h

/-- Without deletions, the first write to a consumed object expects the consumed value. -/
theorem exists_first_of_consumes {e : PipelineEvent} (hd : e.stf.stateDiff.deletes = [])
    {k : SubnetId × ObjectId} {v : Bytes} (h : e.Consumes H k v)
    {ws : List (Write (SubnetId × ObjectId) Bytes)} (hws : eventWrites H e.event = some ws) :
    ∃ w, ws.find? (·.key = k) = some w ∧ w.expected = some v := by
  obtain ⟨hs, hf⟩ := h
  obtain ⟨r, hr, ho⟩ := Option.bind_eq_some_iff.mp hf
  have hw := e.writes_eq hws
  rw [e.stateDiff_eq, recordedDiff_eq] at hw hd
  obtain ⟨entry, he, hoV⟩ := find?_write (List.filterMap_eq_nil_iff.mp hd) hr
  refine ⟨entryWrite H e.taskSubnet entry, ?_, hoV.trans ho⟩
  have hk : ((fun w : Write (SubnetId × ObjectId) Bytes ↦ decide (w.key = k)) ∘
      entryWrite H e.taskSubnet) = fun entry ↦ decide (parseStateChangeKey H entry.key = k.2) := by
    funext entry
    simp only [Function.comp_apply, entryWrite, Prod.ext_iff, hs, true_and]
  rw [hw, List.append_assoc, List.find?_append, List.find?_map, hk, he]
  rfl

end PipelineEvent

variable [DecidableEq D]

/-- The turns of a run of pipeline events. -/
abbrev pipelineTurns (g : GlobalStateManager D) (calls : List (Call PipelineEvent)) :
    List (Turn PipelineEvent D) :=
  g.runTurns H PipelineEvent.event calls

/-- No value is consumed by two applied events: of two events that consumed the same value, the
later one is reported conflicted and not applied, unless the value was left at the object again
in between. -/
def NoDoubleConsumption (g : GlobalStateManager D) (calls : List (Call PipelineEvent)) : Prop :=
  ∀ i j : Nat, i < j → ∀ t t' : Turn PipelineEvent D,
    (pipelineTurns H g calls)[i]? = some t →
    (pipelineTurns H g calls)[j]? = some t' →
    ∀ k v, t.task.Consumes H k v → t'.task.Consumes H k v → t.Applied PipelineEvent.event →
      (∀ m, ∀ t'' : Turn PipelineEvent D, i ≤ m → m < j →
        (pipelineTurns H g calls)[m]? = some t'' →
        t''.Applied PipelineEvent.event → ¬ t''.task.Leaves H k v) →
      ¬ t'.Applied PipelineEvent.event ∧
        (t'.task.stf.eventsFailed = [] → t'.Conflicted PipelineEvent.event)

variable {H}

private theorem before_ne_of_consumed {g : GlobalStateManager D}
    {calls : List (Call PipelineEvent)}
    (hd : ∀ call ∈ calls, ∀ e ∈ call.tasks, e.stf.stateDiff.deletes = [])
    {i j : Nat} (hij : i < j) {t t' : Turn PipelineEvent D}
    (hi : (pipelineTurns H g calls)[i]? = some t)
    (hj : (pipelineTurns H g calls)[j]? = some t') {k : SubnetId × ObjectId}
    {v : Bytes} (hc : t.task.Consumes H k v) (ha : t.Applied PipelineEvent.event)
    (hle : ∀ m, ∀ t'' : Turn PipelineEvent D, i ≤ m → m < j →
      (pipelineTurns H g calls)[m]? = some t'' → t''.Applied PipelineEvent.event →
        ¬ t''.task.Leaves H k v) : t'.before k ≠ some v := by
  obtain ⟨hch, hlo⟩ := GlobalStateManager.chained_runTurns H PipelineEvent.event g calls
  rw [hch.before_eq hj, stateAt_of_le _ _ hij.le, Write.applyAll_apply]
  have hf : t ∈ ((pipelineTurns H g calls).take j).drop i := by
    rw [List.drop_eq_getElem?_toList_append, List.getElem?_take_of_lt hij, hi]
    simp
  cases hl : Write.lastValue ((((pipelineTurns H g calls).take j).drop
      i).flatMap (Turn.appliedWrites H PipelineEvent.event)) k with
  | none =>
    -- the first event itself wrote the object
    have hme := List.mem_of_getElem? hi
    obtain ⟨call, hca, ht⟩ := GlobalStateManager.task_mem_of_mem_runTurns hme
    obtain ⟨ws, hws, -⟩ := (hlo t hme).applied_iff.mp ha
    obtain ⟨w, hw, -⟩ := PipelineEvent.exists_first_of_consumes (hd call hca _ ht) hc hws
    have hin : w ∈ (((pipelineTurns H g calls).take j).drop i).flatMap
        (Turn.appliedWrites H PipelineEvent.event) := by
      refine List.mem_flatMap.mpr ⟨t, hf, ?_⟩
      rw [Turn.appliedWrites, if_pos ha, Turn.writes, hws]
      exact List.mem_of_find?_eq_some hw
    exact absurd (by simpa using List.find?_some hw) (Write.lastValue_eq_none_iff.mp hl w hin)
  | some value =>
    obtain ⟨t'', hme, hv⟩ := Write.exists_lastValue_of_flatMap hl
    rintro rfl
    unfold Turn.appliedWrites at hv
    split at hv
    · next ha'' =>
      obtain ⟨m, hm⟩ := List.mem_iff_getElem?.mp hme
      rw [List.getElem?_drop] at hm
      have hlt : i + m < j := by
        by_contra hge
        simp [hge] at hm
      rw [List.getElem?_take_of_lt hlt] at hm
      exact hle (i + m) t'' (by omega) hlt hm ha'' hv
    · cases hv

/-- In a run whose events carry no deletion in their diff, no value is consumed twice. -/
theorem noDoubleConsumption (g : GlobalStateManager D) (calls : List (Call PipelineEvent))
    (hdeletes : ∀ call ∈ calls, ∀ e ∈ call.tasks, e.stf.stateDiff.deletes = []) :
    NoDoubleConsumption H g calls := by
  intro i j hij t t' hi hj k v hc hc' ha hl
  have hb := before_ne_of_consumed hdeletes hij hi hj hc ha hl
  have hm := List.mem_of_getElem? hj
  have ht := (GlobalStateManager.chained_runTurns H PipelineEvent.event g calls).2 t' hm
  obtain ⟨call, hca, hta⟩ := GlobalStateManager.task_mem_of_mem_runTurns hm
  have hr : ¬ t'.Applied PipelineEvent.event := by
    intro ha'
    obtain ⟨ws, hws, hf, -⟩ := ht.applied_iff.mp ha'
    obtain ⟨w, hw, he⟩ := PipelineEvent.exists_first_of_consumes (hdeletes call hca _ hta) hc' hws
    have hk : w.key = k := by simpa using List.find?_some hw
    exact hb (hk ▸ (Write.fits_of_first hf hw).1 v he)
  refine ⟨hr, fun hfa ↦ ht.conflicted hr t'.task.executionResult_eq ?_⟩
  simp [executedResult, TeeExecutionResult.fromStfOutput, hfa]

/-! An object is created and updated, and a third call, which read it before the update, updates
or deletes it. -/

private def objectX : ObjectId := ⟨Vector.replicate 32 1⟩

private def moveEvent (id : EventId) (time : UInt64) (changeType : Runtime.StateChangeType)
    (oldState newState : Option Bytes) : PipelineEvent :=
  let recorded := [.move ⟨changeType, objectX, oldState, newState⟩, .entry (processedEntry id none)]
  let stf : StfOutput := ⟨recordedDiff recorded, [id], [], 0⟩
  { event :=
      { id := id
        eventType := .contractCall
        parentIds := []
        subnetId := none
        transfer := none
        payload := .moveCall []
        vlcSnapshot := ⟨∅, time, 0⟩
        creator := ""
        status := .executed
        executionResult := some (executedResult (.fromStfOutput stf) .root none "" "")
        timestamp := 0 }
    recorded := recorded
    stf := stf
    taskSubnet := .root
    marker := none
    solverMessage := ""
    suffix := ""
    stateDiff_eq := rfl
    executionResult_eq := rfl }

private def createX : PipelineEvent := moveEvent "e1" 1 .create none (some [1])

private def updateX : PipelineEvent := moveEvent "e2" 2 .update (some [1]) (some [2])

private def staleUpdateX : PipelineEvent := moveEvent "e3" 3 .update (some [1]) (some [3])

private def staleDeleteX : PipelineEvent := moveEvent "e3" 3 .delete (some [1]) none

/-- The stale update is refused. -/
theorem noDoubleConsumption_staleUpdate :
    NoDoubleConsumption Blake3.ideal (GlobalStateManager.new Blake3.ideal)
      [⟨[createX, updateX], 0⟩, ⟨[staleUpdateX], 1⟩] :=
  noDoubleConsumption _ _ (by decide)

/-- The stale deletion is applied: it consumes the value that the update has consumed. -/
theorem not_noDoubleConsumption_staleDelete :
    ¬ NoDoubleConsumption Blake3.ideal (GlobalStateManager.new Blake3.ideal)
      [⟨[createX, updateX], 0⟩, ⟨[staleDeleteX], 1⟩] := by
  intro h
  set turns := pipelineTurns Blake3.ideal (GlobalStateManager.new Blake3.ideal)
    [⟨[createX, updateX], 0⟩, ⟨[staleDeleteX], 1⟩]
  have hu : turns[1]?.any (fun t ↦ t.task.Consumes Blake3.ideal (.root, objectX) [1] ∧
      t.Applied PipelineEvent.event ∧
        ¬ t.task.Leaves Blake3.ideal (.root, objectX) [1]) = true := by
    decide +kernel
  have hd : turns[2]?.any (fun t ↦ t.task.Consumes Blake3.ideal (.root, objectX) [1] ∧
      t.Applied PipelineEvent.event) = true := by
    decide +kernel
  obtain ⟨t, ht, hu⟩ := (Option.any_eq_true _ _).mp hu
  obtain ⟨t', ht', hd⟩ := (Option.any_eq_true _ _).mp hd
  obtain ⟨hc, ha, hl⟩ := of_decide_eq_true hu
  obtain ⟨hc', ha'⟩ := of_decide_eq_true hd
  refine (h 1 2 (by omega) t t' ht ht' _ _ hc hc' ha ?_).1 ha'
  intro m t'' hle hlt hm _
  obtain rfl : m = 1 := by omega
  cases ht.symm.trans hm
  exact hl

end Setu.Enclave
