import Setu.Move.ObjectRuntime

/-!
# Net effects of a dynamic field

Library `Move`. The natives fold what happens to a field during a transaction into one recorded
effect. Beside the record stands the history of the field: its value after the calls so far and
the value that the last `borrow_mut` has found. The record is the net effect of the history, with
one exception: `borrow_mut` records the value that it finds as the old value, also if the field
has been replaced in the same transaction. Sources `crates/setu-move-vm/src/natives.rs` and
`object_runtime.rs`.
-/

namespace Setu.Move

open Setu.Base Setu.Types

/-- A native call on one field. -/
inductive FieldCall where
  | dfAdd (valueTag : String) (valueBcs : Bytes)
  | dfRemove (valueTag : String)
  | dfBorrowMut (valueTag : String)
  | dfExists
  deriving DecidableEq

namespace FieldCall

/-- What the field holds after the call. -/
def value (current : Option Bytes) : FieldCall → Option Bytes
  | dfAdd _ valueBcs => some valueBcs
  | dfRemove _ => none
  | dfBorrowMut _ | dfExists => current

/-- The call borrows the field mutably. -/
def IsBorrowMut (call : FieldCall) : Prop := ∃ valueTag, call = dfBorrowMut valueTag

/-- What the last `borrow_mut` has found, after the call. -/
def borrowed (current old : Option Bytes) : FieldCall → Option Bytes
  | dfBorrowMut _ => current
  | dfAdd _ _ | dfRemove _ | dfExists => old

end FieldCall

/-- What the field holds after the calls. -/
def valueAfter (before : Option Bytes) (calls : List FieldCall) : Option Bytes :=
  calls.foldl FieldCall.value before

/-- What the `exists` calls are to answer, by the calls before each of them. -/
def presences : Option Bytes → List FieldCall → List Bool
  | _, [] => []
  | current, call :: rest =>
    (if call = .dfExists then [current.isSome] else []) ++ presences (call.value current) rest

/-- What the last `borrow_mut` of the calls finds, and `old` if there is none. -/
def lastBorrowed : Option Bytes → Option Bytes → List FieldCall → Option Bytes
  | _, old, [] => old
  | current, old, call :: rest =>
    lastBorrowed (call.value current) (call.borrowed current old) rest

/-- The last `borrow_mut` finds what the field held before the transaction. -/
def BorrowsOriginal (before : Option Bytes) (calls : List FieldCall) : Prop :=
  ∀ earlier valueTag later, calls = earlier ++ .dfBorrowMut valueTag :: later →
    (∀ call ∈ later, ¬ call.IsBorrowMut) → valueAfter before earlier = before

variable {calls : List FieldCall}

theorem lastBorrowed_of_forall_not (h : ∀ call ∈ calls, ¬ call.IsBorrowMut)
    (current old : Option Bytes) : lastBorrowed current old calls = old := by
  induction calls generalizing current with
  | nil => rfl
  | cons call rest ih =>
    rw [List.forall_mem_cons] at h
    have ho : call.borrowed current old = old := by
      cases call with
      | dfBorrowMut valueTag => exact absurd ⟨valueTag, rfl⟩ h.1
      | dfAdd | dfRemove | dfExists => rfl
    rw [lastBorrowed, ho, ih h.2]

theorem lastBorrowed_of_forall_exists (h : ∀ call ∈ calls, call = .dfExists)
    (current old : Option Bytes) : lastBorrowed current old calls = old := by
  apply lastBorrowed_of_forall_not
  rintro call hc ⟨valueTag, rfl⟩
  cases h _ hc

/-- Asking whether the field exists does not change it. -/
theorem valueAfter_of_forall_exists (h : ∀ call ∈ calls, call = .dfExists)
    (current : Option Bytes) : valueAfter current calls = current := by
  induction calls with
  | nil => rfl
  | cons call rest ih =>
    rw [List.forall_mem_cons] at h
    obtain ⟨rfl, hr⟩ := h
    exact ih hr

theorem lastBorrowed_append (earlier : List FieldCall) (valueTag : String)
    {later : List FieldCall} (h : ∀ call ∈ later, ¬ call.IsBorrowMut)
    (current old : Option Bytes) :
    lastBorrowed current old (earlier ++ .dfBorrowMut valueTag :: later) =
      valueAfter current earlier := by
  induction earlier generalizing current old with
  | nil => exact lastBorrowed_of_forall_not h current current
  | cons call rest ih => exact ih (call.value current) (call.borrowed current old)

/-- The calls contain a last `borrow_mut` or none at all. -/
theorem exists_last_borrowMut (calls : List FieldCall) :
    (∀ call ∈ calls, ¬ call.IsBorrowMut) ∨
      ∃ earlier valueTag later, calls = earlier ++ .dfBorrowMut valueTag :: later ∧
        ∀ call ∈ later, ¬ call.IsBorrowMut := by
  induction calls with
  | nil => simp
  | cons call rest ih =>
    rcases ih with hn | ⟨earlier, valueTag, later, rfl, hl⟩
    · by_cases hb : call.IsBorrowMut
      · obtain ⟨valueTag, rfl⟩ := hb
        exact .inr ⟨[], valueTag, rest, rfl, hn⟩
      · exact .inl (List.forall_mem_cons.mpr ⟨hb, hn⟩)
    · exact .inr ⟨call :: earlier, valueTag, later, rfl, hl⟩

/-- The condition on the calls, said of the value that the last `borrow_mut` finds. -/
theorem borrowsOriginal_iff {before : Option Bytes} :
    BorrowsOriginal before calls ↔ lastBorrowed before before calls = before := by
  constructor
  · intro h
    rcases exists_last_borrowMut calls with hn | ⟨earlier, valueTag, later, rfl, hl⟩
    · exact lastBorrowed_of_forall_not hn before before
    · rw [lastBorrowed_append earlier valueTag hl]
      exact h earlier valueTag later rfl hl
  · rintro h earlier valueTag later rfl hl
    rwa [lastBorrowed_append earlier valueTag hl] at h

namespace SetuObjectRuntime

variable {D : Type} (H : Blake3 D) (rt : SetuObjectRuntime)

/-- `native_df_exists_internal`, `natives.rs:932-960`. -/
def dfExists (key : DfCacheKey) : Bool :=
  ((rt.dfCache.lookup key).map fun entry ↦ entry.valueBytes.isSome).getD false

/-- One call on a field; the answers of `exists` are collected. -/
def fieldCall (key : DfCacheKey) (run : SetuObjectRuntime × List Bool) :
    FieldCall → Except NativeError (SetuObjectRuntime × List Bool)
  | .dfAdd valueTag valueBcs => do
    let rt ← run.1.dfAdd H key valueTag valueBcs
    pure (rt, run.2)
  | .dfRemove valueTag => do
    let rt ← run.1.dfRemove key valueTag
    pure (rt, run.2)
  | .dfBorrowMut valueTag => do
    let rt ← run.1.dfBorrowMut key valueTag
    pure (rt, run.2)
  | .dfExists => pure (run.1, run.2 ++ [run.1.dfExists key])

/-- The calls of a transaction on a field, with the answers of `exists`. The first call that
fails ends the transaction. -/
def fieldCalls (key : DfCacheKey) (calls : List FieldCall) :
    Except NativeError (SetuObjectRuntime × List Bool) :=
  calls.foldlM (fieldCall H key) (rt, [])

/-- The cached value of a field. -/
def fieldValue (key : DfCacheKey) : Option Bytes :=
  (rt.dfCache.lookup key).bind DfEntry.valueBytes

/-- The object of a field: the preloaded one, or the derived one. -/
def fieldOid (key : DfCacheKey) : ObjectId :=
  ((rt.dfCache.lookup key).map DfEntry.dfOid).getD
    (deriveDfOid H key.parent key.keyTypeTag key.keyBcs)

/-- The record of a field is the net effect of a transaction: at most one effect, by what the
field held before and what it holds now, with the old value from before the transaction. -/
structure NetEffect (rt : SetuObjectRuntime) (oid : ObjectId) (before after : Option Bytes) :
    Prop where
  created : (rt.dfCreated.get? oid).map DfCreateEffect.valueBcs =
    if before = none then after else none
  deleted : (rt.dfDeleted.get? oid).isSome ↔ before.isSome ∧ after = none
  mutated : ∀ effect, rt.dfMutated.get? oid = some effect →
    before.isSome ∧ after = some effect.newValueBcs
  changed : before.isSome → after.isSome → after ≠ before → (rt.dfMutated.get? oid).isSome
  oldDeleted : ∀ effect, rt.dfDeleted.get? oid = some effect → before = some effect.oldValueBcs
  oldMutated : ∀ effect, rt.dfMutated.get? oid = some effect → before = some effect.oldValueBcs

/-- What the record of a field says, given its preloaded entry, its value now and the value that
the last `borrow_mut` has found. -/
structure Tracked (key : DfCacheKey) (entry : DfEntry) (current old : Option Bytes)
    (rt : SetuObjectRuntime) : Prop where
  cached : rt.dfCache.lookup key = some { entry with valueBytes := current }
  /-- only a field in create mode appears, and none of these disappears -/
  appears : entry.mode ≠ .create → entry.valueBytes = none → current = none
  stays : entry.mode = .create → entry.valueBytes.isSome → current.isSome
  oldIsSome : entry.valueBytes.isSome → old.isSome
  oldIsNone : entry.valueBytes = none → old = none
  created : rt.dfCreated.get? entry.dfOid =
    if entry.valueBytes = none then current.map fun v ↦ ⟨key, entry.valueTypeTag, v⟩ else none
  deleted : rt.dfDeleted.get? entry.dfOid =
    if current = none then
      old.map fun v ↦ ⟨key, entry.valueTypeTag, v, entry.envelopeBytes⟩
    else none
  mutated : rt.dfMutated.get? entry.dfOid = none ∧
      (current.isSome → entry.valueBytes.isSome → current = entry.valueBytes ∧
        old = entry.valueBytes) ∨
    ∃ o v, entry.valueBytes.isSome ∧ old = some o ∧ current = some v ∧
      rt.dfMutated.get? entry.dfOid =
        some ⟨key, entry.valueTypeTag, o, v, entry.envelopeBytes⟩

variable {H}

/-- An empty record, before the first call. -/
theorem tracked_new {key : DfCacheKey} {entry : DfEntry} {rt : SetuObjectRuntime}
    (hc : rt.dfCache.lookup key = some entry) (hcr : rt.dfCreated = .empty)
    (hm : rt.dfMutated = .empty) (hd : rt.dfDeleted = .empty) :
    Tracked key entry entry.valueBytes entry.valueBytes rt where
  cached := hc
  appears _ h := h
  stays _ h := h
  oldIsSome h := h
  oldIsNone h := h
  created := by
    rw [hcr]
    cases entry.valueBytes <;> simp
  deleted := by
    rw [hd]
    cases entry.valueBytes <;> simp
  mutated := by
    rw [hm]
    exact .inl ⟨rfl, fun _ _ ↦ ⟨rfl, rfl⟩⟩

section Step

variable {key : DfCacheKey} {entry : DfEntry} {current old : Option Bytes} {bytes : Bytes}
  {rt rt' : SetuObjectRuntime}

/-- Setting a value touches the cache only, and there one entry. -/
theorem setDfValue_of_lookup (rt : SetuObjectRuntime) {cached : DfEntry}
    (h : rt.dfCache.lookup key = some cached)
    (value : Option Bytes) :
    (rt.setDfValue key value).dfCache =
        rt.dfCache.insert key { cached with valueBytes := value } ∧
      (rt.setDfValue key value).dfCreated = rt.dfCreated ∧
      (rt.setDfValue key value).dfMutated = rt.dfMutated ∧
      (rt.setDfValue key value).dfDeleted = rt.dfDeleted := by
  rw [setDfValue, h]
  exact ⟨rfl, rfl, rfl, rfl⟩

variable {valueTag : String}

/-- What a successful `add` has found and done. -/
theorem dfAdd_eq_ok (ht : Tracked key entry current old rt) {valueBcs : Bytes}
    (h : rt.dfAdd H key valueTag valueBcs = .ok rt') :
    current = none ∧ valueTag = entry.valueTypeTag ∧
      rt'.dfCache = rt.dfCache.insert key { entry with valueBytes := some valueBcs } ∧
      (entry.mode = .create ∧ rt'.dfDeleted = rt.dfDeleted ∧ rt'.dfMutated = rt.dfMutated ∧
          rt'.dfCreated = rt.dfCreated.insert entry.dfOid ⟨key, valueTag, valueBcs⟩ ∨
        ∃ prior, rt.dfDeleted.get? entry.dfOid = some prior ∧ entry.mode = .mutate ∧
          rt'.dfCreated = rt.dfCreated ∧
          rt'.dfDeleted = rt.dfDeleted.swapRemove entry.dfOid ∧
          rt'.dfMutated = rt.dfMutated.insert entry.dfOid
            ⟨key, valueTag, prior.oldValueBcs, valueBcs, prior.onDiskEnvelope⟩) := by
  simp only [dfAdd, bind_eq_ok, require_eq_ok, okOr_eq_ok, ht.cached] at h
  obtain ⟨_, -, found, hfo, _, hmo, _, hn, _, hta, _, ho, h⟩ := h
  cases hfo
  have hcu : current = none := Option.isNone_iff_eq_none.mp hn
  have hta' : valueTag = entry.valueTypeTag := (beq_iff_eq.mp hta).symm
  have ho' := beq_iff_eq.mp ho
  subst hcu
  refine ⟨rfl, hta', ?_⟩
  by_cases hr : entry.mode = .mutate
  · simp only [hr, beq_self_eq_true, Option.isNone_none, Bool.and_self, if_true,
      bind_eq_ok, okOr_eq_ok, pure_eq_ok, ← ho'] at h
    obtain ⟨prior, hp, rfl⟩ := h
    obtain ⟨hc, hcr, hm, hd⟩ := setDfValue_of_lookup { rt with
        dfDeleted := rt.dfDeleted.swapRemove entry.dfOid
        dfMutated := rt.dfMutated.insert entry.dfOid
          ⟨key, valueTag, prior.oldValueBcs, valueBcs, prior.onDiskEnvelope⟩ }
        ht.cached (some valueBcs)
    exact ⟨hc, .inr ⟨prior, hp, hr, hcr, hd, hm⟩⟩
  · have hf : (entry.mode == .mutate) = false := beq_eq_false_iff_ne.mpr hr
    simp only [hf, Bool.false_and, Bool.or_false, beq_iff_eq] at hmo
    simp only [hf, Bool.false_and, Bool.false_eq_true, if_false, pure_eq_ok, ← ho'] at h
    obtain rfl := h
    obtain ⟨hc, hcr, hm, hd⟩ := setDfValue_of_lookup { rt with
        dfCreated := rt.dfCreated.insert entry.dfOid ⟨key, valueTag, valueBcs⟩ }
        ht.cached (some valueBcs)
    exact ⟨hc, .inl ⟨hmo, hd, hm, hcr⟩⟩

/-- What `remove` and `borrow_mut` find. -/
theorem dfExisting_eq_ok (ht : Tracked key entry current old rt) {modes : List DfAccessMode}
    {found : DfEntry} (h : rt.dfExisting key valueTag modes = .ok (found, bytes)) :
    entry.mode ∈ modes ∧ valueTag = entry.valueTypeTag ∧ current = some bytes ∧
      found = { entry with valueBytes := current } := by
  simp only [dfExisting, bind_eq_ok, require_eq_ok, okOr_eq_ok, pure_eq_ok,
    ht.cached] at h
  obtain ⟨cached, hc, _, hm, bytes', hb, _, hta, heq⟩ := h
  cases hc
  cases heq
  exact ⟨List.contains_iff_mem.mp hm, (beq_iff_eq.mp hta).symm, hb, rfl⟩

/-- A field that is there without create mode was there before the transaction. -/
theorem Tracked.present (h : Tracked key entry current old rt) (hm : entry.mode ≠ .create)
    (hc : current.isSome) : entry.valueBytes.isSome := by
  rw [← Option.ne_none_iff_isSome]
  intro hn
  rw [h.appears hm hn] at hc
  cases hc

theorem Tracked.dfAdd (h : Tracked key entry current old rt) {valueBcs : Bytes}
    (hok : rt.dfAdd H key valueTag valueBcs = .ok rt') :
    Tracked key entry (some valueBcs) old rt' := by
  obtain ⟨rfl, rfl, hcc, hcs⟩ := dfAdd_eq_ok h hok
  have hca : rt'.dfCache.lookup key = some { entry with valueBytes := some valueBcs } := by
    rw [hcc, AList.lookup_insert]
  rcases hcs with ⟨hm, hd, hmu, hc⟩ | ⟨prior, hpr, hm, hc, hd, hmu⟩
  · -- in create mode the field was not there before, so nothing else is recorded
    have ha : entry.valueBytes = none := by
      by_contra hp
      cases h.stays hm (Option.ne_none_iff_isSome.mp hp)
    have ho := h.oldIsNone ha
    have hn : rt.dfMutated.get? entry.dfOid = none := by
      rcases h.mutated with hn | ⟨o, v, hs, -⟩
      · exact hn.1
      · simp [ha] at hs
    refine ⟨hca, fun hne ↦ absurd hm hne, fun _ _ ↦ rfl, h.oldIsSome, h.oldIsNone, ?_, ?_, ?_⟩
    · rw [hc, IndexMap.get?_insert_self, if_pos ha]
      rfl
    · rw [hd, h.deleted, ho]
      rfl
    · rw [hmu]
      exact .inl ⟨hn, fun _ hs ↦ by simp [ha] at hs⟩
  · -- the removal before has left its old value
    have hde := h.deleted
    rw [hpr, if_pos rfl] at hde
    obtain ⟨o, ho, hpr'⟩ := Option.map_eq_some_iff.mp hde.symm
    have hp : entry.valueBytes.isSome := by
      rw [← Option.ne_none_iff_isSome]
      intro ha
      cases (h.oldIsNone ha).symm.trans ho
    refine ⟨hca, ?_, fun _ _ ↦ rfl, h.oldIsSome, h.oldIsNone, ?_, ?_, ?_⟩
    · intro _ ha
      simp [ha] at hp
    · rw [hc, h.created]
      simp [Option.ne_none_iff_isSome.mpr hp]
    · rw [hd, IndexMap.get?_swapRemove]
      simp
    · refine .inr ⟨o, valueBcs, hp, ho, rfl, ?_⟩
      rw [hmu, IndexMap.get?_insert_self, ← hpr']

/-- The deletion is recorded with the old value of a mutation before it, which is dropped. -/
theorem recordDfDelete_of_tracked (h : Tracked key entry (some bytes) old rt)
    (hp : entry.valueBytes.isSome) :
    ∃ o, old = some o ∧
      (rt.recordDfDelete entry.dfOid
          ⟨key, entry.valueTypeTag, bytes, entry.envelopeBytes⟩).dfDeleted.get? entry.dfOid =
        some ⟨key, entry.valueTypeTag, o, entry.envelopeBytes⟩ ∧
      (rt.recordDfDelete entry.dfOid
        ⟨key, entry.valueTypeTag, bytes, entry.envelopeBytes⟩).dfMutated.get? entry.dfOid = none ∧
      (rt.recordDfDelete entry.dfOid
        ⟨key, entry.valueTypeTag, bytes, entry.envelopeBytes⟩).dfCreated = rt.dfCreated ∧
      (rt.recordDfDelete entry.dfOid
        ⟨key, entry.valueTypeTag, bytes, entry.envelopeBytes⟩).dfCache = rt.dfCache := by
  rcases h.mutated with ⟨hn, hs⟩ | ⟨o, v, -, ho, -, hso⟩
  · obtain ⟨hc, ho⟩ := hs rfl hp
    rw [recordDfDelete, hn]
    exact ⟨bytes, ho.trans hc.symm, IndexMap.get?_insert_self .., hn, rfl, rfl⟩
  · rw [recordDfDelete, hso]
    refine ⟨o, ho, IndexMap.get?_insert_self .., ?_, rfl, rfl⟩
    simp [IndexMap.get?_swapRemove]

theorem Tracked.dfRemove (h : Tracked key entry current old rt)
    (hok : rt.dfRemove key valueTag = .ok rt') : Tracked key entry none old rt' := by
  simp only [SetuObjectRuntime.dfRemove, bind_eq_ok, pure_eq_ok] at hok
  obtain ⟨⟨found, bytes⟩, hf, rfl⟩ := hok
  obtain ⟨hmo, rfl, rfl, rfl⟩ := dfExisting_eq_ok h hf
  have hcr : entry.mode ≠ .create := by
    intro heq
    simp [heq] at hmo
  have hp := h.present hcr rfl
  obtain ⟨o, ho, hd, hm, hc, hca⟩ := recordDfDelete_of_tracked h hp
  obtain ⟨hca', hc', hm', hd'⟩ :=
    setDfValue_of_lookup _ ((congrArg (AList.lookup key) hca).trans h.cached) none
  refine ⟨?_, fun _ _ ↦ rfl, fun heq ↦ absurd heq hcr, h.oldIsSome, h.oldIsNone, ?_, ?_, ?_⟩
  · rw [hca', AList.lookup_insert]
  · rw [hc', hc, h.created]
    simp [Option.ne_none_iff_isSome.mpr hp]
  · rw [hd', hd, if_pos rfl, ho]
    rfl
  · rw [hm']
    exact .inl ⟨hm, fun hs ↦ by cases hs⟩

theorem Tracked.dfBorrowMut (h : Tracked key entry current old rt)
    (hok : rt.dfBorrowMut key valueTag = .ok rt') : Tracked key entry current current rt' := by
  simp only [SetuObjectRuntime.dfBorrowMut, bind_eq_ok, pure_eq_ok] at hok
  obtain ⟨⟨found, bytes⟩, hf, rfl⟩ := hok
  obtain ⟨hm, rfl, rfl, rfl⟩ := dfExisting_eq_ok h hf
  have hc : entry.mode ≠ .create := by
    intro heq
    simp [heq] at hm
  have hp := h.present hc rfl
  refine ⟨h.cached, h.appears, h.stays, fun _ ↦ rfl, h.appears hc, h.created, ?_, ?_⟩
  · rw [if_neg (by simp)]
    have hd := h.deleted
    rwa [if_neg (by simp)] at hd
  · exact .inr ⟨bytes, bytes, hp, rfl, rfl, IndexMap.get?_insert_self ..⟩

/-- One call keeps the record and the history together. -/
theorem Tracked.fieldCall (h : Tracked key entry current old rt) {call : FieldCall}
    {answers answers' : List Bool}
    (hok : fieldCall H key (rt, answers) call = .ok (rt', answers')) :
    Tracked key entry (call.value current) (call.borrowed current old) rt' ∧
      answers' = answers ++ (if call = .dfExists then [current.isSome] else []) := by
  cases call with
  | dfAdd valueTag valueBcs =>
    simp only [SetuObjectRuntime.fieldCall, bind_eq_ok, pure_eq_ok, Prod.mk.injEq] at hok
    obtain ⟨next, hn, rfl, rfl⟩ := hok
    exact ⟨h.dfAdd hn, by simp⟩
  | dfRemove valueTag =>
    simp only [SetuObjectRuntime.fieldCall, bind_eq_ok, pure_eq_ok, Prod.mk.injEq] at hok
    obtain ⟨next, hn, rfl, rfl⟩ := hok
    exact ⟨h.dfRemove hn, by simp⟩
  | dfBorrowMut valueTag =>
    simp only [SetuObjectRuntime.fieldCall, bind_eq_ok, pure_eq_ok, Prod.mk.injEq] at hok
    obtain ⟨next, hn, rfl, rfl⟩ := hok
    exact ⟨h.dfBorrowMut hn, by simp⟩
  | dfExists =>
    cases hok
    refine ⟨h, ?_⟩
    simp [dfExists, h.cached]

/-- A whole transaction keeps them together. -/
theorem Tracked.foldlM {calls : List FieldCall} {answers answers' : List Bool}
    (h : Tracked key entry current old rt)
    (hok : calls.foldlM (SetuObjectRuntime.fieldCall H key) (rt, answers) = .ok (rt', answers')) :
    Tracked key entry (valueAfter current calls) (lastBorrowed current old calls) rt' ∧
      answers' = answers ++ presences current calls := by
  induction calls generalizing current old rt answers with
  | nil =>
    cases hok
    exact ⟨h, (List.append_nil _).symm⟩
  | cons call rest ih =>
    rw [List.foldlM_cons, bind_eq_ok] at hok
    obtain ⟨⟨next, answers₁⟩, hc, hr⟩ := hok
    obtain ⟨hn, rfl⟩ := h.fieldCall hc
    obtain ⟨hl, rfl⟩ := ih hn hr
    exact ⟨hl, by rw [presences, List.append_assoc]⟩

end Step

section NetEffect

variable {key : DfCacheKey} {entry : DfEntry} {current old : Option Bytes}
  {rt : SetuObjectRuntime}

/-- Whatever the old values, the record says what has become of the field. -/
theorem Tracked.netEffect (h : Tracked key entry current old rt)
    (ho : old = entry.valueBytes) : rt.NetEffect entry.dfOid entry.valueBytes current := by
  subst ho
  constructor
  case created =>
    rw [h.created]
    split
    · rw [Option.map_map]
      exact Option.map_id'
    · rfl
  case deleted =>
    rw [h.deleted]
    split <;> simp [*]
  case mutated =>
    intro effect he
    rcases h.mutated with ⟨hn, -⟩ | ⟨o, v, hp, -, rfl, hs⟩
    · cases hn.symm.trans he
    · cases hs.symm.trans he
      exact ⟨hp, rfl⟩
  case changed =>
    intro hp hc hne
    rcases h.mutated with ⟨-, hsa⟩ | ⟨o, v, -, -, -, hs⟩
    · exact absurd (hsa hc hp).1 hne
    · rw [hs]
      rfl
  case oldDeleted =>
    intro effect he
    rw [h.deleted] at he
    split at he
    · obtain ⟨v, hv, rfl⟩ := Option.map_eq_some_iff.mp he
      exact hv
    · cases he
  case oldMutated =>
    intro effect he
    rcases h.mutated with ⟨hn, -⟩ | ⟨o, v, -, ho, -, hs⟩
    · cases hn.symm.trans he
    · cases hs.symm.trans he
      exact ho

/-- A recorded effect shows what the last `borrow_mut` has found. -/
theorem Tracked.old_eq (h : Tracked key entry current old rt)
    (hn : rt.NetEffect entry.dfOid entry.valueBytes current) : old = entry.valueBytes := by
  by_cases hb : entry.valueBytes = none
  · rw [h.oldIsNone hb, hb]
  · have hp := Option.ne_none_iff_isSome.mp hb
    obtain ⟨o, ho⟩ := Option.isSome_iff_exists.mp (h.oldIsSome hp)
    by_cases hc : current = none
    · have hd := h.deleted
      rw [if_pos hc, ho] at hd
      rw [ho, hn.oldDeleted _ hd]
    · rcases h.mutated with ⟨-, hs⟩ | ⟨o', v, -, ho', -, hso⟩
      · exact (hs (Option.ne_none_iff_isSome.mp hc) hp).2
      · rw [ho', hn.oldMutated _ hso]

end NetEffect

/-- A field that is not preloaded: only `exists` succeeds, and it changes nothing. -/
theorem fieldCalls_of_not_preloaded {rt rt' : SetuObjectRuntime} {key : DfCacheKey}
    {calls : List FieldCall} {answers answers' : List Bool}
    (hc : rt.dfCache.lookup key = none)
    (hok : calls.foldlM (fieldCall H key) (rt, answers) = .ok (rt', answers')) :
    rt' = rt ∧ (∀ call ∈ calls, call = .dfExists) ∧
      answers' = answers ++ presences none calls := by
  induction calls generalizing answers with
  | nil =>
    cases hok
    exact ⟨rfl, by simp, (List.append_nil _).symm⟩
  | cons call rest ih =>
    rw [List.foldlM_cons, bind_eq_ok] at hok
    obtain ⟨⟨next, answers₁⟩, hca, hr⟩ := hok
    have he : call = .dfExists := by
      cases call with
      | dfExists => rfl
      | dfAdd =>
        simp [fieldCall, dfAdd, bind_eq_ok, okOr_eq_ok, hc] at hca
      | dfRemove =>
        simp [fieldCall, dfRemove, dfExisting, bind_eq_ok, okOr_eq_ok, hc] at hca
      | dfBorrowMut =>
        simp [fieldCall, dfBorrowMut, dfExisting, bind_eq_ok, okOr_eq_ok, hc] at hca
    subst he
    cases hca
    obtain ⟨rfl, ha, rfl⟩ := ih hr
    refine ⟨rfl, List.forall_mem_cons.mpr ⟨rfl, ha⟩, ?_⟩
    simp [presences, FieldCall.value, dfExists, hc]

/-- The field's record, its value and the answers of `exists` at the end of a transaction are
those of the calls, and the record is the net effect, exactly if the last `borrow_mut` of the
calls, if there is one, finds what the field held before the transaction. -/
theorem netEffect_iff_borrowsOriginal {inputObjects : List InputObject}
    {dfPreload : List ResolvedDynamicField} {txHash : Bytes} {sender : Address}
    {epochTimestampMs : UInt64} {key : DfCacheKey} {calls : List FieldCall}
    {rt : SetuObjectRuntime} {answers : List Bool}
    (hok : (new inputObjects dfPreload txHash sender epochTimestampMs).fieldCalls H key calls =
      .ok (rt, answers)) :
    let before := (new inputObjects dfPreload txHash sender epochTimestampMs).fieldValue key
    let oid := (new inputObjects dfPreload txHash sender epochTimestampMs).fieldOid H key
    (rt.NetEffect oid before (rt.fieldValue key) ∧ rt.fieldValue key = valueAfter before calls ∧
        answers = presences before calls) ↔
      BorrowsOriginal before calls := by
  intro before oid
  rw [borrowsOriginal_iff]
  cases hc : (new inputObjects dfPreload txHash sender epochTimestampMs).dfCache.lookup key with
  | none =>
    obtain ⟨rfl, he, ha⟩ := fieldCalls_of_not_preloaded hc hok
    have hb : before = none := by simp only [before, fieldValue, hc, Option.bind_none]
    have hv := valueAfter_of_forall_exists he none
    have hbo := lastBorrowed_of_forall_exists he none none
    refine iff_of_true ⟨?_, ?_, ?_⟩ (hb ▸ hbo)
    · change NetEffect _ oid before before
      rw [hb]
      exact ⟨rfl, by simp [new], by simp [new], by simp, by simp [new], by simp [new]⟩
    · rw [hb, hv]
      exact hb
    · rw [hb]
      exact ha
  | some entry =>
    obtain ⟨ht, ha⟩ := (tracked_new hc rfl rfl rfl).foldlM hok
    have hb : before = entry.valueBytes := by
      simp only [before, fieldValue, hc, Option.bind_some]
    have ho : oid = entry.dfOid := by
      simp only [oid, fieldOid, hc, Option.map_some, Option.getD_some]
    have hv : rt.fieldValue key = valueAfter entry.valueBytes calls := by
      rw [fieldValue, ht.cached, Option.bind_some]
    rw [hb, ho, hv]
    constructor
    · intro h
      exact ht.old_eq h.1
    · intro h
      exact ⟨ht.netEffect h, rfl, ha⟩

/-- A field in mutate mode that holds one byte. -/
private def preloaded : ResolvedDynamicField :=
  ⟨⟨Vector.replicate 32 0⟩, deriveDfOid Blake3.ideal ⟨Vector.replicate 32 0⟩ "u8" [5], "u8", [5],
    some [1], "u8", .mutate, none⟩

private def preloadedKey : DfCacheKey := ⟨⟨Vector.replicate 32 0⟩, "u8", [5]⟩

private def mutableField : SetuObjectRuntime :=
  new [] [preloaded] [] ⟨Vector.replicate 32 0⟩ 0

/-- A field that is borrowed, removed, added and removed again is deleted with its old value. -/
theorem netEffect_mutableField :
    ∃ run, mutableField.fieldCalls Blake3.ideal preloadedKey
        [.dfBorrowMut "u8", .dfRemove "u8", .dfAdd "u8" [2], .dfExists, .dfRemove "u8"] = .ok run ∧
      run.1.NetEffect (mutableField.fieldOid Blake3.ideal preloadedKey) (some [1])
        (run.1.fieldValue preloadedKey) ∧
      run.2 = [true] := by
  have hr := eq_ok_get (show (mutableField.fieldCalls Blake3.ideal preloadedKey
    [.dfBorrowMut "u8", .dfRemove "u8", .dfAdd "u8" [2], .dfExists,
      .dfRemove "u8"]).toOption.isSome by decide +kernel)
  have hn := (netEffect_iff_borrowsOriginal hr).mpr (borrowsOriginal_iff.mpr (by decide +kernel))
  exact ⟨_, hr, hn.1, hn.2.2⟩

/-- A field that is removed, added and then borrowed is recorded as a mutation of the added
value, not of the value that the state holds. -/
theorem not_netEffect_mutableField :
    ∃ run, mutableField.fieldCalls Blake3.ideal preloadedKey
        [.dfRemove "u8", .dfAdd "u8" [2], .dfBorrowMut "u8"] = .ok run ∧
      mutableField.fieldValue preloadedKey = some [1] ∧
      ¬ run.1.NetEffect (mutableField.fieldOid Blake3.ideal preloadedKey) (some [1])
        (run.1.fieldValue preloadedKey) := by
  have hr := eq_ok_get (show (mutableField.fieldCalls Blake3.ideal preloadedKey
    [.dfRemove "u8", .dfAdd "u8" [2], .dfBorrowMut "u8"]).toOption.isSome by decide +kernel)
  refine ⟨_, hr, by decide +kernel, ?_⟩
  intro hn
  have ho := hn.oldMutated ⟨preloadedKey, "u8", [2], [2], none⟩ (by decide +kernel)
  cases ho

end SetuObjectRuntime

end Setu.Move
