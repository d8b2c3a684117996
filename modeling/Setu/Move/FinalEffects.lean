import Setu.Move.History

/-!
# One change for each object

Library `Move`. The effects of a session are kept in maps of their own, and each map is turned into
changes. A session has one change for each object, of the kind that fits what became of the
object, exactly if no object stands in maps that say different things of it.
-/

namespace Setu.Move

open Setu.Base Setu.Types Setu.Runtime MoveStateChange

section History

variable {D : Type} (H : Blake3 D)

/-- The identifier with a number, of those that `fresh_id` makes in a transaction. -/
def freshIdAt (txHash : Bytes) (n : UInt64) : ObjectId :=
  hashedId H (strBytes "SETU_FRESH_ID:" ++ txHash ++ u64Le n)

/-- The identifiers made in a history, with the number of the first. -/
def createdIn (txHash : Bytes) : UInt64 → List RecordOp → List ObjectId
  | n, .native .newUid :: ops => freshIdAt H txHash n :: createdIn txHash (n + 1) ops
  | n, _ :: ops => createdIn txHash n ops
  | _, [] => []

/-- The identifiers deleted in a history. -/
def destroyedIn (ops : List RecordOp) : List ObjectId :=
  ops.filterMap fun
    | .native (.deleteUid id) => some id
    | _ => none

end History

/-- There is one change for each object at most and it fits the object: a destroyed object is
deleted, or not mentioned if it was created in the same session; a created object is created and
has no old state; a loaded object has the state it was loaded with as its old state and the next
version. -/
structure OneFinalEffect (created destroyed : List ObjectId)
    (loaded : HashMap ObjectId InputObject) (changes : List MoveStateChange) : Prop where
  once : (changes.map objectId).Nodup
  ofDestroyed : ∀ change ∈ changes, change.objectId ∈ destroyed →
    change.changeType = .delete ∧ change.objectId ∉ created
  ofCreated : ∀ change ∈ changes, change.objectId ∈ created →
    change.changeType = .create ∧ change.oldState = none
  ofLoaded : ∀ change ∈ changes, ∀ input, loaded.lookup change.objectId = some input →
    change.oldState = some input.envelopeBytes ∧
      ∀ env, change.newState.bind ObjectEnvelope.fromBytes = some env →
        env.version = input.version + 1

namespace SetuObjectRuntime

/-- A mutation is recorded with other bytes than those loaded. -/
def rewritten (rt : SetuObjectRuntime) (id : ObjectId) : Bool :=
  (rt.mutated.get? id).any fun effect ↦ !rt.loadedWith id effect.bcsBytes

/-- The effects recorded for a dynamic field. -/
def fieldEffects (rt : SetuObjectRuntime) (id : ObjectId) : Nat :=
  (rt.dfCreated.contains id).toNat + (rt.dfMutated.contains id).toNat +
    (rt.dfDeleted.contains id).toNat

/-- No object has effects that say different things of it. -/
structure Unambiguous (created destroyed : List ObjectId) (rt : SetuObjectRuntime) : Prop where
  /-- None is both shared and frozen. -/
  terminal : ∀ id, rt.shared.contains id → rt.frozen.contains id = false
  /-- A destroyed object was not also transferred, shared or frozen, and not changed before. -/
  ofDestroyed : ∀ id ∈ destroyed, rt.moved id = false ∧ rt.rewritten id = false
  /-- A created object is not frozen, changed afterwards only if it was transferred or shared,
  deleted at most once and not loaded. -/
  ofCreated : ∀ id ∈ created, rt.frozen.contains id = false ∧ (rt.rewritten id → rt.moved id) ∧
    rt.deletedIds.contains id = false ∧ (rt.moved id → rt.inputObjects.lookup id = none)
  /-- A dynamic field has one effect, and its identifier is that of no object with effects. -/
  fields : ∀ id, rt.fieldEffects id ≤ 1 ∧ (0 < rt.fieldEffects id →
    rt.moved id = false ∧ rt.rewritten id = false ∧ rt.deletedIds.contains id = false ∧
      id ∉ destroyed ∧ (id ∈ created → rt.dfCreated.contains id))

variable {D : Type} {H : Blake3 D} {rt rt' : SetuObjectRuntime} {op : RecordOp}
  {ops : List RecordOp} {id : ObjectId}

private theorem ids_perform (id : ObjectId) (h : rt.perform H op = .ok rt') :
    (rt'.deletedIds.contains id → rt.deletedIds.contains id ∨ id ∈ destroyedIn [op]) ∧
      (rt.createdIds.contains id ∨ id ∈ createdIn H rt.txHash rt.idsCreated [op] →
        id ∉ destroyedIn [op] → rt'.createdIds.contains id) ∧
      (rt'.createdIds.contains id → rt.createdIds.contains id ∨
        id ∈ createdIn H rt.txHash rt.idsCreated [op]) ∧
      (rt.deletedIds.contains id → rt'.deletedIds.contains id) ∧
      (id ∈ destroyedIn [op] → rt.createdIds.contains id ∨ rt'.deletedIds.contains id) ∧
      (∀ rest, createdIn H rt.txHash rt.idsCreated (op :: rest) =
        createdIn H rt.txHash rt.idsCreated [op] ++
          createdIn H rt'.txHash rt'.idsCreated rest) := by
  cases op with
  | mutate id typeTag bcsBytes =>
    cases h
    simp [destroyedIn, createdIn, mutateObject]
  | native call =>
    cases hf : call.isField with
    | true =>
      have hfr := fieldsOnly_native h hf
      have hs : rt'.deletedIds = rt.deletedIds ∧ rt'.createdIds = rt.createdIds ∧
          rt'.txHash = rt.txHash ∧ rt'.idsCreated = rt.idsCreated := by
        rw [hfr]
        exact ⟨rfl, rfl, rfl, rfl⟩
      obtain ⟨hd, hc, htx, hn⟩ := hs
      cases call with
      | newUid | deleteUid | transfer | share | freeze | emit => cases hf
      | dfAdd | dfRemove | dfBorrow | dfBorrowMut =>
        simp [hd, hc, htx, hn, createdIn, destroyedIn]
    | false =>
      cases call with
      | dfAdd | dfRemove | dfBorrow | dfBorrowMut => cases hf
      | newUid =>
        cases h
        simp [freshId, createdIn, destroyedIn, nextId, freshIdAt, or_comm]
      | deleteUid id' =>
        cases h
        unfold deleteUid
        split
        · next hc => simp +contextual [createdIn, destroyedIn, hc]
        · next hc => simp +contextual [createdIn, destroyedIn, or_comm]
      | transfer | share | freeze =>
        simp only [perform, native, bind_eq_ok, pure_eq_ok] at h
        obtain ⟨_, -, rfl⟩ := h
        simp [createdIn, destroyedIn, shareObject]
      | emit =>
        cases h
        simp [createdIn, destroyedIn]

private theorem destroyedIn_cons (op : RecordOp) (ops : List RecordOp) :
    destroyedIn (op :: ops) = destroyedIn [op] ++ destroyedIn ops :=
  List.filterMap_append (l := [op])

/-- The deleted identifiers of the record were destroyed, those that were created and not
destroyed are among its created ones, and a destroyed one was created or is deleted. -/
theorem ids_replay (id : ObjectId) (h : rt.replay H ops = .ok rt') :
    (rt'.deletedIds.contains id → rt.deletedIds.contains id ∨ id ∈ destroyedIn ops) ∧
      (rt.createdIds.contains id ∨ id ∈ createdIn H rt.txHash rt.idsCreated ops →
        id ∉ destroyedIn ops → rt'.createdIds.contains id) ∧
      (rt.deletedIds.contains id ∨ id ∈ destroyedIn ops →
        rt'.deletedIds.contains id ∨ rt.createdIds.contains id ∨
          id ∈ createdIn H rt.txHash rt.idsCreated ops) := by
  induction ops generalizing rt with
  | nil =>
    cases h
    simp +contextual [createdIn, destroyedIn]
  | cons op ops ih =>
    obtain ⟨next, hop, hr⟩ := replay_cons_eq_ok.mp h
    obtain ⟨hd, hc, hne, hk, hde, hi⟩ := ids_perform id hop
    obtain ⟨hd', hc', hde'⟩ := ih hr
    rw [destroyedIn_cons, hi, List.mem_append, List.mem_append, not_or]
    refine ⟨fun hid ↦ ?_, ?_, fun hid ↦ ?_⟩
    · rcases hd' hid with hid | hid
      · exact (hd hid).imp_right .inl
      · exact .inr (.inr hid)
    · rintro (hid | hid | hid) ⟨hn, hn'⟩
      · exact hc' (.inl (hc (.inl hid) hn)) hn'
      · exact hc' (.inl (hc (.inr hid) hn)) hn'
      · exact hc' (.inr hid) hn'
    · have hl (hid : next.deletedIds.contains id ∨ id ∈ destroyedIn ops) :
          rt'.deletedIds.contains id ∨ rt.createdIds.contains id ∨
            id ∈ createdIn H rt.txHash rt.idsCreated [op] ∨
              id ∈ createdIn H next.txHash next.idsCreated ops := by
        rcases hde' hid with hid | hid | hid
        · exact .inl hid
        · exact .inr ((hne hid).imp_right .inl)
        · exact .inr (.inr (.inr hid))
      rcases hid with hid | hid | hid
      · exact hl (.inl (hk hid))
      · rcases hde hid with hid | hid
        · exact .inr (.inl hid)
        · exact hl (.inl hid)
      · exact hl (.inr hid)

theorem inputObjects_replay (h : rt.replay H ops = .ok rt') :
    rt'.inputObjects = rt.inputObjects := by
  refine foldlM_ok_induction (fun rt' ↦ rt'.inputObjects = rt.inputObjects) h rfl ?_
  intro op _ before after hs hsa
  cases op with
  | native call => exact (preserved_native hs).inputObjects.trans hsa
  | mutate id typeTag bcsBytes =>
    cases hs
    exact hsa

/-- The fields of the record are among given ones. -/
private structure FieldsWithin (ids : List ObjectId) (rt : SetuObjectRuntime) : Prop where
  cache : ∀ key entry, rt.dfCache.lookup key = some entry → entry.dfOid ∈ ids
  created : ∀ id, rt.dfCreated.contains id → id ∈ ids
  mutated : ∀ id, rt.dfMutated.contains id → id ∈ ids
  deleted : ∀ id, rt.dfDeleted.contains id → id ∈ ids

variable {ids : List ObjectId}

private theorem within_insert {V : Type} {m : IndexMap ObjectId V} {value : V}
    (h : ∀ id, m.contains id → id ∈ ids) (hid : id ∈ ids) :
    ∀ other, (m.insert id value).contains other → other ∈ ids := by
  intro other ho
  rw [IndexMap.contains_insert, Bool.or_eq_true, decide_eq_true_eq] at ho
  rcases ho with rfl | ho
  · exact hid
  · exact h other ho

private theorem within_swapRemove {V : Type} {m : IndexMap ObjectId V}
    (h : ∀ id, m.contains id → id ∈ ids) :
    ∀ other, (m.swapRemove id).contains other → other ∈ ids := by
  intro other ho
  rw [IndexMap.contains_swapRemove, Bool.and_eq_true] at ho
  exact h other ho.2

private theorem FieldsWithin.setDfValue (h : FieldsWithin ids rt) (key : DfCacheKey)
    (value : Option Bytes) : FieldsWithin ids (rt.setDfValue key value) := by
  unfold SetuObjectRuntime.setDfValue
  split
  · next entry he =>
    refine { h with cache := fun key' entry' he' ↦ ?_ }
    rcases HashMap.lookup_insert_cases he' with ⟨rfl, rfl⟩ | ⟨-, ho⟩
    · exact h.cache key' entry he
    · exact h.cache key' entry' ho
  · exact h

private theorem FieldsWithin.dfAdd (h : FieldsWithin ids rt) {key : DfCacheKey}
    {valueTag : String} {valueBcs : Bytes} (hs : rt.dfAdd H key valueTag valueBcs = .ok rt')
    : FieldsWithin ids rt' := by
  simp only [SetuObjectRuntime.dfAdd, bind_eq_ok, okOr_eq_ok, require_eq_ok,
    beq_iff_eq] at hs
  obtain ⟨_, -, entry, he, _, -, _, -, _, -, _, ho, hs⟩ := hs
  have hid := h.cache key entry he
  rw [ho] at hid
  split at hs
  · simp only [bind_eq_ok, pure_eq_ok] at hs
    obtain ⟨prior, -, rfl⟩ := hs
    refine FieldsWithin.setDfValue ?_ _ _
    exact ⟨h.cache, h.created, within_insert h.mutated hid, within_swapRemove h.deleted⟩
  · cases hs
    refine FieldsWithin.setDfValue ?_ _ _
    exact { h with created := within_insert h.created hid }

private theorem FieldsWithin.dfRemove (h : FieldsWithin ids rt) {key : DfCacheKey}
    {valueTag : String} (hs : rt.dfRemove key valueTag = .ok rt') : FieldsWithin ids rt' := by
  simp only [SetuObjectRuntime.dfRemove, dfExisting, bind_eq_ok, okOr_eq_ok,
    pure_eq_ok] at hs
  obtain ⟨_, ⟨entry, he, _, -, _, -, _, -, rfl⟩, rfl⟩ := hs
  have hid := h.cache key entry he
  refine FieldsWithin.setDfValue ?_ _ _
  unfold recordDfDelete
  split
  · exact ⟨h.cache, h.created, within_swapRemove h.mutated, within_insert h.deleted hid⟩
  · exact { h with deleted := within_insert h.deleted hid }

private theorem FieldsWithin.dfBorrowMut (h : FieldsWithin ids rt) {key : DfCacheKey}
    {valueTag : String} (hs : rt.dfBorrowMut key valueTag = .ok rt') :
    FieldsWithin ids rt' := by
  simp only [SetuObjectRuntime.dfBorrowMut, dfExisting, bind_eq_ok, okOr_eq_ok,
    pure_eq_ok] at hs
  obtain ⟨_, ⟨entry, he, _, -, _, -, _, -, rfl⟩, rfl⟩ := hs
  exact { h with mutated := within_insert h.mutated (h.cache key entry he) }

private theorem FieldsWithin.perform (h : FieldsWithin ids rt) (hs : rt.perform H op = .ok rt')
    : FieldsWithin ids rt' := by
  cases op with
  | mutate id typeTag bcsBytes =>
    cases hs
    exact { h with }
  | native call =>
    cases call with
    | newUid | emit =>
      cases hs
      exact { h with }
    | deleteUid id =>
      cases hs
      unfold deleteUid
      split <;> exact { h with }
    | transfer | share | freeze =>
      simp only [SetuObjectRuntime.perform, native, bind_eq_ok, pure_eq_ok] at hs
      obtain ⟨_, -, rfl⟩ := hs
      exact { h with }
    | dfAdd key valueTag valueBcs => exact h.dfAdd hs
    | dfRemove key valueTag => exact h.dfRemove hs
    | dfBorrow key valueTag =>
      simp only [SetuObjectRuntime.perform, native, bind_eq_ok, pure_eq_ok] at hs
      obtain ⟨_, -, rfl⟩ := hs
      exact h
    | dfBorrowMut key valueTag => exact h.dfBorrowMut hs

section Changes

variable {tags : TagSyntax} {base : UInt64} {change : MoveStateChange}

/-- Where a change comes from. -/
private inductive Source where
  | transfers | mutated | frozen | shared | deleted | fieldsCreated | fieldsMutated | fieldsDeleted

/-- Whether the record has a change of an object from there. -/
private def has (rt : SetuObjectRuntime) (id : ObjectId) : Source → Bool
  | .transfers => rt.transfers.contains id && !(rt.shared.contains id || rt.frozen.contains id)
  | .mutated => rt.rewritten id && !rt.moved id
  | .frozen => rt.frozen.contains id
  | .shared => rt.shared.contains id
  | .deleted => rt.deletedIds.contains id
  | .fieldsCreated => rt.dfCreated.contains id
  | .fieldsMutated => rt.dfMutated.contains id
  | .fieldsDeleted => rt.dfDeleted.contains id

/-- The type of the change. -/
private def typeFrom (rt : SetuObjectRuntime) (id : ObjectId) : Source → MoveStateChangeType
  | .transfers => if rt.createdIds.contains id then .create else .update
  | .mutated | .fieldsMutated => .update
  | .frozen => .freeze
  | .shared => if rt.createdIds.contains id then .create else .share
  | .deleted | .fieldsDeleted => .delete
  | .fieldsCreated => .create

/-- A change of an object keeps the old state and has the next version. -/
private def Continues (rt : SetuObjectRuntime) (base : UInt64) (change : MoveStateChange) : Prop :=
  change.oldState = rt.oldEnvelope change.objectId ∧
    ∀ env, change.newState.bind ObjectEnvelope.fromBytes = some env →
      env.version = rt.nextVersionFor base change.objectId

private theorem continues_of_newEnvelope {changeType : MoveStateChangeType} {owner : Address}
    {ownership : Ownership} {typeTag : StructTag} {bytes : Bytes} :
    rt.Continues base ⟨id, changeType, rt.oldEnvelope id,
      some (rt.newEnvelope H tags base id owner ownership typeTag bytes).toBytes⟩ := by
  refine ⟨rfl, fun env he ↦ ?_⟩
  rw [Option.bind_some, ObjectEnvelope.fromBytes_toBytes, Option.some.injEq] at he
  rw [← he]
  rfl

/-- What there is to know of a change by its source. -/
private def Fits (rt : SetuObjectRuntime) (base : UInt64) (change : MoveStateChange) :
    Source → Prop
  | .fieldsCreated => change.oldState = none
  | .fieldsMutated | .fieldsDeleted => True
  | _ => rt.Continues base change

/-- The changes from a source. -/
private def changesFrom (H : Blake3 D) (tags : TagSyntax) (base : UInt64) (rt : SetuObjectRuntime) :
    Source → List MoveStateChange
  | .transfers => rt.transferChanges H tags base
  | .mutated => rt.mutationChanges H tags base
  | .frozen => rt.freezeChanges H tags base
  | .shared => rt.shareChanges H tags base
  | .deleted => rt.deleteChanges
  | .fieldsCreated => rt.dfCreateChanges H base
  | .fieldsMutated => rt.dfMutateChanges H base
  | .fieldsDeleted => rt.dfDeleteChanges H base

private theorem stateChanges_eq_flatMap :
    rt.stateChanges H tags base =
      [Source.transfers, .mutated, .frozen, .shared, .deleted, .fieldsCreated, .fieldsMutated,
        .fieldsDeleted].flatMap (rt.changesFrom H tags base) := by
  simp [stateChanges, otherChanges, changesFrom]

private theorem sublist_of_filterMap {V : Type} {l : List (ObjectId × V)}
    {f : ObjectId × V → Option MoveStateChange}
    (hf : ∀ entry change, f entry = some change → change.objectId = entry.1) :
    ((l.filterMap f).map objectId).Sublist (l.map Prod.fst) := by
  induction l with
  | nil => exact .slnil
  | cons entry l ih =>
    rw [List.filterMap_cons, List.map_cons]
    split
    · exact ih.cons _
    · next change hc =>
      rw [List.map_cons, hf entry change hc]
      exact ih.cons_cons _

private theorem count_eq_toNat {l : List ObjectId} (h : l.Nodup) {b : Bool}
    (hb : id ∈ l ↔ b = true) : l.count id = b.toNat := by
  rw [h.count]
  cases b <;> simp_all

private theorem count_keys {V : Type} (m : IndexMap ObjectId V) :
    m.keys.count id = (m.contains id).toNat :=
  count_eq_toNat m.nodup_keys IndexMap.mem_keys_iff_contains

private theorem count_filterMap {V : Type} (m : IndexMap ObjectId V)
    (skips : ObjectId → V → Bool) (mk : ObjectId → V → MoveStateChange)
    (hmk : ∀ id value, (mk id value).objectId = id) :
    ((m.entries.filterMap fun (id, value) ↦
      if skips id value then none else some (mk id value)).map objectId).count id =
        ((m.get? id).any fun value ↦ !skips id value).toNat := by
  refine count_eq_toNat (m.nodup_keys.sublist (sublist_of_filterMap ?_)) ?_
  · rintro ⟨id, value⟩ change h
    obtain ⟨-, ⟨⟩⟩ := Option.ite_none_left_eq_some.mp h
    exact hmk id value
  · simp only [List.mem_map, List.mem_filterMap, Option.any_eq_true, Bool.not_eq_true',
      IndexMap.get?_eq_some_iff]
    constructor
    · rintro ⟨change, ⟨⟨id', value⟩, hm, h⟩, rfl⟩
      obtain ⟨hk, ⟨⟩⟩ := Option.ite_none_left_eq_some.mp h
      rw [hmk]
      exact ⟨value, hm, Bool.eq_false_iff.mpr hk⟩
    · rintro ⟨value, hm, hk⟩
      exact ⟨mk id value, ⟨(id, value), hm, by simp [hk]⟩, hmk id value⟩

private theorem count_changesFrom (source : Source) :
    ((rt.changesFrom H tags base source).map objectId).count id =
      (rt.has id source).toNat := by
  cases source with
  | transfers =>
    refine (count_filterMap rt.transfers (fun id _ ↦ rt.shared.contains id || rt.frozen.contains id)
      (rt.transferChange H tags base) fun _ _ ↦ rfl).trans ?_
    unfold has IndexMap.contains
    cases rt.transfers.get? id <;> rfl
  | mutated =>
    refine (count_filterMap rt.mutated
      (fun id effect ↦ rt.moved id || rt.loadedWith id effect.bcsBytes)
      (rt.mutationChange H tags base) fun _ _ ↦ rfl).trans ?_
    rw [has, rewritten]
    cases rt.mutated.get? id <;> simp [Bool.and_comm]
  | frozen | shared | deleted | fieldsCreated | fieldsMutated | fieldsDeleted =>
    rw [has, ← count_keys]
    simp [changesFrom, freezeChanges, shareChanges, deleteChanges, dfCreateChanges,
      dfMutateChanges, dfDeleteChanges, IndexMap.keys, Function.comp_def]

private theorem fits_of_mem_changesFrom {source : Source}
    (h : change ∈ rt.changesFrom H tags base source) :
    change.changeType = rt.typeFrom change.objectId source ∧ rt.Fits base change source := by
  cases source with
  | transfers | mutated =>
    obtain ⟨⟨id, effect⟩, -, h⟩ := List.mem_filterMap.mp h
    obtain ⟨-, ⟨⟩⟩ := Option.ite_none_left_eq_some.mp h
    exact ⟨rfl, continues_of_newEnvelope⟩
  | frozen | shared =>
    obtain ⟨⟨id, effect⟩, -, rfl⟩ := List.mem_map.mp h
    exact ⟨rfl, continues_of_newEnvelope⟩
  | deleted =>
    obtain ⟨id, -, rfl⟩ := List.mem_map.mp h
    exact ⟨rfl, rfl, fun env he ↦ by cases he⟩
  | fieldsCreated | fieldsMutated | fieldsDeleted =>
    obtain ⟨⟨id, effect⟩, -, rfl⟩ := List.mem_map.mp h
    exact ⟨rfl, by trivial⟩

private theorem source_of_mem (h : change ∈ rt.stateChanges H tags base) :
    ∃ source, rt.has change.objectId source = true ∧
      change.changeType = rt.typeFrom change.objectId source ∧ rt.Fits base change source := by
  rw [stateChanges_eq_flatMap] at h
  obtain ⟨source, -, hm⟩ := List.mem_flatMap.mp h
  refine ⟨source, ?_, fits_of_mem_changesFrom hm⟩
  have hp := List.count_pos_iff.mpr (List.mem_map_of_mem (f := objectId) hm)
  rw [count_changesFrom] at hp
  cases hh : rt.has change.objectId source with
  | true => rfl
  | false =>
    rw [hh] at hp
    exact absurd hp (by decide)

private theorem exists_of_has (H : Blake3 D) (tags : TagSyntax) (base : UInt64) {source : Source}
    (h : rt.has id source = true) :
    ∃ change ∈ rt.stateChanges H tags base, change.objectId = id ∧
      change.changeType = rt.typeFrom id source ∧ rt.Fits base change source := by
  have hp : 0 < ((rt.changesFrom H tags base source).map objectId).count id := by
    rw [count_changesFrom, h]
    decide
  obtain ⟨change, hm, rfl⟩ := List.mem_map.mp (List.count_pos_iff.mp hp)
  refine ⟨change, ?_, rfl, fits_of_mem_changesFrom hm⟩
  rw [stateChanges_eq_flatMap]
  exact List.mem_flatMap.mpr ⟨source, by cases source <;> simp, hm⟩

private theorem count_stateChanges :
    ((rt.stateChanges H tags base).map objectId).count id =
      (rt.has id .transfers).toNat + (rt.has id .mutated).toNat + (rt.has id .frozen).toNat +
      (rt.has id .shared).toNat + (rt.has id .deleted).toNat + rt.fieldEffects id := by
  simp only [stateChanges_eq_flatMap, List.flatMap_cons, List.flatMap_nil, List.append_nil,
    List.map_append, List.count_append, count_changesFrom]
  simp only [has, fieldEffects]
  omega

private theorem fieldEffects_pos_iff :
    0 < rt.fieldEffects id ↔ rt.has id .fieldsCreated = true ∨ rt.has id .fieldsMutated = true ∨
      rt.has id .fieldsDeleted = true := by
  unfold fieldEffects has
  cases rt.dfCreated.contains id <;> cases rt.dfMutated.contains id <;>
    cases rt.dfDeleted.contains id <;> simp

/-- Only preloaded fields have effects. -/
theorem exists_preload_of_fieldEffects {inputObjects : List InputObject}
    {dfPreload : List ResolvedDynamicField} {txHash : Bytes} {sender : Address}
    {epochTimestampMs : UInt64}
    (h : (new inputObjects dfPreload txHash sender epochTimestampMs).replay H ops = .ok rt)
    (hid : 0 < rt.fieldEffects id) : ∃ field ∈ dfPreload, field.dfObjectId = id := by
  have hw : FieldsWithin (dfPreload.map ResolvedDynamicField.dfObjectId) rt := by
    refine foldlM_ok_induction (FieldsWithin _) h
      ⟨?_, by simp [new], by simp [new], by simp [new]⟩
      fun _ _ _ _ hs hb ↦ hb.perform hs
    intro key entry he
    obtain hm | ⟨⟨⟩⟩ := HashMap.mem_or_lookup_of_insertAll he
    obtain ⟨field, hf, heq⟩ := List.mem_map.mp hm
    cases heq
    exact List.mem_map.mpr ⟨field, hf, rfl⟩
  apply List.mem_map.mp
  rcases fieldEffects_pos_iff.mp hid with hid | hid | hid
  · exact hw.created id hid
  · exact hw.mutated id hid
  · exact hw.deleted id hid

end Changes

section Main

variable {tags : TagSyntax} {base : UInt64} {created destroyed : List ObjectId}

private theorem moved_iff :
    rt.moved id = true ↔
      rt.has id .transfers = true ∨ rt.has id .shared = true ∨ rt.has id .frozen = true := by
  unfold moved has
  cases rt.transfers.contains id <;> cases rt.shared.contains id <;>
    cases rt.frozen.contains id <;> simp

/-- The objects that a record changes. -/
theorem mem_objectIds_stateChanges_iff :
    id ∈ (rt.stateChanges H tags base).map objectId ↔
      rt.moved id ∨ rt.rewritten id ∨ rt.deletedIds.contains id ∨ 0 < rt.fieldEffects id := by
  rw [← List.count_pos_iff, count_stateChanges]
  unfold has moved
  cases rt.transfers.contains id <;> cases rt.shared.contains id <;>
    cases rt.frozen.contains id <;> cases rt.rewritten id <;>
    cases rt.deletedIds.contains id <;> simp

private theorem typeFrom_eq_delete {source : Source} (h : rt.typeFrom id source = .delete) :
    source = .deleted ∨ source = .fieldsDeleted := by
  cases source with
  | deleted => exact .inl rfl
  | fieldsDeleted => exact .inr rfl
  | mutated | frozen | fieldsCreated | fieldsMutated => cases h
  | transfers | shared =>
    simp only [typeFrom] at h
    split at h <;> cases h

private theorem typeFrom_eq_create {source : Source} (h : rt.typeFrom id source = .create) :
    source = .transfers ∨ source = .shared ∨ source = .fieldsCreated := by
  cases source with
  | transfers => exact .inl rfl
  | shared => exact .inr (.inl rfl)
  | fieldsCreated => exact .inr (.inr rfl)
  | mutated | frozen | deleted | fieldsMutated | fieldsDeleted => cases h

private theorem unambiguous_of_oneFinalEffect
    (hde : ∀ id ∈ destroyed, rt.deletedIds.contains id ∨ id ∈ created)
    (h : OneFinalEffect created destroyed rt.inputObjects (rt.stateChanges H tags base)) :
    rt.Unambiguous created destroyed := by
  have hc (id : ObjectId) := List.nodup_iff_count_le_one.mp h.once id
  simp only [count_stateChanges] at hc
  have ht {id : ObjectId} {source : Source} (hh : rt.has id source = true) :
      (id ∈ destroyed → rt.typeFrom id source = .delete ∧ id ∉ created) ∧
        (id ∈ created → rt.typeFrom id source = .create) := by
    obtain ⟨change, hme, rfl, heq, -⟩ := exists_of_has H tags base hh
    rw [← heq]
    exact ⟨h.ofDestroyed change hme, fun hid ↦ (h.ofCreated change hme hid).1⟩
  refine ⟨fun id hsh ↦ ?_, fun id hid ↦ ?_, fun id hid ↦ ?_, fun id ↦ ?_⟩
  · have hs := hc id
    simp only [has, hsh, Bool.toNat_true] at hs
    cases hf : rt.frozen.contains id with
    | false => rfl
    | true =>
      simp only [hf, Bool.toNat_true] at hs
      omega
  · have hso {source : Source} (hh : rt.has id source = true) :
        source = .deleted ∨ source = .fieldsDeleted :=
      typeFrom_eq_delete ((ht hh).1 hid).1
    have hm : rt.moved id = false := by
      rw [Bool.eq_false_iff, Ne, moved_iff]
      rintro (hh | hh | hh) <;> simpa using hso hh
    refine ⟨hm, ?_⟩
    rw [Bool.eq_false_iff]
    intro hr
    have hh : rt.has id .mutated = true := by simp [has, hr, hm]
    simpa using hso hh
  · have hso {source : Source} (hh : rt.has id source = true) :
        source = .transfers ∨ source = .shared ∨ source = .fieldsCreated :=
      typeFrom_eq_create ((ht hh).2 hid)
    refine ⟨?_, fun hr ↦ ?_, ?_, fun hm ↦ ?_⟩
    · rw [Bool.eq_false_iff]
      intro hf
      have hh : rt.has id .frozen = true := hf
      simpa using hso hh
    · cases hm : rt.moved id with
      | true => rfl
      | false =>
        have hh : rt.has id .mutated = true := by simp [has, hr, hm]
        simpa using hso hh
    · rw [Bool.eq_false_iff]
      intro hd
      have hh : rt.has id .deleted = true := hd
      simpa using hso hh
    · -- a transfer, share or freeze of the object carries its old state
      have ho {source : Source} (hh : rt.has id source = true)
          (hfi : ∀ change, rt.Fits base change source → rt.Continues base change) :
          rt.inputObjects.lookup id = none := by
        obtain ⟨change, hme, rfl, -, hch⟩ := exists_of_has H tags base hh
        have hn := (h.ofCreated change hme hid).2
        rw [(hfi change hch).1, oldEnvelope, Option.map_eq_none_iff] at hn
        exact hn
      rcases moved_iff.mp hm with hh | hh | hh <;>
        exact ho hh fun change hch ↦ hch
  · have hs := hc id
    refine ⟨by omega, fun hp ↦ ?_⟩
    have hm : rt.moved id = false := by
      rw [Bool.eq_false_iff, Ne, moved_iff]
      rintro (hh | hh | hh) <;>
      · rw [hh, Bool.toNat_true] at hs
        omega
    have hd : rt.deletedIds.contains id = false := by
      rw [Bool.eq_false_iff]
      intro hd
      simp only [has, hd, Bool.toNat_true] at hs
      omega
    refine ⟨hm, ?_, hd, fun hid ↦ ?_, fun hid ↦ ?_⟩
    · rw [Bool.eq_false_iff]
      intro hr
      simp only [has, hr, hm, Bool.not_false, Bool.and_self, Bool.toNat_true] at hs
      omega
    · rcases hde id hid with hid' | hid'
      · rw [hd] at hid'
        cases hid'
      · rcases fieldEffects_pos_iff.mp hp with hh | hh | hh <;>
          exact ((ht hh).1 hid).2 hid'
    · rcases fieldEffects_pos_iff.mp hp with hh | hh | hh
      · exact hh
      · simpa using typeFrom_eq_create ((ht hh).2 hid)
      · simpa using typeFrom_eq_create ((ht hh).2 hid)

private theorem oneFinalEffect_of_unambiguous
    (hd : ∀ id, rt.deletedIds.contains id → id ∈ destroyed)
    (hc : ∀ id ∈ created, id ∉ destroyed → rt.createdIds.contains id)
    (hfi : ∀ id, 0 < rt.fieldEffects id → rt.inputObjects.lookup id = none)
    (h : rt.Unambiguous created destroyed) :
    OneFinalEffect created destroyed rt.inputObjects (rt.stateChanges H tags base) := by
  refine ⟨List.nodup_iff_count_le_one.mpr fun id ↦ ?_, fun change hme hid ↦ ?_,
    fun change hme hid ↦ ?_, fun change hme input hi ↦ ?_⟩
  · rw [count_stateChanges]
    obtain ⟨ho, ha⟩ := h.fields id
    rcases Nat.eq_zero_or_pos (rt.fieldEffects id) with hz | hp
    · have hte := h.terminal id
      have hg : rt.deletedIds.contains id → rt.moved id = false ∧ rt.rewritten id = false :=
        fun hid ↦ h.ofDestroyed id (hd id hid)
      simp only [hz, has, moved] at hg ⊢
      cases hT : rt.transfers.contains id <;> cases hS : rt.shared.contains id <;>
        cases hF : rt.frozen.contains id <;> cases hD : rt.deletedIds.contains id <;>
        cases hR : rt.rewritten id <;> simp_all
    · obtain ⟨hm, hr, hid, -⟩ := ha hp
      simp only [moved, Bool.or_eq_false_iff] at hm
      simp [has, hm, hr, hid, ho]
  · obtain ⟨source, hh, ht, -⟩ := source_of_mem hme
    obtain ⟨hm, hr⟩ := h.ofDestroyed _ hid
    have hfl : rt.fieldEffects change.objectId = 0 := by
      by_contra hne
      exact ((h.fields _).2 (Nat.pos_of_ne_zero hne)).2.2.2.1 hid
    cases source with
    | deleted =>
      refine ⟨ht, fun hid' ↦ ?_⟩
      rw [has, (h.ofCreated _ hid').2.2.1] at hh
      cases hh
    | transfers | shared | frozen =>
      have hm' : rt.moved change.objectId = true := moved_iff.mpr (by simp [hh])
      rw [hm] at hm'
      cases hm'
    | mutated => simp [has, hr] at hh
    | fieldsCreated | fieldsMutated | fieldsDeleted =>
      have hp : 0 < rt.fieldEffects change.objectId := fieldEffects_pos_iff.mpr (by simp [hh])
      omega
  · obtain ⟨source, hh, ht, hf⟩ := source_of_mem hme
    obtain ⟨hfr, hr, hd', hl⟩ := h.ofCreated _ hid
    have hb (hm : rt.moved change.objectId = true) :
        rt.createdIds.contains change.objectId = true := by
      refine hc _ hid fun hde ↦ ?_
      rw [(h.ofDestroyed _ hde).1] at hm
      cases hm
    cases source with
    | transfers | shared =>
      have hm : rt.moved change.objectId = true := moved_iff.mpr (by simp [hh])
      refine ⟨?_, ?_⟩
      · rw [ht, typeFrom, hb hm]
        rfl
      · rw [hf.1, oldEnvelope, hl hm]
        rfl
    | mutated =>
      simp only [has, Bool.and_eq_true, Bool.not_eq_true'] at hh
      rw [hr hh.1] at hh
      cases hh.2
    | frozen =>
      rw [has, hfr] at hh
      cases hh
    | deleted =>
      rw [has, hd'] at hh
      cases hh
    | fieldsCreated => exact ⟨ht, hf⟩
    | fieldsMutated | fieldsDeleted =>
      have hp : 0 < rt.fieldEffects change.objectId := fieldEffects_pos_iff.mpr (by simp [hh])
      have hcr := ((h.fields _).2 hp).2.2.2.2 hid
      have ho := (h.fields change.objectId).1
      simp only [has] at hh
      simp only [fieldEffects, hcr, hh, Bool.toNat_true] at ho
      omega
  · obtain ⟨source, hh, -, hf⟩ := source_of_mem hme
    have hco (hf : rt.Continues base change) : change.oldState = some input.envelopeBytes ∧
          ∀ env, change.newState.bind ObjectEnvelope.fromBytes = some env →
            env.version = input.version + 1 := by
      obtain ⟨hol, hv⟩ := hf
      simp only [oldEnvelope, nextVersionFor, hi] at hol hv
      exact ⟨hol, hv⟩
    cases source with
    | transfers | mutated | frozen | shared | deleted => exact hco hf
    | fieldsCreated | fieldsMutated | fieldsDeleted =>
      have hp : 0 < rt.fieldEffects change.objectId := fieldEffects_pos_iff.mpr (by simp [hh])
      have hn := hfi _ hp
      rw [hi] at hn
      cases hn

/-- A record with a history from loaded objects and fields has one fitting change for each object
exactly if it is unambiguous. -/
theorem oneFinalEffect_iff_unambiguous {inputObjects : List InputObject}
    {dfPreload : List ResolvedDynamicField} {txHash : Bytes} {sender : Address}
    {epochTimestampMs : UInt64}
    (h : (new inputObjects dfPreload txHash sender epochTimestampMs).replay H ops = .ok rt)
    (hf : ∀ id, 0 < rt.fieldEffects id → rt.inputObjects.lookup id = none) :
    OneFinalEffect (createdIn H txHash 0 ops) (destroyedIn ops) rt.inputObjects
        (rt.stateChanges H tags base) ↔
      rt.Unambiguous (createdIn H txHash 0 ops) (destroyedIn ops) := by
  have hi (id : ObjectId) := ids_replay id h
  refine ⟨unambiguous_of_oneFinalEffect ?_, oneFinalEffect_of_unambiguous ?_ ?_ hf⟩
  · intro id hid
    simpa [new] using (hi id).2.2 (.inr hid)
  · intro id hid
    simpa [new] using (hi id).1 hid
  · exact fun id hid hn ↦ (hi id).2.1 (.inr hid) hn

end Main

end SetuObjectRuntime

end Setu.Move
