import Setu.Move.FinalEffects

/-!
# What becomes of an object

Library `Move`. The changes of a session are applied one after the other, so that the last change
of an object decides. For an object that is no dynamic field, the maps of the record decide in a
fixed order: a deletion, then sharing, freezing, a transfer and last a mutation.
-/

namespace Setu.Move

open Setu.Base Setu.Types Setu.Runtime

variable (view : ObjectId → Option Bytes)

/-- The entries after changes, in their order. -/
def applyChanges (changes : List MoveStateChange) : ObjectId → Option Bytes :=
  changes.foldl (fun view change ↦ Function.update view change.objectId change.newState) view

theorem applyChanges_cons (change : MoveStateChange) (changes : List MoveStateChange) :
    applyChanges view (change :: changes) =
      applyChanges (Function.update view change.objectId change.newState) changes := rfl

theorem applyChanges_append (changes changes' : List MoveStateChange) :
    applyChanges view (changes ++ changes') = applyChanges (applyChanges view changes) changes' :=
  List.foldl_append

/-- An object without a change keeps its entry. -/
theorem applyChanges_of_not_mem {view : ObjectId → Option Bytes} {changes : List MoveStateChange}
    {id : ObjectId} (h : id ∉ changes.map MoveStateChange.objectId) :
    applyChanges view changes id = view id := by
  induction changes generalizing view with
  | nil => rfl
  | cons change changes ih =>
    rw [List.map_cons, List.mem_cons, not_or] at h
    rw [applyChanges_cons, ih h.2, Function.update_of_ne h.1]

section Entries

variable {V : Type} {change : ObjectId × V → Option MoveStateChange}

private theorem applyChanges_entries
    (hch : ∀ id value c, change (id, value) = some c → c.objectId = id)
    {l : List (ObjectId × V)} (hl : (l.map Prod.fst).Nodup) (view : ObjectId → Option Bytes)
    (id : ObjectId) :
    applyChanges view (l.filterMap change) id =
      ((l.lookup id).bind fun value ↦ change (id, value)).elim (view id)
        MoveStateChange.newState := by
  induction l generalizing view with
  | nil => rfl
  | cons entry l ih =>
    obtain ⟨key, value⟩ := entry
    rw [List.map_cons, List.nodup_cons] at hl
    have hlo : l.lookup key = none := by
      rw [List.lookup_eq_none_iff]
      intro entry he
      have hne : key ≠ entry.1 := by
        rintro rfl
        exact hl.1 (List.mem_map.mpr ⟨entry, he, rfl⟩)
      simpa using hne
    rw [List.filterMap_cons]
    by_cases hid : id = key
    · subst hid
      cases hc : change (id, value) with
      | none => simp [ih hl.2, hlo, hc]
      | some c =>
        have hci := hch _ _ _ hc
        simp [applyChanges_cons, ih hl.2, hlo, hc, hci]
    · have hb : (id == key) = false := by simpa using hid
      cases hc : change (key, value) with
      | none => simp [ih hl.2, List.lookup_cons, hb]
      | some c =>
        have hci := hch _ _ _ hc
        simp [applyChanges_cons, ih hl.2, List.lookup_cons, hb, hci, Function.update_of_ne hid]

/-- The changes of the entries of a map: the entry of the object decides. -/
theorem applyChanges_filterMap
    (hc : ∀ id value c, change (id, value) = some c → c.objectId = id)
    (m : IndexMap ObjectId V) (view : ObjectId → Option Bytes) (id : ObjectId) :
    applyChanges view (m.entries.filterMap change) id =
      ((m.get? id).bind fun value ↦ change (id, value)).elim (view id)
        MoveStateChange.newState :=
  applyChanges_entries hc m.nodup_keys view id

/-- The same if each entry has a change. -/
theorem applyChanges_map {change : ObjectId × V → MoveStateChange}
    (hch : ∀ id value, (change (id, value)).objectId = id) (m : IndexMap ObjectId V)
    (view : ObjectId → Option Bytes) (id : ObjectId) :
    applyChanges view (m.entries.map change) id =
      (m.get? id).elim (view id) fun value ↦ (change (id, value)).newState := by
  rw [← List.filterMap_eq_map, applyChanges_filterMap]
  · cases m.get? id <;> rfl
  · intro id value c hc
    cases hc
    exact hch id value

end Entries

/-- What a session makes of an object. -/
inductive Outcome where
  | kept
  | deleted
  | stored (env : ObjectEnvelope)

/-- The entry of the object after the session. -/
def Outcome.entry (found : Option Bytes) : Outcome → Option Bytes
  | kept => found
  | deleted => none
  | stored env => some env.toBytes

namespace SetuObjectRuntime

variable {D : Type} (H : Blake3 D) (tags : TagSyntax) (base : UInt64) (rt : SetuObjectRuntime)
  (id : ObjectId)

/-- What the record says of an object, first to last. -/
def outcome : Outcome :=
  if rt.deletedIds.contains id then .deleted
  else
    match rt.shared.get? id, rt.frozen.get? id, rt.transfers.get? id, rt.mutated.get? id with
    | some effect, _, _, _ => .stored (rt.newEnvelope H tags base id (rt.keptOwner id)
        (.shared effect.initialSharedVersion) effect.typeTag effect.bcsBytes)
    | none, some effect, _, _ => .stored (rt.newEnvelope H tags base id (rt.keptOwner id)
        .immutable effect.typeTag effect.bcsBytes)
    | none, none, some effect, _ => .stored (rt.newEnvelope H tags base id effect.newOwner
        (.addressOwner effect.newOwner) effect.typeTag effect.bcsBytes)
    | none, none, none, some effect =>
      if rt.loadedWith id effect.bcsBytes then .kept
      else .stored (rt.newEnvelope H tags base id (rt.keptOwner id) (rt.keptOwnership id)
        effect.typeTag effect.bcsBytes)
    | none, none, none, none => .kept

variable {H tags base rt id}

private theorem get?_of_contains_eq_false {V : Type} {m : IndexMap ObjectId V}
    (h : m.contains id = false) : m.get? id = none := by
  simpa [IndexMap.contains] using h

variable (view : ObjectId → Option Bytes)

private theorem applyChanges_deleteChanges :
    applyChanges view rt.deleteChanges id =
      if rt.deletedIds.contains id then none else view id := by
  rw [deleteChanges, IndexMap.keys, List.map_map, applyChanges_map fun _ _ ↦ rfl, IndexMap.contains]
  cases rt.deletedIds.get? id <;> rfl

private theorem applyChanges_transferChanges :
    applyChanges view (rt.transferChanges H tags base) id =
      ((rt.transfers.get? id).bind fun effect ↦
        if rt.shared.contains id || rt.frozen.contains id then none
        else some (rt.transferChange H tags base id effect)).elim (view id)
          MoveStateChange.newState := by
  rw [transferChanges, applyChanges_filterMap]
  intro id effect change hc
  dsimp only at hc
  split at hc
  · cases hc
  · cases hc
    rfl

private theorem applyChanges_mutationChanges :
    applyChanges view (rt.mutationChanges H tags base) id =
      ((rt.mutated.get? id).bind fun effect ↦
        if rt.moved id || rt.loadedWith id effect.bcsBytes then none
        else some (rt.mutationChange H tags base id effect)).elim (view id)
          MoveStateChange.newState := by
  rw [mutationChanges, applyChanges_filterMap]
  intro id effect change hc
  dsimp only at hc
  split at hc
  · cases hc
  · cases hc
    rfl

/-- The entry of an object that is no dynamic field after the changes of a record. -/
theorem applyChanges_stateChanges (hf : rt.fieldEffects id = 0)
    (view : ObjectId → Option Bytes) :
    applyChanges view (rt.stateChanges H tags base) id =
      (rt.outcome H tags base id).entry (view id) := by
  have hdf : rt.dfCreated.get? id = none ∧ rt.dfMutated.get? id = none ∧
      rt.dfDeleted.get? id = none := by
    simp only [fieldEffects, Nat.add_eq_zero_iff, Bool.toNat_eq_zero] at hf
    exact ⟨get?_of_contains_eq_false hf.1.1, get?_of_contains_eq_false hf.1.2,
      get?_of_contains_eq_false hf.2⟩
  obtain ⟨hc, hm, hd⟩ := hdf
  simp only [stateChanges, otherChanges, applyChanges_append]
  rw [dfDeleteChanges, applyChanges_map fun _ _ ↦ rfl, hd, Option.elim_none,
    dfMutateChanges, applyChanges_map fun _ _ ↦ rfl, hm, Option.elim_none,
    dfCreateChanges, applyChanges_map fun _ _ ↦ rfl, hc, Option.elim_none,
    applyChanges_deleteChanges, shareChanges, applyChanges_map fun _ _ ↦ rfl,
    freezeChanges, applyChanges_map fun _ _ ↦ rfl, applyChanges_mutationChanges,
    applyChanges_transferChanges, outcome]
  split
  · rfl
  · cases hs : rt.shared.get? id with
    | some effect => rfl
    | none =>
      cases hfr : rt.frozen.get? id with
      | some effect => rfl
      | none =>
        cases ht : rt.transfers.get? id with
        | some effect =>
          simp [moved, IndexMap.contains, hs, hfr, ht, Outcome.entry, transferChange]
        | none =>
          cases hm : rt.mutated.get? id with
          | none => rfl
          | some effect =>
            simp only [moved, IndexMap.contains, hs, hfr, ht, Option.isSome_none,
              Bool.or_false, Bool.false_or, Option.elim_none, Option.bind_some, Option.bind_none]
            split <;> rfl

theorem outcome_eq_deleted_iff :
    rt.outcome H tags base id = .deleted ↔ rt.deletedIds.contains id := by
  unfold outcome
  split
  · next hid => simp [hid]
  · next hid =>
    simp only [hid, Bool.false_eq_true, iff_false]
    split
    · simp
    · simp
    · simp
    · split <;> simp
    · simp

end SetuObjectRuntime

namespace RecordOp

/-- The object to which an operation gives an owner. -/
def moves : RecordOp → Option ObjectId
  | native (.transfer _ _ bcsBytes) | native (.share _ bcsBytes) | native (.freeze _ bcsBytes) =>
    extractUidFromBcs bcsBytes
  | _ => none

/-- The operation gives the object the owner that the envelope has, with the bytes that the
envelope has. -/
def Emits (id : ObjectId) (env : ObjectEnvelope) : RecordOp → Prop
  | native (.transfer recipient _ bcsBytes) => extractUidFromBcs bcsBytes = some id ∧
      env.ownership = .addressOwner recipient ∧ env.data = bcsBytes
  | native (.share _ bcsBytes) => extractUidFromBcs bcsBytes = some id ∧
      (∃ version, env.ownership = .shared version) ∧ env.data = bcsBytes
  | native (.freeze _ bcsBytes) => extractUidFromBcs bcsBytes = some id ∧
      env.ownership = .immutable ∧ env.data = bcsBytes
  | _ => False

theorem Emits.moves {id : ObjectId} {env : ObjectEnvelope} {op : RecordOp} (h : op.Emits id env) :
    op.moves = some id := by
  cases op with
  | mutate => cases h
  | native call =>
    cases call with
    | transfer | share | freeze => exact h.1
    | newUid | deleteUid | emit | dfAdd | dfRemove | dfBorrow | dfBorrowMut => cases h

end RecordOp

namespace SetuObjectRuntime

/-- The effects recorded for an object come from operations of the history, and none that gave it
an owner is lost. -/
structure Recorded (id : ObjectId) (ops : List RecordOp) (rt : SetuObjectRuntime) : Prop where
  transfers : ∀ effect, rt.transfers.get? id = some effect →
    .native (.transfer effect.newOwner effect.typeTag effect.bcsBytes) ∈ ops ∧
      extractUidFromBcs effect.bcsBytes = some id
  shared : ∀ effect, rt.shared.get? id = some effect →
    .native (.share effect.typeTag effect.bcsBytes) ∈ ops ∧
      extractUidFromBcs effect.bcsBytes = some id
  frozen : ∀ effect, rt.frozen.get? id = some effect →
    .native (.freeze effect.typeTag effect.bcsBytes) ∈ ops ∧
      extractUidFromBcs effect.bcsBytes = some id
  mutated : ∀ effect, rt.mutated.get? id = some effect →
    .mutate id effect.typeTag effect.bcsBytes ∈ ops
  moved : ∀ op ∈ ops, op.moves = some id → rt.moved id

variable {D : Type} {H : Blake3 D} {id : ObjectId} {ops ops' : List RecordOp} {op : RecordOp}
  {rt rt' : SetuObjectRuntime}

private theorem Recorded.of_step (h : rt.Recorded id ops)
    (ht : ∀ effect, rt'.transfers.get? id = some effect →
      rt.transfers.get? id = some effect ∨
        op = .native (.transfer effect.newOwner effect.typeTag effect.bcsBytes) ∧
          extractUidFromBcs effect.bcsBytes = some id)
    (hs : ∀ effect, rt'.shared.get? id = some effect → rt.shared.get? id = some effect ∨
      op = .native (.share effect.typeTag effect.bcsBytes) ∧
        extractUidFromBcs effect.bcsBytes = some id)
    (hf : ∀ effect, rt'.frozen.get? id = some effect → rt.frozen.get? id = some effect ∨
      op = .native (.freeze effect.typeTag effect.bcsBytes) ∧
        extractUidFromBcs effect.bcsBytes = some id)
    (hmu : ∀ effect, rt'.mutated.get? id = some effect → rt.mutated.get? id = some effect ∨
      op = .mutate id effect.typeTag effect.bcsBytes)
    (hm : rt.moved id ∨ op.moves = some id → rt'.moved id) :
    rt'.Recorded id (ops ++ [op]) := by
  have hea {op' : RecordOp} (hop' : op' ∈ ops) : op' ∈ ops ++ [op] := List.mem_append_left _ hop'
  have hl : op ∈ ops ++ [op] := List.mem_append_right _ (List.mem_singleton.mpr rfl)
  refine ⟨fun effect he ↦ ?_, fun effect he ↦ ?_, fun effect he ↦ ?_,
    fun effect he ↦ ?_, fun op' hop' hid ↦ ?_⟩
  · rcases ht effect he with he | ⟨rfl, hid⟩
    · exact (h.transfers effect he).imp_left hea
    · exact ⟨hl, hid⟩
  · rcases hs effect he with he | ⟨rfl, hid⟩
    · exact (h.shared effect he).imp_left hea
    · exact ⟨hl, hid⟩
  · rcases hf effect he with he | ⟨rfl, hid⟩
    · exact (h.frozen effect he).imp_left hea
    · exact ⟨hl, hid⟩
  · rcases hmu effect he with he | rfl
    · exact hea (h.mutated effect he)
    · exact hl
  · rcases List.mem_append.mp hop' with hop' | hop'
    · exact hm (.inl (h.moved op' hop' hid))
    · rw [List.mem_singleton.mp hop'] at hid
      exact hm (.inr hid)

private theorem Recorded.of_same (h : rt.Recorded id ops) (hmo : op.moves = none)
    (ht : rt'.transfers = rt.transfers) (hs : rt'.shared = rt.shared)
    (hf : rt'.frozen = rt.frozen) (hm : rt'.mutated = rt.mutated) :
    rt'.Recorded id (ops ++ [op]) := by
  refine h.of_step ?_ ?_ ?_ ?_ ?_
  · exact fun effect he ↦ .inl (ht ▸ he)
  · exact fun effect he ↦ .inl (hs ▸ he)
  · exact fun effect he ↦ .inl (hf ▸ he)
  · exact fun effect he ↦ .inl (hm ▸ he)
  · simp [SetuObjectRuntime.moved, *]

private theorem get?_of_insert {V : Type} {m : IndexMap ObjectId V} {key : ObjectId}
    {value effect : V} (h : (m.insert key value).get? id = some effect) :
    m.get? id = some effect ∨ (id = key ∧ effect = value) := by
  rw [IndexMap.get?_insert] at h
  split at h
  · next hid => exact .inr ⟨hid, (Option.some.inj h).symm⟩
  · exact .inl h

/-- One more operation. -/
theorem Recorded.perform (h : rt.Recorded id ops) (hop : rt.perform H op = .ok rt') :
    rt'.Recorded id (ops ++ [op]) := by
  cases op with
  | mutate id' typeTag bcsBytes =>
    cases hop
    refine h.of_step (fun _ ↦ .inl) (fun _ ↦ .inl) (fun _ ↦ .inl) ?_ ?_
    · intro effect he
      obtain he | ⟨rfl, rfl⟩ := get?_of_insert he
      · exact .inl he
      · exact .inr rfl
    · rintro (hmo | hm)
      · exact hmo
      · cases hm
  | native call =>
    cases hf : call.isField with
    | true =>
      have hfr := fieldsOnly_native hop hf
      have hm : (RecordOp.native call).moves = none := by
        cases call <;> first | rfl | cases hf
      refine h.of_same hm ?_ ?_ ?_ ?_ <;> rw [hfr]
    | false =>
      cases call with
      | dfAdd | dfRemove | dfBorrow | dfBorrowMut => cases hf
      | newUid | emit =>
        cases hop
        exact h.of_same rfl rfl rfl rfl rfl
      | deleteUid id' =>
        cases hop
        unfold deleteUid
        split <;> exact h.of_same rfl rfl rfl rfl rfl
      | transfer recipient typeTag bcsBytes =>
        simp only [SetuObjectRuntime.perform, native, bind_eq_ok, pure_eq_ok,
          okOr_eq_ok] at hop
        obtain ⟨id', hid', rfl⟩ := hop
        refine h.of_step ?_ (fun _ ↦ .inl) (fun _ ↦ .inl) (fun _ ↦ .inl) ?_
        · intro effect he
          obtain he | ⟨rfl, rfl⟩ := get?_of_insert he
          · exact .inl he
          · exact .inr ⟨rfl, hid'⟩
        · rintro (hmo | hm)
          · simp only [SetuObjectRuntime.moved, IndexMap.contains_insert, Bool.or_eq_true] at hmo ⊢
            tauto
          · obtain rfl : id' = id := Option.some.inj (hid'.symm.trans hm)
            simp [SetuObjectRuntime.moved]
      | share typeTag bcsBytes =>
        simp only [SetuObjectRuntime.perform, native, bind_eq_ok, pure_eq_ok,
          okOr_eq_ok] at hop
        obtain ⟨id', hid', rfl⟩ := hop
        refine h.of_step ?_ ?_ (fun _ ↦ .inl) (fun _ ↦ .inl) ?_
        · intro effect he
          simp only [shareObject, IndexMap.get?_shiftRemove] at he
          split at he
          · cases he
          · exact .inl he
        · intro effect he
          obtain he | ⟨rfl, rfl⟩ := get?_of_insert he
          · exact .inl he
          · exact .inr ⟨rfl, hid'⟩
        · rintro (hmo | hm)
          · simp only [SetuObjectRuntime.moved, Bool.or_eq_true] at hmo ⊢
            by_cases hs : id = id'
            · simp [shareObject, hs]
            · simpa [shareObject, hs] using hmo
          · obtain rfl : id' = id := Option.some.inj (hid'.symm.trans hm)
            simp [SetuObjectRuntime.moved, shareObject]
      | freeze typeTag bcsBytes =>
        simp only [SetuObjectRuntime.perform, native, bind_eq_ok, pure_eq_ok,
          okOr_eq_ok] at hop
        obtain ⟨id', hid', rfl⟩ := hop
        refine h.of_step (fun _ ↦ .inl) (fun _ ↦ .inl) ?_ (fun _ ↦ .inl) ?_
        · intro effect he
          obtain he | ⟨rfl, rfl⟩ := get?_of_insert he
          · exact .inl he
          · exact .inr ⟨rfl, hid'⟩
        · rintro (hmo | hm)
          · simp only [SetuObjectRuntime.moved, IndexMap.contains_insert, Bool.or_eq_true] at hmo ⊢
            tauto
          · obtain rfl : id' = id := Option.some.inj (hid'.symm.trans hm)
            simp [SetuObjectRuntime.moved]

/-- A history recorded from its beginning. -/
theorem Recorded.replay (h : rt.Recorded id ops) (hr : rt.replay H ops' = .ok rt') :
    rt'.Recorded id (ops ++ ops') := by
  induction ops' generalizing rt ops with
  | nil =>
    cases hr
    rwa [List.append_nil]
  | cons op ops' ih =>
    obtain ⟨next, hop, hre⟩ := replay_cons_eq_ok.mp hr
    simpa using ih (h.perform hop) hre

variable {dfPreload : List ResolvedDynamicField} {inputObjects : List InputObject}

theorem recorded_replay {txHash : Bytes} {sender : Address} {epochTimestampMs : UInt64}
    (h : (new inputObjects dfPreload txHash sender epochTimestampMs).replay H ops = .ok rt) :
    rt.Recorded id ops := by
  have hn : (new inputObjects dfPreload txHash sender epochTimestampMs).Recorded id [] := by
    refine ⟨?_, ?_, ?_, ?_, ?_⟩
    all_goals simp [new]
  exact hn.replay h

variable {tags : TagSyntax} {base : UInt64}

/-- An object that was given an owner and not deleted is stored as an operation says. -/
theorem Recorded.exists_emits (h : rt.Recorded id ops) (hmo : rt.moved id)
    (hd : rt.deletedIds.contains id = false) :
    ∃ env, rt.outcome H tags base id = .stored env ∧ ∃ op ∈ ops, op.Emits id env := by
  simp only [outcome, hd, Bool.false_eq_true, if_false]
  cases hs : rt.shared.get? id with
  | some effect =>
    obtain ⟨hm, hid⟩ := h.shared effect hs
    exact ⟨_, rfl, _, hm, hid, ⟨_, rfl⟩, rfl⟩
  | none =>
    cases hf : rt.frozen.get? id with
    | some effect =>
      obtain ⟨hm, hid⟩ := h.frozen effect hf
      exact ⟨_, rfl, _, hm, hid, rfl, rfl⟩
    | none =>
      cases ht : rt.transfers.get? id with
      | some effect =>
        obtain ⟨hm, hid⟩ := h.transfers effect ht
        exact ⟨_, rfl, _, hm, hid, rfl, rfl⟩
      | none =>
        simp [SetuObjectRuntime.moved, IndexMap.contains, hs, hf, ht] at hmo

/-- An object in the state that is no dynamic field and not created in the session: after the
changes it is gone or stored as an operation gave it away, exactly if an operation deleted it or
gave it away. -/
theorem gone_or_emitted_iff {txHash : Bytes} {sender : Address} {epochTimestampMs : UInt64}
    (h : (new inputObjects dfPreload txHash sender epochTimestampMs).replay H ops = .ok rt)
    (hf : rt.fieldEffects id = 0) (hc : id ∉ createdIn H txHash 0 ops)
    {view : ObjectId → Option Bytes} (hv : (view id).isSome) :
    (applyChanges view (rt.stateChanges H tags base) id = none ∨
        ∃ env, applyChanges view (rt.stateChanges H tags base) id = some env.toBytes ∧
          ∃ op ∈ ops, op.Emits id env) ↔
      id ∈ destroyedIn ops ∨ ∃ op ∈ ops, op.moves = some id := by
  have hr : rt.Recorded id ops := recorded_replay h
  obtain ⟨hd, -, hde⟩ := ids_replay id h
  rw [applyChanges_stateChanges hf]
  constructor
  · rintro (hn | ⟨env, -, op, hop, he⟩)
    · have hid : rt.deletedIds.contains id := outcome_eq_deleted_iff.mp <| by
        cases ho : rt.outcome H tags base id with
        | deleted => rfl
        | kept =>
          rw [ho, Outcome.entry] at hn
          simp [hn] at hv
        | stored env =>
          rw [ho] at hn
          cases hn
      refine .inl ((hd hid).resolve_left ?_)
      simp [new]
    · exact .inr ⟨op, hop, he.moves⟩
  · intro hid
    by_cases hg : rt.deletedIds.contains id
    · refine .inl ?_
      rw [outcome, if_pos hg, Outcome.entry]
    · rw [Bool.not_eq_true] at hg
      have hm : rt.moved id := by
        rcases hid with hid | ⟨op, hop, hid⟩
        · simp [hg, hc, hid, new] at hde
        · exact hr.moved op hop hid
      obtain ⟨env, ho, hop⟩ := hr.exists_emits (H := H) hm hg
      exact .inr ⟨env, by rw [ho, Outcome.entry], hop⟩

end SetuObjectRuntime

end Setu.Move
