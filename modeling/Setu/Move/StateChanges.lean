import Setu.Move.ObjectRuntime

/-!
# From the object runtime to state changes

Library `Move`. At the end of a session every recorded effect becomes a state change with the
new envelope of the object. Source `crates/setu-move-vm/src/engine.rs:473-780`.
-/

namespace Setu.Move

open Setu.Base Setu.Types Setu.Runtime

/-- `engine.rs:121-127`. -/
inductive MoveStateChangeType where
  | create | update | delete | freeze | share
  deriving DecidableEq

/-- `engine.rs:113-118`. -/
structure MoveStateChange where
  objectId : ObjectId
  changeType : MoveStateChangeType
  oldState : Option Bytes
  newState : Option Bytes
  deriving DecidableEq

/-- The bytes of the Move value that a change stores. -/
def MoveStateChange.data (change : MoveStateChange) : Option Bytes :=
  (change.newState.bind ObjectEnvelope.fromBytes).map ObjectEnvelope.data

/-- One of the changes stores these bytes for the object. -/
def Stores (changes : List MoveStateChange) (id : ObjectId) (bytes : Bytes) : Prop :=
  ∃ change ∈ changes, change.objectId = id ∧ change.data = some bytes

instance (changes : List MoveStateChange) (id : ObjectId) (bytes : Bytes) :
    Decidable (Stores changes id bytes) :=
  inferInstanceAs (Decidable (∃ change ∈ changes, _))

theorem stores_append {changes changes' : List MoveStateChange} {id : ObjectId} {bytes : Bytes} :
    Stores (changes ++ changes') id bytes ↔
      Stores changes id bytes ∨ Stores changes' id bytes := by
  simp only [Stores, List.mem_append, or_and_right, exists_or]

namespace SetuObjectRuntime

variable {D : Type} (H : Blake3 D) (tags : TagSyntax) (rt : SetuObjectRuntime)
  (baseVersion : UInt64)

variable (id : ObjectId)

/-- `engine.rs:483-489`. -/
def nextVersionFor : UInt64 :=
  match rt.inputObjects.lookup id with
  | some input => input.version + 1
  | none => baseVersion + 1

/-- The stored form of the object before the session. -/
def oldEnvelope : Option Bytes :=
  (rt.inputObjects.lookup id).map InputObject.envelopeBytes

/-- The owner that a change other than a transfer keeps; `Address::ZERO` if the object was not
loaded. -/
def keptOwner : Address :=
  ((rt.inputObjects.lookup id).map InputObject.owner).getD .zero

/-- The new envelope of an object with the next version. -/
def newEnvelope (owner : Address) (ownership : Ownership) (typeTag : StructTag) (bcsBytes : Bytes)
    : ObjectEnvelope :=
  .fromMoveResult H id owner (rt.nextVersionFor baseVersion id) ownership
    (tags.text (.struct typeTag)) bcsBytes

/-- The change of a transferred object, `engine.rs:497-525`. -/
def transferChange (effect : ObjectTransferEffect) : MoveStateChange where
  objectId := id
  changeType := if rt.createdIds.contains id then .create else .update
  oldState := rt.oldEnvelope id
  newState := some (rt.newEnvelope H tags baseVersion id effect.newOwner
    (.addressOwner effect.newOwner) effect.typeTag effect.bcsBytes).toBytes

/-- The changes of transferred objects, `engine.rs:491-526`: sharing and freezing are
terminal. -/
def transferChanges : List MoveStateChange :=
  rt.transfers.entries.filterMap fun (id, effect) ↦
    if rt.shared.contains id || rt.frozen.contains id then none
    else some (rt.transferChange H tags baseVersion id effect)

/-- The ownership that a mutation keeps, `engine.rs:553-555`. -/
def keptOwnership : Ownership :=
  ((rt.inputObjects.lookup id).map InputObject.ownership).getD (.addressOwner .zero)

/-- The change of a mutated object, `engine.rs:546-574`. -/
def mutationChange (effect : ObjectMutationEffect) : MoveStateChange where
  objectId := id
  changeType := .update
  oldState := rt.oldEnvelope id
  newState := some (rt.newEnvelope H tags baseVersion id (rt.keptOwner id)
    (rt.keptOwnership id) effect.typeTag effect.bcsBytes).toBytes

@[simp]
theorem data_mutationChange (effect : ObjectMutationEffect) :
    (rt.mutationChange H tags baseVersion id effect).data = some effect.bcsBytes := by
  simp [MoveStateChange.data, mutationChange, ObjectEnvelope.fromBytes_toBytes, newEnvelope,
    ObjectEnvelope.fromMoveResult]

/-- A transfer, share or freeze of the object takes precedence over its mutation,
`engine.rs:530-535`. -/
def moved : Bool :=
  rt.transfers.contains id || rt.shared.contains id || rt.frozen.contains id

/-- The object was loaded with these bytes, `engine.rs:543-547`. -/
def loadedWith (bcsBytes : Bytes) : Bool :=
  match rt.inputObjects.lookup id with
  | some input => bcsBytes == input.moveData
  | none => false

/-- The changes of mutated objects, `engine.rs:528-575`: bytes as they were loaded make no
change. -/
def mutationChanges : List MoveStateChange :=
  rt.mutated.entries.filterMap fun (id, effect) ↦
    if rt.moved id || rt.loadedWith id effect.bcsBytes then none
    else some (rt.mutationChange H tags baseVersion id effect)

/-- The changes of frozen objects, `engine.rs:577-599`. -/
def freezeChanges : List MoveStateChange :=
  rt.frozen.entries.map fun (id, effect) ↦
    { objectId := id
      changeType := .freeze
      oldState := rt.oldEnvelope id
      newState := some (rt.newEnvelope H tags baseVersion id (rt.keptOwner id) .immutable
        effect.typeTag effect.bcsBytes).toBytes }

/-- The changes of shared objects, `engine.rs:601-637`. -/
def shareChanges : List MoveStateChange :=
  rt.shared.entries.map fun (id, effect) ↦
    { objectId := id
      changeType := if rt.createdIds.contains id then .create else .share
      oldState := rt.oldEnvelope id
      newState := some (rt.newEnvelope H tags baseVersion id (rt.keptOwner id)
        (.shared effect.initialSharedVersion) effect.typeTag effect.bcsBytes).toBytes }

/-- The changes of deleted objects, `engine.rs:639-650`. -/
def deleteChanges : List MoveStateChange :=
  rt.deletedIds.keys.map fun id ↦ ⟨id, .delete, rt.oldEnvelope id, none⟩

/-- `bcs::to_bytes` of a `DfFieldValue`, `types/src/dynamic_field.rs:27-32`. -/
def dfFieldBytes (key : DfCacheKey) (valueTypeTag : String) (valueBcs : Bytes) : Bytes :=
  bcsString key.keyTypeTag ++ bcsVec key.keyBcs ++ bcsString valueTypeTag ++ bcsVec valueBcs

/-- `engine.rs:152-186`. -/
def buildDfEnvelope (dfOid : ObjectId) (key : DfCacheKey) (valueTypeTag : String)
    (valueBcs : Bytes) (version : UInt64) : ObjectEnvelope :=
  .fromMoveResult H dfOid .zero version (.objectOwner key.parent)
    s!"0x1::dynamic_field::Field<{key.keyTypeTag}, {valueTypeTag}>"
    (dfFieldBytes key valueTypeTag valueBcs)

/-- The changes of new fields, `engine.rs:699-716`. -/
def dfCreateChanges : List MoveStateChange :=
  rt.dfCreated.entries.map fun (dfOid, effect) ↦
    { objectId := dfOid
      changeType := .create
      oldState := none
      newState := some (buildDfEnvelope H dfOid effect.key effect.valueTypeTag effect.valueBcs
        (baseVersion + 1)).toBytes }

/-- The changes of mutated fields, `engine.rs:718-763`. -/
def dfMutateChanges : List MoveStateChange :=
  rt.dfMutated.entries.map fun (dfOid, effect) ↦
    let priorVersion := ((effect.onDiskEnvelope.bind ObjectEnvelope.fromBytes).map
      ObjectEnvelope.version).getD baseVersion
    { objectId := dfOid
      changeType := .update
      oldState := some (effect.onDiskEnvelope.getD (buildDfEnvelope H dfOid effect.key
        effect.valueTypeTag effect.oldValueBcs priorVersion).toBytes)
      newState := some (buildDfEnvelope H dfOid effect.key effect.valueTypeTag
        effect.newValueBcs (priorVersion + 1)).toBytes }

/-- The changes of removed fields, `engine.rs:765-787`. -/
def dfDeleteChanges : List MoveStateChange :=
  rt.dfDeleted.entries.map fun (dfOid, effect) ↦
    { objectId := dfOid
      changeType := .delete
      oldState := some (effect.onDiskEnvelope.getD (buildDfEnvelope H dfOid effect.key
        effect.valueTypeTag effect.oldValueBcs baseVersion).toBytes)
      newState := none }

/-- The changes that do not come from `mutate_object`. -/
def otherChanges : List MoveStateChange :=
  rt.freezeChanges H tags baseVersion ++ rt.shareChanges H tags baseVersion ++
    rt.deleteChanges ++ rt.dfCreateChanges H baseVersion ++ rt.dfMutateChanges H baseVersion ++
    rt.dfDeleteChanges H baseVersion

/-- `convert_results_to_state_changes`, `engine.rs:473-790`. -/
def stateChanges : List MoveStateChange :=
  rt.transferChanges H tags baseVersion ++ rt.mutationChanges H tags baseVersion ++
    rt.otherChanges H tags baseVersion

variable {H tags baseVersion} {rt}

/-- Among the changes of mutated objects are the recorded bytes of every object that was not
moved and is not as it was loaded. -/
theorem stores_mutationChanges_iff {id : ObjectId} {bytes : Bytes} :
    Stores (rt.mutationChanges H tags baseVersion) id bytes ↔
      (rt.mutated.get? id).map ObjectMutationEffect.bcsBytes = some bytes ∧
        rt.moved id = false ∧ rt.loadedWith id bytes = false := by
  simp only [Stores, mutationChanges, List.mem_filterMap, Option.map_eq_some_iff,
    IndexMap.get?_eq_some_iff, Prod.exists]
  constructor
  · rintro ⟨change, ⟨id', effect, hm, hc⟩, rfl, hd⟩
    split at hc
    · cases hc
    · next hk =>
      cases hc
      obtain rfl : effect.bcsBytes = bytes := by simpa using hd
      rw [Bool.not_eq_true, Bool.or_eq_false_iff] at hk
      exact ⟨⟨effect, hm, rfl⟩, hk⟩
  · rintro ⟨⟨effect, hm, rfl⟩, hmo, hl⟩
    exact ⟨rt.mutationChange H tags baseVersion id effect,
      ⟨id, effect, hm, by simp [hmo, hl]⟩, rfl, data_mutationChange ..⟩

end SetuObjectRuntime

end Setu.Move
