import Setu.Base.HashMap
import Setu.Base.Machine
import Setu.Types.Object

/-!
# Ownership index of the runtime

Library `Runtime`. The in-memory state store keeps an index from owners to objects and a reverse
index from objects to owners. The two always agree. They follow the stored objects as long as
no object with an owner is overwritten by one without: that write leaves both indexes as they
are. Source `crates/setu-runtime/src/state.rs`.
-/

namespace Setu.Runtime

open Setu.Base Setu.Types

/-- The coins with both indexes, `state.rs:69-78`; the raw objects are apart from them. -/
structure InMemoryStateStore where
  objects : HashMap ObjectId Coin
  ownershipIndex : HashMap Address (List ObjectId)
  objectOwner : HashMap ObjectId Address

/-- A write to the store. -/
inductive StoreCall where
  | setObject (id : ObjectId) (object : Coin)
  | deleteObject (id : ObjectId)

namespace InMemoryStateStore

/-- `state.rs:82-89`. -/
def new : InMemoryStateStore := ⟨∅, ∅, ∅⟩

variable (s : InMemoryStateStore) (id : ObjectId)

/-- `state.rs:113-119`, and `state.rs:93-98` with the same effect. -/
def removeFromOwnershipIndex : InMemoryStateStore :=
  match s.objectOwner.lookup id with
  | none => s
  | some oldOwner =>
    { s with
      objectOwner := s.objectOwner.erase id
      ownershipIndex :=
        match s.ownershipIndex.lookup oldOwner with
        | none => s.ownershipIndex
        | some ids => s.ownershipIndex.insert oldOwner (ids.filter (· ≠ id)) }

/-- `state.rs:91-110`. -/
def updateOwnershipIndex (newOwner : Address) : InMemoryStateStore :=
  let removed := s.removeFromOwnershipIndex id
  { removed with
    ownershipIndex := removed.ownershipIndex.pushAt newOwner id
    objectOwner := removed.objectOwner.insert id newOwner }

/-- `state.rs:142-151`. An object without an owner does not touch the indexes. -/
def setObject (object : Coin) : InMemoryStateStore :=
  let indexed :=
    match object.owner with
    | some owner => s.updateOwnershipIndex id owner
    | none => s
  { indexed with objects := s.objects.insert id object }

/-- `state.rs:153-157`. -/
def deleteObject : InMemoryStateStore :=
  { s.removeFromOwnershipIndex id with objects := s.objects.erase id }

/-- `state.rs:159-164`. -/
def getOwnedObjects (owner : Address) : List ObjectId := (s.ownershipIndex.lookup owner).getD []

/-- The store after a call. -/
def apply : StoreCall → InMemoryStateStore
  | .setObject id object => s.setObject id object
  | .deleteObject id => s.deleteObject id

/-- The owner of the stored object. -/
def owner? : Option Address := (s.objects.lookup id).bind Coin.owner

/-- The call does not overwrite an owned object by one without an owner. -/
def keepsOwner : StoreCall → Bool
  | .setObject id object => object.owner.isSome || (s.owner? id).isNone
  | .deleteObject _ => true

/-- An address lists the objects whose recorded owner it is, each once. -/
def Agrees : Prop :=
  ∀ a, (s.getOwnedObjects a).Nodup ∧
    ∀ id, id ∈ s.getOwnedObjects a ↔ s.objectOwner.lookup id = some a

/-- The recorded owners are those of the stored objects. -/
def Tracks : Prop := (fun id ↦ s.objectOwner.lookup id) = s.owner?

variable {s}

/-- Removal is seen in the reverse index at its own object. -/
theorem objectOwner_removeFromOwnershipIndex :
    (fun id' ↦ (s.removeFromOwnershipIndex id).objectOwner.lookup id') =
      Function.update (fun id' ↦ s.objectOwner.lookup id') id none := by
  unfold removeFromOwnershipIndex
  split
  · next hn => exact (Function.update_eq_self_iff.mpr hn.symm).symm
  · exact HashMap.lookup_erase_eq_update _ _

/-- Removal takes the object out of every list: only its recorded owner lists it. -/
theorem getOwnedObjects_removeFromOwnershipIndex (h : s.Agrees) (a : Address) :
    (s.removeFromOwnershipIndex id).getOwnedObjects a =
      (s.getOwnedObjects a).filter (· ≠ id) := by
  have hout (b : Address) (hb : s.objectOwner.lookup id ≠ some b) :
      (s.getOwnedObjects b).filter (· ≠ id) = s.getOwnedObjects b := by
    refine List.filter_eq_self.mpr fun id' hid' ↦ decide_eq_true ?_
    rintro rfl
    exact hb (((h b).2 id').mp hid')
  unfold removeFromOwnershipIndex
  split
  · next hn => exact (hout a (by simp [hn])).symm
  · next old ho =>
    by_cases ha : a = old
    · subst ha
      cases hl : s.ownershipIndex.lookup a <;> simp [getOwnedObjects, hl]
    · rw [hout a (by simpa [ho] using Ne.symm ha)]
      split <;> simp [getOwnedObjects, AList.lookup_insert_ne ha]

theorem Agrees.removeFromOwnershipIndex (h : s.Agrees) :
    (s.removeFromOwnershipIndex id).Agrees := by
  intro a
  rw [getOwnedObjects_removeFromOwnershipIndex id h a]
  refine ⟨(h a).1.filter _, fun id' ↦ ?_⟩
  rw [List.mem_filter, (h a).2, congrFun (objectOwner_removeFromOwnershipIndex id) id',
    Function.update_apply]
  by_cases heq : id' = id <;> simp [heq]

/-- A new owner is entered in both indexes. -/
theorem Agrees.updateOwnershipIndex (h : s.Agrees) (newOwner : Address) :
    (s.updateOwnershipIndex id newOwner).Agrees := by
  have hr := h.removeFromOwnershipIndex id
  intro a
  have hfresh : id ∉ (s.removeFromOwnershipIndex id).getOwnedObjects a := by
    simp [getOwnedObjects_removeFromOwnershipIndex id h a]
  have hl : (s.updateOwnershipIndex id newOwner).getOwnedObjects a =
      (s.removeFromOwnershipIndex id).getOwnedObjects a ++ if a = newOwner then [id] else [] := by
    simp only [InMemoryStateStore.updateOwnershipIndex, getOwnedObjects, HashMap.pushAt]
    split
    · next ha => rw [ha, AList.lookup_insert, Option.getD_some]
    · next ha => rw [AList.lookup_insert_ne ha, List.append_nil]
  rw [hl]
  constructor
  · refine (hr a).1.append (by split <;> simp) ?_
    split <;> simp [hfresh]
  · intro id'
    have ho : (s.updateOwnershipIndex id newOwner).objectOwner.lookup id' = _ :=
      congrFun (HashMap.lookup_insert_eq_update _ id newOwner) id'
    rw [ho, List.mem_append, (hr a).2, Function.update_apply]
    by_cases heq : id' = id
    · subst heq
      rw [if_pos rfl, ← (hr a).2]
      simp [hfresh, eq_comm]
    · rw [if_neg heq]
      split <;> simp [heq]

/-- The indexes agree after every call. -/
theorem Agrees.apply (h : s.Agrees) (call : StoreCall) : (s.apply call).Agrees := by
  cases call with
  | deleteObject id => exact h.removeFromOwnershipIndex id
  | setObject id object =>
    simp only [InMemoryStateStore.apply, setObject]
    cases object.owner with
    | none => exact h
    | some owner => exact h.updateOwnershipIndex id owner

/-- The reverse index follows a call that keeps the owner it finds. -/
theorem Tracks.apply {call : StoreCall} (h : s.Tracks) (hk : s.keepsOwner call = true) :
    (s.apply call).Tracks := by
  unfold Tracks at h
  cases call with
  | deleteObject id =>
    have hd : (s.deleteObject id).owner? = Function.update s.owner? id none :=
      (congrArg ((Option.bind · Coin.owner) ∘ ·)
        (HashMap.lookup_erase_eq_update s.objects id)).trans (Function.comp_update ..)
    exact (objectOwner_removeFromOwnershipIndex id).trans (h ▸ hd.symm)
  | setObject id object =>
    have hset : (s.setObject id object).owner? = Function.update s.owner? id object.owner :=
      (congrArg ((Option.bind · Coin.owner) ∘ ·)
        (HashMap.lookup_insert_eq_update s.objects id object)).trans (Function.comp_update ..)
    refine Eq.trans ?_ hset.symm
    simp only [InMemoryStateStore.apply, setObject]
    cases ho : object.owner with
    | none =>
      have hold : s.owner? id = none := by simpa [keepsOwner, ho] using hk
      exact h.trans (Function.update_eq_self_iff.mpr hold.symm).symm
    | some owner =>
      refine (HashMap.lookup_insert_eq_update _ id owner).trans ?_
      rw [objectOwner_removeFromOwnershipIndex, Function.update_idem, h]

/-- An address lists the stored objects it owns, each once, after any calls that do not overwrite
an owned object by one without an owner. -/
theorem getOwnedObjects_exact (calls : List StoreCall)
    (hk : passes apply keepsOwner new calls = true) (a : Address) :
    let s := calls.foldl apply new
    (s.getOwnedObjects a).Nodup ∧ ∀ id, id ∈ s.getOwnedObjects a ↔ s.owner? id = some a := by
  have hnew : new.Agrees := fun a ↦ ⟨List.nodup_nil, fun id ↦ by simp [new, getOwnedObjects]⟩
  obtain ⟨ha, ht⟩ : (calls.foldl apply new).Agrees ∧ (calls.foldl apply new).Tracks :=
    foldl_of_passes (fun s ↦ s.Agrees ∧ s.Tracks) (fun h hc ↦ ⟨h.1.apply _, h.2.apply hc⟩)
      ⟨hnew, rfl⟩ hk
  exact ⟨(ha a).1, fun id ↦ by rw [(ha a).2, ← ht]⟩

private def heldId : ObjectId := ⟨Vector.replicate 32 7⟩

private def held (owner : Option Address) : StoreCall :=
  .setObject heldId ⟨heldId, 1, .ownedObject, owner, .immutable, 0, 0, "ROOT", 5⟩

/-- A coin that changes hands is listed for its last owner. -/
theorem getOwnedObjects_exact_handover :
    heldId ∈ ([held (some .zero), held (some ⟨heldId.bytes⟩)].foldl apply new).getOwnedObjects
      ⟨heldId.bytes⟩ :=
  ((getOwnedObjects_exact _ (by decide +kernel) _).2 heldId).mpr (by decide +kernel)

/-- A coin that becomes ownerless stays listed for its former owner. -/
theorem getOwnedObjects_ownerless :
    let s := [held (some .zero), held none].foldl apply new
    s.owner? heldId = none ∧ s.getOwnedObjects .zero = [heldId] := by
  decide +kernel

end InMemoryStateStore

end Setu.Runtime
