import Setu.Base.SetIndex
import Setu.State.Run
import Setu.Types.Object

/-!
# The index of objects by owner

Library `State`. The state manager lists the objects of every owner beside the trees. Each
applied change removes what the old value was listed as and lists the new one; after a recovery
the lists are built from all objects. A change is applied only if its old value is the current
one, so the lists that are kept up to date are the ones that a rebuild computes. Source
`storage/src/state/manager.rs`.
-/

namespace Setu.State

open Setu.Base Setu.Types Setu.Merkle

/-- The characters after the first occurrence of a pattern. -/
def afterFirst (pattern : List Char) : List Char → Option (List Char)
  | [] => if pattern = [] then some [] else none
  | c :: rest =>
    if pattern.isPrefixOf (c :: rest) then some ((c :: rest).drop pattern.length)
    else afterFirst pattern rest

/-- The characters after the last occurrence of a pattern, all of them without one. -/
def afterLast (pattern : List Char) (chars : List Char) : List Char :=
  ((afterFirst pattern.reverse chars.reverse).map fun rest ↦
    chars.drop (rest.length + pattern.length)).getD chars

/-- `manager.rs:1448-1457`: the last segment of what stands between
`::coin::Coin<` and the last `>`. -/
def extractCoinTypeFromTag (tag : String) : Option String := do
  let rest ← afterFirst "::coin::Coin<".toList tag.toList
  let inner ← afterFirst ['>'] rest.reverse
  if inner.isEmpty then none
  else some (String.ofList (afterLast "::".toList inner.reverse))

/-- What the indexes take from a value, `envelope.rs:146-159` and `manager.rs:868-881`: the
owner, the type tag and the coin type. -/
def indexData (value : Bytes) : Option (String × String × Option String) :=
  match if value.take 2 = [0x53, 0x45] then ObjectEnvelope.fromBytes value else none with
  | some env => some (env.owner.toText, env.typeTag, extractCoinTypeFromTag env.typeTag)
  | none => (CoinState.fromBytes value).map fun coin ↦
      (coin.owner, coin.coinType, some coin.coinType)

/-- The entry of an object for its owner. -/
def ownerView (objectId : HashValue) (value : Bytes) : Option (String × HashValue × String) :=
  (indexData value).map fun data ↦ (data.1, objectId, data.2.1)

/-- The coin type of an object for its owner. -/
def coinTypeView (_ : HashValue) (value : Bytes) : Option (String × String) :=
  (indexData value).bind fun data ↦ data.2.2.map fun coinType ↦ (data.1, coinType)

/-- Keys of data other than objects are not indexed, `manager.rs:1035-1039`. -/
def indexedKey (key : String) : Bool :=
  !(["mod:", "user:", "solver:", "validator:", "event:", "linkage:"].any fun start ↦
    start.toList.isPrefixOf key.toList)

/-- The state of all subnets with the indexes, `manager.rs:257-306`. -/
structure IndexedManager (D : Type) where
  state : GlobalStateManager D
  ownerObjectIndex : SetIndex String (HashValue × String)
  coinTypeIndex : SetIndex String String

variable {D : Type} [DecidableEq D] (H : Blake3 D)

namespace IndexedManager

/-- `manager.rs:387-404`. -/
def new : IndexedManager D := ⟨.new H, ∅, ∅⟩

/-- `manager.rs:1033-1073`. -/
def updateIndexesForValue (m : IndexedManager D) (objectId : HashValue) (value : Bytes)
    (key : String) : IndexedManager D :=
  if indexedKey key then
    { m with
      ownerObjectIndex := m.ownerObjectIndex.addRow ownerView objectId value
      coinTypeIndex := m.coinTypeIndex.addRow coinTypeView objectId value }
  else m

/-- `manager.rs:1076-1098`; coin types are not cleaned. -/
def removeFromIndexesForValue (m : IndexedManager D) (objectId : HashValue) (oldBytes : Bytes) :
    IndexedManager D :=
  { m with ownerObjectIndex := m.ownerObjectIndex.removeRow ownerView objectId oldBytes }

/-- `manager.rs:960-1030`. -/
def applyStateChange (m : IndexedManager D) (subnetId : SubnetId) (change : StateChange) :
    IndexedManager D :=
  let objectId := parseStateChangeKey H change.key
  let written := { m with state := m.state.applyStateChange H subnetId change }
  match change.newValue with
  | some value =>
    let cleaned := match change.oldValue with
      | some oldBytes => written.removeFromIndexesForValue objectId oldBytes
      | none => written
    cleaned.updateIndexesForValue objectId value change.key
  | none =>
    match change.oldValue.or ((m.state.subnet H subnetId).get objectId) with
    | some oldBytes => written.removeFromIndexesForValue objectId oldBytes
    | none => written

/-- `manager.rs:1103-1113`. -/
def applyExecutionResult (m : IndexedManager D) (subnetId : SubnetId) (result : ExecutionResult) :
    IndexedManager D × D :=
  let applied := result.stateChanges.foldl
    (fun m change ↦ m.applyStateChange H (changeTarget change subnetId) change) m
  ({ applied with state := applied.state.touchSubnet H subnetId },
    (applied.state.subnet H subnetId).root)

/-- The body of the event loop, `manager.rs:1179-1307`. -/
def applyEvent (finalizedDepth : UInt64) (state : IndexedManager D × StateApplySummary D)
    (event : Event) : IndexedManager D × StateApplySummary D :=
  match event.executionResult with
  | none => state
  | some result =>
    if !result.success then
      (state.1, { state.2 with failedEvents := state.2.failedEvents ++ [event.id] })
    else
      let checked := state.1.state.findConflict H event.getSubnetId ∅ result.stateChanges
      match checked.2 with
      | some key =>
        ({ state.1 with state := checked.1 },
          { state.2 with conflictedEvents := state.2.conflictedEvents ++ [⟨event.id, key⟩] })
      | none =>
        let applied := applyExecutionResult H { state.1 with state := checked.1 }
          event.getSubnetId result
        ({ applied.1 with
            state.modificationTracker := applied.1.state.modificationTracker.insertAll
              (result.stateChanges.map fun change ↦
                (parseStateChangeKey H change.key, (event.id, finalizedDepth))) },
          state.2.recordEvent H event.getSubnetId event.id result.stateChanges.length applied.2)

/-- `manager.rs:1130-1345`. -/
def applyCommittedEvents (m : IndexedManager D) (events : List Event) (finalizedDepth : UInt64) :
    IndexedManager D × StateApplySummary D :=
  let started := { m with
    state.lastFinalizedDepth := max m.state.lastFinalizedDepth finalizedDepth }
  (sortOn eventOrder events).foldl (applyEvent H finalizedDepth) (started, .new)

/-- Calls of `apply_committed_events`, each with its events and its depth. -/
def applyCalls (m : IndexedManager D) (calls : List (List Event × UInt64)) : IndexedManager D :=
  calls.foldl (fun m call ↦ (m.applyCommittedEvents H call.1 call.2).1) m

omit [DecidableEq D] in
/-- `manager.rs:776-780`, without the subnets. -/
def iterAllObjects (m : IndexedManager D) : List (HashValue × Bytes) :=
  m.state.subnetStates.toList.flatMap fun entry ↦ entry.2.tree.leaves.toList

omit [DecidableEq D] in
/-- `manager.rs:859-897`. -/
def rebuildCoinTypeIndex (m : IndexedManager D) : IndexedManager D :=
  { m with
    ownerObjectIndex := m.iterAllObjects.foldl
      (fun index row ↦ index.addRow ownerView row.1 row.2) ∅
    coinTypeIndex := m.iterAllObjects.foldl
      (fun index row ↦ index.addRow coinTypeView row.1 row.2) ∅ }

section State

variable {H}

omit [DecidableEq D] in
@[simp]
theorem state_updateIndexesForValue (m : IndexedManager D) (objectId : HashValue) (value : Bytes)
    (key : String) : (m.updateIndexesForValue objectId value key).state = m.state := by
  unfold updateIndexesForValue
  split <;> rfl

omit [DecidableEq D] in
@[simp]
theorem state_removeFromIndexesForValue (m : IndexedManager D) (objectId : HashValue)
    (oldBytes : Bytes) : (m.removeFromIndexesForValue objectId oldBytes).state = m.state := rfl

/-- The indexes do not enter the state. -/
theorem state_applyStateChange (m : IndexedManager D) (subnetId : SubnetId)
    (change : StateChange) :
    (m.applyStateChange H subnetId change).state = m.state.applyStateChange H subnetId change := by
  unfold applyStateChange
  dsimp only
  split
  · cases change.oldValue <;> simp
  · split <;> rfl

theorem state_foldl_applyStateChange (subnetId : SubnetId) (changes : List StateChange)
    (m : IndexedManager D) :
    (changes.foldl (fun m change ↦
        m.applyStateChange H (changeTarget change subnetId) change) m).state =
      changes.foldl (fun g change ↦
        g.applyStateChange H (changeTarget change subnetId) change) m.state := by
  induction changes generalizing m with
  | nil => rfl
  | cons change rest ih => rw [List.foldl_cons, ih, state_applyStateChange, List.foldl_cons]

/-- The event loop changes the state as it does without indexes. -/
theorem applyEvent_state (depth : UInt64) (state : IndexedManager D × StateApplySummary D)
    (event : Event) :
    ((applyEvent H depth state event).1.state, (applyEvent H depth state event).2) =
      GlobalStateManager.applyEvent H depth (state.1.state, state.2) event := by
  unfold applyEvent GlobalStateManager.applyEvent
  cases event.executionResult with
  | none => rfl
  | some result =>
    dsimp only
    split
    · rfl
    · cases (state.1.state.findConflict H event.getSubnetId ∅ result.stateChanges).2 with
      | some key => rfl
      | none =>
        simp only [applyExecutionResult, GlobalStateManager.applyExecutionResult,
          state_foldl_applyStateChange]

theorem state_applyCommittedEvents (m : IndexedManager D) (events : List Event)
    (depth : UInt64) :
    ((m.applyCommittedEvents H events depth).1.state,
        (m.applyCommittedEvents H events depth).2) =
      m.state.applyCommittedEvents H events depth := by
  have hf : ∀ (events : List Event) (state : IndexedManager D × StateApplySummary D),
      ((events.foldl (applyEvent H depth) state).1.state,
          (events.foldl (applyEvent H depth) state).2) =
        events.foldl (GlobalStateManager.applyEvent H depth) (state.1.state, state.2) := by
    intro events
    induction events with
    | nil => exact fun _ ↦ rfl
    | cons event rest ih =>
      intro state
      rw [List.foldl_cons, ih, applyEvent_state, List.foldl_cons]
  exact hf _ _

end State

variable {H} {home : HashValue → SubnetId}

variable (H home) in
/-- Objects are in their home subnets, the owner index lists them, and no coin type is missing. -/
structure Indexed (m : IndexedManager D) : Prop where
  homed : ∀ {subnetId objectId value}, m.state.objects H (subnetId, objectId) = some value →
    subnetId = home objectId
  owners : SetIndex.Mirrors ownerView (fun objectId ↦ m.state.objects H (home objectId, objectId))
    m.ownerObjectIndex
  coinTypes : ∀ objectId value owner coinType,
    m.state.objects H (home objectId, objectId) = some value →
    coinTypeView objectId value = some (owner, coinType) → m.coinTypeIndex.Has owner coinType

/-- A key that names an object by its identifier, `oid:` and hexadecimal digits. -/
def OidKey (key : String) : Prop := ∃ hex, key.toList = 'o' :: 'i' :: 'd' :: ':' :: hex

theorem indexedKey_of_oidKey {key : String} (h : OidKey key) : indexedKey key = true := by
  obtain ⟨hex, hk⟩ := h
  simp [indexedKey, hk, List.isPrefixOf]

omit [DecidableEq D] in
/-- An entry names its object. -/
theorem separates_ownerView : SetIndex.Separates ownerView := by
  intro k k' v v' x h h'
  obtain ⟨data, -, rfl⟩ := Option.map_eq_some_iff.mp h
  obtain ⟨data', -, heq⟩ := Option.map_eq_some_iff.mp h'
  exact (congrArg (fun x ↦ x.2.1) heq).symm

/-- The objects by their identifiers after a write at home. -/
theorem objects_home_update (s : Objects) (objectId : HashValue) (value : Option Bytes) :
    (fun id ↦ Function.update s (home objectId, objectId) value (home id, id)) =
      Function.update (fun id ↦ s (home id, id)) objectId value := by
  funext id
  by_cases hid : id = objectId
  · subst hid
    rw [Function.update_self, Function.update_self]
  · rw [Function.update_of_ne hid, Function.update_of_ne]
    intro heq
    exact hid (congrArg Prod.snd heq)

variable {subnetId : SubnetId} {change : StateChange}

/-- The object state after a change that goes to the home of its object. -/
theorem objects_of_applyStateChange (m : IndexedManager D)
    (ht : changeTarget change subnetId = home (parseStateChangeKey H change.key)) :
    (m.applyStateChange H (changeTarget change subnetId) change).state.objects H =
      Function.update (m.state.objects H)
        (home (parseStateChangeKey H change.key), parseStateChangeKey H change.key)
        change.newValue := by
  rw [state_applyStateChange, GlobalStateManager.objects_applyStateChange, Write.apply,
    changeWrite, ht]

variable {m : IndexedManager D}

/-- A change that fits the state keeps the owner index up to date. -/
theorem Indexed.owners_applyStateChange (h : m.Indexed H home) (hk : OidKey change.key)
    (ht : changeTarget change subnetId = home (parseStateChangeKey H change.key))
    (hf : (changeWrite H subnetId change).Fits (m.state.objects H)) :
    SetIndex.Mirrors ownerView
      (Function.update (fun id ↦ m.state.objects H (home id, id))
        (parseStateChangeKey H change.key) change.newValue)
      (m.applyStateChange H (changeTarget change subnetId) change).ownerObjectIndex := by
  obtain ⟨he, hc⟩ := hf
  simp only [changeWrite, ht, Write.Creates] at he hc
  unfold IndexedManager.applyStateChange updateIndexesForValue
  simp only [indexedKey_of_oidKey hk, if_true, ht]
  cases hn : change.newValue with
  | some value =>
    cases ho : change.oldValue with
    | some oldBytes =>
      exact h.owners.updateRow separates_ownerView (he oldBytes ho) value
    | none => exact h.owners.addRow (hc ⟨ho, by simp [hn]⟩) value
  | none =>
    cases ho : change.oldValue with
    | some oldBytes => exact h.owners.removeRow separates_ownerView (he oldBytes ho)
    | none =>
      -- the old value was lost and is read from the tree
      dsimp only [Option.none_or]
      cases hcu : (m.state.subnet H (home (parseStateChangeKey H change.key))).get
          (parseStateChangeKey H change.key) with
      | some current => exact h.owners.removeRow separates_ownerView hcu
      | none =>
        rw [Function.update_eq_self_iff.mpr]
        · exact h.owners
        · exact hcu.symm

/-- The coin types of a written value are added, and none is removed. -/
theorem coinTypeIndex_applyStateChange (m : IndexedManager D) (hk : OidKey change.key) :
    (m.applyStateChange H subnetId change).coinTypeIndex =
      match change.newValue with
      | some value =>
        m.coinTypeIndex.addRow coinTypeView (parseStateChangeKey H change.key) value
      | none => m.coinTypeIndex := by
  unfold IndexedManager.applyStateChange updateIndexesForValue
  simp only [indexedKey_of_oidKey hk, if_true]
  cases change.newValue with
  | some value => cases change.oldValue <;> rfl
  | none =>
    dsimp only
    split <;> rfl

/-- A change that fits the state keeps the indexes up to date. -/
theorem Indexed.applyStateChange (h : m.Indexed H home) (hk : OidKey change.key)
    (ht : changeTarget change subnetId = home (parseStateChangeKey H change.key))
    (hf : (changeWrite H subnetId change).Fits (m.state.objects H)) :
    (m.applyStateChange H (changeTarget change subnetId) change).Indexed H home := by
  have ho := m.objects_of_applyStateChange ht
  constructor
  case homed =>
    intro subnetId' objectId value hv
    rw [ho] at hv
    by_cases heq : (subnetId', objectId) =
        (home (parseStateChangeKey H change.key), parseStateChangeKey H change.key)
    · cases heq
      rfl
    · rw [Function.update_of_ne heq] at hv
      exact h.homed hv
  case owners =>
    rw [ho, objects_home_update]
    exact h.owners_applyStateChange hk ht hf
  case coinTypes =>
    intro objectId value owner coinType hv hvi
    rw [ho, congrFun (objects_home_update _ _ _) objectId] at hv
    rw [coinTypeIndex_applyStateChange m hk]
    by_cases heq : objectId = parseStateChangeKey H change.key
    · subst heq
      rw [Function.update_self] at hv
      rw [hv]
      exact SetIndex.has_addRow.mpr (.inl hvi)
    · rw [Function.update_of_ne heq] at hv
      have hb := h.coinTypes objectId value owner coinType hv hvi
      cases change.newValue with
      | some value => exact SetIndex.has_addRow.mpr (.inr hb)
      | none => exact hb

variable (H home) in
/-- The changes of an event name objects by their identifiers and go to the home subnets. -/
def WritesHome (event : Event) : Prop :=
  ∀ result, event.executionResult = some result → ∀ change ∈ result.stateChanges,
    OidKey change.key ∧
      changeTarget change event.getSubnetId = home (parseStateChangeKey H change.key)

/-- Changes that fit one after another keep the indexes up to date. -/
theorem Indexed.foldl_applyStateChange {changes : List StateChange}
    (hc : ∀ change ∈ changes, OidKey change.key ∧ changeTarget change subnetId =
      home (parseStateChangeKey H change.key)) (h : m.Indexed H home)
    (hf : Write.AllFit (m.state.objects H) (changes.map (changeWrite H subnetId))) :
    (changes.foldl (fun m change ↦
      m.applyStateChange H (changeTarget change subnetId) change) m).Indexed H home := by
  induction changes generalizing m with
  | nil => exact h
  | cons change rest ih =>
    rw [List.forall_mem_cons] at hc
    rw [List.map_cons, Write.allFit_cons] at hf
    apply ih hc.2 (h.applyStateChange hc.1.1 hc.1.2 hf.1)
    rw [state_applyStateChange, GlobalStateManager.objects_applyStateChange]
    exact hf.2

omit [DecidableEq D] in
/-- Only the objects of the state matter. -/
theorem Indexed.congr (h : m.Indexed H home) {g : GlobalStateManager D}
    (ho : g.objects H = m.state.objects H) : Indexed H home { m with state := g } := by
  constructor
  case homed =>
    intro subnetId objectId value hv
    exact h.homed ((congrFun ho _).symm.trans hv)
  case owners =>
    rw [ho]
    exact h.owners
  case coinTypes =>
    intro objectId value owner coinType hv
    exact h.coinTypes objectId value owner coinType ((congrFun ho _).symm.trans hv)

theorem Indexed.applyEvent {state : IndexedManager D × StateApplySummary D}
    (h : state.1.Indexed H home) {event : Event} (he : WritesHome H home event)
    (depth : UInt64) : (applyEvent H depth state event).1.Indexed H home := by
  unfold IndexedManager.applyEvent
  cases hr : event.executionResult with
  | none => exact h
  | some result =>
    dsimp only
    have hc := h.congr (state.1.state.objects_findConflict event.getSubnetId ∅ result.stateChanges)
    split
    · exact h
    · cases hch : (state.1.state.findConflict H event.getSubnetId ∅ result.stateChanges).2 with
      | some key => exact hc
      | none =>
        have hf := ((GlobalStateManager.findConflict_eq_none_iff _ _ _ _).mp hch).1
        have ha := hc.foldl_applyStateChange (he result hr) (by
          rw [GlobalStateManager.objects_findConflict]
          exact hf)
        exact ha.congr (GlobalStateManager.objects_touchSubnet _ _)

theorem Indexed.applyCommittedEvents (h : m.Indexed H home) {events : List Event}
    (he : ∀ event ∈ events, WritesHome H home event) (depth : UInt64)
    : (m.applyCommittedEvents H events depth).1.Indexed H home := by
  have hf : ∀ {events : List Event} {state : IndexedManager D × StateApplySummary D},
      (∀ event ∈ events, WritesHome H home event) → state.1.Indexed H home →
        (events.foldl (IndexedManager.applyEvent H depth) state).1.Indexed H home := by
    intro events
    induction events with
    | nil => exact fun _ h ↦ h
    | cons event rest ih =>
      intro state hw h
      rw [List.forall_mem_cons] at hw
      exact ih hw.2 (h.applyEvent hw.1 depth)
  apply hf
  · intro event hev
    exact he event ((sortOn_perm _ _).mem_iff.mp hev)
  · exact h.congr rfl

theorem Indexed.applyCalls {calls : List (List Event × UInt64)} (h : m.Indexed H home)
    (hc : ∀ call ∈ calls, ∀ event ∈ call.1, WritesHome H home event) :
    (m.applyCalls H calls).Indexed H home := by
  induction calls generalizing m with
  | nil => exact h
  | cons call rest ih =>
    rw [List.forall_mem_cons] at hc
    exact ih (h.applyCommittedEvents hc.1 call.2) hc.2

omit [DecidableEq D] in
/-- A new manager has no objects. -/
theorem indexed_new : (new H : IndexedManager D).Indexed H home := by
  have ho : (new H : IndexedManager D).state.objects H = fun _ ↦ none :=
    GlobalStateManager.objects_new H
  constructor
  case homed =>
    intro subnetId objectId value hv
    rw [ho] at hv
    cases hv
  case owners =>
    rw [ho]
    exact SetIndex.mirrors_empty
  case coinTypes =>
    intro objectId value owner coinType hv
    rw [ho] at hv
    cases hv

omit [DecidableEq D] in
/-- The objects of a subnet are the leaves of its tree, if it has one. -/
theorem objects_eq_some_iff {g : GlobalStateManager D} {objectId : HashValue} {value : Bytes} :
    g.objects H (subnetId, objectId) = some value ↔
      ∃ smt, g.subnetStates.lookup subnetId = some smt ∧
        smt.tree.leaves.lookup objectId = some value := by
  rw [GlobalStateManager.objects, GlobalStateManager.subnet, SubnetStateSMT.get]
  cases g.subnetStates.lookup subnetId with
  | none => simp [SubnetStateSMT.new, IncrementalSparseMerkleTree.new]
  | some smt => simp

omit [DecidableEq D] in
/-- The rows of a rebuild are the objects at home. -/
theorem Indexed.mem_iterAllObjects (h : m.Indexed H home) (objectId : HashValue) (value : Bytes) :
    (objectId, value) ∈ m.iterAllObjects ↔
      m.state.objects H (home objectId, objectId) = some value := by
  have hr : (objectId, value) ∈ m.iterAllObjects ↔
      ∃ subnetId, m.state.objects H (subnetId, objectId) = some value := by
    simp only [iterAllObjects, List.mem_flatMap, Prod.exists, HashMap.mem_toList,
      objects_eq_some_iff]
  rw [hr]
  constructor
  · rintro ⟨subnetId, hv⟩
    obtain rfl := h.homed hv
    exact hv
  · exact fun hv ↦ ⟨_, hv⟩

/-- After any calls of `apply_committed_events` on a new manager, by events that name objects by
their identifiers and write each object in one subnet, the index of objects by owner is the one
that a rebuild computes. -/
theorem ownerObjectIndex_same_rebuild (calls : List (List Event × UInt64))
    (hcalls : ∀ call ∈ calls, ∀ event ∈ call.1, WritesHome H home event) :
    ((new H).applyCalls H calls).ownerObjectIndex.Same
      ((new H).applyCalls H calls).rebuildCoinTypeIndex.ownerObjectIndex := by
  have hi : ((new H).applyCalls H calls).Indexed H home := indexed_new.applyCalls hcalls
  exact hi.owners.same (SetIndex.mirrors_foldl hi.mem_iterAllObjects)

private def coinOf (owner : String) : Bytes := CoinState.toBytes ⟨owner, 5, 1, "ROOT"⟩

private def coinKey : String := "oid:" ++ String.ofList (List.replicate 64 '7')

private def coinChange (id : EventId) (old new : Option Bytes) : Event where
  id := id
  eventType := .transfer
  parentIds := []
  subnetId := none
  transfer := none
  payload := .none
  vlcSnapshot := ⟨∅, 1, 0⟩
  creator := ""
  status := .executed
  executionResult := some ⟨true, none, [⟨coinKey, old, new, none⟩]⟩
  timestamp := 0

/-- A coin is created for one owner and passes to another: only the second stays indexed. -/
theorem ownerObjectIndex_same_rebuild_coin :
    let calls : List (List Event × UInt64) :=
      [([coinChange "a" none (some (coinOf "alice"))], 1),
        ([coinChange "b" (some (coinOf "alice")) (some (coinOf "bob"))], 2)]
    let m := (new Blake3.ideal).applyCalls Blake3.ideal calls
    m.ownerObjectIndex.Same m.rebuildCoinTypeIndex.ownerObjectIndex ∧
      m.ownerObjectIndex.keys = ["bob"] := by
  intro calls m
  have hw : ∀ id old new, WritesHome Blake3.ideal (fun _ ↦ .root) (coinChange id old new) := by
    intro id old new result hr change hc
    cases hr
    obtain rfl := List.mem_singleton.mp hc
    have hk : OidKey coinKey := ⟨List.replicate 64 '7', by decide +kernel⟩
    exact ⟨hk, rfl⟩
  have hca : ∀ call ∈ calls, ∀ event ∈ call.1, WritesHome Blake3.ideal (fun _ ↦ .root) event := by
    simp [calls, hw]
  exact ⟨ownerObjectIndex_same_rebuild calls hca, by decide +kernel⟩

end IndexedManager

end Setu.State
