import Setu.Types.Consensus

/-!
# Anchors on disk under concurrent calls

Library `Storage`. A call reads the number of anchors, and a later task writes the anchor at
that place of the chain with the increased number. Calls that do not overlap extend the chain
one by one. A call that reads the number before another one has written takes the other's place.
Source `storage/src/rocks/anchor_store.rs`.
-/

namespace Setu.Storage

open Setu.Base Setu.Types

variable {D : Type}

/-- The column family, one table for each kind of key, `anchor_store.rs:15-21`. The number of
anchors is not bounded here. -/
structure RocksDBAnchorStore (D : Type) where
  anchors : HashMap AnchorId (Anchor D)
  chain : HashMap Nat AnchorId
  depths : HashMap UInt64 AnchorId
  latest : Option AnchorId
  storedCount : Option Nat

namespace RocksDBAnchorStore

/-- An empty column family. -/
def new : RocksDBAnchorStore D := ⟨∅, ∅, ∅, none, none⟩

variable (db : RocksDBAnchorStore D)

/-- `anchor_store.rs:184-190`. -/
def count : Nat := db.storedCount.getD 0

/-- The batch of a call that has read `count`, `anchor_store.rs:104-131`. -/
def writeBatch (anchor : Anchor D) (count : Nat) : RocksDBAnchorStore D where
  anchors := db.anchors.insert anchor.id anchor
  chain := db.chain.insert count anchor.id
  depths := db.depths.insert anchor.depth anchor.id
  latest := some anchor.id
  storedCount := some (count + 1)

/-- `anchor_store.rs:151-164`. -/
def getLatest : Option (Anchor D) := db.latest.bind db.anchors.lookup

/-- `anchor_store.rs:193-207`. -/
def getChain : List AnchorId := (List.range db.count).filterMap db.chain.lookup

/-- The chain root of `get_recovery_state`, `anchor_store.rs:211-237`. -/
def recoveredChainRoot (H : Blake3 D) : Option D := do
  let latest ← db.getLatest
  let roots ← latest.merkleRoots
  pure (chainHash H roots.anchorChainRoot (latest.computeHash H))

end RocksDBAnchorStore

/-- The two steps of a call that reach the database. -/
inductive StoreStep (D : Type) where
  | readCount (anchor : Anchor D)
  | writeBatch (anchor : Anchor D)

/-- The database with the numbers read by the calls under way. -/
structure AnchorCalls (D : Type) where
  db : RocksDBAnchorStore D
  counts : HashMap AnchorId Nat

namespace AnchorCalls

/-- One step of one of the calls, `anchor_store.rs:94-136`. -/
def step (calls : AnchorCalls D) : StoreStep D → AnchorCalls D
  | .readCount anchor => { calls with counts := calls.counts.insert anchor.id calls.db.count }
  | .writeBatch anchor =>
    match calls.counts.lookup anchor.id with
    | some count => ⟨calls.db.writeBatch anchor count, calls.counts.erase anchor.id⟩
    | none => calls

/-- The calls after an interleaving of their steps. -/
def run (steps : List (StoreStep D)) : AnchorCalls D := steps.foldl step ⟨.new, ∅⟩

end AnchorCalls

/-- The calls run one after the other. -/
def serial (anchors : List (Anchor D)) : List (StoreStep D) :=
  anchors.flatMap fun anchor ↦ [.readCount anchor, .writeBatch anchor]

/-- The chain root after another anchor. -/
def link (H : Blake3 D) (root : D) (anchor : Anchor D) : D :=
  chainHash H root (anchor.computeHash H)

/-- Each anchor carries the chain root of the anchors before it, from a given root on. -/
def Chained (H : Blake3 D) : D → List (Anchor D) → Prop
  | _, [] => True
  | root, anchor :: rest =>
    anchor.merkleRoots.map (·.anchorChainRoot) = some root ∧ Chained H (link H root anchor) rest

theorem Chained.root_last {H : Blake3 D} {root : D} {anchors : List (Anchor D)} {last : Anchor D}
    (h : Chained H root (anchors ++ [last])) :
    last.merkleRoots.map (·.anchorChainRoot) = some (anchors.foldl (link H) root) := by
  induction anchors generalizing root with
  | nil => exact h.1
  | cons anchor rest ih => exact ih h.2

/-- The database holds the anchors as a chain. -/
structure Holds (db : RocksDBAnchorStore D) (anchors : List (Anchor D)) : Prop where
  count_eq : db.count = anchors.length
  getChain_eq : db.getChain = anchors.map (·.id)
  getLatest_eq : db.getLatest = anchors.getLast?

/-- A call whose write directly follows its read appends its anchor. -/
theorem Holds.call {calls : AnchorCalls D} {anchors : List (Anchor D)} (h : Holds calls.db anchors)
    (anchor : Anchor D) :
    Holds ((calls.step (.readCount anchor)).step (.writeBatch anchor)).db
      (anchors ++ [anchor]) := by
  have hs : ((calls.step (.readCount anchor)).step (.writeBatch anchor)).db =
      calls.db.writeBatch anchor anchors.length := by
    simp [AnchorCalls.step, h.count_eq]
  rw [hs]
  constructor
  case count_eq => simp [RocksDBAnchorStore.count, RocksDBAnchorStore.writeBatch]
  case getLatest_eq => simp [RocksDBAnchorStore.getLatest, RocksDBAnchorStore.writeBatch]
  case getChain_eq =>
    -- the new place is behind all the others
    have hold : (List.range anchors.length).filterMap
        (calls.db.writeBatch anchor anchors.length).chain.lookup = anchors.map (·.id) := by
      rw [← h.getChain_eq, RocksDBAnchorStore.getChain, h.count_eq]
      refine List.filterMap_congr fun i hi ↦ ?_
      exact AList.lookup_insert_ne (List.mem_range.mp hi).ne
    have hc : (calls.db.writeBatch anchor anchors.length).count = anchors.length + 1 := rfl
    rw [RocksDBAnchorStore.getChain, hc, List.range_succ, List.filterMap_append, hold]
    simp [RocksDBAnchorStore.writeBatch]

/-- Calls that run one after the other extend the chain by their anchors. -/
theorem Holds.foldl_serial {calls : AnchorCalls D} {before : List (Anchor D)}
    (h : Holds calls.db before) (anchors : List (Anchor D)) :
    Holds ((serial anchors).foldl AnchorCalls.step calls).db (before ++ anchors) := by
  induction anchors generalizing calls before with
  | nil => simpa [serial] using h
  | cons anchor rest ih =>
    have hr := ih (h.call anchor)
    rw [List.append_assoc] at hr
    exact hr

private def anchorAt (id : AnchorId) (root : Option Bytes) : Anchor (Option Bytes) :=
  ⟨id, [], ⟨∅, 0, 0⟩, "", some ⟨none, none, root, ∅⟩, none, 0, 0⟩

end Setu.Storage
