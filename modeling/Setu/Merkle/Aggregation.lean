import Mathlib.Data.List.Lex
import Setu.Base.Sort
import Setu.Merkle.Binary

/-!
# The subnet aggregation tree

Library `Merkle`. The global state root is the binary Merkle root over the state roots of the
subnets, the root subnet first and the others by identifier. Source
`crates/setu-merkle/src/aggregation.rs:36-217`.
-/

namespace Setu.Merkle

open Setu.Base

variable {D : Type} (H : Blake3 D)

/-- State root of one subnet, `aggregation.rs:46-57`. -/
structure SubnetStateEntry (D : Type) where
  subnetId : Vector UInt8 32
  stateRoot : D

namespace SubnetStateEntry

variable (entry : SubnetStateEntry D)

/-- `aggregation.rs:88-96`. -/
def leafHash : D :=
  H.hash (0x10 :: (entry.subnetId.toList ++ H.asBytes entry.stateRoot))

/-- `aggregation.rs:99-101`. -/
def isRoot : Bool := entry.subnetId == Vector.replicate 32 0

/-- Sort key of an entry, `aggregation.rs:191-198`: the root subnet, then identifiers as byte
strings. -/
def sortKey : Nat ×ₗ List Nat :=
  toLex (if entry.isRoot then 0 else 1, entry.subnetId.toList.map UInt8.toNat)

private theorem subnetId_eq_of_sortKey_eq {a b : SubnetStateEntry D} (h : a.sortKey = b.sortKey) :
    a.subnetId = b.subnetId := by
  have hb := congrArg (fun key ↦ (ofLex key).2) h
  apply Vector.toList_inj.mp
  exact List.map_injective_iff.mpr (fun _ _ ↦ UInt8.toNat_inj.mp) hb

end SubnetStateEntry

/-- Sorted entries with their tree, `aggregation.rs:168-175`. -/
structure SubnetAggregationTree (D : Type) where
  entries : List (SubnetStateEntry D)
  tree : BinaryMerkleTree D
  globalRoot : D

namespace SubnetAggregationTree

/-- `aggregation.rs:181-212`. -/
def build (entries : List (SubnetStateEntry D)) : SubnetAggregationTree D :=
  if entries.isEmpty then ⟨[], BinaryMerkleTree.build H [], H.zero⟩
  else
    let sorted := sortOn SubnetStateEntry.sortKey entries
    let tree := BinaryMerkleTree.buildFromHashes H (sorted.map (·.leafHash H))
    ⟨sorted, tree, tree.root H⟩

/-- `aggregation.rs:215-217`. -/
def root (tree : SubnetAggregationTree D) : D := tree.globalRoot

/-- With distinct subnets the tree does not depend on the order of the entries. -/
theorem build_eq_of_perm {entries entries' : List (SubnetStateEntry D)}
    (hp : entries.Perm entries') (hi : (entries.map (·.subnetId)).Nodup) :
    build H entries = build H entries' := by
  have hk : (entries.map SubnetStateEntry.sortKey).Nodup := by
    rw [List.nodup_map_iff_inj_on (List.Nodup.of_map _ hi)]
    intro a ha b hb h
    exact List.inj_on_of_nodup_map hi ha hb (SubnetStateEntry.subnetId_eq_of_sortKey_eq h)
  unfold build
  rw [sortOn_eq_of_perm hp hk, hp.isEmpty_eq]

end SubnetAggregationTree

end Setu.Merkle
