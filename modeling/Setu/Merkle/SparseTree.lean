import Mathlib.Data.List.Perm.Basic
import Mathlib.Data.List.Sort
import Setu.Base.HashMap
import Setu.Merkle.HashValue

/-!
# The rebuilding sparse Merkle tree

Library `Merkle`. Source `crates/setu-merkle/src/sparse.rs:283-594`. The tree keeps its
key-value map and recomputes the root from scratch after every change, by partitioning the
leaves bit by bit. The source's `nodes` field is a cache that is written and never read, and
is not modelled.
-/

namespace Setu.Merkle

open Setu.Base

/-- A sparse Merkle tree over a key-value map; `sparse.rs:284-293`. -/
structure SparseMerkleTree (D : Type) where
  rootHash : D
  leaves : HashMap HashValue Bytes

/-- A saved tree; `sparse.rs:588-591`. -/
structure SparseMerkleTreeSnapshot (D : Type) where
  rootHash : D
  leaves : HashMap HashValue Bytes

variable {D : Type} (H : Blake3 D)

/-- Recursively hash the subtree of a leaf list; `levels` is `256 - depth`.
`sparse.rs:531-562`. -/
def buildSubtree (depth : Nat) : (levels : Nat) → List (HashValue × D) → D
  | _, [] => emptyHash H
  | _, [leaf] => leaf.2
  | 0, leaf :: _ :: _ => leaf.2
  | levels + 1, leaf₁ :: leaf₂ :: rest =>
    let (left, right) := (leaf₁ :: leaf₂ :: rest).partition fun e ↦ !e.1.bit depth
    hashSparseInternal H (buildSubtree (depth + 1) levels left)
      (buildSubtree (depth + 1) levels right)

/-- The leaf hashes of a map, in iteration order; `sparse.rs:511-521`. -/
def leafHashes (leaves : HashMap HashValue Bytes) : List (HashValue × D) :=
  leaves.toList.map fun e ↦ (e.1, hashSparseLeaf H e.1 (hashValue H e.2))

namespace SparseMerkleTree

variable (tree : SparseMerkleTree D)

/-- Recompute the root from the leaves, sorted by key; `sparse.rs:502-528`. -/
def rebuildTree : SparseMerkleTree D :=
  if tree.leaves.entries.isEmpty then { tree with rootHash := emptyHash H }
  else
    let sorted := (leafHashes H tree.leaves).insertionSort fun a b ↦ a.1.asBytes ≤ b.1.asBytes
    { tree with rootHash := buildSubtree H 0 256 sorted }

/-- Rebuild a tree from a snapshot's leaves; `sparse.rs:573-581`. -/
def restore (snapshot : SparseMerkleTreeSnapshot D) : SparseMerkleTree D :=
  rebuildTree H ⟨snapshot.rootHash, snapshot.leaves⟩

end SparseMerkleTree

/-- The value hashes of a key-value map, as the map the tree commits to. -/
def valueHashes (leaves : HashMap HashValue Bytes) : HashValue → Option D :=
  fun key ↦ (leaves.lookup key).map (hashValue H)

/-- `t` is the trie of a key-value map. -/
def TrieOf (leaves : HashMap HashValue Bytes) (t : BitTrie HashValue D) : Prop :=
  BitTrie.Canonical HashValue.bitKeys 0 t (valueHashes H leaves)

variable {H} {l : List (HashValue × D)}

/-- With two or more leaves the subtree hash is that of an internal node over the two halves. -/
theorem buildSubtree_of_two_le {depth levels : Nat} (h : 2 ≤ l.length) :
    buildSubtree H depth (levels + 1) l =
      hashSparseInternal H
        (buildSubtree H (depth + 1) levels (l.filter fun e ↦ !e.1.bit depth))
        (buildSubtree H (depth + 1) levels (l.filter fun e ↦ e.1.bit depth)) := by
  match l with
  | [] => simp at h
  | [_] => simp at h
  | leaf₁ :: leaf₂ :: rest =>
    rw [buildSubtree, List.partition_eq_filter_filter]
    simp only [Function.comp_def, Bool.not_not]

/-- The recursion over leaf hashes computes the digest of the trie built from the leaves. -/
theorem buildSubtree_eq_digest (depth levels : Nat) (l : List (HashValue × D)) :
    buildSubtree H depth levels (l.map fun e ↦ (e.1, hashSparseLeaf H e.1 e.2)) =
      (BitTrie.build HashValue.bitKeys depth levels l).digest (sparseHash H) := by
  induction levels generalizing depth l with
  | zero =>
    match l with
    | [] => rfl
    | [_] => rfl
    | _ :: _ :: _ => rfl
  | succ levels ih =>
    match l with
    | [] => rfl
    | [_] => rfl
    | e₁ :: e₂ :: rest =>
      rw [buildSubtree_of_two_le (by simp), List.filter_map, List.filter_map]
      rw [BitTrie.build, BitTrie.digest, ← ih, ← ih]
      rfl

/-- The keys of a map with the hashes of their values, in iteration order. -/
def valueEntries (H : Blake3 D) (leaves : HashMap HashValue Bytes) : List (HashValue × D) :=
  leaves.toList.map fun e ↦ (e.1, hashValue H e.2)

/-- Leaf hashes are hashes of keys and value hashes. -/
theorem leafHashes_eq (leaves : HashMap HashValue Bytes) :
    leafHashes H leaves =
      (valueEntries H leaves).map fun e ↦ (e.1, hashSparseLeaf H e.1 e.2) := by
  rw [leafHashes, valueEntries, List.map_map]
  rfl

variable {leaves : HashMap HashValue Bytes}

/-- The hashed entries are the graph of the committed map. -/
theorem mem_valueEntries {k : HashValue} {vh : D} :
    (k, vh) ∈ valueEntries H leaves ↔ valueHashes H leaves k = some vh := by
  rw [valueEntries, valueHashes, List.mem_map, Option.map_eq_some_iff]
  constructor
  · rintro ⟨⟨k', v⟩, hm, heq⟩
    obtain ⟨rfl, rfl⟩ := Prod.mk.inj heq
    exact ⟨v, HashMap.mem_toList.mp hm, rfl⟩
  · rintro ⟨v, hl, rfl⟩
    exact ⟨(k, v), HashMap.mem_toList.mpr hl, rfl⟩

/-- No hashed entry is listed twice. -/
theorem nodup_valueEntries (leaves : HashMap HashValue Bytes) :
    (valueEntries H leaves).Nodup := by
  apply List.Nodup.of_map Prod.fst
  rw [valueEntries, List.map_map]
  exact leaves.nodup_keys_toList

/-- A trie built from any listing of the hashed entries is the map's trie. -/
theorem build_trieOf (hl : l.Perm (valueEntries H leaves)) :
    TrieOf H leaves (BitTrie.build HashValue.bitKeys 0 256 l) := by
  refine BitTrie.build_canonical rfl (hl.nodup_iff.mpr (nodup_valueEntries leaves)) ?_ ?_
  · intro k vh
    rw [hl.mem_iff, mem_valueEntries]
  · intro a b _ _ i hi
    exact absurd hi (Nat.not_lt_zero i)

/-- The trie of a key-value map. -/
def mapTrie (H : Blake3 D) (leaves : HashMap HashValue Bytes) : BitTrie HashValue D :=
  BitTrie.build HashValue.bitKeys 0 256 (valueEntries H leaves)

/-- Every map has its trie. -/
theorem mapTrie_trieOf (leaves : HashMap HashValue Bytes) : TrieOf H leaves (mapTrie H leaves) :=
  build_trieOf (List.Perm.refl _)

/-- The trie of a map depends on its lookups only. -/
theorem TrieOf.eq_mapTrie {leaves' : HashMap HashValue Bytes} {t : BitTrie HashValue D}
    (ht : TrieOf H leaves t) (hl : ∀ k, leaves.lookup k = leaves'.lookup k) :
    t = mapTrie H leaves' := by
  refine BitTrie.Canonical.unique (ht.congr fun k ↦ ?_) (mapTrie_trieOf leaves')
  rw [valueHashes, valueHashes, hl]

/-- Hashing any listing of the leaves gives the digest of the map's trie. -/
theorem buildSubtree_of_perm (hl : l.Perm (leafHashes H leaves)) :
    buildSubtree H 0 256 l = (mapTrie H leaves).digest (sparseHash H) := by
  rw [leafHashes_eq] at hl
  obtain ⟨entries, rfl, hp⟩ := (congrFun₂ (List.eq_map_comp_perm _) l _).mpr hl
  rw [buildSubtree_eq_digest, (build_trieOf hp).eq_mapTrie fun _ ↦ rfl]

namespace SparseMerkleTree

/-- The rebuilt root is the digest of the trie of the leaves. -/
theorem rebuildTree_rootHash (tree : SparseMerkleTree D) :
    (rebuildTree H tree).rootHash = (mapTrie H tree.leaves).digest (sparseHash H) := by
  rw [rebuildTree]
  split
  · next he =>
    rw [← buildSubtree_of_perm (List.Perm.refl (leafHashes H tree.leaves)), leafHashes,
      HashMap.toList, List.isEmpty_iff.mp he]
    rfl
  · exact buildSubtree_of_perm (List.perm_insertionSort _ _)

/-- Rebuilding keeps the leaves. -/
@[simp]
theorem rebuildTree_leaves (tree : SparseMerkleTree D) :
    (rebuildTree H tree).leaves = tree.leaves := by
  rw [rebuildTree]
  split <;> rfl

variable (snapshot : SparseMerkleTreeSnapshot D)

/-- A restored tree commits to the snapshot's leaves. -/
theorem restore_rootHash :
    (restore H snapshot).rootHash = (mapTrie H snapshot.leaves).digest (sparseHash H) :=
  rebuildTree_rootHash _

/-- A restored tree holds the snapshot's leaves. -/
@[simp]
theorem restore_leaves : (restore H snapshot).leaves = snapshot.leaves :=
  rebuildTree_leaves _

end SparseMerkleTree

end Setu.Merkle
