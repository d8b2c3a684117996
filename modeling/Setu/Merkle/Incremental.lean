import Setu.Merkle.SparseGetProof

/-!
# The incremental sparse Merkle tree

Library `Merkle`. Source `crates/setu-merkle/src/sparse.rs:824-1441`. Tree nodes live in a
store keyed by their hash; an operation rewrites the nodes on one path and returns the new root
hash. The recursions go down the 256 bits of a key: `levels` is `256 - depth`.
-/

namespace Setu.Merkle

open Setu.Base

/-- A stored tree node with its hash; `sparse.rs:830-846`. -/
inductive TreeNode (D : Type) where
  | empty
  | leaf (key : HashValue) (valueHash nodeHash : D)
  | internal (left right nodeHash : D)

/-- Nodes by hash; the field `nodes`, `sparse.rs:906`. -/
abbrev NodeStore (D : Type) := HashMap D (TreeNode D)

/-- A tree with its leaves, its node store and the keys changed since the last commit;
`sparse.rs:898-913`. -/
structure IncrementalSparseMerkleTree (D : Type) where
  rootHash : D
  leaves : HashMap HashValue Bytes
  nodes : NodeStore D
  dirtyLeaves : HashSet HashValue
  deletedLeaves : HashSet HashValue

variable {D : Type} [DecidableEq D] (H : Blake3 D)

namespace TreeNode

/-- The hash a node carries; `sparse.rs:848-854`. -/
def hash : TreeNode D → D
  | .empty => emptyHash H
  | .leaf _ _ nodeHash => nodeHash
  | .internal _ _ nodeHash => nodeHash

/-- A leaf node with its hash; `sparse.rs:861-864`. -/
def newLeaf (key : HashValue) (valueHash : D) : TreeNode D :=
  .leaf key valueHash (hashSparseLeaf H key valueHash)

/-- An internal node with its hash; `sparse.rs:866-869`. -/
def newInternal (left right : D) : TreeNode D :=
  .internal left right (hashSparseInternal H left right)

end TreeNode

/-- Store a node under its hash and return the hash. -/
def putNode (nodes : NodeStore D) (node : TreeNode D) : NodeStore D × D :=
  (nodes.insert (node.hash H) node, node.hash H)

/-- Split a leaf when a second key arrives at its place; `sparse.rs:1177-1227`. -/
def splitLeaf (existingKey : HashValue) (existingVh : D) (newKey : HashValue)
    (newLeaf : TreeNode D) (depth : Nat) : (levels : Nat) → NodeStore D → NodeStore D × D
  | 0, nodes => (nodes, newLeaf.hash H)
  | levels + 1, nodes =>
    let existingBit := existingKey.bit depth
    let newBit := newKey.bit depth
    if existingBit = newBit then
      let (nodes, subtree) :=
        splitLeaf existingKey existingVh newKey newLeaf (depth + 1) levels nodes
      if existingBit then putNode H nodes (.newInternal H (emptyHash H) subtree)
      else putNode H nodes (.newInternal H subtree (emptyHash H))
    else
      let (nodes, existingHash) := putNode H nodes (.newLeaf H existingKey existingVh)
      let (nodes, newHash) := putNode H nodes newLeaf
      if newBit then putNode H nodes (.newInternal H existingHash newHash)
      else putNode H nodes (.newInternal H newHash existingHash)

/-- Insert a leaf below a node, returning the new subtree hash; `sparse.rs:1110-1174`. -/
def insertAtNode (key : HashValue) (newLeaf : TreeNode D) (depth : Nat) :
    (levels : Nat) → NodeStore D → D → NodeStore D × D
  | 0, nodes, _ => putNode H nodes newLeaf
  | levels + 1, nodes, currentHash =>
    let currentNode :=
      if currentHash = emptyHash H then .empty else (nodes.lookup currentHash).getD .empty
    match currentNode with
    | .empty => putNode H nodes newLeaf
    | .leaf existingKey existingVh _ =>
      if existingKey = key then putNode H nodes newLeaf
      else splitLeaf H existingKey existingVh key newLeaf depth (levels + 1) nodes
    | .internal left right _ =>
      if key.bit depth then
        let (nodes, newRight) := insertAtNode key newLeaf (depth + 1) levels nodes right
        putNode H nodes (.newInternal H left newRight)
      else
        let (nodes, newLeft) := insertAtNode key newLeaf (depth + 1) levels nodes left
        putNode H nodes (.newInternal H newLeft right)

/-- Join two children after a removal, pulling a lone leaf up; `sparse.rs:1262-1298`. -/
def collapseNode (nodes : NodeStore D) (newLeft newRight : D) : NodeStore D × D :=
  if newLeft = emptyHash H ∧ newRight = emptyHash H then (nodes, emptyHash H)
  else if newLeft = emptyHash H then
    match nodes.lookup newRight with
    | some (.leaf _ _ _) => (nodes, newRight)
    | _ => putNode H nodes (.newInternal H newLeft newRight)
  else if newRight = emptyHash H then
    match nodes.lookup newLeft with
    | some (.leaf _ _ _) => (nodes, newLeft)
    | _ => putNode H nodes (.newInternal H newLeft newRight)
  else putNode H nodes (.newInternal H newLeft newRight)

/-- Remove a key below a node, returning the new subtree hash; `sparse.rs:1230-1300`. An
internal node below the last bit, where the source's bit access would panic, is left as it is;
no reachable tree has one. -/
def removeAtNode (key : HashValue) (depth levels : Nat) (nodes : NodeStore D)
    (currentHash : D) : NodeStore D × D :=
  if currentHash = emptyHash H then (nodes, emptyHash H)
  else
    match nodes.lookup currentHash with
    | none => (nodes, emptyHash H)
    | some .empty => (nodes, emptyHash H)
    | some (.leaf leafKey _ _) =>
      if leafKey = key then (nodes, emptyHash H) else (nodes, currentHash)
    | some (.internal left right _) =>
      match levels with
      | 0 => (nodes, currentHash)
      | levels + 1 =>
        if key.bit depth then
          let (nodes, newRight) := removeAtNode key (depth + 1) levels nodes right
          collapseNode H nodes left newRight
        else
          let (nodes, newLeft) := removeAtNode key (depth + 1) levels nodes left
          collapseNode H nodes newLeft right

/-- The loop of `get_proof` from a node downwards: the siblings pushed and the leaf returned. It
makes at most `levels` turns and looks at no node after the last one; `sparse.rs:1307-1341`. -/
def proofLoop (nodes : NodeStore D) (key : HashValue) (depth : Nat) :
    (levels : Nat) → D → List D × Option (SparseMerkleLeafNode D)
  | 0, _ => ([], none)
  | levels + 1, currentHash =>
    if currentHash = emptyHash H then ([], none)
    else
      match nodes.lookup currentHash with
      | none => ([], none)
      | some .empty => ([], none)
      | some (.leaf leafKey valueHash _) => ([], some ⟨leafKey, valueHash⟩)
      | some (.internal left right _) =>
        if key.bit depth then
          let below := proofLoop nodes key (depth + 1) levels right
          (left :: below.1, below.2)
        else
          let below := proofLoop nodes key (depth + 1) levels left
          (right :: below.1, below.2)

/-- Mark the hashes reachable from a node; `sparse.rs:1427-1441`. The recursion enters each
stored node at most once, so the number of stored nodes bounds its depth. -/
def markReachable (nodes : NodeStore D) : (fuel : Nat) → D → HashSet D → HashSet D
  | 0, _, reachable => reachable
  | fuel + 1, hash, reachable =>
    if hash = emptyHash H ∨ hash ∈ reachable then reachable
    else
      let reachable := reachable.insert hash ()
      match nodes.lookup hash with
      | some (.internal left right _) =>
        markReachable nodes fuel right (markReachable nodes fuel left reachable)
      | _ => reachable

namespace IncrementalSparseMerkleTree

/-- The empty tree; `sparse.rs:951-959`. -/
def new : IncrementalSparseMerkleTree D := ⟨emptyHash H, ∅, ∅, ∅, ∅⟩

section Updates

variable (tree : IncrementalSparseMerkleTree D) (key : HashValue)

/-- Insert or replace a value without recording the change, for recovery;
`sparse.rs:1058-1076`. -/
def insertWithoutTracking (value : Bytes) : IncrementalSparseMerkleTree D × Option Bytes :=
  let newLeaf := TreeNode.newLeaf H key (hashValue H value)
  let written := insertAtNode H key newLeaf 0 256 tree.nodes tree.rootHash
  ({ tree with
      rootHash := written.2
      nodes := written.1
      leaves := tree.leaves.insert key value }, tree.leaves.lookup key)

/-- Insert or replace a value; `sparse.rs:1031-1055`. -/
def insert (tree : IncrementalSparseMerkleTree D) (key : HashValue) (value : Bytes) :
    IncrementalSparseMerkleTree D × Option Bytes :=
  insertWithoutTracking H
    { tree with
      dirtyLeaves := tree.dirtyLeaves.insert key ()
      deletedLeaves := tree.deletedLeaves.erase key } key value

/-- Replay persisted leaves in key order; `sparse.rs:974-996`. -/
def fromLeaves (leaves : HashMap HashValue Bytes) : IncrementalSparseMerkleTree D :=
  let sorted := leaves.toList.insertionSort fun a b ↦ a.1.asBytes ≤ b.1.asBytes
  sorted.foldl (fun tree e ↦ (insertWithoutTracking H tree e.1 e.2).1) (new H)

/-- Remove a key; `sparse.rs:1082-1098`. -/
def remove : IncrementalSparseMerkleTree D × Option Bytes :=
  match tree.leaves.lookup key with
  | none => (tree, none)
  | some old =>
    let written := removeAtNode H key 0 256 tree.nodes tree.rootHash
    ({ rootHash := written.2
       nodes := written.1
       leaves := tree.leaves.erase key
       dirtyLeaves := tree.dirtyLeaves.erase key
       deletedLeaves := tree.deletedLeaves.insert key () }, some old)

/-- Insert several entries, one after the other; `sparse.rs:1103-1107`. -/
def batchInsert (entries : List (HashValue × Bytes)) : IncrementalSparseMerkleTree D :=
  entries.foldl (fun tree e ↦ (insert H tree e.1 e.2).1) tree

/-- A proof for a key, from the stored nodes; `sparse.rs:1303-1342`. -/
def getProof : SparseMerkleProof D :=
  let found := proofLoop H tree.nodes key 0 256 tree.rootHash
  ⟨found.1, found.2⟩

/-- Drop the nodes that the root no longer reaches; `sparse.rs:1357-1362`. -/
def gc : IncrementalSparseMerkleTree D :=
  let reachable := markReachable H tree.nodes (tree.nodes.entries.length + 1) tree.rootHash ∅
  { tree with nodes := tree.nodes.retain fun hash _ ↦ decide (hash ∈ reachable) }

/-- A copy for temporary calculations, with the change tracking reset; `sparse.rs:931-940`. -/
def clone : IncrementalSparseMerkleTree D :=
  { tree with dirtyLeaves := ∅, deletedLeaves := ∅ }

/-- Leaves to write and keys to delete since the last commit; `sparse.rs:916-921`. -/
structure LeafChanges where
  upserts : List (HashValue × Bytes)
  deletes : List HashValue

/-- Hand out the recorded changes and reset the tracking; `sparse.rs:1399-1407`. -/
def takeChanges : LeafChanges × IncrementalSparseMerkleTree D :=
  (⟨tree.dirtyLeaves.keys.filterMap fun key ↦ (tree.leaves.lookup key).map (key, ·),
    tree.deletedLeaves.keys⟩, tree.clone)

/-- Whether changes wait for a commit; `sparse.rs:1413-1415`. -/
def hasPendingChanges : Bool :=
  !tree.dirtyLeaves.keys.isEmpty || !tree.deletedLeaves.keys.isEmpty

/-- An update of the tree. -/
inductive Op where
  | insert (key : HashValue) (value : Bytes)
  | remove (key : HashValue)
  | batchInsert (entries : List (HashValue × Bytes))
  | gc

/-- The effect of one update. -/
def apply : Op → IncrementalSparseMerkleTree D
  | .insert key value => (tree.insert H key value).1
  | .remove key => (tree.remove H key).1
  | .batchInsert entries => tree.batchInsert H entries
  | .gc => tree.gc H

/-- The effect of a history of updates. -/
def run (ops : List Op) : IncrementalSparseMerkleTree D :=
  ops.foldl (apply H) tree

/-- What an update does to the key-value map, seen from outside. -/
def Op.onMap (m : HashValue → Option Bytes) : Op → HashValue → Option Bytes
  | .insert key value => Function.update m key (some value)
  | .remove key => Function.update m key none
  | .batchInsert entries => HashMap.updateAll m entries
  | .gc => m

end Updates

/-- Where a history starts: empty, or recovered from persisted leaves. -/
inductive Start where
  | empty
  | fromLeaves (leaves : HashMap HashValue Bytes)

/-- The tree a history starts with. -/
def Start.tree : Start → IncrementalSparseMerkleTree D
  | .empty => new H
  | .fromLeaves leaves => IncrementalSparseMerkleTree.fromLeaves H leaves

/-- The key-value map a history starts with, seen from outside. -/
def Start.map : Start → HashValue → Option Bytes
  | .empty => fun _ ↦ none
  | .fromLeaves leaves => fun key ↦ leaves.lookup key

end IncrementalSparseMerkleTree

end Setu.Merkle
