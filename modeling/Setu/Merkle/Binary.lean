import Setu.Base.Blake3

/-!
# The binary Merkle tree

Library `Merkle`. Commitment to a list of leaves, built level by level; a level of odd size is
padded with an empty node. Source `crates/setu-merkle/src/binary.rs:33-293`,
`crates/setu-merkle/src/hash.rs:167-181`.
-/

namespace Setu.Merkle

open Setu.Base

variable {D : Type} (H : Blake3 D)

/-- Hash of a leaf, `hash.rs:179-181`. -/
def hashLeaf (data : Bytes) : D := H.hash (0x00 :: data)

/-- Hash of two children, `hash.rs:168-176`. -/
def hashInternal (left right : D) : D := H.hash (0x01 :: (H.asBytes left ++ H.asBytes right))

/-- A node, `binary.rs:33-38`: a padding placeholder or a hash. -/
inductive Node (D : Type) where
  | empty
  | ofHash (hash : D)

/-- `binary.rs:42-47`. -/
def Node.hash : Node D → D
  | .empty => H.zero
  | .ofHash hash => hash

/-- `From<HashValue>`, `binary.rs:61-69`: the zero hash is the empty node. -/
def Node.fromHash (hash : D) : Node D :=
  if H.asBytes hash = H.asBytes H.zero then .empty else .ofHash hash

/-- All nodes level by level, leaves first, `binary.rs:178-184`. -/
structure BinaryMerkleTree (D : Type) where
  nodes : List (Node D)
  nLeaves : Nat

namespace BinaryMerkleTree

/-- `binary.rs:263-268`. -/
def computeParent : Node D → Node D → Node D
  | .empty, .empty => .empty
  | left, right => .ofHash (hashInternal H (left.hash H) (right.hash H))

/-- Pad a level to even size, `binary.rs:238-242`. -/
def padLevel (level : List (Node D)) : List (Node D) :=
  if level.length % 2 = 1 then level ++ [.empty] else level

/-- The next level of a padded one, `binary.rs:246-252`. -/
def parents : List (Node D) → List (Node D)
  | left :: right :: rest => computeParent H left right :: parents rest
  | _ => []

/-- The level loop, `binary.rs:236-256`; a level at least halves, so `fuel` is its size. -/
def buildLevels : (fuel : Nat) → List (Node D) → List (Node D)
  | 0, level => level
  | fuel + 1, level =>
    if level.length ≤ 1 then level
    else padLevel level ++ buildLevels fuel (parents H (padLevel level))

/-- `binary.rs:220-260`. -/
def buildFromLeafNodes (leafNodes : List (Node D)) : BinaryMerkleTree D :=
  ⟨buildLevels H leafNodes.length leafNodes, leafNodes.length⟩

/-- `binary.rs:196-211`. -/
def build (leaves : List Bytes) : BinaryMerkleTree D :=
  buildFromLeafNodes H (leaves.map fun leaf ↦ .ofHash (hashLeaf H leaf))

/-- `binary.rs:214-217`. -/
def buildFromHashes (leafHashes : List D) : BinaryMerkleTree D :=
  buildFromLeafNodes H (leafHashes.map (Node.fromHash H))

/-- `binary.rs:286-288`. -/
def root (tree : BinaryMerkleTree D) : D :=
  match tree.nodes.getLast? with
  | some node => node.hash H
  | none => H.zero

end BinaryMerkleTree

end Setu.Merkle
