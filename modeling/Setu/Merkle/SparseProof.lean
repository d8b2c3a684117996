import Setu.Merkle.SparseTree

/-!
# Verifying sparse Merkle proofs

Library `Merkle`. Source `crates/setu-merkle/src/sparse.rs:94-265`. A proof is whatever a
prover sends: any sibling list and any leaf. The verifiers return `none` where the source
panics, which is when a proof has more than 256 siblings and `HashValue::bit` is asked for a
bit that does not exist.
-/

namespace Setu.Merkle

open Setu.Base SparseMerkleTree BitTrie

/-- The leaf carried by a proof; `sparse.rs:105-108`. -/
structure SparseMerkleLeafNode (D : Type) where
  key : HashValue
  valueHash : D
deriving DecidableEq

/-- Sibling hashes listed from the root down, and the leaf found there; `sparse.rs:96-101`. -/
structure SparseMerkleProof (D : Type) where
  siblings : List D
  leaf : Option (SparseMerkleLeafNode D)
deriving DecidableEq

/-- Errors of tree operations and of the storage backend; `error.rs:10-51`. -/
inductive MerkleError where
  | invalidProof (reason : String)
  | indexOutOfBounds (index size : Nat)
  | keyNotFound
  | emptyTree
  | storageError (reason : String)
deriving DecidableEq

/-- Display of an error; `error.rs:12-41`. -/
def MerkleError.toString : MerkleError → String
  | .invalidProof reason => "Invalid proof: " ++ reason
  | .indexOutOfBounds index size => s!"Index out of bounds: {index} >= {size}"
  | .keyNotFound => "Key not found"
  | .emptyTree => "Cannot perform operation on empty tree"
  | .storageError reason => "Storage error: " ++ reason

/-- Display of a key, `0x` and hexadecimal digits; `hash.rs:105-109`. -/
def HashValue.display (key : HashValue) : String := "0x" ++ hexEncode key.asBytes

variable {D : Type} (H : Blake3 D)

/-- Display of a digest; `hash.rs:105-109`. -/
def displayHash (digest : D) : String := "0x" ++ hexEncode (H.asBytes digest)

/-- The hash of a proof's leaf; `sparse.rs:112-114`. -/
def SparseMerkleLeafNode.hash (leaf : SparseMerkleLeafNode D) : D :=
  hashSparseLeaf H leaf.key leaf.valueHash

namespace SparseMerkleProof

/-- One step up: the bit at the sibling's depth says on which side the path is;
`sparse.rs:249-262`. -/
def climb (key : HashValue) (entry : D × Nat) (current : Option D) : Option D := do
  let current ← current
  let bit ← key.bitChecked entry.2
  some (if bit then hashSparseInternal H entry.1 current
    else hashSparseInternal H current entry.1)

variable (proof : SparseMerkleProof D)

/-- The root a proof computes from a leaf hash, last sibling first; `sparse.rs:242-265`. -/
def computeRootFromLeaf (key : HashValue) (leafHash : D) : Option D :=
  proof.siblings.zipIdx.foldr (climb H key) (some leafHash)

variable [DecidableEq D]

/-- The comparison both verifiers end with, and its message; `sparse.rs:182-189,231-238`. -/
def checkRoot (root computedRoot : D) (detail : String) : Except MerkleError Unit :=
  if computedRoot = root then .ok ()
  else .error (.invalidProof ("Root mismatch: expected " ++ displayHash H root ++
    ", computed " ++ displayHash H computedRoot ++ detail))

/-- Check a claimed entry; `sparse.rs:154-191`. -/
def verifyInclusion (root : D) (key : HashValue) (value : Bytes)
    : Option (Except MerkleError Unit) :=
  match proof.leaf with
  | none => some (.error (.invalidProof "Inclusion proof must have a leaf"))
  | some leaf =>
    if leaf.key ≠ key then
      some (.error (.invalidProof ("Leaf key mismatch: expected " ++ key.display ++
        ", got " ++ leaf.key.display)))
    else if leaf.valueHash ≠ hashValue H value then
      some (.error (.invalidProof "Value hash mismatch"))
    else
      (proof.computeRootFromLeaf H key (leaf.hash H)).map fun computedRoot ↦
        checkRoot H root computedRoot ""

/-- Check a claimed absence: an empty place on the key's path, or a foreign leaf whose path the
key shares; `sparse.rs:203-240`. -/
def verifyNonInclusion (root : D) (key : HashValue) : Option (Except MerkleError Unit) :=
  match proof.leaf with
  | none =>
    (proof.computeRootFromLeaf H key (emptyHash H)).map fun computedRoot ↦
      checkRoot H root computedRoot (" (leaf_hash: " ++ displayHash H (emptyHash H) ++ ")")
  | some leaf =>
    if leaf.key = key then
      some (.error (.invalidProof "Key exists in tree, cannot prove non-inclusion"))
    else if key.commonPrefixBits leaf.key < proof.siblings.length then
      some (.error (.invalidProof "Proof path doesn't match key"))
    else
      (proof.computeRootFromLeaf H leaf.key (leaf.hash H)).map fun computedRoot ↦
        checkRoot H root computedRoot (" (leaf_hash: " ++ displayHash H (leaf.hash H) ++ ")")

end SparseMerkleProof

namespace SparseMerkleProof

variable {H} {key : HashValue}

private theorem foldr_climb {leafHash : D} {d : Nat} {sibs : List D}
    (hl : d + sibs.length ≤ 256) :
    (sibs.zipIdx d).foldr (climb H key) (some leafHash) =
      some (rootFrom (sparseHash H) HashValue.bitKeys key leafHash d sibs) := by
  induction sibs generalizing d with
  | nil => rfl
  | cons s rest ih =>
    rw [List.length_cons] at hl
    rw [List.zipIdx_cons, List.foldr_cons, ih (by omega), rootFrom]
    have hb : key.bitChecked d = some (HashValue.bitKeys.bit key d) := if_pos (by omega)
    simp only [climb, hb, Option.bind_eq_bind, Option.bind_some]
    split <;> rfl

private theorem foldr_climb_eq_none {leafHash : D} {d : Nat} {sibs : List D}
    (hl : 256 < d + sibs.length) (hne : sibs ≠ []) :
    (sibs.zipIdx d).foldr (climb H key) (some leafHash) = none := by
  induction sibs generalizing d with
  | nil => exact absurd rfl hne
  | cons s rest ih =>
    rw [List.length_cons] at hl
    rw [List.zipIdx_cons, List.foldr_cons]
    by_cases hr : rest = []
    · subst hr
      have hb : key.bitChecked d = none := if_neg (by simp at hl; omega)
      simp [climb, hb]
    · rw [ih (by omega) hr]
      rfl

/-- A proof computes a root exactly when it has at most 256 siblings. -/
theorem computeRootFromLeaf_eq (proof : SparseMerkleProof D) (key : HashValue) (leafHash : D) :
    proof.computeRootFromLeaf H key leafHash =
      if proof.siblings.length ≤ 256 then
        some (rootFrom (sparseHash H) HashValue.bitKeys key leafHash 0 proof.siblings)
      else none := by
  rw [computeRootFromLeaf]
  split
  · next hl => exact foldr_climb (by omega)
  · next hl =>
    refine foldr_climb_eq_none (by omega) ?_
    intro hn
    simp [hn] at hl

variable [DecidableEq D]

private theorem checkRoot_eq_ok {root computedRoot : D} {detail : String} :
    checkRoot H root computedRoot detail = .ok () ↔ computedRoot = root := by
  rw [checkRoot]
  split <;> simp_all

variable {proof : SparseMerkleProof D}

private theorem computeRoot_check {root leafHash : D} {detail : String} :
    (proof.computeRootFromLeaf H key leafHash).map (checkRoot H root · detail) =
        some (.ok ()) ↔
      proof.siblings.length ≤ 256 ∧
        rootFrom (sparseHash H) HashValue.bitKeys key leafHash 0 proof.siblings =
          root := by
  rw [computeRootFromLeaf_eq]
  split
  · next hl => rw [Option.map_some, Option.some.injEq, checkRoot_eq_ok, and_iff_right hl]
  · next hl => simp [hl]

/-- What an accepted inclusion proof is. -/
theorem verifyInclusion_eq_ok {root : D} {value : Bytes} :
    proof.verifyInclusion H root key value = some (.ok ()) ↔
      proof.leaf = some ⟨key, hashValue H value⟩ ∧ proof.siblings.length ≤ 256 ∧
      rootFrom (sparseHash H) HashValue.bitKeys key
        (hashSparseLeaf H key (hashValue H value)) 0 proof.siblings = root := by
  rw [verifyInclusion]
  cases proof.leaf with
  | none => simp
  | some leaf =>
    obtain ⟨leafKey, valueHash⟩ := leaf
    by_cases hk : leafKey = key
    · by_cases hv : valueHash = hashValue H value
      · subst hk hv
        simp only [ne_eq, not_true_eq_false, if_false, true_and]
        exact computeRoot_check
      · simp [hk, hv]
    · simp [hk]

/-- What an accepted non-inclusion proof is. -/
theorem verifyNonInclusion_eq_ok {root : D} :
    proof.verifyNonInclusion H root key = some (.ok ()) ↔
      (proof.leaf = none ∧ proof.siblings.length ≤ 256 ∧
        rootFrom (sparseHash H) HashValue.bitKeys key (emptyHash H) 0 proof.siblings =
          root) ∨
      ∃ leaf, proof.leaf = some leaf ∧ leaf.key ≠ key ∧
        proof.siblings.length ≤ key.commonPrefixBits leaf.key ∧ proof.siblings.length ≤ 256 ∧
        rootFrom (sparseHash H) HashValue.bitKeys leaf.key
          (hashSparseLeaf H leaf.key leaf.valueHash) 0 proof.siblings = root := by
  rw [verifyNonInclusion]
  cases proof.leaf with
  | none =>
    simp only [computeRoot_check]
    simp
  | some leaf =>
    by_cases hk : leaf.key = key
    · simp [hk]
    · by_cases hs : key.commonPrefixBits leaf.key < proof.siblings.length
      · simp [hk, hs]
      · simp only [hk, hs, if_false, computeRoot_check]
        constructor
        · rintro ⟨hl, hr⟩
          exact .inr ⟨leaf, rfl, hk, Nat.not_lt.mp hs, hl, hr⟩
        · rintro (⟨hn, -⟩ | ⟨_, hle, -, -, h⟩)
          · cases hn
          · cases hle
            exact h

variable {leaves : HashMap HashValue Bytes} {t : BitTrie HashValue D}

/-- An accepted inclusion proof pins the value in the committed map. -/
theorem verifyInclusion_sound (hH : H.CollisionFree) (ht : TrieOf H leaves t) {value : Bytes}
    (hok : proof.verifyInclusion H (t.digest (sparseHash H)) key value = some (.ok ())) :
    leaves.lookup key = some value := by
  obtain ⟨-, -, hr⟩ := verifyInclusion_eq_ok.mp hok
  have hN := sparseHash_separated hH
  obtain ⟨s, hs, hd⟩ := descend_of_rootFrom_eq hN hr
  obtain rfl := (digest_eq_leaf hN).mp hd
  obtain ⟨m', hm', ha⟩ := BitTrie.Canonical.descend ht hs
  cases hm' with
  | leaf hk _ =>
    rw [ha key fun _ _ _ ↦ rfl] at hk
    obtain ⟨v, hv, hh⟩ := Option.map_eq_some_iff.mp hk
    rwa [← hH.hash_inj.mp hh]

/-- An accepted non-inclusion proof pins the absence from the committed map. -/
theorem verifyNonInclusion_sound (hH : H.CollisionFree) (ht : TrieOf H leaves t)
    (hok : proof.verifyNonInclusion H (t.digest (sparseHash H)) key = some (.ok ())) :
    leaves.lookup key = none := by
  have hN := sparseHash_separated hH
  suffices hn : valueHashes H leaves key = none by
    simpa [valueHashes] using hn
  rcases verifyNonInclusion_eq_ok.mp hok with
    ⟨-, -, hr⟩ | ⟨leaf, -, hk, hsh, hl, hr⟩
  · obtain ⟨s, hs, hd⟩ := descend_of_rootFrom_eq hN hr
    obtain rfl := (digest_eq_empty hN).mp hd
    obtain ⟨m', hm', ha⟩ := BitTrie.Canonical.descend ht hs
    cases hm' with
    | empty hm => rw [← ha key fun _ _ _ ↦ rfl, hm]
  · -- the key takes the foreign leaf's path all the way down to it
    obtain ⟨s, hs, hd⟩ := descend_of_rootFrom_eq hN hr
    obtain rfl := (digest_eq_leaf hN).mp hd
    obtain ⟨m', hm', ha⟩ := BitTrie.Canonical.descend ht hs
    have hp : HashValue.bitKeys.Along leaf.key 0 proof.siblings.length key :=
      BitKeys.along_zero.mpr ((HashValue.le_commonPrefixBits hl).mp hsh)
    cases hm' with
    | leaf _ hm => rw [← ha key hp, hm key (Ne.symm hk)]

/-- Whatever proofs are presented against the root of a map, an accepted inclusion proof pins the
key's value, an accepted non-inclusion proof its absence, and no key has both. -/
theorem verify_sound (hH : H.CollisionFree) (m : HashMap HashValue Bytes) (root₀ : D)
    (proof : SparseMerkleProof D) (key : HashValue) :
    (∀ value, proof.verifyInclusion H (SparseMerkleTree.restore H ⟨root₀, m⟩).rootHash key value =
        some (.ok ()) → m.lookup key = some value) ∧
    (proof.verifyNonInclusion H (SparseMerkleTree.restore H ⟨root₀, m⟩).rootHash key =
        some (.ok ()) → m.lookup key = none) ∧
    ¬∃ (proof' : SparseMerkleProof D) (value : Bytes),
      proof'.verifyInclusion H (SparseMerkleTree.restore H ⟨root₀, m⟩).rootHash key value =
          some (.ok ()) ∧
        proof.verifyNonInclusion H (SparseMerkleTree.restore H ⟨root₀, m⟩).rootHash key =
          some (.ok ()) := by
  have ht := mapTrie_trieOf (H := H) m
  rw [SparseMerkleTree.restore_rootHash]
  refine ⟨fun value ↦ verifyInclusion_sound hH ht, verifyNonInclusion_sound hH ht, ?_⟩
  rintro ⟨proof', value, hin, ho⟩
  have hin := verifyInclusion_sound hH ht hin
  rw [verifyNonInclusion_sound hH ht ho] at hin
  cases hin

/-- The one-entry map with the all-zero key. -/
def singleLeaf : HashMap HashValue Bytes := AList.singleton ⟨Vector.replicate 32 0⟩ [7]

/-- The proof a tree with one leaf gives for it. -/
def singleProof : SparseMerkleProof (Option Bytes) :=
  ⟨[], some ⟨⟨Vector.replicate 32 0⟩, hashValue Blake3.ideal [7]⟩⟩

/-- The proof of a lone leaf is accepted, so the map holds it. -/
theorem verify_sound_singleLeaf :
    singleProof.verifyInclusion Blake3.ideal
        (SparseMerkleTree.restore Blake3.ideal ⟨Blake3.ideal.zero, singleLeaf⟩).rootHash
        ⟨Vector.replicate 32 0⟩ [7] = some (.ok ()) ∧
      singleLeaf.lookup ⟨Vector.replicate 32 0⟩ = some [7] := by
  have hok : singleProof.verifyInclusion Blake3.ideal
      (SparseMerkleTree.restore Blake3.ideal ⟨Blake3.ideal.zero, singleLeaf⟩).rootHash
      ⟨Vector.replicate 32 0⟩ [7] = some (.ok ()) := by rfl
  exact ⟨hok, (verify_sound Blake3.ideal_collisionFree singleLeaf _ singleProof _).1 _ hok⟩

end SparseMerkleProof

end Setu.Merkle
