import Setu.Merkle.SparseProof

/-!
# Proof generation by the rebuilding tree

Library `Merkle`. Source `crates/setu-merkle/src/sparse.rs:370-497`. A stored key is proved by
its own leaf. An absent key is proved by the stored leaf with the longest common prefix, along
that leaf's path; the source has no proof through an empty place.
-/

namespace Setu.Merkle

open Setu.Base

/-- The last element with the largest measure; `Iterator::max_by_key`. -/
def maxByKey {α : Type} (f : α → Nat) : List α → Option α
  | [] => none
  | x :: rest =>
    match maxByKey f rest with
    | none => some x
    | some y => if f x ≤ f y then some y else some x

variable {D : Type} (H : Blake3 D)

/-- Hash of a subtree, the recursion of `buildSubtree` without its node cache;
`sparse.rs:472-497`. -/
def computeSubtreeHash (depth levels : Nat) (leaves : List (HashValue × D)) : D :=
  buildSubtree H depth levels leaves

/-- The sibling hashes pushed on the way to the target key, and the hash at the end of the way;
`sparse.rs:426-469`. -/
def buildProofPath (targetKey : HashValue) (depth : Nat) : (levels : Nat) →
    List (HashValue × D) → List D × D
  | _, [] => ([], emptyHash H)
  | _, [leaf] => ([], leaf.2)
  | 0, leaf :: _ :: _ => ([], leaf.2)
  | levels + 1, leaf₁ :: leaf₂ :: rest =>
    let (left, right) := (leaf₁ :: leaf₂ :: rest).partition fun e ↦ !e.1.bit depth
    if !targetKey.bit depth then
      let below := buildProofPath targetKey (depth + 1) levels left
      (computeSubtreeHash H (depth + 1) levels right :: below.1, below.2)
    else
      let below := buildProofPath targetKey (depth + 1) levels right
      (computeSubtreeHash H (depth + 1) levels left :: below.1, below.2)

/-- A proof for a key, whether stored or not; `sparse.rs:370-424`. -/
def SparseMerkleTree.getProof (tree : SparseMerkleTree D) (key : HashValue) :
    SparseMerkleProof D :=
  if tree.leaves.entries.isEmpty then ⟨[], none⟩
  else
    let leafNodes := leafHashes H tree.leaves
    let leafOf (k : HashValue) : Option (SparseMerkleLeafNode D) :=
      (tree.leaves.lookup k).map fun v ↦ ⟨k, hashValue H v⟩
    let proofLeaf :=
      match leafOf key with
      | some target => some target
      | none => (maxByKey (fun e ↦ e.1.commonPrefixBits key) leafNodes).bind fun e ↦ leafOf e.1
    let pathKey :=
      match proofLeaf with
      | some leaf => leaf.key
      | none => key
    ⟨(buildProofPath H pathKey 0 256 leafNodes).1, proofLeaf⟩

variable {H}

/-- A largest element is in the list and bounds every other one. -/
theorem maxByKey_spec {α : Type} {f : α → Nat} {l : List α} :
    (l = [] ∧ maxByKey f l = none) ∨
      ∃ x, maxByKey f l = some x ∧ x ∈ l ∧ ∀ y ∈ l, f y ≤ f x := by
  induction l with
  | nil => exact .inl ⟨rfl, rfl⟩
  | cons x rest ih =>
    right
    rcases ih with ⟨rfl, hn⟩ | ⟨z, hz, hme, hm⟩
    · exact ⟨x, by rw [maxByKey, hn], by simp, by simp⟩
    · rw [maxByKey, hz]
      by_cases hle : f x ≤ f z
      · refine ⟨z, by simp [hle], List.mem_cons_of_mem _ hme, fun y hy ↦ ?_⟩
        rcases List.mem_cons.mp hy with rfl | hy
        · exact hle
        · exact hm y hy
      · refine ⟨x, by simp [hle], List.mem_cons_self, fun y hy ↦ ?_⟩
        rcases List.mem_cons.mp hy with rfl | hy
        · exact Nat.le_refl _
        · exact (hm y hy).trans (by omega)

private theorem buildProofPath_of_two_le {key : HashValue} {depth levels : Nat}
    {l : List (HashValue × D)} (h : 2 ≤ l.length) :
    (buildProofPath H key depth (levels + 1) l).1 =
      if key.bit depth then
        buildSubtree H (depth + 1) levels (l.filter fun e ↦ !e.1.bit depth) ::
          (buildProofPath H key (depth + 1) levels (l.filter fun e ↦ e.1.bit depth)).1
      else
        buildSubtree H (depth + 1) levels (l.filter fun e ↦ e.1.bit depth) ::
          (buildProofPath H key (depth + 1) levels (l.filter fun e ↦ !e.1.bit depth)).1 := by
  match l with
  | [] => simp at h
  | [_] => simp at h
  | leaf₁ :: leaf₂ :: rest =>
    rw [buildProofPath, List.partition_eq_filter_filter]
    simp only [Function.comp_def, Bool.not_not, computeSubtreeHash]
    cases key.bit depth <;> rfl

/-- The siblings pushed are the digests of the subtries hanging off the key's path. -/
theorem buildProofPath_eq_siblings (key : HashValue) (depth levels : Nat)
    (l : List (HashValue × D)) :
    (buildProofPath H key depth levels
        (l.map fun e ↦ (e.1, hashSparseLeaf H e.1 e.2))).1 =
      ((BitTrie.build HashValue.bitKeys depth levels l).siblings HashValue.bitKeys key depth).map
        (BitTrie.digest (sparseHash H)) := by
  induction levels generalizing depth l with
  | zero =>
    match l with
    | [] => rfl
    | [_] => rfl
    | _ :: _ :: _ => rfl
  | succ levels ih =>
    match l with
    | [] => rfl
    | [_] => rfl
    | e₁ :: e₂ :: rest =>
      rw [buildProofPath_of_two_le (by simp), BitTrie.build, BitTrie.siblings,
        List.filter_map, List.filter_map, buildSubtree_eq_digest, buildSubtree_eq_digest, ih, ih]
      change (if HashValue.bitKeys.bit key depth then _ else _) = _
      split <;> rfl

/-- A stored key whose common prefix with `key` no stored key exceeds. -/
def Nearest (m : HashMap HashValue Bytes) (key near : HashValue) : Prop :=
  near ∈ m ∧ ∀ k ∈ m, k.commonPrefixBits key ≤ near.commonPrefixBits key

variable {m : HashMap HashValue Bytes}

/-- The committed map has the stored keys. -/
theorem valueHashes_ne_none {k : HashValue} : valueHashes H m k ≠ none ↔ k ∈ m := by
  rw [valueHashes, ne_eq, Option.map_eq_none_iff, AList.lookup_eq_none, not_not]

/-- The honest path of a stored key leads from its leaf to the root. -/
theorem rootFrom_siblings_of_lookup {t : BitTrie HashValue D} (ht : TrieOf H m t)
    {key : HashValue} {value : Bytes} (hk : m.lookup key = some value) :
    BitTrie.rootFrom (sparseHash H) HashValue.bitKeys key
        (hashSparseLeaf H key (hashValue H value)) 0
        ((t.siblings HashValue.bitKeys key 0).map (BitTrie.digest (sparseHash H))) =
      t.digest (sparseHash H) := by
  have hl : t.terminal HashValue.bitKeys key 0 = .leaf key (hashValue H value) :=
    BitTrie.Canonical.terminal_eq_leaf ht (by simp [valueHashes, hk])
  rw [← BitTrie.rootFrom_siblings (B := HashValue.bitKeys) (d := 0) (t := t) , hl]
  rfl

/-- A nearest key's path ends within its common prefix with `key` exactly when no other key is
as near. -/
theorem length_siblings_le_iff_unique {t : BitTrie HashValue D} (ht : TrieOf H m t)
    {key near : HashValue} (hn : Nearest m key near) :
    (t.siblings HashValue.bitKeys near 0).length ≤ key.commonPrefixBits near ↔
      ∀ k, Nearest m key k → k = near := by
  have hag := HashValue.agree_commonPrefixBits key near
  have hle := HashValue.commonPrefixBits_le key near
  rw [← Nat.not_lt, BitTrie.Canonical.lt_length_siblings_iff ht]
  constructor
  · intro hf k hk
    by_contra hne
    -- `k` and `near` both follow `key` for the whole common prefix
    have hke : HashValue.bitKeys.Agree (key.commonPrefixBits near) k key := by
      rw [← HashValue.le_commonPrefixBits hle, HashValue.commonPrefixBits_comm key near]
      exact hk.2 near hn.1
    exact hf ⟨k, near, hne, valueHashes_ne_none.mpr hk.1, valueHashes_ne_none.mpr hn.1,
      BitKeys.along_zero.mpr (hke.trans hag), BitKeys.along_zero.mpr (.refl _ _ _)⟩
  · rintro hu ⟨a, b, hne, ha, hb, haa, hba⟩
    have hbc : ∀ c, valueHashes H m c ≠ none →
        HashValue.bitKeys.Along near 0 (key.commonPrefixBits near) c → c = near := by
      intro c hc hcn
      refine hu c ⟨valueHashes_ne_none.mp hc, fun k hk ↦ (hn.2 k hk).trans ?_⟩
      rw [HashValue.commonPrefixBits_comm near key, HashValue.le_commonPrefixBits hle]
      exact (BitKeys.along_zero.mp hcn).trans hag.symm
    exact hne ((hbc a ha haa).trans (hbc b hb hba).symm)

namespace SparseMerkleTree

private theorem buildProofPath_leafHashes (key : HashValue) :
    (buildProofPath H key 0 256 (leafHashes H m)).1 =
      ((mapTrie H m).siblings HashValue.bitKeys key 0).map (BitTrie.digest (sparseHash H)) := by
  rw [leafHashes_eq, buildProofPath_eq_siblings, mapTrie]

variable {key : HashValue}

private theorem not_isEmpty (hk : key ∈ m) : ¬m.entries.isEmpty := by
  intro he
  have hke : key ∈ m.entries.keys := hk
  rw [List.isEmpty_iff.mp he] at hke
  exact List.not_mem_nil hke

/-- The proof for a stored key carries its own leaf. -/
theorem getProof_of_lookup {tree : SparseMerkleTree D} {value : Bytes}
    (hk : tree.leaves.lookup key = some value) :
    tree.getProof H key =
      ⟨(buildProofPath H key 0 256 (leafHashes H tree.leaves)).1,
        some ⟨key, hashValue H value⟩⟩ := by
  have hm : key ∈ tree.leaves := AList.lookup_isSome.mp (by simp [hk])
  rw [getProof, if_neg (not_isEmpty hm)]
  simp [hk]

private theorem mem_leafHashes {e : HashValue × D} :
    e ∈ leafHashes H m ↔
      ∃ value, m.lookup e.1 = some value ∧ e.2 = hashSparseLeaf H e.1 (hashValue H value) := by
  rw [leafHashes, List.mem_map]
  constructor
  · rintro ⟨⟨k, value⟩, hm, rfl⟩
    exact ⟨value, HashMap.mem_toList.mp hm, rfl⟩
  · rintro ⟨value, hl, hh⟩
    exact ⟨(e.1, value), HashMap.mem_toList.mpr hl, Prod.ext rfl hh.symm⟩

/-- The proof for an absent key carries the leaf of a nearest stored key. -/
theorem getProof_of_lookup_eq_none {tree : SparseMerkleTree D}
    (hk : tree.leaves.lookup key = none) (hne : ¬tree.leaves.entries.isEmpty) :
    ∃ near value, Nearest tree.leaves key near ∧ tree.leaves.lookup near = some value ∧
      tree.getProof H key =
        ⟨(buildProofPath H near 0 256 (leafHashes H tree.leaves)).1,
          some ⟨near, hashValue H value⟩⟩ := by
  rcases maxByKey_spec (f := fun e : HashValue × D ↦ e.1.commonPrefixBits key)
    (l := leafHashes H tree.leaves) with ⟨hn, -⟩ | ⟨near, hm, hme, hb⟩
  · rw [leafHashes, HashMap.toList, List.map_map, List.map_eq_nil_iff] at hn
    exact absurd (List.isEmpty_iff.mpr hn) hne
  · obtain ⟨value, hva, -⟩ := mem_leafHashes.mp hme
    refine ⟨near.1, value, ⟨AList.lookup_isSome.mp (by simp [hva]), fun k hkm ↦ ?_⟩, hva, ?_⟩
    · obtain ⟨v, hv⟩ := Option.isSome_iff_exists.mp (AList.lookup_isSome.mpr hkm)
      exact hb (k, hashSparseLeaf H k (hashValue H v)) (mem_leafHashes.mpr ⟨v, hv, rfl⟩)
    · rw [getProof, if_neg hne]
      simp [hk, hm, hva]

variable [DecidableEq D]

/-- What proof completeness asks of a tree at a key: the tree's own proof is accepted, with the
stored value when there is one and as a proof of absence otherwise. -/
def ProofVerifies (H : Blake3 D) (tree : SparseMerkleTree D) (key : HashValue) : Prop :=
  match tree.leaves.lookup key with
  | some value => (tree.getProof H key).verifyInclusion H tree.rootHash key value = some (.ok ())
  | none => (tree.getProof H key).verifyNonInclusion H tree.rootHash key = some (.ok ())

/-- The proof for a stored key is always accepted. -/
theorem proofVerifies_of_lookup {value : Bytes} (root₀ : D) (hk : m.lookup key = some value)
    : ProofVerifies H (restore H ⟨root₀, m⟩) key := by
  have hk' : (restore H ⟨root₀, m⟩).leaves.lookup key = some value := by rw [restore_leaves, hk]
  rw [ProofVerifies, hk', getProof_of_lookup hk', restore_leaves, restore_rootHash,
    buildProofPath_leafHashes]
  refine SparseMerkleProof.verifyInclusion_eq_ok.mpr ⟨rfl, ?_, ?_⟩
  · rw [List.length_map]
    exact BitTrie.Canonical.length_siblings_le (mapTrie_trieOf m)
  · exact rootFrom_siblings_of_lookup (mapTrie_trieOf m) hk

/-- The empty tree proves every absence. -/
theorem proofVerifies_of_isEmpty (root₀ : D) (hm : m.entries.isEmpty) :
    ProofVerifies H (restore H ⟨root₀, m⟩) key := by
  have hk : (restore H ⟨root₀, m⟩).leaves.lookup key = none := by
    rw [restore_leaves, AList.lookup_eq_none]
    exact fun hme ↦ not_isEmpty hme hm
  have hp : (restore H ⟨root₀, m⟩).getProof H key = ⟨[], none⟩ := by
    rw [getProof, restore_leaves, if_pos hm]
  have hr : (restore H ⟨root₀, m⟩).rootHash = emptyHash H := by
    rw [restore, rebuildTree, if_pos hm]
  rw [ProofVerifies, hk, hp, hr]
  exact SparseMerkleProof.verifyNonInclusion_eq_ok.mpr (.inl ⟨rfl, by simp, rfl⟩)

/-- The proof for an absent key of a non-empty tree is accepted exactly when one stored key is
nearer to it than all others. -/
theorem proofVerifies_of_lookup_eq_none (root₀ : D) (hk : m.lookup key = none)
    (hm : ¬m.entries.isEmpty) :
    ProofVerifies H (restore H ⟨root₀, m⟩) key ↔ ∃! near, Nearest m key near := by
  have hk' : (restore H ⟨root₀, m⟩).leaves.lookup key = none := by rw [restore_leaves, hk]
  obtain ⟨near, value, hn, hv, hp⟩ :=
    getProof_of_lookup_eq_none (H := H) hk' (by rwa [restore_leaves])
  rw [restore_leaves] at hn hv hp
  have ht := mapTrie_trieOf (H := H) m
  have hne : near ≠ key := by
    rintro rfl
    rw [hk] at hv
    cases hv
  rw [ProofVerifies, hk', hp, restore_rootHash, buildProofPath_leafHashes]
  have hu := length_siblings_le_iff_unique ht hn
  constructor
  · intro hok
    rcases SparseMerkleProof.verifyNonInclusion_eq_ok.mp hok with
      ⟨hno, -⟩ | ⟨_, hle, -, hl, -⟩
    · cases hno
    · cases hle
      rw [List.length_map] at hl
      exact ⟨near, hn, hu.mp hl⟩
  · rintro ⟨near', -, hun⟩
    have hl := hu.mpr fun k hk ↦ (hun k hk).trans (hun near hn).symm
    refine SparseMerkleProof.verifyNonInclusion_eq_ok.mpr (.inr ⟨_, rfl, hne, ?_, ?_, ?_⟩)
    · rwa [List.length_map]
    · rw [List.length_map]
      exact BitTrie.Canonical.length_siblings_le ht
    · exact rootFrom_siblings_of_lookup ht hv

/-- The tree's own proof for a key is accepted exactly when the key is stored, the tree is empty,
or a single stored key has the longest common prefix with it. -/
theorem proofVerifies_iff (H : Blake3 D) (m : HashMap HashValue Bytes) (root₀ : D)
    (key : HashValue) :
    ProofVerifies H (restore H ⟨root₀, m⟩) key ↔
      key ∈ m ∨ m = ∅ ∨ ∃! near, Nearest m key near := by
  have he : m.entries.isEmpty = true ↔ m = ∅ := by
    rw [List.isEmpty_iff, AList.ext_iff, AList.empty_entries]
  cases hk : m.lookup key with
  | some value =>
    have hme : key ∈ m := AList.lookup_isSome.mp (by simp [hk])
    exact iff_of_true (proofVerifies_of_lookup root₀ hk) (.inl hme)
  | none =>
    have hme : key ∉ m := AList.lookup_eq_none.mp hk
    by_cases hm : m.entries.isEmpty
    · exact iff_of_true (proofVerifies_of_isEmpty root₀ hm) (.inr (.inl (he.mp hm)))
    · rw [proofVerifies_of_lookup_eq_none root₀ hk hm, or_iff_right hme,
        or_iff_right (mt he.mpr hm)]

/-- The two keys `00…` and `40…`, which share exactly their first bit. -/
def forkedLeaves : HashMap HashValue Bytes :=
  (AList.singleton ⟨Vector.replicate 32 0⟩ [1] : HashMap HashValue Bytes).insert
    ⟨(Vector.replicate 32 0).set 0 0x40 zero_lt_32⟩ [2]

/-- The key `80…` is absent, its path ends in the empty right half, and the tree's proof of its
absence is refused. -/
theorem getProof_forkedLeaves_refused :
    forkedLeaves.lookup ⟨(Vector.replicate 32 0).set 0 0x80 zero_lt_32⟩ = none ∧
      ((restore Blake3.ideal ⟨Blake3.ideal.zero, forkedLeaves⟩).getProof Blake3.ideal
          ⟨(Vector.replicate 32 0).set 0 0x80 zero_lt_32⟩).verifyNonInclusion Blake3.ideal
          (restore Blake3.ideal ⟨Blake3.ideal.zero, forkedLeaves⟩).rootHash
          ⟨(Vector.replicate 32 0).set 0 0x80 zero_lt_32⟩ =
        some (.error (.invalidProof "Proof path doesn't match key")) ∧
      ¬ProofVerifies Blake3.ideal (restore Blake3.ideal ⟨Blake3.ideal.zero, forkedLeaves⟩)
        ⟨(Vector.replicate 32 0).set 0 0x80 zero_lt_32⟩ := by
  have hr : ((restore Blake3.ideal ⟨Blake3.ideal.zero, forkedLeaves⟩).getProof Blake3.ideal
      ⟨(Vector.replicate 32 0).set 0 0x80 zero_lt_32⟩).verifyNonInclusion Blake3.ideal
      (restore Blake3.ideal ⟨Blake3.ideal.zero, forkedLeaves⟩).rootHash
      ⟨(Vector.replicate 32 0).set 0 0x80 zero_lt_32⟩ =
        some (.error (.invalidProof "Proof path doesn't match key")) := by rfl
  refine ⟨by rfl, hr, ?_⟩
  change ¬_ = _
  rw [hr]
  simp

end SparseMerkleTree

end Setu.Merkle
