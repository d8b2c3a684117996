import Setu.Merkle.IncrementalStore

/-!
# Every history of the incremental tree ends in the canonical tree

Library `Merkle`. A valid tree's root represents the trie of its leaves. All operations keep
trees valid, so the root depends only on the key-value map; the proofs a valid tree gives are
those of that trie, except that the proof loop stops one level too early.
-/

namespace Setu.Merkle

open Setu.Base

variable {D : Type} {H : Blake3 D} (leaves : HashMap HashValue Bytes)

/-- The trie of a map with one more entry. -/
theorem mapTrie_insert (key : HashValue) (value : Bytes) :
    (mapTrie H leaves).insert HashValue.bitKeys key (hashValue H value) 0 256 =
      mapTrie H (leaves.insert key value) := by
  have hu : Function.update (valueHashes H leaves) key (some (hashValue H value)) =
      valueHashes H (leaves.insert key value) := by
    funext k
    by_cases hk : k = key
    · subst hk
      simp [valueHashes]
    · rw [Function.update_of_ne hk, valueHashes, valueHashes, AList.lookup_insert_ne hk]
  refine BitTrie.Canonical.unique ?_ (mapTrie_trieOf (leaves.insert key value))
  rw [← hu]
  exact BitTrie.insert_canonical rfl (fun _ _ i hi ↦ absurd hi (Nat.not_lt_zero i))
    (mapTrie_trieOf leaves)

/-- The trie of a map without a key. -/
theorem mapTrie_remove (key : HashValue) :
    (mapTrie H leaves).remove HashValue.bitKeys key 0 256 = mapTrie H (leaves.erase key) := by
  have hu : Function.update (valueHashes H leaves) key none = valueHashes H (leaves.erase key) := by
    funext k
    by_cases hk : k = key
    · subst hk
      simp [valueHashes]
    · rw [Function.update_of_ne hk, valueHashes, valueHashes, AList.lookup_erase_ne hk]
  refine BitTrie.Canonical.unique ?_ (mapTrie_trieOf (leaves.erase key))
  rw [← hu]
  exact BitTrie.remove_canonical rfl (fun _ _ i hi ↦ absurd hi (Nat.not_lt_zero i))
    (mapTrie_trieOf leaves)

namespace IncrementalSparseMerkleTree

private theorem lookup_of_digest_eq (hH : H.CollisionFree)
    {leaves leaves' : HashMap HashValue Bytes}
    (h : (mapTrie H leaves).digest (sparseHash H) = (mapTrie H leaves').digest (sparseHash H))
    {key : HashValue} {value : Bytes} (hk : leaves.lookup key = some value) :
    leaves'.lookup key = some value := by
  have hN := sparseHash_separated hH
  -- the path of the key leads from its leaf to the root of the other map
  obtain ⟨s, hs, hd⟩ := BitTrie.descend_of_rootFrom_eq hN
    ((rootFrom_siblings_of_lookup (mapTrie_trieOf leaves) hk).trans h)
  obtain rfl := (BitTrie.digest_eq_leaf hN).mp hd
  obtain ⟨m', hm', ha⟩ := BitTrie.Canonical.descend (mapTrie_trieOf leaves') hs
  cases hm' with
  | leaf hv _ =>
    rw [ha key fun _ _ _ ↦ rfl] at hv
    obtain ⟨v, hv, hh⟩ := Option.map_eq_some_iff.mp hv
    rwa [← hH.hash_inj.mp hh]

variable [DecidableEq D]

/-- The node store is sound and the root hash represents the trie of the leaves. -/
structure Valid (H : Blake3 D) (tree : IncrementalSparseMerkleTree D) : Prop where
  sound : Sound H tree.nodes
  represents : Represents H tree.nodes tree.rootHash (mapTrie H tree.leaves)

theorem valid_new : Valid H (new H) where
  sound _ _ h := by cases h
  represents := .empty

variable {tree : IncrementalSparseMerkleTree D}

theorem Valid.insertWithoutTracking (hH : H.CollisionFree) (h : Valid H tree) (key : HashValue)
    (value : Bytes) : Valid H (tree.insertWithoutTracking H key value).1 := by
  have hw : Writes H tree.nodes (insertAtNode H key (.newLeaf H key (hashValue H value)) 0 256
      tree.nodes tree.rootHash) _ :=
    insertAtNode_writes hH h.sound rfl (mapTrie_trieOf tree.leaves)
      (fun _ _ i hi ↦ absurd hi (Nat.not_lt_zero i)) h.represents
  rw [mapTrie_insert] at hw
  exact ⟨hw.sound, hw.represents⟩

theorem Valid.insert (hH : H.CollisionFree) (h : Valid H tree) (key : HashValue)
    (value : Bytes) : Valid H (tree.insert H key value).1 := by
  rw [IncrementalSparseMerkleTree.insert]
  apply Valid.insertWithoutTracking hH
  -- the change tracking is not part of validity
  exact ⟨h.sound, h.represents⟩

theorem Valid.remove (hH : H.CollisionFree) (h : Valid H tree) (key : HashValue) :
    Valid H (tree.remove H key).1 := by
  rw [IncrementalSparseMerkleTree.remove]
  split
  · exact h
  · have hw : Writes H tree.nodes (removeAtNode H key 0 256 tree.nodes tree.rootHash) _ :=
      removeAtNode_writes hH h.sound h.represents
    rw [mapTrie_remove] at hw
    exact ⟨hw.sound, hw.represents⟩

theorem Valid.batchInsert (hH : H.CollisionFree) (h : Valid H tree)
    (entries : List (HashValue × Bytes)) : Valid H (tree.batchInsert H entries) := by
  induction entries generalizing tree with
  | nil => exact h
  | cons e rest ih => exact ih (h.insert hH e.1 e.2)

theorem marks_gc (tree : IncrementalSparseMerkleTree D) : Marks H tree.nodes tree.rootHash ∅
    (markReachable H tree.nodes (tree.nodes.entries.length + 1) tree.rootHash ∅) := by
  refine markReachable_marks (Nat.lt_succ_of_le ?_)
  refine (Finset.card_le_card Finset.sdiff_subset).trans ?_
  refine (List.toFinset_card_le _).trans (Nat.le_of_eq ?_)
  exact List.length_map ..

theorem Valid.gc (hH : H.CollisionFree) (h : Valid H tree) : Valid H (tree.gc H) := by
  have hm := marks_gc (H := H) tree
  refine ⟨h.sound.retain _, h.represents.retain hH (fun x hx ↦ ?_) hm.marks⟩
  exact hm.closed x hx (AList.notMem_empty x)

/-- Every update keeps trees valid. -/
theorem Valid.apply (hH : H.CollisionFree) (h : Valid H tree) (op : Op) :
    Valid H (tree.apply H op) := by
  cases op with
  | insert key value => exact h.insert hH key value
  | remove key => exact h.remove hH key
  | batchInsert entries => exact h.batchInsert hH entries
  | gc => exact h.gc hH

/-- Every history keeps trees valid. -/
theorem Valid.run (hH : H.CollisionFree) (h : Valid H tree) (ops : List Op) :
    Valid H (tree.run H ops) := by
  induction ops generalizing tree with
  | nil => exact h
  | cons op rest ih => exact ih (h.apply hH op)

private theorem leaves_batchInsert (entries : List (HashValue × Bytes)) :
    (tree.batchInsert H entries).leaves = tree.leaves.insertAll entries := by
  induction entries generalizing tree with
  | nil => rfl
  | cons e rest ih => exact ih

/-- Every update acts on the leaves as it does on a key-value map. -/
theorem lookup_apply (tree : IncrementalSparseMerkleTree D) (op : Op) :
    (fun k ↦ (tree.apply H op).leaves.lookup k) = op.onMap fun k ↦ tree.leaves.lookup k := by
  cases op with
  | insert key value => exact HashMap.lookup_insert_eq_update tree.leaves key value
  | remove key =>
    change (fun k ↦ (tree.remove H key).1.leaves.lookup k) = Function.update _ key none
    rw [remove]
    split
    · next hn => rw [← hn, Function.update_eq_self]
    · exact HashMap.lookup_erase_eq_update tree.leaves key
  | batchInsert entries =>
    change (fun k ↦ (tree.batchInsert H entries).leaves.lookup k) = _
    rw [leaves_batchInsert, HashMap.lookup_insertAll]
    rfl
  | gc => rfl

/-- Every history acts on the leaves as it does on a key-value map. -/
theorem lookup_run (tree : IncrementalSparseMerkleTree D) (ops : List Op) :
    (fun k ↦ (tree.run H ops).leaves.lookup k) =
      ops.foldl Op.onMap fun k ↦ tree.leaves.lookup k := by
  induction ops generalizing tree with
  | nil => rfl
  | cons op rest ih =>
    rw [List.foldl_cons, ← lookup_apply (H := H)]
    exact ih _

private theorem fromLeaves_replay (hH : H.CollisionFree) (entries : List (HashValue × Bytes))
    (h : Valid H tree) :
    Valid H (entries.foldl (fun tree e ↦ (tree.insertWithoutTracking H e.1 e.2).1) tree) ∧
      (entries.foldl (fun tree e ↦ (tree.insertWithoutTracking H e.1 e.2).1) tree).leaves =
        tree.leaves.insertAll entries := by
  induction entries generalizing tree with
  | nil => exact ⟨h, rfl⟩
  | cons e rest ih => exact ih (h.insertWithoutTracking hH e.1 e.2)

/-- A history starts with a valid tree over its starting map. -/
theorem valid_start (hH : H.CollisionFree) (start : Start) :
    Valid H (start.tree H) ∧ (fun k ↦ (start.tree H).leaves.lookup k) = start.map := by
  cases start with
  | empty => exact ⟨valid_new, rfl⟩
  | fromLeaves leaves =>
    obtain ⟨hv, hl⟩ := fromLeaves_replay hH
      (leaves.toList.insertionSort fun a b ↦ a.1.asBytes ≤ b.1.asBytes) valid_new
    refine ⟨hv, ?_⟩
    rw [Start.tree, fromLeaves, hl, HashMap.lookup_insertAll]
    exact HashMap.updateAll_of_perm (List.perm_insertionSort _ _)

/-- From empty or from recovered leaves, any history of updates ends with the leaves and the root
of the tree rebuilt from scratch from the final key-value map. -/
theorem run_rootHash_eq_rebuilt (hH : H.CollisionFree) (start : Start) (ops : List Op) :
    (∀ k, ((start.tree H).run H ops).leaves.lookup k = ops.foldl Op.onMap start.map k) ∧
    ∀ (m : HashMap HashValue Bytes) (root₀ : D),
      (∀ k, m.lookup k = ops.foldl Op.onMap start.map k) →
      ((start.tree H).run H ops).rootHash = (SparseMerkleTree.restore H ⟨root₀, m⟩).rootHash := by
  obtain ⟨hv, hma⟩ := valid_start hH start
  have hl : ∀ k, ((start.tree H).run H ops).leaves.lookup k = ops.foldl Op.onMap start.map k := by
    intro k
    rw [← hma, ← lookup_run]
  refine ⟨hl, fun m root₀ hm ↦ ?_⟩
  rw [(hv.run hH ops).represents.hash_eq, SparseMerkleTree.restore_rootHash]
  rw [(mapTrie_trieOf _).eq_mapTrie fun k ↦ (hl k).trans (hm k).symm]

/-- Inserting a key, collecting garbage and removing the key again leads back to the empty
tree's root. -/
theorem run_rootHash_insert_gc_remove :
    ((new Blake3.ideal).run Blake3.ideal
        [.insert ⟨Vector.replicate 32 0⟩ [7], .gc, .remove ⟨Vector.replicate 32 0⟩]).rootHash =
      (SparseMerkleTree.restore Blake3.ideal ⟨Blake3.ideal.zero, ∅⟩).rootHash := by
  refine (run_rootHash_eq_rebuilt Blake3.ideal_collisionFree .empty _).2 ∅ _ fun k ↦ ?_
  simp only [List.foldl_cons, List.foldl_nil, Op.onMap, Start.map, Function.update_idem]
  by_cases hk : k = ⟨Vector.replicate 32 0⟩
  · simp [hk]
  · rw [Function.update_of_ne hk]
    rfl

/-- The root commits to the map: two histories, of whatever updates and from whatever starts, end
with the same root exactly if they end with the same key-value map. -/
theorem run_rootHash_eq_iff (hH : H.CollisionFree) (start start' : Start) (ops ops' : List Op) :
    ((start.tree H).run H ops).rootHash = ((start'.tree H).run H ops').rootHash ↔
      ops.foldl Op.onMap start.map = ops'.foldl Op.onMap start'.map := by
  obtain ⟨hv, hm⟩ := valid_start hH start
  obtain ⟨hv', hm'⟩ := valid_start hH start'
  rw [(hv.run hH ops).represents.hash_eq, (hv'.run hH ops').represents.hash_eq, ← hm, ← hm',
    ← lookup_run (H := H), ← lookup_run (H := H)]
  constructor
  · intro h
    funext key
    exact Option.ext fun value ↦ ⟨lookup_of_digest_eq hH h, lookup_of_digest_eq hH h.symm⟩
  · intro h
    rw [(mapTrie_trieOf _).eq_mapTrie (congrFun h)]

theorem run_rootHash_ne_insert :
    ((new Blake3.ideal).run Blake3.ideal [.insert ⟨Vector.replicate 32 0⟩ [7], .gc]).rootHash ≠
      ((new Blake3.ideal).run Blake3.ideal []).rootHash := by
  intro h
  have hm := (run_rootHash_eq_iff Blake3.ideal_collisionFree .empty .empty _ []).mp h
  simpa [Op.onMap, Start.map] using congrFun hm ⟨Vector.replicate 32 0⟩

/-- The proof of a stored key: the siblings of its path, and its leaf unless the path has a
sibling at every one of the 256 levels. -/
theorem Valid.getProof_of_lookup (hH : H.CollisionFree) (h : Valid H tree) {key : HashValue}
    {value : Bytes} (hk : tree.leaves.lookup key = some value) :
    tree.getProof H key =
      ⟨((mapTrie H tree.leaves).siblings HashValue.bitKeys key 0).map
          (BitTrie.digest (sparseHash H)),
        if ((mapTrie H tree.leaves).siblings HashValue.bitKeys key 0).length < 256 then
          some ⟨key, hashValue H value⟩ else none⟩ := by
  have hl : (mapTrie H tree.leaves).terminal HashValue.bitKeys key 0 =
      .leaf key (hashValue H value) :=
    BitTrie.Canonical.terminal_eq_leaf (mapTrie_trieOf _) (by simp [valueHashes, hk])
  have hle : ((mapTrie H tree.leaves).siblings HashValue.bitKeys key 0).length ≤ 256 :=
    BitTrie.Canonical.length_siblings_le (mapTrie_trieOf tree.leaves)
  rw [getProof, proofLoop_eq hH h.represents, hl]
  rw [List.take_of_length_le (by rwa [List.length_map])]
  rfl

omit [DecidableEq D] in
/-- The path of a stored key leaves a level without sibling exactly when no other stored key
differs from it in the last bit only. -/
theorem length_siblings_lt_iff {leaves : HashMap HashValue Bytes} {key : HashValue}
    (hk : key ∈ leaves) :
    ((mapTrie H leaves).siblings HashValue.bitKeys key 0).length < 256 ↔
      ∀ other ∈ leaves, other ≠ key → other.commonPrefixBits key ≠ 255 := by
  have hf : 255 < ((mapTrie H leaves).siblings HashValue.bitKeys key 0).length ↔ _ :=
    BitTrie.Canonical.lt_length_siblings_iff (mapTrie_trieOf leaves)
  have hl : ∀ {other}, HashValue.bitKeys.Agree 255 other key → other ≠ key →
      other.commonPrefixBits key = 255 := by
    intro other hag hne
    have hle := (HashValue.le_commonPrefixBits (by omega)).mpr hag
    have hlt : ¬256 ≤ other.commonPrefixBits key := by
      rw [HashValue.le_commonPrefixBits (Nat.le_refl _)]
      exact fun h ↦ hne (h.eq_of_width_le (Nat.le_refl _))
    omega
  constructor
  · intro hlt other ho hne hsh
    have hag := HashValue.agree_commonPrefixBits other key
    rw [hsh] at hag
    have h := hf.mpr ⟨other, key, hne, valueHashes_ne_none.mpr ho,
      valueHashes_ne_none.mpr hk, BitKeys.along_zero.mpr hag,
      BitKeys.along_zero.mpr (.refl _ _ _)⟩
    omega
  · intro hal
    by_contra hge
    obtain ⟨a, b, hne, ha, hb, haa, hba⟩ := hf.mp (by omega)
    have hs : ∀ c, valueHashes H leaves c ≠ none → HashValue.bitKeys.Along key 0 255 c →
        c = key := by
      intro c hc hcp
      by_contra hck
      exact hal c (valueHashes_ne_none.mp hc) hck (hl (BitKeys.along_zero.mp hcp) hck)
    exact hne ((hs a ha haa).trans (hs b hb hba).symm)

/-- In a valid tree the proof of a stored key is accepted exactly when no other stored key shares
its first 255 bits. -/
theorem Valid.verifyInclusion_getProof (hH : H.CollisionFree) (h : Valid H tree)
    {key : HashValue} {value : Bytes} (hk : tree.leaves.lookup key = some value) :
    (tree.getProof H key).verifyInclusion H tree.rootHash key value =
      if ((mapTrie H tree.leaves).siblings HashValue.bitKeys key 0).length < 256 then
        some (.ok ())
      else some (.error (.invalidProof "Inclusion proof must have a leaf")) := by
  rw [h.getProof_of_lookup hH hk]
  split
  · next hl =>
    refine SparseMerkleProof.verifyInclusion_eq_ok.mpr ⟨rfl, ?_, ?_⟩
    · rw [List.length_map]
      omega
    · rw [h.represents.hash_eq]
      exact rootFrom_siblings_of_lookup (mapTrie_trieOf tree.leaves) hk
  · rfl

/-- After any history, the tree's proof of a stored key verifies against the current root exactly
when no other stored key differs from it in the last bit only. -/
theorem getProof_verifies_iff (hH : H.CollisionFree) (start : Start) (ops : List Op)
    (key : HashValue) (value : Bytes)
    (hk : ((start.tree H).run H ops).leaves.lookup key = some value) :
    (((start.tree H).run H ops).getProof H key).verifyInclusion H
        ((start.tree H).run H ops).rootHash key value = some (.ok ()) ↔
      ∀ other ∈ ((start.tree H).run H ops).leaves, other ≠ key →
        other.commonPrefixBits key ≠ 255 := by
  have hv := (valid_start hH start).1.run hH ops
  rw [hv.verifyInclusion_getProof hH hk,
    ← length_siblings_lt_iff (H := H) (AList.lookup_isSome.mp (by simp [hk]))]
  split
  · next hl => exact iff_of_true rfl hl
  · next hl => exact iff_of_false (by simp) hl

/-- Two keys that differ in the last bit only. -/
def lastBitPair : List Op :=
  [.insert ⟨Vector.replicate 32 0⟩ [1], .insert ⟨(Vector.replicate 32 0).set 31 1⟩ [2]]

/-- A key stored alone is proved. -/
theorem getProof_verifies_single :
    (((new Blake3.ideal).run Blake3.ideal [.insert ⟨Vector.replicate 32 0⟩ [1]]).getProof
        Blake3.ideal ⟨Vector.replicate 32 0⟩).verifyInclusion Blake3.ideal
        ((new Blake3.ideal).run Blake3.ideal [.insert ⟨Vector.replicate 32 0⟩ [1]]).rootHash
        ⟨Vector.replicate 32 0⟩ [1] = some (.ok ()) := by
  refine (getProof_verifies_iff Blake3.ideal_collisionFree .empty
    [.insert ⟨Vector.replicate 32 0⟩ [1]] _ _ rfl).mpr fun other ho hne ↦ ?_
  rcases (AList.mem_insert ∅).mp ho with rfl | he
  · exact absurd rfl hne
  · exact absurd he (AList.notMem_empty _)

/-- The tree holds both keys of the pair, but its proof of the first one carries no leaf and is
refused. -/
theorem getProof_lastBitPair_refused :
    ((new Blake3.ideal).run Blake3.ideal lastBitPair).leaves.lookup ⟨Vector.replicate 32 0⟩ =
        some [1] ∧
      (((new Blake3.ideal).run Blake3.ideal lastBitPair).getProof Blake3.ideal
          ⟨Vector.replicate 32 0⟩).verifyInclusion Blake3.ideal
          ((new Blake3.ideal).run Blake3.ideal lastBitPair).rootHash ⟨Vector.replicate 32 0⟩ [1] =
        some (.error (.invalidProof "Inclusion proof must have a leaf")) := by
  have hv : Valid Blake3.ideal ((new Blake3.ideal).run Blake3.ideal lastBitPair) :=
    valid_new.run Blake3.ideal_collisionFree lastBitPair
  have hk : ((new Blake3.ideal).run Blake3.ideal lastBitPair).leaves.lookup
      ⟨Vector.replicate 32 0⟩ = some [1] := rfl
  have ho : ((new Blake3.ideal).run Blake3.ideal lastBitPair).leaves.lookup
      ⟨(Vector.replicate 32 0).set 31 1⟩ = some [2] := rfl
  refine ⟨hk, ?_⟩
  rw [hv.verifyInclusion_getProof Blake3.ideal_collisionFree hk, if_neg]
  rw [length_siblings_lt_iff (AList.lookup_isSome.mp (by rw [hk]; rfl))]
  intro ha
  exact ha _ (AList.lookup_isSome.mp (by rw [ho]; rfl)) (by decide) (by decide)

end IncrementalSparseMerkleTree

end Setu.Merkle
