import Setu.Base.BitTrieUpdate
import Setu.Merkle.Incremental

/-!
# The node store represents a trie

Library `Merkle`. A hash represents a trie in a node store when the stored nodes unfold to it.
With a collision-free hash a store only ever grows: writing a node never changes what another
hash represents. Each recursion of the incremental tree then performs the trie operation of the
same name.
-/

namespace Setu.Merkle

open Setu.Base

variable {D : Type} [DecidableEq D] (H : Blake3 D)

/-- A node stored under the hash of its contents. -/
inductive Authentic : D → TreeNode D → Prop
  | leaf (key : HashValue) (valueHash : D) :
      Authentic (hashSparseLeaf H key valueHash) (.newLeaf H key valueHash)
  | internal (left right : D) :
      Authentic (hashSparseInternal H left right) (.newInternal H left right)

/-- Every stored node is stored under the hash of its contents. -/
def Sound (nodes : NodeStore D) : Prop :=
  ∀ hash node, nodes.lookup hash = some node → Authentic H hash node

/-- Every node of one store is in the other. -/
def Grows (nodes nodes' : NodeStore D) : Prop :=
  ∀ hash node, nodes.lookup hash = some node → nodes'.lookup hash = some node

/-- The stored nodes unfold from a hash to a trie. -/
inductive Represents (nodes : NodeStore D) : D → BitTrie HashValue D → Prop
  | empty : Represents nodes (emptyHash H) .empty
  | leaf {key : HashValue} {valueHash : D}
      (hnode : nodes.lookup (hashSparseLeaf H key valueHash) = some (.newLeaf H key valueHash)) :
      Represents nodes (hashSparseLeaf H key valueHash) (.leaf key valueHash)
  | node {left right : D} {l r : BitTrie HashValue D}
      (hnode : nodes.lookup (hashSparseInternal H left right) =
        some (.newInternal H left right))
      (hl : Represents nodes left l) (hr : Represents nodes right r) :
      Represents nodes (hashSparseInternal H left right) (.node l r)

/-- A recursion's result: a sound store that keeps the old nodes, and a hash that represents the
trie in it. -/
structure Writes (nodes : NodeStore D) (result : NodeStore D × D)
    (t : BitTrie HashValue D) : Prop where
  sound : Sound H result.1
  grows : Grows nodes result.1
  represents : Represents H result.1 result.2 t

variable {H} {nodes nodes' : NodeStore D} {hash : D}

omit [DecidableEq D] in
/-- One hash stands for one node. -/
theorem Authentic.unique (hH : H.CollisionFree) {node node' : TreeNode D}
    (h : Authentic H hash node) (h' : Authentic H hash node') : node = node' := by
  have hN := sparseHash_separated hH
  generalize hh : hash = other at h'
  cases h with
  | leaf key valueHash =>
    cases h' with
    | leaf =>
      obtain ⟨rfl, rfl⟩ := hN.leaf_inj hh
      rfl
    | internal => exact absurd hh hN.leaf_ne_node
  | internal left right =>
    cases h' with
    | leaf => exact absurd hh.symm hN.leaf_ne_node
    | internal =>
      obtain ⟨rfl, rfl⟩ := hN.node_inj hh
      rfl

theorem Grows.refl (nodes : NodeStore D) : Grows nodes nodes := fun _ _ h ↦ h

theorem Grows.trans {nodes'' : NodeStore D} (h : Grows nodes nodes') (h' : Grows nodes' nodes'') :
    Grows nodes nodes'' := fun hash node hn ↦ h' hash node (h hash node hn)

variable {t : BitTrie HashValue D}

/-- A larger store represents the same tries. -/
theorem Represents.mono (hg : Grows nodes nodes') (h : Represents H nodes hash t)
    : Represents H nodes' hash t := by
  induction h with
  | empty => exact .empty
  | leaf hn => exact .leaf (hg _ _ hn)
  | node hn _ _ ihl ihr => exact .node (hg _ _ hn) ihl ihr

/-- A hash represents the trie it is the digest of. -/
theorem Represents.hash_eq (h : Represents H nodes hash t) : hash = t.digest (sparseHash H) := by
  induction h with
  | empty => rfl
  | leaf => rfl
  | node _ _ _ ihl ihr =>
    rw [BitTrie.digest, ← ihl, ← ihr]
    rfl

private theorem lookup_insert_of_authentic (hH : H.CollisionFree) (hs : Sound H nodes)
    {node : TreeNode D} (hn : Authentic H hash node) :
    Sound H (nodes.insert hash node) ∧ Grows nodes (nodes.insert hash node) := by
  constructor
  · intro h n hl
    rcases HashMap.lookup_insert_cases hl with ⟨rfl, rfl⟩ | ⟨-, ho⟩
    · exact hn
    · exact hs h n ho
  · intro h n hl
    by_cases he : h = hash
    · subst he
      rw [AList.lookup_insert, (hs h n hl).unique hH hn]
    · rwa [AList.lookup_insert_ne he]

/-- Storing a leaf. -/
theorem putNode_leaf (hH : H.CollisionFree) (hs : Sound H nodes) (key : HashValue)
    (valueHash : D) :
    Writes H nodes (putNode H nodes (.newLeaf H key valueHash)) (.leaf key valueHash) := by
  obtain ⟨hso, hg⟩ := lookup_insert_of_authentic hH hs (.leaf key valueHash)
  exact ⟨hso, hg, .leaf (AList.lookup_insert _)⟩

/-- Storing an internal node over two represented children. -/
theorem putNode_internal (hH : H.CollisionFree) (hs : Sound H nodes) {left right : D}
    {l r : BitTrie HashValue D} (hl : Represents H nodes left l)
    (hr : Represents H nodes right r) :
    Writes H nodes (putNode H nodes (.newInternal H left right)) (.node l r) := by
  obtain ⟨hso, hg⟩ := lookup_insert_of_authentic hH hs (.internal left right)
  exact ⟨hso, hg, .node (AList.lookup_insert _) (hl.mono hg) (hr.mono hg)⟩

/-- Results compose over a grown store. -/
theorem Writes.of_grows {result : NodeStore D × D} (hg : Grows nodes nodes')
    (h : Writes H nodes' result t) : Writes H nodes result t :=
  ⟨h.sound, hg.trans h.grows, h.represents⟩

variable {depth levels : Nat}

/-- Splitting a leaf writes the trie of the two entries. -/
theorem splitLeaf_writes (hH : H.CollisionFree) (hs : Sound H nodes)
    {existingKey newKey : HashValue} {existingVh newVh : D} (hne : existingKey ≠ newKey)
    (hw : depth + levels = 256) (ha : HashValue.bitKeys.Agree depth existingKey newKey) :
    Writes H nodes
      (splitLeaf H existingKey existingVh newKey (.newLeaf H newKey newVh) depth levels nodes)
      (BitTrie.split HashValue.bitKeys existingKey existingVh newKey newVh depth levels) := by
  induction levels generalizing depth nodes with
  | zero => exact absurd (ha.eq_of_width_le (by change 256 ≤ depth; omega)) hne
  | succ levels ih =>
    rw [splitLeaf, BitTrie.split]
    change Writes H nodes (if existingKey.bit depth = newKey.bit depth then _ else _)
      (if existingKey.bit depth = newKey.bit depth then _ else _)
    split
    · next hb =>
      have hsu := ih hs (by omega) (ha.succ hb)
      simp only [BitTrie.branch]
      change Writes H nodes (if existingKey.bit depth then _ else _)
        (if existingKey.bit depth then _ else _)
      split
      · exact .of_grows hsu.grows (putNode_internal hH hsu.sound .empty hsu.represents)
      · exact .of_grows hsu.grows (putNode_internal hH hsu.sound hsu.represents .empty)
    · next hb =>
      have ho := putNode_leaf hH hs existingKey existingVh
      have hn := putNode_leaf hH ho.sound newKey newVh
      have ho' := ho.represents.mono hn.grows
      simp only [BitTrie.branch]
      change Writes H nodes (if newKey.bit depth then _ else _) (if newKey.bit depth then _ else _)
      split
      · exact .of_grows (ho.grows.trans hn.grows) (putNode_internal hH hn.sound ho' hn.represents)
      · exact .of_grows (ho.grows.trans hn.grows) (putNode_internal hH hn.sound hn.represents ho')

omit [DecidableEq D] in
theorem leaf_ne_empty (hH : H.CollisionFree) (key : HashValue) (valueHash : D) :
    hashSparseLeaf H key valueHash ≠ emptyHash H := (sparseHash_separated hH).leaf_ne_empty

omit [DecidableEq D] in
theorem internal_ne_empty (hH : H.CollisionFree) (left right : D) :
    hashSparseInternal H left right ≠ emptyHash H := (sparseHash_separated hH).node_ne_empty

/-- Insertion below a represented hash writes the trie with the entry inserted. -/
theorem insertAtNode_writes (hH : H.CollisionFree) (hs : Sound H nodes) {key : HashValue}
    {valueHash : D} {m : HashValue → Option D} (hw : depth + levels = 256)
    (ht : BitTrie.Canonical HashValue.bitKeys depth t m)
    (hag : ∀ a, m a ≠ none → HashValue.bitKeys.Agree depth a key)
    (hre : Represents H nodes hash t) :
    Writes H nodes
      (insertAtNode H key (.newLeaf H key valueHash) depth levels nodes hash)
      (t.insert HashValue.bitKeys key valueHash depth levels) := by
  induction levels generalizing depth nodes hash t m with
  | zero =>
    rw [insertAtNode, BitTrie.insert]
    exact putNode_leaf hH hs key valueHash
  | succ levels ih =>
    rw [insertAtNode]
    cases hre with
    | empty =>
      rw [if_pos rfl]
      exact putNode_leaf hH hs key valueHash
    | @leaf existingKey existingVh hn =>
      rw [if_neg (leaf_ne_empty hH _ _), hn, BitTrie.insert]
      change Writes H nodes (if existingKey = key then _ else _) _
      split
      · exact putNode_leaf hH hs key valueHash
      · next hne =>
        have hst : m existingKey ≠ none := by
          cases ht with
          | leaf hk _ => simp [hk]
        exact splitLeaf_writes hH hs hne hw (hag _ hst)
    | @node left right l r hn hl hr =>
      rw [if_neg (internal_ne_empty hH _ _), hn, BitTrie.insert]
      cases ht with
      | node _ _ _ hlc hrc =>
        change Writes H nodes (if key.bit depth then _ else _) (if key.bit depth then _ else _)
        split
        · next hb =>
          have hd := ih hs (by omega) hrc (fun a ha ↦ BitTrie.agree_of_half hag hb ha) hr
          exact .of_grows hd.grows (putNode_internal hH hd.sound (hl.mono hd.grows) hd.represents)
        · next hb =>
          rw [Bool.not_eq_true] at hb
          have hd := ih hs (by omega) hlc (fun a ha ↦ BitTrie.agree_of_half hag hb ha) hl
          exact .of_grows hd.grows (putNode_internal hH hd.sound hd.represents (hr.mono hd.grows))

/-- Joining two represented children writes the collapsed trie. -/
theorem collapseNode_writes (hH : H.CollisionFree) (hs : Sound H nodes) {left right : D}
    {l r : BitTrie HashValue D} (hl : Represents H nodes left l)
    (hr : Represents H nodes right r) :
    Writes H nodes (collapseNode H nodes left right) (l.collapse r) := by
  have hp := putNode_internal hH hs hl hr
  have hle := leaf_ne_empty (H := H) hH
  have hint := internal_ne_empty (H := H) hH
  rw [collapseNode]
  cases hl with
  | empty =>
    cases hr with
    | empty =>
      rw [if_pos ⟨rfl, rfl⟩]
      exact ⟨hs, .refl _, .empty⟩
    | leaf hn =>
      rw [if_neg (fun h ↦ hle _ _ h.2), if_pos rfl, hn]
      exact ⟨hs, .refl _, .leaf hn⟩
    | node hn =>
      rw [if_neg (fun h ↦ hint _ _ h.2), if_pos rfl, hn]
      exact hp
  | leaf hn =>
    rw [if_neg (fun h ↦ hle _ _ h.1), if_neg (hle _ _)]
    cases hr with
    | empty =>
      rw [if_pos rfl, hn]
      exact ⟨hs, .refl _, .leaf hn⟩
    | leaf =>
      rw [if_neg (hle _ _)]
      exact hp
    | node =>
      rw [if_neg (hint _ _)]
      exact hp
  | node hn =>
    rw [if_neg (fun h ↦ hint _ _ h.1), if_neg (hint _ _)]
    cases hr with
    | empty =>
      rw [if_pos rfl, hn]
      exact hp
    | leaf =>
      rw [if_neg (hle _ _)]
      exact hp
    | node =>
      rw [if_neg (hint _ _)]
      exact hp

/-- Removal below a represented hash writes the trie without the key. -/
theorem removeAtNode_writes (hH : H.CollisionFree) (hs : Sound H nodes) {key : HashValue}
    (hre : Represents H nodes hash t) :
    Writes H nodes (removeAtNode H key depth levels nodes hash)
      (t.remove HashValue.bitKeys key depth levels) := by
  induction hre generalizing depth levels with
  | empty =>
    rw [removeAtNode.eq_def, if_pos rfl, BitTrie.remove]
    exact ⟨hs, .refl _, .empty⟩
  | @leaf k valueHash hn =>
    rw [removeAtNode.eq_def, if_neg (leaf_ne_empty hH _ _), hn, BitTrie.remove]
    change Writes H nodes (if k = key then _ else _) _
    split
    · exact ⟨hs, .refl _, .empty⟩
    · exact ⟨hs, .refl _, .leaf hn⟩
  | @node left right l r hn hl hr ihl ihr =>
    rw [removeAtNode.eq_def, if_neg (internal_ne_empty hH _ _), hn]
    cases levels with
    | zero => exact ⟨hs, .refl _, .node hn hl hr⟩
    | succ levels =>
      rw [BitTrie.remove]
      change Writes H nodes (if key.bit depth then _ else _) (if key.bit depth then _ else _)
      split
      · have hd : Writes H nodes (removeAtNode H key (depth + 1) levels nodes right) _ := ihr
        exact .of_grows hd.grows (collapseNode_writes hH hd.sound (hl.mono hd.grows) hd.represents)
      · have hd : Writes H nodes (removeAtNode H key (depth + 1) levels nodes left) _ := ihl
        exact .of_grows hd.grows (collapseNode_writes hH hd.sound hd.represents (hr.mono hd.grows))

/-- The leaf at the end of a path, as a proof carries it. -/
def leafOf : BitTrie HashValue D → Option (SparseMerkleLeafNode D)
  | .leaf key valueHash => some ⟨key, valueHash⟩
  | _ => none

/-- The proof loop walks the represented trie, and gives up without looking after its last turn:
a path with as many siblings as there are turns ends without a leaf. -/
theorem proofLoop_eq (hH : H.CollisionFree) {key : HashValue} (hre : Represents H nodes hash t) :
    proofLoop H nodes key depth levels hash =
      (((t.siblings HashValue.bitKeys key depth).map (BitTrie.digest (sparseHash H))).take levels,
        if (t.siblings HashValue.bitKeys key depth).length < levels then
          leafOf (t.terminal HashValue.bitKeys key depth) else none) := by
  induction hre generalizing depth levels with
  | empty =>
    cases levels with
    | zero => rfl
    | succ levels =>
      rw [proofLoop, if_pos rfl]
      rfl
  | leaf hn =>
    cases levels with
    | zero => rfl
    | succ levels =>
      rw [proofLoop, if_neg (leaf_ne_empty hH _ _), hn]
      rfl
  | node hn hl hr ihl ihr =>
    cases levels with
    | zero => simp [proofLoop]
    | succ levels =>
      rw [proofLoop, if_neg (internal_ne_empty hH _ _), hn, BitTrie.siblings, BitTrie.terminal]
      change (if key.bit depth then _ else _) = _
      cases hb : key.bit depth with
      | false =>
        have hbi : HashValue.bitKeys.bit key depth = false := hb
        simp only [hbi, ihl, hr.hash_eq, Bool.false_eq_true, if_false, List.map_cons,
          List.take_succ_cons, List.length_cons, Nat.add_lt_add_iff_right]
      | true =>
        have hbi : HashValue.bitKeys.bit key depth = true := hb
        simp only [hbi, ihr, hl.hash_eq, if_true, List.map_cons, List.take_succ_cons,
          List.length_cons, Nat.add_lt_add_iff_right]

/-- The children of an internal node stored under `hash` are empty or marked. -/
def ChildrenMarked (H : Blake3 D) (nodes : NodeStore D) (marked : HashSet D) (hash : D) : Prop :=
  ∀ left right nodeHash, nodes.lookup hash = some (.internal left right nodeHash) →
    (left = emptyHash H ∨ left ∈ marked) ∧ (right = emptyHash H ∨ right ∈ marked)

variable {marked : HashSet D}

theorem ChildrenMarked.mono {marked' : HashSet D} (h : ChildrenMarked H nodes marked hash)
    (hm : ∀ x ∈ marked, x ∈ marked') : ChildrenMarked H nodes marked' hash := by
  intro left right nodeHash hlo
  obtain ⟨hl, hr⟩ := h left right nodeHash hlo
  exact ⟨hl.imp_right (hm _), hr.imp_right (hm _)⟩

/-- What marking from `hash` adds to the marks: the hash itself, and with every new mark the
children below it. -/
structure Marks (H : Blake3 D) (nodes : NodeStore D) (hash : D) (old new : HashSet D) : Prop where
  keeps : ∀ x ∈ old, x ∈ new
  marks : hash = emptyHash H ∨ hash ∈ new
  closed : ∀ x ∈ new, x ∉ old → ChildrenMarked H nodes new x

/-- The number of stored nodes without a mark. -/
def unmarked (nodes : NodeStore D) (marked : HashSet D) : Nat :=
  (nodes.keys.toFinset \ marked.keys.toFinset).card

private theorem unmarked_mono {old new : HashSet D} (h : ∀ x ∈ old, x ∈ new) :
    unmarked nodes new ≤ unmarked nodes old := by
  apply Finset.card_le_card
  intro x hx
  simp only [Finset.mem_sdiff, List.mem_toFinset] at hx ⊢
  exact ⟨hx.1, fun ho ↦ hx.2 (h x ho)⟩

private theorem unmarked_insert_lt (hm : hash ∈ nodes) (hn : hash ∉ marked)
    : unmarked nodes (marked.insert hash ()) < unmarked nodes marked := by
  apply Finset.card_lt_card
  refine (Finset.ssubset_iff_of_subset fun x hx ↦ ?_).mpr ⟨hash, ?_, ?_⟩
  · simp only [Finset.mem_sdiff, List.mem_toFinset] at hx ⊢
    exact ⟨hx.1, fun ho ↦ hx.2 (AList.mem_insert _ |>.mpr (.inr ho))⟩
  · simp only [Finset.mem_sdiff, List.mem_toFinset]
    exact ⟨hm, hn⟩
  · simp only [Finset.mem_sdiff, List.mem_toFinset, not_and, not_not]
    exact fun _ ↦ AList.mem_insert _ |>.mpr (.inl rfl)

/-- Marking reaches everything below a hash when the fuel exceeds the unmarked nodes: each
recursive call follows a new mark on a stored node. -/
theorem markReachable_marks {fuel : Nat} (hfu : unmarked nodes marked < fuel) :
    Marks H nodes hash marked (markReachable H nodes fuel hash marked) := by
  induction fuel generalizing hash marked with
  | zero => exact absurd hfu (Nat.not_lt_zero _)
  | succ fuel ih =>
    rw [markReachable]
    split
    · next hd =>
      exact ⟨fun x hx ↦ hx, hd, fun x hx hn ↦ absurd hx hn⟩
    · next hd =>
      obtain ⟨-, hne⟩ := not_or.mp hd
      have hf : ∀ x ∈ marked.insert hash (), x ∉ marked → x = hash := by
        intro x hx hn
        exact (AList.mem_insert _ |>.mp hx).resolve_right hn
      have hk : ∀ x ∈ marked, x ∈ marked.insert hash () :=
        fun x hx ↦ AList.mem_insert _ |>.mpr (.inr hx)
      have hs : hash ∈ marked.insert hash () := AList.mem_insert _ |>.mpr (.inl rfl)
      split
      · next left right nodeHash hno =>
        have hm : hash ∈ nodes := AList.lookup_isSome.mp (by simp [hno])
        have hlt := unmarked_insert_lt hm hne
        have hl : Marks H nodes left _ (markReachable H nodes fuel left (marked.insert hash ())) :=
          ih (by omega)
        have hr : Marks H nodes right _ (markReachable H nodes fuel right
            (markReachable H nodes fuel left (marked.insert hash ()))) :=
          ih (Nat.lt_of_le_of_lt (unmarked_mono hl.keeps) (by omega))
        refine ⟨fun x hx ↦ hr.keeps x (hl.keeps x (hk x hx)),
          .inr (hr.keeps _ (hl.keeps _ hs)), fun x hx hn ↦ ?_⟩
        -- a new mark comes from the right call, the left call or this one
        by_cases hxl : x ∈ markReachable H nodes fuel left (marked.insert hash ())
        · by_cases hx₁ : x ∈ marked.insert hash ()
          · rw [hf x hx₁ hn]
            intro l r n hlo
            rw [hno, Option.some.injEq, TreeNode.internal.injEq] at hlo
            obtain ⟨rfl, rfl, -⟩ := hlo
            exact ⟨hl.marks.imp_right (hr.keeps _), hr.marks⟩
          · exact (hl.closed x hxl hx₁).mono hr.keeps
        · exact hr.closed x hx hxl
      · next ho =>
        refine ⟨hk, .inr hs, fun x hx hn l r n hx' ↦ ?_⟩
        rw [hf x hx hn] at hx'
        exact absurd hx' (ho l r n)

private theorem lookup_retain_of_mem {node : TreeNode D} (hm : hash ∈ marked)
    (hn : nodes.lookup hash = some node) :
    (nodes.retain fun hash _ ↦ decide (hash ∈ marked)).lookup hash = some node := by
  rw [HashMap.lookup_retain, hn]
  simp [hm]

/-- Dropping unmarked nodes keeps what a marked hash represents, if marks are closed under
children. -/
theorem Represents.retain (hH : H.CollisionFree)
    (hc : ∀ x ∈ marked, ChildrenMarked H nodes marked x)
    (hma : hash = emptyHash H ∨ hash ∈ marked) (h : Represents H nodes hash t) :
    Represents H (nodes.retain fun hash _ ↦ decide (hash ∈ marked)) hash t := by
  induction h with
  | empty => exact .empty
  | leaf hn =>
    have hm := hma.resolve_left (leaf_ne_empty hH _ _)
    exact .leaf (lookup_retain_of_mem hm hn)
  | node hn _ _ ihl ihr =>
    have hm := hma.resolve_left (internal_ne_empty hH _ _)
    obtain ⟨hml, hmr⟩ := hc _ hm _ _ _ hn
    exact .node (lookup_retain_of_mem hm hn) (ihl hml) (ihr hmr)

/-- A part of a sound store is sound. -/
theorem Sound.retain (hs : Sound H nodes) (p : D → TreeNode D → Bool) :
    Sound H (nodes.retain p) := by
  intro hash node hl
  rw [HashMap.lookup_retain, Option.filter_eq_some_iff] at hl
  exact hs hash node hl.1

end Setu.Merkle
