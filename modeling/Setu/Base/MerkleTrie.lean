import Setu.Base.BitTrie

/-!
# Hash commitments to a path-compressed trie

Library `Base`. A trie is committed to by one digest, and a path proof is the list of sibling
digests from the root down to a terminal subtrie. An accepting path, whoever wrote it, walks
the committed trie (`descend_of_rootFrom_eq`); the honest path accepts (`rootFrom_siblings`)
and is exactly as long as the key's path stays shared (`Canonical.lt_length_siblings_iff`).
-/

namespace Setu.Base

universe u v w

/-- A hash for each kind of trie node. -/
structure NodeHash (K : Type u) (V : Type v) (D : Type w) where
  empty : D
  leaf : K → V → D
  node : D → D → D

/-- The node hashes are collision-free and separated by kind. -/
structure NodeHash.Separated {K : Type u} {V : Type v} {D : Type w} (N : NodeHash K V D) :
    Prop where
  leaf_inj : ∀ {k k' : K} {v v' : V}, N.leaf k v = N.leaf k' v' → k = k' ∧ v = v'
  node_inj : ∀ {l l' r r' : D}, N.node l r = N.node l' r' → l = l' ∧ r = r'
  leaf_ne_empty : ∀ {k : K} {v : V}, N.leaf k v ≠ N.empty
  node_ne_empty : ∀ {l r : D}, N.node l r ≠ N.empty
  leaf_ne_node : ∀ {k : K} {v : V} {l r : D}, N.leaf k v ≠ N.node l r

/-- A key takes the same `n` turns as `key` from depth `d` on. -/
def BitKeys.Along {K : Type u} (B : BitKeys K) (key : K) (d n : Nat) (a : K) : Prop :=
  ∀ i, d ≤ i → i < d + n → B.bit a i = B.bit key i

/-- Taking the same turns is one equal bit and then the same turns one level down. -/
theorem BitKeys.along_succ {K : Type u} {B : BitKeys K} {key a : K} {d n : Nat} :
    B.Along key d (n + 1) a ↔ B.bit a d = B.bit key d ∧ B.Along key (d + 1) n a := by
  constructor
  · intro h
    exact ⟨h d (by omega) (by omega), fun i hi hi' ↦ h i (by omega) (by omega)⟩
  · rintro ⟨hd, h⟩ i hi hi'
    by_cases hid : i = d
    · rw [hid, hd]
    · exact h i (by omega) (by omega)

/-- From the top, taking the same turns is agreeing on the first bits. -/
theorem BitKeys.along_zero {K : Type u} {B : BitKeys K} {key a : K} {n : Nat} :
    B.Along key 0 n a ↔ B.Agree n a key := by
  simp [BitKeys.Along, BitKeys.Agree]

namespace BitTrie

variable {K : Type u} {V : Type v} {D : Type w} (N : NodeHash K V D) (B : BitKeys K)

/-- The digest that commits to a trie. -/
def digest : BitTrie K V → D
  | .empty => N.empty
  | .leaf k v => N.leaf k v
  | .node l r => N.node (digest l) (digest r)

/-- The digest obtained from the bottom of a key's path by hashing in the siblings, which are
listed from depth `d` downwards. -/
def rootFrom (key : K) (bottom : D) : (d : Nat) → List D → D
  | _, [] => bottom
  | d, s :: rest =>
    if B.bit key d then N.node s (rootFrom key bottom (d + 1) rest)
    else N.node (rootFrom key bottom (d + 1) rest) s

/-- The subtrie `n` levels down a key's path, if the path has that many nodes. -/
def descend (key : K) : (d n : Nat) → BitTrie K V → Option (BitTrie K V)
  | _, 0, t => some t
  | d, n + 1, .node l r => descend key (d + 1) n (if B.bit key d then r else l)
  | _, _ + 1, _ => none

/-- The subtries hanging off a key's path, from depth `d` downwards. -/
def siblings (key : K) : (d : Nat) → BitTrie K V → List (BitTrie K V)
  | _, .empty => []
  | _, .leaf _ _ => []
  | d, .node l r =>
    if B.bit key d then l :: siblings key (d + 1) r else r :: siblings key (d + 1) l

/-- The subtrie at the end of a key's path: empty or a leaf. -/
def terminal (key : K) : (d : Nat) → BitTrie K V → BitTrie K V
  | _, .empty => .empty
  | _, .leaf k v => .leaf k v
  | d, .node l r => if B.bit key d then terminal key (d + 1) r else terminal key (d + 1) l

variable {N B} {key : K} {d : Nat} {m : K → Option V} {t : BitTrie K V}

/-- The digest of a non-empty trie is not the empty digest. -/
theorem digest_eq_empty (hN : N.Separated) : digest N t = N.empty ↔ t = .empty := by
  cases t with
  | empty => simp [digest]
  | leaf k v => simp [digest, hN.leaf_ne_empty]
  | node l r => simp [digest, hN.node_ne_empty]

/-- Only a leaf has a leaf's digest. -/
theorem digest_eq_leaf (hN : N.Separated) {k : K} {v : V} :
    digest N t = N.leaf k v ↔ t = .leaf k v := by
  constructor
  · intro h
    cases t with
    | empty => exact absurd h.symm hN.leaf_ne_empty
    | leaf k' v' =>
      obtain ⟨rfl, rfl⟩ := hN.leaf_inj h
      rfl
    | node l r => exact absurd h.symm hN.leaf_ne_node
  · rintro rfl
    rfl

/-- Whatever siblings are supplied, if they lead from `bottom` to a trie's digest then the key's
path has that many nodes and `bottom` commits to the subtrie it reaches. -/
theorem descend_of_rootFrom_eq (hN : N.Separated) {bottom : D} {sibs : List D}
    (h : rootFrom N B key bottom d sibs = digest N t) :
    ∃ s, descend B key d sibs.length t = some s ∧ digest N s = bottom := by
  induction sibs generalizing d t with
  | nil => exact ⟨t, rfl, h.symm⟩
  | cons x rest ih =>
    -- the hash on top is a node hash, so the committed trie is a node
    cases t with
    | empty =>
      rw [rootFrom] at h
      split at h <;> exact absurd h hN.node_ne_empty
    | leaf k v =>
      rw [rootFrom] at h
      split at h <;> exact absurd h.symm hN.leaf_ne_node
    | node l r =>
      rw [rootFrom, digest] at h
      rw [List.length_cons, descend]
      split at h
      · next hb =>
        rw [if_pos hb]
        exact ih (hN.node_inj h).2
      · next hb =>
        rw [if_neg hb]
        exact ih (hN.node_inj h).1

private theorem Canonical.child {l r : BitTrie K V} (key : K)
    (hl : Canonical B (d + 1) l (half B d false m)) (hr : Canonical B (d + 1) r (half B d true m)) :
    Canonical B (d + 1) (if B.bit key d then r else l) (half B d (B.bit key d) m) := by
  cases hb : B.bit key d with
  | false => simpa using hl
  | true => simpa using hr

/-- Down a key's path a canonical trie stays canonical, for a map that agrees with the whole
one on every key taking the same turns. -/
theorem Canonical.descend {n : Nat} {s : BitTrie K V} (ht : Canonical B d t m)
    (hs : descend B key d n t = some s) :
    ∃ m', Canonical B (d + n) s m' ∧ ∀ k, B.Along key d n k → m' k = m k := by
  induction n generalizing d t m with
  | zero =>
    rw [BitTrie.descend, Option.some.injEq] at hs
    subst hs
    exact ⟨m, ht, fun _ _ ↦ rfl⟩
  | succ n ih =>
    cases ht with
    | empty => simp [BitTrie.descend] at hs
    | leaf => simp [BitTrie.descend] at hs
    | node _ _ _ hl hr =>
      obtain ⟨m', hm', ha⟩ := ih (hl.child key hr) hs
      rw [show d + (n + 1) = d + 1 + n by omega]
      refine ⟨m', hm', fun k hk ↦ ?_⟩
      obtain ⟨hb, hk⟩ := BitKeys.along_succ.mp hk
      rw [ha k hk, half_of_bit hb]

/-- Hashing the honest siblings back in recovers the commitment. -/
theorem rootFrom_siblings :
    rootFrom N B key (digest N (terminal B key d t)) d ((siblings B key d t).map (digest N)) =
      digest N t := by
  induction t generalizing d with
  | empty => rfl
  | leaf k v => rfl
  | node l r ihl ihr =>
    rw [siblings, terminal, digest]
    split
    · next hb => rw [List.map_cons, rootFrom, if_pos hb, ihr]
    · next hb => rw [List.map_cons, rootFrom, if_neg hb, ihl]

/-- The path of a stored key ends in its leaf. -/
theorem Canonical.terminal_eq_leaf {v : V} (ht : Canonical B d t m) (hk : m key = some v) :
    terminal B key d t = .leaf key v := by
  induction t generalizing d m with
  | empty =>
    cases ht with
    | empty hm => simp [hm] at hk
  | leaf k x =>
    cases ht with
    | leaf hkx hm =>
      have he : key = k := not_imp_comm.mp (hm key) (by simp [hk])
      subst he
      rw [hkx, Option.some.injEq] at hk
      rw [hk]
      rfl
  | node l r ihl ihr =>
    cases ht with
    | node _ _ _ hl hr =>
      rw [terminal]
      split
      · next hb => exact ihr hr (by rwa [half_of_bit hb])
      · next hb => exact ihl hl (by rwa [half_of_bit (Bool.not_eq_true _ ▸ hb)])

/-- Two stored keys take the first `n` turns of a key's path. -/
def Forked (B : BitKeys K) (m : K → Option V) (key : K) (d n : Nat) : Prop :=
  ∃ a b, a ≠ b ∧ m a ≠ none ∧ m b ≠ none ∧ B.Along key d n a ∧ B.Along key d n b

private theorem forked_succ {n : Nat} :
    Forked B m key d (n + 1) ↔ Forked B (half B d (B.bit key d) m) key (d + 1) n := by
  constructor
  · rintro ⟨a, b, hne, ha, hb, haa, hba⟩
    obtain ⟨hab, haa⟩ := BitKeys.along_succ.mp haa
    obtain ⟨hbb, hba⟩ := BitKeys.along_succ.mp hba
    exact ⟨a, b, hne, half_ne_none.mpr ⟨hab, ha⟩, half_ne_none.mpr ⟨hbb, hb⟩, haa, hba⟩
  · rintro ⟨a, b, hne, ha, hb, haa, hba⟩
    obtain ⟨hab, ha⟩ := half_ne_none.mp ha
    obtain ⟨hbb, hb⟩ := half_ne_none.mp hb
    exact ⟨a, b, hne, ha, hb, BitKeys.along_succ.mpr ⟨hab, haa⟩, BitKeys.along_succ.mpr ⟨hbb, hba⟩⟩

/-- A path passes a node `n` levels down exactly when it is still forked there. -/
theorem Canonical.lt_length_siblings_iff {n : Nat} (ht : Canonical B d t m) :
    n < (siblings B key d t).length ↔ Forked B m key d n := by
  induction t generalizing d m n with
  | empty =>
    cases ht with
    | empty hm => simp [siblings, Forked, hm]
  | leaf k v =>
    cases ht with
    | leaf hk hm =>
      simp only [siblings, List.length_nil, Nat.not_lt_zero, false_iff]
      rintro ⟨a, b, hne, ha, hb, -, -⟩
      exact hne ((not_imp_comm.mp (hm a) ha).trans (not_imp_comm.mp (hm b) hb).symm)
  | node l r ihl ihr =>
    cases ht with
    | @node _ _ _ _ k₁ k₂ hne h₁ h₂ hl hr =>
      cases n with
      | zero =>
        have htu : ∀ k, B.Along key d 0 k := fun k i hi hi' ↦ by omega
        refine iff_of_true ?_ ⟨k₁, k₂, hne, h₁, h₂, htu _, htu _⟩
        rw [siblings]
        split <;> exact Nat.zero_lt_succ _
      | succ n =>
        rw [siblings, forked_succ]
        split
        · next hb => rw [List.length_cons, Nat.add_lt_add_iff_right, hb, ihr hr]
        · next hb =>
          rw [Bool.not_eq_true] at hb
          rw [List.length_cons, Nat.add_lt_add_iff_right, hb, ihl hl]

/-- From the top a path is no longer than the keys. -/
theorem Canonical.length_siblings_le (ht : Canonical B 0 t m) :
    (siblings B key 0 t).length ≤ B.width := by
  by_contra hlt
  obtain ⟨a, b, hne, -, -, ha, hb⟩ := ht.lt_length_siblings_iff.mp (Nat.lt_of_not_le hlt)
  have h := (BitKeys.along_zero.mp ha).trans (BitKeys.along_zero.mp hb).symm
  exact hne (h.eq_of_width_le (Nat.le_refl _))

end BitTrie

end Setu.Base
