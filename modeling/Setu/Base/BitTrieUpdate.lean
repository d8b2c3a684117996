import Setu.Base.BitTrie

/-!
# Insertion and removal in a path-compressed trie

Library `Base`. Insertion walks to the key's place and splits a foreign leaf along the bits
the two keys share. Removal takes the leaf out and pulls a lone sibling leaf up on the way
back. Both keep the trie canonical for the updated map.
-/

namespace Setu.Base.BitTrie

universe u v

variable {K : Type u} {V : Type v} (B : BitKeys K)

/-- The trie of two entries whose keys agree above `depth`; `levels` is the number of bits
left below `depth`. -/
def split (existing : K) (old : V) (key : K) (value : V) (depth : Nat) : (levels : Nat) →
    BitTrie K V
  | 0 => .leaf key value
  | levels + 1 =>
    if B.bit existing depth = B.bit key depth then
      branch (B.bit existing depth) (split existing old key value (depth + 1) levels) .empty
    else branch (B.bit key depth) (.leaf key value) (.leaf existing old)

/-- Insert or replace an entry. -/
def insert [DecidableEq K] (key : K) (value : V) (depth : Nat) : (levels : Nat) →
    BitTrie K V → BitTrie K V
  | 0, _ => .leaf key value
  | _ + 1, .empty => .leaf key value
  | levels + 1, .leaf existing old =>
    if existing = key then .leaf key value
    else split B existing old key value depth (levels + 1)
  | levels + 1, .node l r =>
    if B.bit key depth then .node l (insert key value (depth + 1) levels r)
    else .node (insert key value (depth + 1) levels l) r

/-- A node whose only child is a leaf is that leaf. -/
def collapse : BitTrie K V → BitTrie K V → BitTrie K V
  | .empty, .empty => .empty
  | .empty, .leaf k v => .leaf k v
  | .leaf k v, .empty => .leaf k v
  | l, r => .node l r

/-- Remove a key; a node below the last bit is left as it is. -/
def remove [DecidableEq K] (key : K) (depth : Nat) : (levels : Nat) →
    BitTrie K V → BitTrie K V
  | _, .empty => .empty
  | _, .leaf k v => if k = key then .empty else .leaf k v
  | 0, .node l r => .node l r
  | levels + 1, .node l r =>
    if B.bit key depth then collapse l (remove key (depth + 1) levels r)
    else collapse (remove key (depth + 1) levels l) r

variable {B} {d : Nat} {m : K → Option V} {t : BitTrie K V}

/-- Below a node, the stored keys on a key's side agree with it on one more bit. -/
theorem agree_of_half {k : K} {b : Bool} (hag : ∀ a, m a ≠ none → B.Agree d a k)
    (hb : B.bit k d = b) {a : K} (ha : half B d b m a ≠ none) : B.Agree (d + 1) a k := by
  obtain ⟨hbi, ha⟩ := half_ne_none.mp ha
  exact (hag a ha).succ (hbi.trans hb.symm)

private theorem half_eq_none {b : Bool} {k : K} (hm : B.bit k d = b → m k = none) :
    half B d b m k = none := by
  by_cases h : B.bit k d = b
  · rw [half_of_bit h, hm h]
  · exact half_of_bit_ne h

/-- Splitting gives the canonical trie of a map with exactly two keys. -/
theorem split_canonical {existing key : K} {old value : V} {levels : Nat}
    (hw : d + levels = B.width) (hne : existing ≠ key) (ha : B.Agree d existing key)
    (ho : m existing = some old) (hn : m key = some value)
    (hm : ∀ k, k ≠ existing → k ≠ key → m k = none) :
    Canonical B d (split B existing old key value d levels) m := by
  induction levels generalizing d m with
  | zero => exact absurd (ha.eq_of_width_le (by omega)) hne
  | succ levels ih =>
    have h₁ : m existing ≠ none := by simp [ho]
    have h₂ : m key ≠ none := by simp [hn]
    rw [split]
    split
    · next hbi =>
      refine .branch hne h₁ h₂ ?_ ?_
      · refine ih (by omega) (ha.succ hbi) ?_ ?_ fun k hk hk' ↦ ?_
        · rw [half_of_bit rfl, ho]
        · rw [half_of_bit hbi.symm, hn]
        · exact half_eq_none fun _ ↦ hm k hk hk'
      · -- both keys are on the same side
        refine .empty fun k ↦ half_eq_none fun hk ↦ hm k ?_ ?_
        · rintro rfl
          simp at hk
        · rintro rfl
          simp [hbi] at hk
    · next hbi =>
      refine .branch hne h₁ h₂ ?_ ?_
      · refine .leaf (by rw [half_of_bit rfl, hn]) fun k hk ↦ half_eq_none fun hkb ↦ hm k ?_ hk
        rintro rfl
        exact hbi hkb
      · have hb : B.bit existing d = !B.bit key d := Bool.eq_not.mpr hbi
        refine .leaf (by rw [half_of_bit hb, ho]) fun k hk ↦
          half_eq_none fun hkb ↦ hm k hk ?_
        rintro rfl
        simp at hkb

section Insert

variable [DecidableEq K]

private theorem update_ne_none {k a : K} {v : V} (h : m a ≠ none) :
    Function.update m k (some v) a ≠ none := by
  by_cases ha : a = k
  · simp [ha]
  · rwa [Function.update_of_ne ha]

/-- Insertion gives the canonical trie of the updated map, at any depth above which the key
agrees with every key stored. -/
theorem insert_canonical {key : K} {value : V} {levels : Nat} (hw : d + levels = B.width)
    (hag : ∀ a, m a ≠ none → B.Agree d a key) (ht : Canonical B d t m) :
    Canonical B d (t.insert B key value d levels) (Function.update m key (some value)) := by
  have hse : Function.update m key (some value) key = some value := Function.update_self ..
  induction levels generalizing d m t with
  | zero =>
    -- every stored key is `key` itself
    rw [insert]
    refine .leaf hse fun a ha ↦ ?_
    rw [Function.update_of_ne ha]
    by_contra hne
    exact ha ((hag a hne).eq_of_width_le (by omega))
  | succ levels ih =>
    cases ht with
    | empty hm =>
      refine .leaf hse fun a ha ↦ ?_
      rw [Function.update_of_ne ha, hm]
    | @leaf _ _ existing old hk hm =>
      rw [insert]
      split
      · next he =>
        subst he
        refine .leaf hse fun a ha ↦ ?_
        rw [Function.update_of_ne ha, hm a ha]
      · next he =>
        refine split_canonical hw he (hag existing (by simp [hk])) ?_ hse fun a ha hak ↦ ?_
        · rw [Function.update_of_ne he, hk]
        · rw [Function.update_of_ne hak, hm a ha]
    | node hne h₁ h₂ hl hr =>
      have hd : ∀ s, Canonical B (d + 1) s (half B d (B.bit key d) m) →
          Canonical B (d + 1) (s.insert B key value (d + 1) levels)
            (half B d (B.bit key d) (Function.update m key (some value))) := by
        intro s hs
        rw [half_update _ rfl]
        exact ih (by omega) (fun a ha ↦ agree_of_half hag rfl ha) hs (Function.update_self ..)
      have ho : ∀ {b s}, B.bit key d ≠ b → Canonical B (d + 1) s (half B d b m) →
          Canonical B (d + 1) s (half B d b (Function.update m key (some value))) := by
        intro b s hb hs
        rwa [half_update_ne _ hb]
      rw [insert]
      split
      · next hb =>
        rw [hb] at hd
        exact .node hne (update_ne_none h₁) (update_ne_none h₂) (ho (by simp [hb]) hl) (hd _ hr)
      · next hb =>
        rw [Bool.not_eq_true] at hb
        rw [hb] at hd
        exact .node hne (update_ne_none h₁) (update_ne_none h₂) (hd _ hl) (ho (by simp [hb]) hr)

end Insert

section Remove

private theorem eq_none_of_halves {k : K} (hl : half B d false m k = none)
    (hr : half B d true m k = none) : m k = none := by
  cases hb : B.bit k d with
  | false => rwa [half_of_bit hb] at hl
  | true => rwa [half_of_bit hb] at hr

private theorem eq_some_of_half {b : Bool} {k : K} {v : V} (h : half B d b m k = some v) :
    m k = some v := by
  have hb := (half_ne_none.mp (by simp [h] : half B d b m k ≠ none)).1
  rwa [half_of_bit hb] at h

/-- Joining the canonical tries of the two halves, pulling a lone leaf up, gives the canonical
trie of the whole. -/
theorem collapse_canonical {l r : BitTrie K V} (hl : Canonical B (d + 1) l (half B d false m))
    (hr : Canonical B (d + 1) r (half B d true m)) : Canonical B d (collapse l r) m := by
  have hme : ∀ {b k}, half B d b m k ≠ none → m k ≠ none := fun h ↦ (half_ne_none.mp h).2
  cases hl with
  | empty hml =>
    cases hr with
    | empty hmr => exact .empty fun k ↦ eq_none_of_halves (hml k) (hmr k)
    | leaf hk hm =>
      exact .leaf (eq_some_of_half hk) fun k hne ↦ eq_none_of_halves (hml k) (hm k hne)
    | node hne h₁ h₂ hl hr =>
      exact .node hne (hme h₁) (hme h₂) (.empty hml) (.node hne h₁ h₂ hl hr)
  | @leaf _ _ k _ hk hm =>
    cases hr with
    | empty hmr =>
      exact .leaf (eq_some_of_half hk) fun k' hne ↦ eq_none_of_halves (hm k' hne) (hmr k')
    | @leaf _ _ k' _ hk' hm' =>
      have h₁ : half B d false m k ≠ none := by simp [hk]
      have h₂ : half B d true m k' ≠ none := by simp [hk']
      have hne : k ≠ k' := by
        rintro rfl
        exact Bool.false_ne_true ((half_ne_none.mp h₁).1.symm.trans (half_ne_none.mp h₂).1)
      exact .node hne (hme h₁) (hme h₂) (.leaf hk hm) (.leaf hk' hm')
    | node hne h₁ h₂ hl hr =>
      exact .node hne (hme h₁) (hme h₂) (.leaf hk hm) (.node hne h₁ h₂ hl hr)
  | node hne h₁ h₂ hll hlr =>
    have hl := Canonical.node hne h₁ h₂ hll hlr
    cases r <;> exact .node hne (hme h₁) (hme h₂) hl hr

variable [DecidableEq K] {levels : Nat}

private theorem remove_canonical_empty {key : K} (hm : ∀ k, m k = none) :
    Canonical B d (remove B key d levels .empty) (Function.update m key none) := by
  rw [remove]
  refine .empty fun k ↦ ?_
  by_cases hk : k = key
  · simp [hk]
  · rw [Function.update_of_ne hk, hm]

private theorem remove_canonical_leaf {key k : K} {v : V} (hk : m k = some v)
    (hm : ∀ k', k' ≠ k → m k' = none) :
    Canonical B d (remove B key d levels (.leaf k v)) (Function.update m key none) := by
  rw [remove]
  split
  · next he =>
    subst he
    refine .empty fun k' ↦ ?_
    by_cases hk' : k' = k
    · simp [hk']
    · rw [Function.update_of_ne hk', hm k' hk']
  · next he =>
    refine .leaf (by rw [Function.update_of_ne he, hk]) fun k' hk' ↦ ?_
    by_cases hke : k' = key
    · simp [hke]
    · rw [Function.update_of_ne hke, hm k' hk']

/-- Removal gives the canonical trie of the map without the key. -/
theorem remove_canonical {key : K} (hw : d + levels = B.width)
    (hag : ∀ a, m a ≠ none → B.Agree d a key) (ht : Canonical B d t m) :
    Canonical B d (t.remove B key d levels) (Function.update m key none) := by
  induction levels generalizing d m t with
  | zero =>
    cases ht with
    | empty hm => exact remove_canonical_empty hm
    | leaf hk hm => exact remove_canonical_leaf hk hm
    | node hne h₁ h₂ =>
      -- no bit is left to tell the node's two keys apart
      have h := (hag _ h₁).trans (hag _ h₂).symm
      exact absurd (h.eq_of_width_le (by omega)) hne
  | succ levels ih =>
    cases ht with
    | empty hm => exact remove_canonical_empty hm
    | leaf hk hm => exact remove_canonical_leaf hk hm
    | node hne h₁ h₂ hl hr =>
      have hd : ∀ s, Canonical B (d + 1) s (half B d (B.bit key d) m) →
          Canonical B (d + 1) (s.remove B key (d + 1) levels)
            (half B d (B.bit key d) (Function.update m key none)) := by
        intro s hs
        rw [half_update _ rfl]
        exact ih (by omega) (fun a ha ↦ agree_of_half hag rfl ha) hs
      rw [remove]
      split
      · next hb =>
        rw [hb] at hd
        refine collapse_canonical ?_ (hd _ hr)
        rwa [half_update_ne _ (by simp [hb])]
      · next hb =>
        rw [Bool.not_eq_true] at hb
        rw [hb] at hd
        refine collapse_canonical (hd _ hl) ?_
        rwa [half_update_ne _ (by simp [hb])]

end Remove

end Setu.Base.BitTrie
