import Mathlib.Logic.Function.Basic
import Mathlib.Data.List.Basic

/-!
# Path-compressed binary tries

Library `Base`. A trie over keys of a fixed number of bits, most significant bit first, in
which a subtree with a single key is just its leaf. `Canonical` says which trie belongs to a
finite map; it determines the trie (`Canonical.unique`), and bulk construction, insertion and
removal all produce it. So any history of operations ends in the same trie.
-/

namespace Setu.Base

universe u v

/-- Keys read as a fixed number of bits, which determine the key. -/
structure BitKeys (K : Type u) where
  width : Nat
  bit : K → Nat → Bool
  ext : ∀ {a b : K}, (∀ i < width, bit a i = bit b i) → a = b

/-- Two keys agree on their first `n` bits. -/
def BitKeys.Agree {K : Type u} (B : BitKeys K) (n : Nat) (a b : K) : Prop :=
  ∀ i < n, B.bit a i = B.bit b i

/-- A binary trie with the whole key and a value at each leaf. -/
inductive BitTrie (K : Type u) (V : Type v) where
  | empty
  | leaf (key : K) (value : V)
  | node (left right : BitTrie K V)

namespace BitKeys.Agree

variable {K : Type u} {B : BitKeys K} {n : Nat} {a b c : K}

theorem refl (B : BitKeys K) (n : Nat) (a : K) : B.Agree n a a := fun _ _ ↦ rfl

theorem symm (h : B.Agree n a b) : B.Agree n b a := fun i hi ↦ (h i hi).symm

theorem trans (h : B.Agree n a b) (h' : B.Agree n b c) : B.Agree n a c :=
  fun i hi ↦ (h i hi).trans (h' i hi)

/-- Agreement extends over one more equal bit. -/
theorem succ (h : B.Agree n a b) (hb : B.bit a n = B.bit b n) : B.Agree (n + 1) a b := by
  intro i hi
  by_cases hin : i = n
  · subst hin
    exact hb
  · exact h i (by omega)

/-- Keys that agree on every bit are equal. -/
theorem eq_of_width_le (h : B.Agree n a b) (hn : B.width ≤ n) : a = b :=
  B.ext fun i hi ↦ h i (by omega)

end BitKeys.Agree

namespace BitTrie

variable {K : Type u} {V : Type v} (B : BitKeys K)

/-- The node with `t` on the side of bit `b` and `s` on the other side. -/
def branch (b : Bool) (t s : BitTrie K V) : BitTrie K V :=
  if b then .node s t else .node t s

/-- The part of a map whose keys have bit `b` at position `d`. -/
def half (d : Nat) (b : Bool) (m : K → Option V) : K → Option V :=
  fun k ↦ if B.bit k d = b then m k else none

/-- `t` is the path-compressed trie of the finite map `m` at depth `d`: a node stands over at
least two keys, and splits them by the bit at its depth. -/
inductive Canonical : Nat → BitTrie K V → (K → Option V) → Prop
  | empty {d : Nat} {m : K → Option V} (hm : ∀ k, m k = none) : Canonical d .empty m
  | leaf {d : Nat} {m : K → Option V} {k : K} {v : V} (hk : m k = some v)
      (hm : ∀ k', k' ≠ k → m k' = none) : Canonical d (.leaf k v) m
  | node {d : Nat} {m : K → Option V} {l r : BitTrie K V} {k₁ k₂ : K} (hne : k₁ ≠ k₂)
      (h₁ : m k₁ ≠ none) (h₂ : m k₂ ≠ none)
      (hl : Canonical (d + 1) l (half B d false m))
      (hr : Canonical (d + 1) r (half B d true m)) : Canonical d (.node l r) m

variable {B} {d : Nat} {m : K → Option V} {t : BitTrie K V} {b : Bool} {k : K}

/-- A half keeps the keys with the right bit. -/
theorem half_of_bit (h : B.bit k d = b) : half B d b m k = m k := if_pos h

/-- A half drops the keys with the other bit. -/
theorem half_of_bit_ne (h : B.bit k d ≠ b) : half B d b m k = none := if_neg h

/-- A key present in a half is present in the map and has the right bit. -/
theorem half_ne_none : half B d b m k ≠ none ↔ B.bit k d = b ∧ m k ≠ none := by
  by_cases h : B.bit k d = b
  · simp [half_of_bit h, h]
  · simp [half_of_bit_ne h, h]

/-- Updating a key commutes with taking the half that holds it. -/
theorem half_update [DecidableEq K] (v : Option V) (h : B.bit k d = b) :
    half B d b (Function.update m k v) = Function.update (half B d b m) k v := by
  funext k'
  by_cases hk : k' = k
  · subst hk
    rw [half_of_bit h, Function.update_self, Function.update_self]
  · simp [half, Function.update_of_ne hk]

/-- Updating a key leaves the other half alone. -/
theorem half_update_ne [DecidableEq K] (v : Option V) (h : B.bit k d ≠ b) :
    half B d b (Function.update m k v) = half B d b m := by
  funext k'
  by_cases hk : k' = k
  · subst hk
    rw [half_of_bit_ne h, half_of_bit_ne h]
  · simp [half, Function.update_of_ne hk]

namespace Canonical

/-- A node can be given by the side of a bit and the other side. -/
theorem branch {s : BitTrie K V} {b : Bool} {k₁ k₂ : K} (hne : k₁ ≠ k₂)
    (h₁ : m k₁ ≠ none) (h₂ : m k₂ ≠ none) (ht : Canonical B (d + 1) t (half B d b m))
    (hs : Canonical B (d + 1) s (half B d (!b) m)) : Canonical B d (branch b t s) m := by
  cases b with
  | false => exact .node hne h₁ h₂ ht hs
  | true => exact .node hne h₁ h₂ hs ht

/-- The map determines its trie. -/
theorem unique {t' : BitTrie K V} (h : Canonical B d t m) (h' : Canonical B d t' m) :
    t = t' := by
  induction h generalizing t' with
  | empty hm =>
    cases h' with
    | empty => rfl
    | leaf hk => simp [hm] at hk
    | node _ h₁ => exact absurd (hm _) h₁
  | @leaf _ _ k _ hk hm =>
    cases h' with
    | empty hm' => simp [hm'] at hk
    | @leaf _ _ k' _ hk' =>
      by_cases he : k' = k
      · subst he
        rw [hk] at hk'
        cases hk'
        rfl
      · rw [hm _ he] at hk'
        cases hk'
    | node hne h₁ h₂ =>
      have e₁ := not_imp_comm.mp (hm _) h₁
      have e₂ := not_imp_comm.mp (hm _) h₂
      exact absurd (e₁.trans e₂.symm) hne
  | node hne h₁ h₂ _ _ ihl ihr =>
    cases h' with
    | empty hm => exact absurd (hm _) h₁
    | leaf hk hm =>
      have e₁ := not_imp_comm.mp (hm _) h₁
      have e₂ := not_imp_comm.mp (hm _) h₂
      exact absurd (e₁.trans e₂.symm) hne
    | node _ _ _ hl hr => rw [ihl hl, ihr hr]

/-- Tries are canonical for maps given pointwise. -/
theorem congr {m' : K → Option V} (h : Canonical B d t m) (hm : ∀ k, m k = m' k) :
    Canonical B d t m' := by
  rwa [← funext hm]

end Canonical

section Build

variable (B)

/-- Build a trie by partitioning an entry list bit by bit; `levels` is the number of bits left
below `depth`. -/
def build (depth : Nat) : (levels : Nat) → List (K × V) → BitTrie K V
  | _, [] => .empty
  | _, [e] => .leaf e.1 e.2
  | 0, e :: _ :: _ => .leaf e.1 e.2
  | levels + 1, e₁ :: e₂ :: rest =>
    .node (build (depth + 1) levels ((e₁ :: e₂ :: rest).filter fun e ↦ !B.bit e.1 depth))
      (build (depth + 1) levels ((e₁ :: e₂ :: rest).filter fun e ↦ B.bit e.1 depth))

variable {B} {l : List (K × V)}

private theorem mem_filter_half {b : Bool} {p : K × V → Bool}
    (hp : ∀ e, p e = true ↔ B.bit e.1 d = b) (hm : ∀ k v, (k, v) ∈ l ↔ m k = some v) (k : K)
    (v : V) : (k, v) ∈ l.filter p ↔ half B d b m k = some v := by
  rw [List.mem_filter, hm, hp]
  by_cases h : B.bit k d = b
  · simp [half_of_bit h, h]
  · simp [half_of_bit_ne h, h]

private theorem build_canonical_of_length_le {levels : Nat} (h : l.length ≤ 1)
    (hm : ∀ k v, (k, v) ∈ l ↔ m k = some v) : Canonical B d (build B d levels l) m := by
  match l with
  | [] =>
    rw [build]
    refine .empty fun k ↦ Option.eq_none_iff_forall_ne_some.mpr fun v hv ↦ ?_
    exact absurd ((hm k v).mpr hv) List.not_mem_nil
  | [e] =>
    rw [build]
    refine .leaf ((hm _ _).mp (List.mem_singleton_self e)) fun k hk ↦ ?_
    refine Option.eq_none_iff_forall_ne_some.mpr fun v hv ↦ ?_
    exact hk (congrArg Prod.fst (List.mem_singleton.mp ((hm k v).mpr hv)))
  | _ :: _ :: _ => simp at h

private theorem two_keys {e₁ e₂ : K × V} {rest : List (K × V)} (hl : (e₁ :: e₂ :: rest).Nodup)
    (hm : ∀ k v, (k, v) ∈ e₁ :: e₂ :: rest ↔ m k = some v) :
    e₁.1 ≠ e₂.1 ∧ m e₁.1 ≠ none ∧ m e₂.1 ≠ none := by
  have h₁ : m e₁.1 = some e₁.2 := (hm _ _).mp (by simp)
  have h₂ : m e₂.1 = some e₂.2 := (hm _ _).mp (by simp)
  refine ⟨fun he ↦ ?_, by simp [h₁], by simp [h₂]⟩
  -- one key has one value, so the two entries would be the same entry
  rw [he, h₂, Option.some.injEq] at h₁
  have : e₁ = e₂ := Prod.ext he h₁.symm
  simp [this] at hl

/-- Bulk construction gives the canonical trie of the listed map, in whatever order the
entries are listed. -/
theorem build_canonical {levels : Nat} (hw : d + levels = B.width) (hl : l.Nodup)
    (hm : ∀ k v, (k, v) ∈ l ↔ m k = some v) (ha : ∀ a b, m a ≠ none → m b ≠ none → B.Agree d a b) :
    Canonical B d (build B d levels l) m := by
  induction levels generalizing d l m with
  | zero =>
    match l with
    | [] => exact build_canonical_of_length_le (by simp) hm
    | [_] => exact build_canonical_of_length_le (by simp) hm
    | e₁ :: e₂ :: rest =>
      -- no bit is left to tell the two keys apart
      obtain ⟨hne, h₁, h₂⟩ := two_keys hl hm
      exact absurd ((ha _ _ h₁ h₂).eq_of_width_le (by omega)) hne
  | succ levels ih =>
    match l with
    | [] => exact build_canonical_of_length_le (by simp) hm
    | [_] => exact build_canonical_of_length_le (by simp) hm
    | e₁ :: e₂ :: rest =>
      obtain ⟨hne, h₁, h₂⟩ := two_keys hl hm
      have hh : ∀ b x y, half B d b m x ≠ none → half B d b m y ≠ none → B.Agree (d + 1) x y := by
        intro b x y hx hy
        obtain ⟨hxb, hx⟩ := half_ne_none.mp hx
        obtain ⟨hyb, hy⟩ := half_ne_none.mp hy
        exact (ha x y hx hy).succ (hxb.trans hyb.symm)
      rw [build]
      refine .node hne h₁ h₂ ?_ ?_
      · exact ih (by omega) (hl.filter _) (mem_filter_half (by simp) hm) (hh false)
      · exact ih (by omega) (hl.filter _) (mem_filter_half (by simp) hm) (hh true)

end Build

end BitTrie

end Setu.Base
