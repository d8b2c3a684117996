import Mathlib.Data.List.Sort
import Mathlib.Data.Prod.Lex

/-!
# Sorting by a key

Library `Base`. A stable sort by a linearly ordered key. When no key occurs twice, the sorted
list depends only on what is in the list, not on the order it came in.
-/

namespace Setu.Base

variable {α K : Type*} [LinearOrder K]

/-- Stable ascending sort by `key`; `slice::sort_by` with a comparison of keys. -/
def sortOn (key : α → K) (l : List α) : List α := l.insertionSort fun a b ↦ key a ≤ key b

/-- Sorting rearranges. -/
theorem sortOn_perm (key : α → K) (l : List α) : (sortOn key l).Perm l :=
  List.perm_insertionSort _ l

/-- The sorted list ascends in the key. -/
theorem pairwise_sortOn (key : α → K) (l : List α) :
    (sortOn key l).Pairwise fun a b ↦ key a ≤ key b := by
  have ht : Std.Total fun a b : α ↦ key a ≤ key b := ⟨fun a b ↦ le_total (key a) (key b)⟩
  have htr : IsTrans α fun a b ↦ key a ≤ key b := ⟨fun _ _ _ hab hbc ↦ le_trans hab hbc⟩
  exact List.pairwise_insertionSort _ l

variable {key : α → K}

/-- With distinct keys, the sorted list ascends strictly. -/
theorem pairwise_lt_sortOn {l : List α} (hk : (l.map key).Nodup) :
    (sortOn key l).Pairwise fun a b ↦ key a < key b := by
  have hne : (sortOn key l).Pairwise fun a b ↦ key a ≠ key b :=
    List.pairwise_map.mp (((sortOn_perm key l).map key).nodup_iff.mpr hk)
  exact ((pairwise_sortOn key l).and hne).imp fun h ↦ lt_of_le_of_ne h.1 h.2

/-- A list that ascends in the key stays as it is. -/
theorem sortOn_eq_self {l : List α} (h : l.Pairwise fun a b ↦ key a ≤ key b) : sortOn key l = l :=
  h.insertionSort_eq

/-- Sorting by a key of the images is sorting the images. -/
theorem map_sortOn {β : Type*} (key : β → K) (f : α → β) (l : List α) :
    (sortOn (fun a ↦ key (f a)) l).map f = sortOn key (l.map f) :=
  List.map_insertionSort _ _ f l fun _ _ _ _ ↦ Iff.rfl

/-- Rearranged lists sort to the same list when only equal entries share a key. -/
theorem sortOn_eq_of_perm_of_injOn {l l' : List α} (hp : l.Perm l')
    (hi : ∀ a ∈ l, ∀ b ∈ l, key a = key b → a = b) : sortOn key l = sortOn key l' := by
  have hs : (sortOn key l).Perm (sortOn key l') :=
    (sortOn_perm key l).trans (hp.trans (sortOn_perm key l').symm)
  apply List.Perm.eq_of_pairwise _ (pairwise_sortOn key l) (pairwise_sortOn key l') hs
  intro a b ha hb hab hba
  apply hi a ((sortOn_perm key l).mem_iff.mp ha) b _ (le_antisymm hab hba)
  exact hp.symm.mem_iff.mp ((sortOn_perm key l').mem_iff.mp hb)

/-- With distinct keys, rearranged lists sort to the same list. -/
theorem sortOn_eq_of_perm {l l' : List α} (hp : l.Perm l') (hk : (l.map key).Nodup) :
    sortOn key l = sortOn key l' :=
  sortOn_eq_of_perm_of_injOn hp fun _ ha _ hb ↦ List.inj_on_of_nodup_map hk ha hb

/-- In a list that ascends strictly, what is below an entry stands before it. -/
theorem mem_before_of_lt {before after : List α} {a b : α}
    (hs : (before ++ b :: after).Pairwise fun x y ↦ key x < key y)
    (ha : a ∈ before ++ b :: after) (hlt : key a < key b) : a ∈ before := by
  rcases List.mem_append.mp ha with ha | ha
  · exact ha
  · rcases List.mem_cons.mp ha with rfl | ha
    · exact absurd hlt (lt_irrefl _)
    · have haf := (List.pairwise_cons.mp (List.pairwise_append.mp hs).2.1).1 a ha
      exact absurd hlt haf.asymm

/-- The first entries of a list that ascends strictly are closed under what is below them. -/
theorem mem_take_of_lt {l : List α} {n : Nat} {a b : α}
    (hs : l.Pairwise fun x y ↦ key x < key y) (hb : b ∈ l.take n) (ha : a ∈ l)
    (hlt : key a < key b) : a ∈ l.take n := by
  rw [← List.take_append_drop n l] at hs ha
  rcases List.mem_append.mp ha with ha | ha
  · exact ha
  · exact absurd hlt ((List.pairwise_append.mp hs).2.2 b hb a ha).asymm

end Setu.Base
