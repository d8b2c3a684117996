import Mathlib.Data.List.Induction
import Mathlib.Data.List.Nodup
import Mathlib.Data.List.Perm.Basic

/-!
# Finite maps in insertion order

Library `Base`. The entries stand in the order in which their keys were first inserted; a
second insertion of a key replaces its value in place. The structure carries the proof that no
key occurs twice, so that a lookup and the list of entries say the same.
-/

namespace Setu.Base

universe u v

/-- A finite map in insertion order; `IndexMap<K, V>` in the source. -/
structure IndexMap (K : Type u) (V : Type v) where
  entries : List (K × V)
  nodup_keys : (entries.map Prod.fst).Nodup

/-- A finite set in insertion order; `IndexSet<K>` in the source. -/
abbrev IndexSet (K : Type u) := IndexMap K Unit

namespace IndexMap

variable {K : Type u} {V : Type v}

/-- The map without entries; `new`. -/
def empty : IndexMap K V := ⟨[], .nil⟩

variable (m : IndexMap K V)

/-- The keys in insertion order; `keys`. -/
def keys : List K := m.entries.map Prod.fst

variable [DecidableEq K] (key : K)

/-- The value of a key; `get`. -/
def get? : Option V := m.entries.lookup key

/-- Whether a key has a value; `contains_key` and `contains`. -/
def contains : Bool := (m.get? key).isSome

private def insertEntry (key : K) (value : V) : List (K × V) → List (K × V)
  | [] => [(key, value)]
  | e :: rest => if e.1 = key then (key, value) :: rest else e :: insertEntry key value rest

private theorem keys_insertEntry (value : V) (l : List (K × V)) :
    (insertEntry key value l).map Prod.fst =
      if key ∈ l.map Prod.fst then l.map Prod.fst else l.map Prod.fst ++ [key] := by
  induction l with
  | nil => rfl
  | cons e rest ih =>
    by_cases h : e.1 = key
    · simp [insertEntry, h]
    · simp only [insertEntry, h, if_false, List.map_cons, ih, List.mem_cons, Ne.symm h, false_or]
      split <;> rfl

/-- Set the value of a key, at the end if the key is new; `insert`. -/
def insert (value : V) : IndexMap K V where
  entries := insertEntry key value m.entries
  nodup_keys := by
    rw [keys_insertEntry]
    split
    · exact m.nodup_keys
    · next h => exact List.nodup_append_comm.mp (List.nodup_cons.mpr ⟨h, m.nodup_keys⟩)

/-- Drop a key and keep the order of the others; `shift_remove`. -/
def shiftRemove : IndexMap K V where
  entries := m.entries.filter fun e ↦ decide (e.1 ≠ key)
  nodup_keys := m.nodup_keys.sublist (List.filter_sublist.map Prod.fst)

private def swapRemoveEntry (key : K) : List (K × V) → List (K × V)
  | [] => []
  | e :: rest =>
    if e.1 = key then rest.getLast?.toList ++ rest.dropLast else e :: swapRemoveEntry key rest

private theorem swapRemoveEntry_perm {key : K} {l : List (K × V)}
    (h : (l.map Prod.fst).Nodup) :
    (swapRemoveEntry key l).Perm (l.filter fun e ↦ decide (e.1 ≠ key)) := by
  induction l with
  | nil => exact .nil
  | cons e rest ih =>
    obtain ⟨hf, hr⟩ := List.nodup_cons.mp h
    by_cases he : e.1 = key
    · have hk : rest.filter (fun e ↦ decide (e.1 ≠ key)) = rest := by
        rw [List.filter_eq_self]
        intro e' he'
        have hne : e'.1 ≠ e.1 := fun heq ↦ hf (heq ▸ List.mem_map_of_mem he')
        simpa [he] using hne
      simp only [swapRemoveEntry, he, if_true, ne_eq, not_true_eq_false, decide_false,
        Bool.false_eq_true, not_false_eq_true, List.filter_cons_of_neg] at hk ⊢
      rw [hk]
      cases rest using List.reverseRecOn with
      | nil => exact .nil
      | append_singleton init last => simpa using (List.perm_append_singleton last init).symm
    · simpa [swapRemoveEntry, he] using ih hr

/-- Drop a key and put the last entry in its place; `swap_remove`. -/
def swapRemove : IndexMap K V where
  entries := swapRemoveEntry key m.entries
  nodup_keys :=
    (((swapRemoveEntry_perm m.nodup_keys).map Prod.fst).nodup_iff).mpr
      (m.shiftRemove key).nodup_keys

private theorem lookup_eq_some_iff {l : List (K × V)} (h : (l.map Prod.fst).Nodup) {key : K}
    {value : V} : l.lookup key = some value ↔ (key, value) ∈ l := by
  induction l with
  | nil => simp
  | cons e rest ih =>
    obtain ⟨k, v⟩ := e
    obtain ⟨hf, hr⟩ := List.nodup_cons.mp h
    by_cases hk : key = k
    · subst hk
      have hn : (key, value) ∉ rest := fun hm ↦ hf (List.mem_map.mpr ⟨_, hm, rfl⟩)
      simp [hn, eq_comm]
    · have hb : (key == k) = false := by simpa using hk
      simp [List.lookup_cons, hb, ih hr, hk]

/-- A key has the value that stands next to it in the list of entries. -/
theorem get?_eq_some_iff {m : IndexMap K V} {key : K} {value : V} :
    m.get? key = some value ↔ (key, value) ∈ m.entries :=
  lookup_eq_some_iff m.nodup_keys

/-- The keys are those with a value. -/
theorem mem_keys {m : IndexMap K V} {key : K} : key ∈ m.keys ↔ (m.get? key).isSome := by
  rw [Option.isSome_iff_exists]
  simp only [keys, get?_eq_some_iff, List.mem_map, Prod.exists, exists_and_right, exists_eq_right]

@[simp]
theorem get?_empty : (empty : IndexMap K V).get? key = none := rfl

/-- An insertion changes the value of its key only. -/
theorem get?_insert (key other : K) (value : V) :
    (m.insert key value).get? other = if other = key then some value else m.get? other := by
  unfold get? insert
  simp only
  induction m.entries with
  | nil =>
    by_cases h : other = key
    · simp [insertEntry, h]
    · have hb : (other == key) = false := by simpa using h
      simp [insertEntry, List.lookup_cons, h, hb]
  | cons e rest ih =>
    obtain ⟨k, v⟩ := e
    by_cases hk : k = key
    · subst hk
      by_cases h : other = k
      · simp [insertEntry, h]
      · have hb : (other == k) = false := by simpa using h
        simp [insertEntry, List.lookup_cons, h, hb]
    · by_cases h : other = k
      · subst h
        simp [insertEntry, hk]
      · have hb : (other == k) = false := by simpa using h
        simpa [insertEntry, hk, List.lookup_cons, hb] using ih

@[simp]
theorem get?_insert_self (value : V) : (m.insert key value).get? key = some value := by
  simp [get?_insert]

/-- Dropping a key changes its value only. -/
theorem get?_shiftRemove (key other : K) :
    (m.shiftRemove key).get? other = if other = key then none else m.get? other := by
  apply Option.ext
  intro value
  rw [get?_eq_some_iff]
  by_cases h : other = key
  · simp [shiftRemove, h]
  · simp [shiftRemove, h, get?_eq_some_iff]

/-- Both ways to drop a key leave the same values. -/
theorem get?_swapRemove (key other : K) :
    (m.swapRemove key).get? other = if other = key then none else m.get? other := by
  rw [← get?_shiftRemove]
  apply Option.ext
  intro value
  rw [get?_eq_some_iff, get?_eq_some_iff]
  exact (swapRemoveEntry_perm m.nodup_keys).mem_iff

@[simp]
theorem contains_empty : (empty : IndexMap K V).contains key = false := rfl

@[simp]
theorem contains_insert (key other : K) (value : V) :
    (m.insert key value).contains other = (decide (other = key) || m.contains other) := by
  by_cases h : other = key <;> simp [contains, get?_insert, h]

@[simp]
theorem contains_shiftRemove (key other : K) :
    (m.shiftRemove key).contains other = (!decide (other = key) && m.contains other) := by
  by_cases h : other = key <;> simp [contains, get?_shiftRemove, h]

@[simp]
theorem contains_swapRemove (key other : K) :
    (m.swapRemove key).contains other = (!decide (other = key) && m.contains other) := by
  by_cases h : other = key <;> simp [contains, get?_swapRemove, h]

theorem mem_keys_iff_contains {m : IndexMap K V} {key : K} : key ∈ m.keys ↔ m.contains key :=
  mem_keys

end IndexMap

end Setu.Base
