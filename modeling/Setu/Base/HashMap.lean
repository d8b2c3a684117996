import Mathlib.Algebra.GroupWithZero.Nat
import Mathlib.Data.Finset.Card
import Mathlib.Data.List.AList
import Mathlib.Algebra.BigOperators.Group.List.Basic

/-!
# Finite maps with an arbitrary iteration order

Library `Base`. A hash map is a duplicate-free association list. Its list order stands for
the unspecified iteration order of the source's maps, so a result about every such list
holds for every iteration order.
-/

namespace Setu.Base

universe u v

/-- A finite map; `HashMap<K, V>`, `im::HashMap<K, V>` and `DashMap<K, V>` in the source. -/
abbrev HashMap (K : Type u) (V : Type v) := AList (fun _ : K ↦ V)

/-- A finite set with an arbitrary iteration order; `HashSet<K>` in the source. -/
abbrev HashSet (K : Type u) := HashMap K Unit

namespace HashMap

variable {K : Type u} {V : Type v}

/-- The entries in iteration order; `iter` and `into_iter`. -/
def toList (m : HashMap K V) : List (K × V) := m.entries.map (fun e ↦ (e.1, e.2))

/-- The values in iteration order; `values`. -/
def values (m : HashMap K V) : List V := m.toList.map Prod.snd

/-- Keep the entries that satisfy a test; `retain`. -/
def retain (p : K → V → Bool) (m : HashMap K V) : HashMap K V where
  entries := m.entries.filter (fun e ↦ p e.1 e.2)
  nodupKeys := m.nodupKeys.sublist List.filter_sublist

/-- Apply a function to every value; collecting `iter().map(|(k, v)| (k, f(v)))`. -/
def mapVal {W : Type*} (f : V → W) (m : HashMap K V) : HashMap K W where
  entries := m.entries.map (fun e ↦ ⟨e.1, f e.2⟩)
  nodupKeys := by
    have hkeys : (m.entries.map fun e ↦ (⟨e.1, f e.2⟩ : Sigma fun _ : K ↦ W)).keys =
        m.entries.keys := by
      simp [List.keys, Function.comp_def]
    rw [List.NodupKeys, hkeys]
    exact m.nodupKeys

/-- Insert entries from the front; `for (k, v) in entries { map.insert(k, v) }`. -/
def insertAll [DecidableEq K] (m : HashMap K V) (entries : List (K × V)) : HashMap K V :=
  entries.foldl (fun m e ↦ m.insert e.1 e.2) m

section Entries

theorem toList_empty : (∅ : HashMap K V).toList = [] := rfl

/-- No key is listed twice. -/
theorem nodup_keys_toList (m : HashMap K V) : (m.toList.map Prod.fst).Nodup := by
  have h : m.toList.map Prod.fst = m.entries.map Sigma.fst := by
    simp [toList, Function.comp_def]
  rw [h]
  exact m.nodupKeys

/-- No entry is listed twice. -/
theorem nodup_toList (m : HashMap K V) : m.toList.Nodup :=
  m.nodup_keys_toList.of_map

/-- The entries after a change of every value. -/
theorem toList_mapVal {W : Type*} (f : V → W) (m : HashMap K V) :
    (m.mapVal f).toList = m.toList.map fun e ↦ (e.1, f e.2) := by
  simp [toList, mapVal, Function.comp_def]

/-- A change of every value keeps the keys. -/
theorem keys_mapVal {W : Type*} (f : V → W) (m : HashMap K V) : (m.mapVal f).keys = m.keys := by
  simp [AList.keys, List.keys, mapVal, Function.comp_def]

variable [DecidableEq K] {m : HashMap K V} {k : K}

/-- The listed entries are the graph of the map. -/
@[simp]
theorem mem_toList {v : V} : (k, v) ∈ m.toList ↔ m.lookup k = some v := by
  rw [← Option.mem_def, AList.mem_lookup_iff]
  constructor
  · intro h
    obtain ⟨⟨k', v'⟩, hm, heq⟩ := List.mem_map.mp h
    cases heq
    exact hm
  · intro h
    exact List.mem_map.mpr ⟨⟨k, v⟩, h, rfl⟩

/-- A value is listed exactly when some key maps to it. -/
theorem mem_values {v : V} : v ∈ m.values ↔ ∃ k, m.lookup k = some v := by
  simp only [values, List.mem_map, Prod.exists, mem_toList]
  constructor
  · rintro ⟨k, _, h, rfl⟩
    exact ⟨k, h⟩
  · rintro ⟨k, h⟩
    exact ⟨k, v, h, rfl⟩

/-- As many keys as listed values pass a test hold a value that passes it. -/
theorem exists_finset_card_eq_countP (m : HashMap K V) (p : V → Bool) :
    ∃ keys : Finset K, keys.card = m.values.countP p ∧
      ∀ k ∈ keys, ∃ v, m.lookup k = some v ∧ p v = true := by
  have hn : ((m.toList.filter fun e ↦ p e.2).map Prod.fst).Nodup :=
    (List.filter_sublist.map _).nodup m.nodup_keys_toList
  refine ⟨((m.toList.filter fun e ↦ p e.2).map Prod.fst).toFinset, ?_, ?_⟩
  · rw [List.toFinset_card_of_nodup hn, List.length_map, values, List.countP_map,
      List.countP_eq_length_filter]
    rfl
  · intro k hk
    simp only [List.mem_toFinset, List.mem_map, List.mem_filter, Prod.exists, mem_toList] at hk
    obtain ⟨k', v, ⟨hv, hp⟩, rfl⟩ := hk
    exact ⟨v, hv, hp⟩

/-- What is found after an insertion is the new entry or was found before. -/
theorem lookup_insert_cases {k' : K} {v v' : V} (h : (m.insert k v).lookup k' = some v') :
    k' = k ∧ v' = v ∨ k' ≠ k ∧ m.lookup k' = some v' := by
  by_cases heq : k' = k
  · subst heq
    rw [AList.lookup_insert, Option.some.injEq] at h
    exact .inl ⟨rfl, h.symm⟩
  · rw [AList.lookup_insert_ne heq] at h
    exact .inr ⟨heq, h⟩

/-- What is found after a removal was found before. -/
theorem lookup_of_lookup_erase {k' : K} {v : V} (h : (m.erase k).lookup k' = some v)
    : m.lookup k' = some v := by
  by_cases heq : k' = k
  · subst heq
    rw [AList.lookup_erase] at h
    cases h
  · rwa [AList.lookup_erase_ne heq] at h

/-- A change of every value is seen at every key. -/
theorem lookup_mapVal {W : Type*} (f : V → W) (m : HashMap K V) (k : K) :
    (m.mapVal f).lookup k = (m.lookup k).map f := by
  apply Option.ext
  intro w
  rw [← mem_toList, toList_mapVal]
  simp only [List.mem_map, Prod.exists, mem_toList, Prod.mk.injEq, Option.map_eq_some_iff]
  constructor
  · rintro ⟨k', v, hv, rfl, rfl⟩
    exact ⟨v, hv, rfl⟩
  · rintro ⟨v, hv, rfl⟩
    exact ⟨k, v, hv, rfl, rfl⟩

/-- Maps with the same lookups list the same entries. -/
theorem perm_toList_of_lookup_eq {m' : HashMap K V} (h : ∀ k, m.lookup k = m'.lookup k) :
    m.toList.Perm m'.toList := by
  rw [List.perm_ext_iff_of_nodup m.nodup_toList m'.nodup_toList]
  rintro ⟨k, v⟩
  rw [mem_toList, mem_toList, h]

/-- An insertion is seen at its own key only. -/
theorem lookup_insert_eq_update (m : HashMap K V) (k : K) (v : V) :
    (fun k' ↦ (m.insert k v).lookup k') = Function.update (fun k' ↦ m.lookup k') k (some v) := by
  funext k'
  by_cases h : k' = k
  · subst h
    simp
  · rw [Function.update_of_ne h, AList.lookup_insert_ne h]

/-- A removal is seen at its own key only. -/
theorem lookup_erase_eq_update (m : HashMap K V) (k : K) :
    (fun k' ↦ (m.erase k).lookup k') = Function.update (fun k' ↦ m.lookup k') k none := by
  funext k'
  by_cases h : k' = k
  · subst h
    simp
  · rw [Function.update_of_ne h, AList.lookup_erase_ne h]

/-- Update a function at the listed points, from the front. -/
def updateAll (f : K → Option V) (entries : List (K × V)) : K → Option V :=
  entries.foldl (fun f e ↦ Function.update f e.1 (some e.2)) f

/-- Inserting a list of entries updates the lookups one after the other. -/
theorem lookup_insertAll (m : HashMap K V) (entries : List (K × V)) :
    (fun k ↦ (m.insertAll entries).lookup k) = updateAll (fun k ↦ m.lookup k) entries := by
  induction entries generalizing m with
  | nil => rfl
  | cons e rest ih =>
    rw [insertAll, List.foldl_cons, ← insertAll, ih, lookup_insert_eq_update]
    rfl

variable {entries : List (K × V)}

private theorem updateAll_of_not_mem {f : K → Option V} (hk : k ∉ entries.map Prod.fst)
    : updateAll f entries k = f k := by
  induction entries generalizing f with
  | nil => rfl
  | cons e rest ih =>
    rw [List.map_cons, List.mem_cons, not_or] at hk
    rw [updateAll, List.foldl_cons, ← updateAll, ih hk.2, Function.update_of_ne hk.1]

private theorem updateAll_of_mem {f : K → Option V} {v : V} (hk : (k, v) ∈ entries)
    (hu : ∀ v', (k, v') ∈ entries → v' = v) : updateAll f entries k = some v := by
  induction entries generalizing f with
  | nil => exact absurd hk List.not_mem_nil
  | cons e rest ih =>
    rw [updateAll, List.foldl_cons, ← updateAll]
    by_cases hr : (k, v) ∈ rest
    · exact ih hr fun v' hv' ↦ hu v' (List.mem_cons_of_mem e hv')
    · have hn : k ∉ rest.map Prod.fst := by
        intro hm
        obtain ⟨⟨_, v'⟩, hv', rfl⟩ := List.mem_map.mp hm
        exact hr (hu v' (List.mem_cons_of_mem e hv') ▸ hv')
      obtain rfl : (k, v) = e := (List.mem_cons.mp hk).resolve_right hr
      rw [updateAll_of_not_mem hn, Function.update_self]

/-- A key that is listed with one value only has that value. -/
theorem lookup_insertAll_of_mem {v : V} (hk : (k, v) ∈ entries)
    (hu : ∀ v', (k, v') ∈ entries → v' = v) : (m.insertAll entries).lookup k = some v := by
  rw [congrFun (lookup_insertAll m entries) k, updateAll_of_mem hk hu]

/-- What is found after the insertions is listed or was found before. -/
theorem mem_or_lookup_of_insertAll {v : V} (h : (m.insertAll entries).lookup k = some v)
    : (k, v) ∈ entries ∨ m.lookup k = some v := by
  induction entries generalizing m with
  | nil => exact .inr h
  | cons e rest ih =>
    rcases ih h with hm | ho
    · exact .inl (List.mem_cons_of_mem e hm)
    · rcases lookup_insert_cases ho with ⟨rfl, rfl⟩ | ⟨-, ho⟩
      · exact .inl List.mem_cons_self
      · exact .inr ho

theorem mem_insertAll : k ∈ m.insertAll entries ↔ k ∈ m ∨ k ∈ entries.map Prod.fst := by
  induction entries generalizing m with
  | nil => simp [insertAll]
  | cons e rest ih =>
    rw [insertAll, List.foldl_cons, ← insertAll, ih, AList.mem_insert, List.map_cons, List.mem_cons]
    tauto

theorem mem_keys_toList : k ∈ m.toList.map Prod.fst ↔ k ∈ m := by
  rw [← AList.lookup_isSome, Option.isSome_iff_exists, List.mem_map]
  constructor
  · rintro ⟨⟨k, v⟩, hm, rfl⟩
    exact ⟨v, mem_toList.mp hm⟩
  · rintro ⟨v, hv⟩
    exact ⟨(k, v), mem_toList.mpr hv, rfl⟩

/-- A key that is not listed keeps its value. -/
theorem lookup_insertAll_of_not_mem (hk : k ∉ entries.map Prod.fst)
    : (m.insertAll entries).lookup k = m.lookup k := by
  rw [congrFun (lookup_insertAll m entries) k, updateAll_of_not_mem hk]

/-- Listing a map in any order and inserting the entries into an empty map gives it back. -/
theorem updateAll_of_perm (hp : entries.Perm m.toList)
    : updateAll (fun _ ↦ none) entries = fun k ↦ m.lookup k := by
  funext k
  cases hk : m.lookup k with
  | some v =>
    refine updateAll_of_mem (hp.mem_iff.mpr (mem_toList.mpr hk)) fun v' hv' ↦ ?_
    rw [mem_toList.mp (hp.mem_iff.mp hv')] at hk
    exact Option.some.inj hk
  | none =>
    apply updateAll_of_not_mem
    intro hm
    obtain ⟨⟨k', v⟩, he, rfl⟩ := List.mem_map.mp hm
    rw [mem_toList.mp (hp.mem_iff.mp he)] at hk
    cases hk

/-- `retain` keeps exactly the entries that pass. -/
theorem lookup_retain (p : K → V → Bool) (m : HashMap K V) (k : K) :
    (m.retain p).lookup k = (m.lookup k).filter (p k) := by
  apply Option.ext
  intro v
  have h := AList.mem_lookup_iff (s := m.retain p) (a := k) (b := v)
  simp only [Option.mem_def] at h
  rw [h, retain, List.mem_filter, ← AList.mem_lookup_iff, Option.mem_def, Option.filter_eq_some_iff]

/-- There is nothing to remove at an absent key. -/
theorem erase_eq_self (h : m.lookup k = none) : m.erase k = m := by
  rw [AList.ext_iff]
  exact List.kerase_of_notMem_keys (AList.lookup_eq_none.mp h)

/-- An insertion lists its entry and what a removal of the key leaves. -/
theorem toList_insert (m : HashMap K V) (k : K) (v : V) :
    toList (m.insert k v) = (k, v) :: toList (m.erase k) := rfl

/-- An entry can be listed before what its removal leaves. -/
theorem perm_toList_of_lookup_eq_some {v : V} (h : m.lookup k = some v)
    : m.toList.Perm ((k, v) :: toList (m.erase k)) := by
  rw [← toList_insert]
  apply perm_toList_of_lookup_eq
  intro k'
  have hs := Function.update_eq_self k fun k' ↦ m.lookup k'
  rw [h, ← lookup_insert_eq_update] at hs
  exact (congrFun hs k').symm

end Entries

section Sums

variable (f : V → Nat) (m : HashMap K V)

/-- The sum of a weight over the values. -/
def sumOver : Nat := (m.values.map f).sum

variable [DecidableEq K]

/-- The sum depends on the lookups only. -/
theorem sumOver_congr {m m' : HashMap K V} (h : ∀ k, m.lookup k = m'.lookup k) :
    sumOver f m = sumOver f m' :=
  (((perm_toList_of_lookup_eq h).map Prod.snd).map f).sum_eq

/-- An insertion adds its weight to what a removal of the key leaves. -/
theorem sumOver_insert (k : K) (v : V) :
    sumOver f (m.insert k v) = f v + sumOver f (m.erase k) := by
  rw [sumOver, values, toList_insert]
  rfl

/-- A removal takes the weight of what was there. -/
theorem sumOver_erase (k : K) : sumOver f (m.erase k) + (m.lookup k).elim 0 f = sumOver f m := by
  cases h : m.lookup k with
  | none => rw [erase_eq_self h, Option.elim_none, Nat.add_zero]
  | some v =>
    have hs := (((perm_toList_of_lookup_eq_some h).map Prod.snd).map f).sum_eq
    rw [Option.elim_some, Nat.add_comm]
    exact hs.symm

end Sums

section Multimap

variable [DecidableEq K]

/-- What is listed at a key with the empty list as default is listed there. -/
theorem exists_lookup_of_mem_getD {m : HashMap K (List V)} {k : K} {v : V}
    (h : v ∈ (m.lookup k).getD []) : ∃ l, m.lookup k = some l ∧ v ∈ l := by
  cases hl : m.lookup k with
  | none => simp [hl] at h
  | some l =>
    rw [hl] at h
    exact ⟨l, rfl, h⟩

/-- Append to the list at a key; `entry(k).or_insert_with(Vec::new).push(v)`. -/
def pushAt (m : HashMap K (List V)) (k : K) (v : V) : HashMap K (List V) :=
  m.insert k ((m.lookup k).getD [] ++ [v])

/-- All listed values after an append. -/
theorem perm_flatten_values_pushAt (m : HashMap K (List V)) (k : K) (v : V) :
    (m.pushAt k v).values.flatten.Perm (v :: m.values.flatten) := by
  unfold pushAt values
  rw [toList_insert]
  cases h : m.lookup k with
  | none =>
    rw [erase_eq_self h]
    exact List.Perm.refl _
  | some l =>
    have hl := ((perm_toList_of_lookup_eq_some h).map Prod.snd).flatten
    simp only [List.map_cons, List.flatten_cons, Option.getD_some] at hl ⊢
    have hm : (l ++ [v] ++ ((toList (m.erase k)).map Prod.snd).flatten).Perm
        (v :: (l ++ ((toList (m.erase k)).map Prod.snd).flatten)) := by
      rw [List.append_assoc, List.singleton_append]
      exact List.perm_middle
    exact hm.trans (hl.symm.cons v)

end Multimap

end HashMap

end Setu.Base
