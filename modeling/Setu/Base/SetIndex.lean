import Setu.Base.HashMap

/-!
# Indexes of a table

Library `Base`. An index keeps a set of entries for every owner and drops sets that become
empty. It mirrors a table if an entry is listed exactly when some row of the table is viewed as
it. When rows are told apart by their entries, removing the old entry of a row and adding the
new one keeps the mirror, and so does building the index from all rows.
-/

namespace Setu.Base

universe u v

variable {O E : Type u} [DecidableEq O] [DecidableEq E]

/-- A set of entries for each owner; `HashMap<O, HashSet<E>>` in the source. -/
abbrev SetIndex (O E : Type u) := HashMap O (HashSet E)

namespace SetIndex

/-- Add an entry; `entry(o).or_default().insert(e)`. -/
def add (index : SetIndex O E) (o : O) (e : E) : SetIndex O E :=
  index.insert o (((index.lookup o).getD ∅).insert e ())

/-- Remove an entry, and its owner with the last one. -/
def remove (index : SetIndex O E) (o : O) (e : E) : SetIndex O E :=
  match index.lookup o with
  | none => index
  | some set =>
    if (set.erase e).keys = [] then index.erase o else index.insert o (set.erase e)

omit [DecidableEq E] in
/-- The entry is listed for the owner. -/
def Has (index : SetIndex O E) (o : O) (e : E) : Prop := ∃ set, index.lookup o = some set ∧ e ∈ set

omit [DecidableEq E] in
/-- No owner is kept without an entry. -/
def NoEmpty (index : SetIndex O E) : Prop :=
  ∀ o set, index.lookup o = some set → ∃ e, e ∈ set

omit [DecidableEq E] in
/-- The same owners with the same entries. -/
def Same (index index' : SetIndex O E) : Prop :=
  ∀ o, match index.lookup o, index'.lookup o with
    | none, none => True
    | some set, some set' => ∀ e, e ∈ set ↔ e ∈ set'
    | _, _ => False

variable {index : SetIndex O E}

omit [DecidableEq E] in
/-- Indexes without empty sets are told apart by what they list. -/
theorem same_of_has {index' : SetIndex O E} (h : index.NoEmpty) (h' : index'.NoEmpty)
    (hh : ∀ o e, index.Has o e ↔ index'.Has o e) : index.Same index' := by
  intro o
  cases hs : index.lookup o with
  | none =>
    cases hs' : index'.lookup o with
    | none => trivial
    | some set' =>
      obtain ⟨e, he⟩ := h' o set' hs'
      obtain ⟨set, hso, -⟩ := (hh o e).mpr ⟨set', hs', he⟩
      cases hs.symm.trans hso
  | some set =>
    cases hs' : index'.lookup o with
    | none =>
      obtain ⟨e, he⟩ := h o set hs
      obtain ⟨set', hso, -⟩ := (hh o e).mp ⟨set, hs, he⟩
      cases hs'.symm.trans hso
    | some set' =>
      intro e
      have he := hh o e
      simpa only [Has, hs, hs', Option.some.injEq, exists_eq_left'] using he

theorem has_add {o o' : O} {e e' : E} :
    (index.add o e).Has o' e' ↔ o' = o ∧ e' = e ∨ index.Has o' e' := by
  unfold Has add
  by_cases ho : o' = o
  · subst ho
    rw [AList.lookup_insert]
    cases hs : index.lookup o' with
    | none =>
      simp only [Option.getD_none, Option.some.injEq, exists_eq_left', AList.mem_insert,
        AList.notMem_empty, reduceCtorEq, false_and, exists_false, or_false, true_and]
    | some set => simp [AList.mem_insert]
  · rw [AList.lookup_insert_ne ho]
    simp [ho]

theorem noEmpty_add (h : index.NoEmpty) (o : O) (e : E) : (index.add o e).NoEmpty := by
  intro o' set hs
  rcases HashMap.lookup_insert_cases hs with ⟨-, rfl⟩ | ⟨-, hs⟩
  · exact ⟨e, (AList.mem_insert _).mpr (.inl rfl)⟩
  · exact h o' set hs

omit [DecidableEq O] [DecidableEq E] in
private theorem not_mem_of_keys_nil {set : HashSet E} (h : set.keys = []) (e : E) : e ∉ set := by
  intro hm
  have hk := AList.mem_keys.mp hm
  rw [h] at hk
  cases hk

theorem has_remove {o o' : O} {e e' : E} :
    (index.remove o e).Has o' e' ↔ index.Has o' e' ∧ ¬ (o' = o ∧ e' = e) := by
  unfold remove
  cases hs : index.lookup o with
  | none =>
    constructor
    · rintro ⟨set, hl, he⟩
      refine ⟨⟨set, hl, he⟩, ?_⟩
      rintro ⟨rfl, -⟩
      cases hs.symm.trans hl
    · exact fun h ↦ h.1
  | some set =>
    dsimp only
    split
    · next hem =>
      have hn : ∀ e', ¬ (e' ≠ e ∧ e' ∈ set) := by
        intro e' h
        exact not_mem_of_keys_nil hem e' (AList.mem_erase.mpr h)
      by_cases ho : o' = o
      · subst ho
        simp only [Has, AList.lookup_erase, hs, Option.some.injEq, exists_eq_left', true_and]
        constructor
        · rintro ⟨_, h, -⟩
          cases h
        · rintro ⟨hm, hne⟩
          exact absurd ⟨hne, hm⟩ (hn e')
      · simp [Has, AList.lookup_erase_ne ho, ho]
    · by_cases ho : o' = o
      · subst ho
        simp only [Has, AList.lookup_insert, hs, Option.some.injEq, exists_eq_left',
          AList.mem_erase, true_and, and_comm]
      · simp [Has, AList.lookup_insert_ne ho, ho]

theorem noEmpty_remove (h : index.NoEmpty) (o : O) (e : E) : (index.remove o e).NoEmpty := by
  unfold remove
  split
  · exact h
  · next set hs =>
    split
    · intro o' set' hs'
      exact h o' set' (HashMap.lookup_of_lookup_erase hs')
    · next hem =>
      intro o' set' hs'
      rcases HashMap.lookup_insert_cases hs' with ⟨-, rfl⟩ | ⟨-, hs'⟩
      · obtain ⟨e', he'⟩ := List.exists_mem_of_ne_nil _ hem
        exact ⟨e', AList.mem_keys.mpr he'⟩
      · exact h o' set' hs'

section Mirrors

variable {K : Type v} {V : Type*} (view : K → V → Option (O × E))

/-- Add the entry that a row is viewed as, if there is one. -/
def addRow (index : SetIndex O E) (k : K) (v : V) : SetIndex O E :=
  match view k v with
  | some (o, e) => index.add o e
  | none => index

/-- Remove the entry that a row is viewed as, if there is one. -/
def removeRow (index : SetIndex O E) (k : K) (v : V) : SetIndex O E :=
  match view k v with
  | some (o, e) => index.remove o e
  | none => index

omit [DecidableEq E] in
/-- The index lists what the rows of the table are viewed as. -/
structure Mirrors (table : K → Option V) (index : SetIndex O E) : Prop where
  has_iff : ∀ o e, index.Has o e ↔ ∃ k v, table k = some v ∧ view k v = some (o, e)
  noEmpty : index.NoEmpty

omit [DecidableEq O] [DecidableEq E] in
/-- No entry comes from two rows. -/
def Separates : Prop :=
  ∀ {k k' : K} {v v' : V} {x : O × E}, view k v = some x → view k' v' = some x → k = k'

variable {view} {table : K → Option V} {index : SetIndex O E}

theorem has_addRow {k : K} {v : V} {o : O} {e : E} :
    (index.addRow view k v).Has o e ↔ view k v = some (o, e) ∨ index.Has o e := by
  unfold addRow
  split
  · next o' e' hv => simp [has_add, hv, eq_comm]
  · next hv => simp [hv]

theorem noEmpty_addRow (h : index.NoEmpty) (k : K) (v : V) : (index.addRow view k v).NoEmpty := by
  unfold addRow
  split
  · exact noEmpty_add h _ _
  · exact h

theorem has_removeRow {k : K} {v : V} {o : O} {e : E} :
    (index.removeRow view k v).Has o e ↔ index.Has o e ∧ view k v ≠ some (o, e) := by
  unfold removeRow
  split
  · next o' e' hv => simp [has_remove, hv, eq_comm]
  · next hv => simp [hv]

theorem noEmpty_removeRow (h : index.NoEmpty) (k : K) (v : V) :
    (index.removeRow view k v).NoEmpty := by
  unfold removeRow
  split
  · exact noEmpty_remove h _ _
  · exact h

omit [DecidableEq E] in
/-- The empty index mirrors the empty table. -/
theorem mirrors_empty : Mirrors view (fun _ : K ↦ (none : Option V)) (∅ : SetIndex O E) where
  has_iff o e := by simp [Has]
  noEmpty o set hs := by cases hs

omit [DecidableEq E] in
/-- Two indexes of one table list the same. -/
theorem Mirrors.same {index' : SetIndex O E} (h : Mirrors view table index)
    (h' : Mirrors view table index') : index.Same index' :=
  same_of_has h.noEmpty h'.noEmpty fun o e ↦ (h.has_iff o e).trans (h'.has_iff o e).symm

variable [DecidableEq K]

/-- A row that is not there is added. -/
theorem Mirrors.addRow (h : Mirrors view table index) {k : K} (hk : table k = none) (v : V) :
    Mirrors view (Function.update table k (some v)) (index.addRow view k v) where
  has_iff o e := by
    rw [has_addRow, h.has_iff]
    constructor
    · rintro (hv | ⟨k', v', hk', hv⟩)
      · exact ⟨k, v, Function.update_self .., hv⟩
      · have hne : k' ≠ k := by
          rintro rfl
          cases hk.symm.trans hk'
        exact ⟨k', v', by rwa [Function.update_of_ne hne], hv⟩
    · rintro ⟨k', v', hk', hv⟩
      by_cases heq : k' = k
      · subst heq
        rw [Function.update_self, Option.some.injEq] at hk'
        exact .inl (hk' ▸ hv)
      · rw [Function.update_of_ne heq] at hk'
        exact .inr ⟨k', v', hk', hv⟩
  noEmpty := noEmpty_addRow h.noEmpty k v

/-- A row that is there is removed. -/
theorem Mirrors.removeRow (h : Mirrors view table index) (hvi : Separates view) {k : K} {v : V}
    (hk : table k = some v) :
    Mirrors view (Function.update table k none) (index.removeRow view k v) where
  has_iff o e := by
    rw [has_removeRow, h.has_iff]
    constructor
    · rintro ⟨⟨k', v', hk', hv'⟩, hne⟩
      have hne' : k' ≠ k := by
        rintro rfl
        cases hk.symm.trans hk'
        exact hne hv'
      exact ⟨k', v', by rwa [Function.update_of_ne hne'], hv'⟩
    · rintro ⟨k', v', hk', hv'⟩
      have hne : k' ≠ k := by
        rintro rfl
        rw [Function.update_self] at hk'
        cases hk'
      rw [Function.update_of_ne hne] at hk'
      exact ⟨⟨k', v', hk', hv'⟩, fun hv ↦ hne (hvi hv' hv)⟩
  noEmpty := noEmpty_removeRow h.noEmpty k v

/-- A row is written: what was there is removed and the new value is added. -/
theorem Mirrors.updateRow (h : Mirrors view table index) (hv : Separates view) {k : K} {v : V}
    (hk : table k = some v) (v' : V) :
    Mirrors view (Function.update table k (some v'))
      ((index.removeRow view k v).addRow view k v') := by
  have hr := h.removeRow hv hk
  have ha := hr.addRow (Function.update_self ..) v'
  rwa [Function.update_idem] at ha

omit [DecidableEq K] in
/-- The index built from a list of rows mirrors the table that has these rows. -/
theorem mirrors_foldl {rows : List (K × V)} (hr : ∀ k v, (k, v) ∈ rows ↔ table k = some v) :
    Mirrors view table
      (rows.foldl (fun index row ↦ index.addRow view row.1 row.2) (∅ : SetIndex O E)) := by
  have hf : ∀ (rows : List (K × V)) (index : SetIndex O E), index.NoEmpty →
      let built := rows.foldl (fun index row ↦ index.addRow view row.1 row.2) index
      built.NoEmpty ∧ ∀ o e, built.Has o e ↔
        index.Has o e ∨ ∃ row ∈ rows, view row.1 row.2 = some (o, e) := by
    intro rows
    induction rows with
    | nil => simp
    | cons row rest ih =>
      intro index hi
      obtain ⟨hn, hh⟩ := ih (index.addRow view row.1 row.2) (noEmpty_addRow hi row.1 row.2)
      refine ⟨hn, fun o e ↦ ?_⟩
      simp only [List.foldl_cons, hh, has_addRow, List.mem_cons, exists_eq_or_imp]
      tauto
  obtain ⟨hn, hh⟩ := hf rows ∅ (fun o set hs ↦ by cases hs)
  refine ⟨fun o e ↦ ?_, hn⟩
  rw [hh]
  constructor
  · rintro (⟨set, hs, -⟩ | ⟨⟨k, v⟩, hro, hv⟩)
    · cases hs
    · exact ⟨k, v, (hr k v).mp hro, hv⟩
  · rintro ⟨k, v, hk, hv⟩
    exact .inr ⟨(k, v), (hr k v).mpr hk, hv⟩

end Mirrors

end SetIndex

end Setu.Base
