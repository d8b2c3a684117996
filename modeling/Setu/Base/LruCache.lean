import Setu.Base.HashMap

/-!
# Caches with eviction

Library `Base`. A bounded map that forgets the entry used least recently. The entries of the
underlying map stand in the order of their last use, the latest first, as its insertion puts an
entry in front.
-/

namespace Setu.Base

/-- A cache with room for at least one entry. -/
structure LruCache (K V : Type) where
  capacity : Nat
  map : HashMap K V
  capacity_pos : 0 < capacity

namespace LruCache

variable {K V : Type}

/-- An empty cache. -/
def new (capacity : Nat) (h : 0 < capacity) : LruCache K V := ⟨capacity, ∅, h⟩

/-- All entries but the one used least recently. -/
def popLru (m : HashMap K V) : HashMap K V where
  entries := m.entries.dropLast
  nodupKeys := List.NodupKeys.sublist (List.dropLast_sublist _) m.nodupKeys

variable [DecidableEq K] (c : LruCache K V) (key : K)

/-- The value of a key, which is not a use of it. -/
def peek : Option V := c.map.lookup key

/-- The value of a key, which is then the latest one used. -/
def get : Option V × LruCache K V :=
  match c.map.lookup key with
  | none => (none, c)
  | some value => (some value, { c with map := c.map.insert key value })

/-- Set the value of a key; a full cache makes room for a new key. -/
def put (value : V) : LruCache K V :=
  if key ∈ c.map then { c with map := c.map.insert key value }
  else
    let room := if c.capacity ≤ c.map.entries.length then popLru c.map else c.map
    { c with map := room.insert key value }

theorem lookup_of_lookup_popLru {m : HashMap K V} {key : K} {value : V}
    (h : (popLru m).lookup key = some value) : m.lookup key = some value := by
  rw [← Option.mem_def, AList.mem_lookup_iff] at h ⊢
  exact List.mem_of_mem_dropLast h

@[simp]
theorem fst_get : (c.get key).1 = c.peek key := by
  rw [get, peek]
  cases c.map.lookup key <;> rfl

/-- Looking a key up changes no value. -/
@[simp]
theorem peek_get (key other : K) : (c.get key).2.peek other = c.peek other := by
  rw [get]
  split
  · rfl
  · next value hv =>
    change (c.map.insert key value).lookup other = c.map.lookup other
    by_cases h : other = key
    · rw [h, AList.lookup_insert, hv]
    · exact AList.lookup_insert_ne h

/-- After a value was set, what is found is that value or was found before. -/
theorem peek_put_cases {c : LruCache K V} {key other : K} {value found : V}
    (h : (c.put key value).peek other = some found) :
    other = key ∧ found = value ∨ other ≠ key ∧ c.peek other = some found := by
  rw [put] at h
  split at h
  · exact HashMap.lookup_insert_cases h
  · rcases HashMap.lookup_insert_cases h with hn | ⟨hne, ho⟩
    · exact .inl hn
    · refine .inr ⟨hne, ?_⟩
      split at ho
      · exact lookup_of_lookup_popLru ho
      · exact ho

end LruCache

end Setu.Base
