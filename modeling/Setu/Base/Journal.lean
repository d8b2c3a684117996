import Setu.Base.HashMap

/-!
# Journals of a finite map

Library `Base`. A journal is a list of edits, each with the value it found at its key and the
value it left there. A journal that leads from one map to another accounts for everything that
differs between the two: untouched keys keep their values, and the sum of any weight changes by
what the edits left minus what they found.
-/

namespace Setu.Base

universe u v

/-- An edit of a map at one key: the value found there and the value left there. -/
structure Edit (K : Type u) (V : Type v) where
  key : K
  old : Option V
  new : Option V

variable {K : Type u} {V : Type v} (f : V → Nat)

/-- The weight of the values that the edits found. -/
def foundWeight (log : List (Edit K V)) : Nat :=
  (log.map fun e ↦ e.old.elim 0 f).sum

/-- The weight of the values that the edits left. -/
def leftWeight (log : List (Edit K V)) : Nat :=
  (log.map fun e ↦ e.new.elim 0 f).sum

@[simp]
theorem foundWeight_nil : foundWeight f ([] : List (Edit K V)) = 0 := rfl

@[simp]
theorem leftWeight_nil : leftWeight f ([] : List (Edit K V)) = 0 := rfl

@[simp]
theorem foundWeight_cons (e : Edit K V) (log : List (Edit K V)) :
    foundWeight f (e :: log) = e.old.elim 0 f + foundWeight f log := by
  simp [foundWeight]

@[simp]
theorem leftWeight_cons (e : Edit K V) (log : List (Edit K V)) :
    leftWeight f (e :: log) = e.new.elim 0 f + leftWeight f log := by
  simp [leftWeight]

@[simp]
theorem foundWeight_append (log log' : List (Edit K V)) :
    foundWeight f (log ++ log') = foundWeight f log + foundWeight f log' := by
  simp [foundWeight]

@[simp]
theorem leftWeight_append (log log' : List (Edit K V)) :
    leftWeight f (log ++ log') = leftWeight f log + leftWeight f log' := by
  simp [leftWeight]

variable [DecidableEq K]

namespace Edit

variable (m : HashMap K V)

/-- The map after the edit. -/
def perform (e : Edit K V) : HashMap K V :=
  match e.new with
  | some v => m.insert e.key v
  | none => m.erase e.key

/-- An edit is seen at its own key only. -/
theorem lookup_perform (e : Edit K V) :
    (fun k ↦ (e.perform m).lookup k) = Function.update (fun k ↦ m.lookup k) e.key e.new := by
  unfold perform
  split
  · next h => rw [h, HashMap.lookup_insert_eq_update]
  · next h => rw [h, HashMap.lookup_erase_eq_update]

/-- An edit keeps other keys. -/
theorem lookup_perform_ne {e : Edit K V} {k : K} (h : k ≠ e.key) :
    (e.perform m).lookup k = m.lookup k := by
  rw [congrFun (lookup_perform m e) k, Function.update_of_ne h]

/-- Edits of maps with the same lookups give the same lookups. -/
theorem lookup_perform_congr {m m' : HashMap K V} (h : ∀ k, m.lookup k = m'.lookup k)
    (e : Edit K V) (k : K) : (e.perform m).lookup k = (e.perform m').lookup k := by
  rw [congrFun (lookup_perform m e) k, congrFun (lookup_perform m' e) k, funext h]

/-- Edits of different keys may be made in either order. -/
theorem lookup_perform_comm (e e' : Edit K V) (h : e.key ≠ e'.key) (k : K) :
    (e'.perform (e.perform m)).lookup k = (e.perform (e'.perform m)).lookup k := by
  rw [congrFun (lookup_perform _ e') k, congrFun (lookup_perform _ e) k, lookup_perform,
    lookup_perform, Function.update_comm h]

/-- The sum of a weight after an edit. -/
theorem sumOver_perform (f : V → Nat) {m : HashMap K V} {e : Edit K V}
    (h : m.lookup e.key = e.old) :
    HashMap.sumOver f (e.perform m) + e.old.elim 0 f = HashMap.sumOver f m + e.new.elim 0 f := by
  rw [← HashMap.sumOver_erase f m e.key, h]
  unfold perform
  split
  · next v hn =>
    rw [HashMap.sumOver_insert, hn, Option.elim_some]
    omega
  · next hn => rw [hn, Option.elim_none, Nat.add_zero]

end Edit

/-- The journal leads from one map to the other: every edit finds the value it names, and the
last one leaves the second map. -/
def Leads : HashMap K V → List (Edit K V) → HashMap K V → Prop
  | m, [], m' => ∀ k, m.lookup k = m'.lookup k
  | m, e :: log, m' => m.lookup e.key = e.old ∧ Leads (e.perform m) log m'

namespace Leads

variable {m m' m'' : HashMap K V} {log log' : List (Edit K V)}

/-- Nothing was done. -/
theorem refl (m : HashMap K V) : Leads m [] m := fun _ ↦ rfl

/-- A single edit. -/
theorem single {e : Edit K V} (h : m.lookup e.key = e.old) : Leads m [e] (e.perform m) :=
  ⟨h, refl _⟩

theorem congr_left (h : Leads m log m'') (heq : ∀ k, m.lookup k = m'.lookup k) :
    Leads m' log m'' := by
  induction log generalizing m m' with
  | nil => exact fun k ↦ (heq k).symm.trans (h k)
  | cons e log ih =>
    refine ⟨(heq e.key).symm.trans h.1, ?_⟩
    exact ih h.2 (Edit.lookup_perform_congr heq e)

/-- Journals are chained. -/
theorem append (h : Leads m log m') (h' : Leads m' log' m'') : Leads m (log ++ log') m'' := by
  induction log generalizing m with
  | nil => exact h'.congr_left fun k ↦ (h k).symm
  | cons e log ih => exact ⟨h.1, ih h.2⟩

theorem congr_right (h : Leads m log m') (heq : ∀ k, m'.lookup k = m''.lookup k) :
    Leads m log m'' := by
  have hn : Leads m' [] m'' := heq
  simpa only [List.append_nil] using h.append hn

/-- A key that no edit touches keeps its value. -/
theorem lookup_eq (h : Leads m log m') {k : K} (hk : ∀ e ∈ log, k ≠ e.key) :
    m'.lookup k = m.lookup k := by
  induction log generalizing m with
  | nil => exact (h k).symm
  | cons e log ih =>
    rw [ih h.2 fun e' he' ↦ hk e' (List.mem_cons_of_mem e he'),
      Edit.lookup_perform_ne m (hk e List.mem_cons_self)]

end Leads

/-- The sum of a weight changes by what the edits left minus what they found. -/
theorem Leads.sumOver_add {m m' : HashMap K V} {log : List (Edit K V)} (h : Leads m log m')
    (f : V → Nat) :
    HashMap.sumOver f m' + foundWeight f log = HashMap.sumOver f m + leftWeight f log := by
  induction log generalizing m with
  | nil => rw [HashMap.sumOver_congr f h, foundWeight_nil, leftWeight_nil]
  | cons e log ih =>
    have he := Edit.sumOver_perform f h.1
    have hr := ih h.2
    rw [foundWeight_cons, leftWeight_cons]
    omega

end Setu.Base
