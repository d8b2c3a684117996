import Setu.Base.HashMap
import Setu.Base.Machine
import Setu.Merkle.HashValue

/-!
# Waiters for object versions

Library `State`. A waiter registers for an object, holds a guard and drops it; a commit notifies
the slot that the registry has for the object. Registering and dropping are sequences of atomic
operations on the map and the counters, and the operations of different waiters interleave.
Registering looks the slot up before it counts itself in, and dropping removes a slot that nobody
is counted in: a slot that is removed in between keeps a waiter that no notification reaches.
Source `storage/src/state/version_watcher.rs`.
-/

namespace Setu.State

open Setu.Base Setu.Merkle

/-- The 32-byte key of an object, `version_watcher.rs:65`. -/
abbrev ObjKey := HashValue

/-- Bounds on outstanding waiters, `version_watcher.rs:30-33`. -/
structure WatcherCaps where
  perObject : Nat
  global : Nat

/-- A slot, `version_watcher.rs:52-55`: the waiters counted in, and the calls of
`notify_waiters` so far. The counters are `u32`, which holds more than there are threads. -/
structure ObjectSlot where
  waiters : Nat
  notified : Nat

/-- Where a waiter stands: before which operation of `register` or of `drop`, or with a guard. -/
inductive Waiter where
  | overGlobal
  | reserved (oid : ObjKey)
  | found (oid : ObjKey) (slot : Nat)
  | overObject (oid : ObjKey) (slot : Nat)
  | uncounted
  | guard (oid : ObjKey) (slot : Nat)
  | dropping (oid : ObjKey) (slot : Nat)
  | checking (oid : ObjKey) (slot : Nat)
  | collecting (oid : ObjKey) (slot : Nat)
  | done
  deriving DecidableEq

/-- The registry, `version_watcher.rs:69-73`, with its waiters. A slot is referred to by its
position among all slots that were created. -/
structure WatcherRegistry where
  perObject : HashMap ObjKey Nat
  slots : List ObjectSlot
  globalCount : Nat
  caps : WatcherCaps
  waiters : List Waiter

/-- An operation on the registry; `advance` is the next operation of a waiter. -/
inductive WatcherOp where
  | register (oid : ObjKey)
  | advance (index : Nat)
  | drop (index : Nat)
  | notify (oid : ObjKey)

namespace WatcherRegistry

/-- `version_watcher.rs:76-82`. -/
def new (caps : WatcherCaps) : WatcherRegistry := ⟨∅, [], 0, caps, []⟩

variable (r : WatcherRegistry)

/-- The waiters counted in a slot. -/
def counted (slot : Nat) : Nat :=
  ((r.slots[slot]?).map ObjectSlot.waiters).getD 0

/-- Add to the waiters of a slot, `version_watcher.rs:105`. -/
def countIn (slot : Nat) : WatcherRegistry :=
  { r with slots := r.slots.modify slot fun s ↦ { s with waiters := s.waiters + 1 } }

/-- Subtract from the waiters of a slot, `version_watcher.rs:107` and `157`. -/
def countOut (slot : Nat) : WatcherRegistry :=
  { r with slots := r.slots.modify slot fun s ↦ { s with waiters := s.waiters - 1 } }

/-- Subtract from the global count, `version_watcher.rs:94`, `108` and `158`. -/
def release : WatcherRegistry :=
  { r with globalCount := r.globalCount - 1 }

/-- Put a waiter before its next operation. -/
def goto (index : Nat) (waiter : Waiter) : WatcherRegistry :=
  { r with waiters := r.waiters.set index waiter }

variable (oid : ObjKey)

/-- The first operation of `register`, `version_watcher.rs:92-93`. -/
def register : WatcherRegistry :=
  { r with
    globalCount := r.globalCount + 1
    waiters := r.waiters ++
      [if r.globalCount ≥ r.caps.global then .overGlobal else .reserved oid] }

/-- Get the slot of an object or create it, `version_watcher.rs:99-103`. -/
def findSlot : WatcherRegistry × Nat :=
  match r.perObject.lookup oid with
  | some slot => (r, slot)
  | none =>
    ({ r with
      perObject := r.perObject.insert oid r.slots.length
      slots := r.slots ++ [⟨0, 0⟩] }, r.slots.length)

/-- Remove the slot of an object if nobody is counted in, `version_watcher.rs:165-167`. -/
def removeIf : WatcherRegistry :=
  match r.perObject.lookup oid with
  | some slot => if r.counted slot = 0 then { r with perObject := r.perObject.erase oid } else r
  | none => r

/-- The next operation of a waiter, `version_watcher.rs:94-112` and `158-168`. -/
def advance (index : Nat) : WatcherRegistry :=
  match r.waiters[index]? with
  | some .overGlobal => r.release.goto index .done
  | some (.reserved oid) => (r.findSlot oid).1.goto index (.found oid (r.findSlot oid).2)
  | some (.found oid slot) =>
    (r.countIn slot).goto index
      (if r.counted slot ≥ r.caps.perObject then .overObject oid slot else .guard oid slot)
  | some (.overObject _ slot) => (r.countOut slot).goto index .uncounted
  | some .uncounted => r.release.goto index .done
  | some (.dropping oid slot) => r.release.goto index (.checking oid slot)
  | some (.checking oid slot) =>
    r.goto index (if r.counted slot = 0 then .collecting oid slot else .done)
  | some (.collecting oid _) => (r.removeIf oid).goto index .done
  | some (.guard ..) | some .done | none => r

/-- The first operation of `drop`, `version_watcher.rs:157`. -/
def drop (index : Nat) : WatcherRegistry :=
  match r.waiters[index]? with
  | some (.guard oid slot) => (r.countOut slot).goto index (.dropping oid slot)
  | _ => r

/-- `notify_objects` for one object, `version_watcher.rs:117-123`. -/
def notify : WatcherRegistry :=
  match r.perObject.lookup oid with
  | some slot =>
    { r with slots := r.slots.modify slot fun s ↦ { s with notified := s.notified + 1 } }
  | none => r

/-- One operation. -/
def step : WatcherOp → WatcherRegistry
  | .register oid => r.register oid
  | .advance index => r.advance index
  | .drop index => r.drop index
  | .notify oid => r.notify oid

/-- The calls of `notify_waiters` on a slot. -/
def notified (slot : Nat) : Nat :=
  ((r.slots[slot]?).map ObjectSlot.notified).getD 0

end WatcherRegistry

namespace Waiter

/-- The waiter is counted globally. -/
def isCounted : Waiter → Bool
  | checking .. | collecting .. | done => false
  | _ => true

/-- The waiter has found room below the global cap. -/
def isAdmitted : Waiter → Bool
  | overGlobal => false
  | waiter => waiter.isCounted

/-- The waiter is counted in the slot. -/
def isIn (slot : Nat) : Waiter → Bool
  | overObject _ s | guard _ s => s == slot
  | _ => false

/-- The waiter holds a guard of the slot. -/
def guardsSlot (slot : Nat) : Waiter → Bool
  | guard _ s => s == slot
  | _ => false

/-- The waiter holds a guard of the object. -/
def guardsObject (oid : ObjKey) : Waiter → Bool
  | guard o _ => o == oid
  | _ => false

/-- The waiter holds a guard. -/
def isGuard : Waiter → Bool
  | guard .. => true
  | _ => false

/-- The slot that a waiter is in or about to be counted in. -/
def uses : Waiter → Option (ObjKey × Nat)
  | found oid slot | overObject oid slot | guard oid slot => some (oid, slot)
  | _ => none

/-- The waiter is a reason why the registry has the slot: it uses the slot or is about to look
whether it can be removed. -/
def keeps (oid : ObjKey) (slot : Nat) : Waiter → Bool
  | found o s | overObject o s | guard o s | dropping o s | checking o s | collecting o s =>
    o == oid && s == slot
  | _ => false

end Waiter

namespace WatcherRegistry

/-- No waiter is orphaned: a notification reaches every guard of its object, the caps hold, and
after all guards are dropped and all calls have returned nothing is left. -/
structure Orderly (r : WatcherRegistry) : Prop where
  reached : ∀ oid slot, .guard oid slot ∈ r.waiters →
    (r.notify oid).notified slot = r.notified slot + 1
  globalCap : r.waiters.countP Waiter.isGuard ≤ r.caps.global
  objectCap : ∀ oid, r.waiters.countP (Waiter.guardsObject oid) ≤ r.caps.perObject
  quiet : (∀ waiter ∈ r.waiters, waiter = .done) →
    r.globalCount = 0 ∧ (∀ slot ∈ r.slots, slot.waiters = 0) ∧ ∀ oid, oid ∉ r.perObject

/-- The operation does not orphan a waiter or leave a slot behind: a slot is not removed while a
waiter has found it and is not counted in yet, and a waiter that exceeds the cap of an object is
not the last one counted in the slot. -/
def Careful (r : WatcherRegistry) : WatcherOp → Prop
  | .advance index =>
    match r.waiters[index]? with
    | some (.collecting oid _) => ∀ slot, r.perObject.lookup oid = some slot →
        r.counted slot = 0 → .found oid slot ∉ r.waiters
    | some (.overObject _ slot) => 2 ≤ r.counted slot
    | _ => True
  | _ => True

/-- The counters count the waiters, what a waiter uses is in the map, and every slot of the map
has a reason. -/
structure Inv (r : WatcherRegistry) : Prop where
  global : r.globalCount = r.waiters.countP Waiter.isCounted
  admitted : r.waiters.countP Waiter.isAdmitted ≤ r.caps.global
  counted : ∀ slot, r.counted slot = r.waiters.countP (Waiter.isIn slot)
  bounded : ∀ slot, r.waiters.countP (Waiter.guardsSlot slot) ≤ r.caps.perObject
  mapped : ∀ waiter ∈ r.waiters, ∀ oid slot, waiter.uses = some (oid, slot) →
    r.perObject.lookup oid = some slot
  inRange : ∀ {oid slot}, r.perObject.lookup oid = some slot → slot < r.slots.length
  distinct : ∀ {oid oid' slot}, r.perObject.lookup oid = some slot →
    r.perObject.lookup oid' = some slot → oid = oid'
  kept : ∀ oid slot, r.perObject.lookup oid = some slot →
    ∃ waiter ∈ r.waiters, waiter.keeps oid slot

variable {index slot : Nat} {old : Waiter}

private theorem countP_goto {waiters : List Waiter} (h : waiters[index]? = some old)
    (p : Waiter → Bool) (new : Waiter) :
    (waiters.set index new).countP p + (p old).toNat = waiters.countP p + (p new).toNat := by
  obtain ⟨hlt, rfl⟩ := List.getElem?_eq_some_iff.mp h
  have hpo : p waiters[index] = true → 0 < waiters.countP p := by
    intro hp
    exact List.countP_pos_iff.mpr ⟨_, List.getElem_mem hlt, hp⟩
  rw [List.countP_set hlt]
  cases ho : p waiters[index] with
  | false => cases p new <;> simp
  | true =>
    have := hpo ho
    cases p new <;> simp <;> omega

private theorem mem_set_of_ne {waiters : List Waiter} {other : Waiter}
    (h : waiters[index]? = some old) (ho : other ∈ waiters) (hne : other ≠ old) (new : Waiter)
    : other ∈ waiters.set index new := by
  obtain ⟨i, hi, rfl⟩ := List.mem_iff_getElem.mp ho
  have hin : index ≠ i := by
    rintro rfl
    rw [List.getElem?_eq_getElem hi] at h
    exact hne (Option.some.inj h)
  rw [List.mem_iff_getElem]
  exact ⟨i, by simpa using hi, List.getElem_set_ne hin _⟩

variable {r : WatcherRegistry}

private theorem exists_keeps
    (hc : ∀ slot, r.counted slot = r.waiters.countP (Waiter.isIn slot))
    (hma : ∀ waiter ∈ r.waiters, ∀ oid slot, waiter.uses = some (oid, slot) →
      r.perObject.lookup oid = some slot)
    (hd : ∀ {oid oid' slot}, r.perObject.lookup oid = some slot → r.perObject.lookup oid' =
      some slot → oid = oid') {oid : ObjKey} (hl : r.perObject.lookup oid = some slot)
    (hp : 0 < r.counted slot) : ∃ waiter ∈ r.waiters, waiter.keeps oid slot := by
  rw [hc, List.countP_pos_iff] at hp
  obtain ⟨waiter, hm, hin⟩ := hp
  refine ⟨waiter, hm, ?_⟩
  cases waiter with
  | overObject o s | guard o s =>
    obtain rfl : s = slot := by simpa [Waiter.isIn] using hin
    obtain rfl := hd hl (hma _ hm o s rfl)
    simp [Waiter.keeps]
  | overGlobal | reserved | found | uncounted | dropping | checking | collecting | done =>
    simp [Waiter.isIn] at hin

@[simp]
theorem counted_goto (r : WatcherRegistry) (index : Nat) (waiter : Waiter) (slot : Nat) :
    (r.goto index waiter).counted slot = r.counted slot := rfl

theorem counted_countIn (h : slot < r.slots.length) (other : Nat) :
    (r.countIn slot).counted other = r.counted other + (slot == other).toNat := by
  by_cases heq : slot = other
  · subst heq
    simp [counted, countIn, h]
  · simp [counted, countIn, heq, beq_false_of_ne heq]

theorem counted_countOut (r : WatcherRegistry) (slot other : Nat) :
    (r.countOut slot).counted other = r.counted other - (slot == other).toNat := by
  by_cases heq : slot = other
  · subst heq
    cases hs : r.slots[slot]? <;> simp [counted, countOut, hs]
  · simp [counted, countOut, heq, beq_false_of_ne heq]

/-- The guards of a slot are counted in it. -/
theorem countP_guardsSlot_le (waiters : List Waiter) (slot : Nat) :
    waiters.countP (Waiter.guardsSlot slot) ≤ waiters.countP (Waiter.isIn slot) := by
  apply List.countP_mono_left
  intro waiter _ hg
  cases waiter with
  | guard => exact hg
  | overGlobal | reserved | found | overObject | uncounted | dropping | checking | collecting
  | done => cases hg

/-- A waiter moves on, and the map keeps what the other waiters use. -/
theorem Inv.transition {r' : WatcherRegistry} (h : r.Inv) {new : Waiter}
    (ho : r.waiters[index]? = some old) (hw : r'.waiters = r.waiters.set index new)
    (hca : r'.caps = r.caps)
    (hgl : r'.globalCount + old.isCounted.toNat = r.globalCount + new.isCounted.toNat)
    (ha : new.isAdmitted → old.isAdmitted)
    (hco : ∀ slot, r'.counted slot + (old.isIn slot).toNat = r.counted slot + (new.isIn
      slot).toNat) (hb : ∀ slot, new.guardsSlot slot → r.counted slot < r.caps.perObject)
    (hm : ∀ oid slot, r'.perObject.lookup oid = some slot → r.perObject.lookup oid = some slot ∨
      new.keeps oid slot)
    (hu : ∀ waiter ∈ r'.waiters, ∀ oid slot, waiter.uses = some (oid, slot) →
      r'.perObject.lookup oid = some slot)
    (hi : ∀ {oid slot}, r'.perObject.lookup oid = some slot → slot < r'.slots.length)
    (hd : ∀ {oid oid' slot}, r'.perObject.lookup oid = some slot → r'.perObject.lookup oid' =
      some slot → oid = oid')
    (hke : ∀ oid slot, r'.perObject.lookup oid = some slot → old.keeps oid slot →
      new.keeps oid slot ∨ 0 < r'.counted slot) : r'.Inv := by
  have hc := fun p ↦ countP_goto ho p new
  rw [← hw] at hc
  have hn : new ∈ r'.waiters := by
    rw [hw]
    exact List.mem_set (List.getElem?_eq_some_iff.mp ho).1 new
  have hco' : ∀ slot, r'.counted slot = r'.waiters.countP (Waiter.isIn slot) := by
    intro slot
    have := hco slot
    have := hc (Waiter.isIn slot)
    have := h.counted slot
    omega
  refine ⟨?_, ?_, hco', ?_, hu, hi, hd, ?_⟩
  · have := hc Waiter.isCounted
    have := h.global
    omega
  · have hle : new.isAdmitted.toNat ≤ old.isAdmitted.toNat := Bool.toNat_le_toNat ha
    have := hc Waiter.isAdmitted
    have := h.admitted
    rw [hca]
    omega
  · intro slot
    have hs := hc (Waiter.guardsSlot slot)
    have hle := h.bounded slot
    rw [hca]
    cases hg : new.guardsSlot slot with
    | false =>
      rw [hg, Bool.toNat_false] at hs
      omega
    | true =>
      have hr := hb slot hg
      rw [h.counted] at hr
      have := countP_guardsSlot_le r.waiters slot
      rw [hg, Bool.toNat_true] at hs
      omega
  · intro oid slot hl
    rcases hm oid slot hl with hbe | hk
    · obtain ⟨waiter, hwa, hk⟩ := h.kept oid slot hbe
      by_cases heq : waiter = old
      · subst heq
        rcases hke oid slot hl hk with hk | hp
        · exact ⟨new, hn, hk⟩
        · exact exists_keeps hco' hu hd hl hp
      · exact ⟨waiter, hw ▸ mem_set_of_ne ho hwa heq new, hk⟩
    · exact ⟨new, hn, hk⟩

/-- A waiter moves on while the map stays as it is. -/
theorem Inv.move {r' : WatcherRegistry} (h : r.Inv) {new : Waiter}
    (ho : r.waiters[index]? = some old) (hwa : r'.waiters = r.waiters.set index new)
    (hc : r'.caps = r.caps) (hm : r'.perObject = r.perObject)
    (hsl : r'.slots.length = r.slots.length)
    (hg : r'.globalCount + old.isCounted.toNat = r.globalCount + new.isCounted.toNat)
    (ha : new.isAdmitted → old.isAdmitted)
    (hco : ∀ slot, r'.counted slot + (old.isIn slot).toNat = r.counted slot + (new.isIn
      slot).toNat) (hb : ∀ slot, new.guardsSlot slot → r.counted slot < r.caps.perObject)
    (hu : ∀ oid slot, new.uses = some (oid, slot) → r.perObject.lookup oid = some slot)
    (hk : ∀ oid slot, r.perObject.lookup oid = some slot → old.keeps oid slot →
      new.keeps oid slot ∨ 0 < r'.counted slot) : r'.Inv := by
  apply h.transition ho hwa hc hg ha hco hb <;> rw [hm]
  · exact fun oid slot hl ↦ .inl hl
  · intro waiter hw oid slot hs
    rw [hwa] at hw
    rcases List.mem_or_eq_of_mem_set hw with hw | rfl
    · exact h.mapped waiter hw oid slot hs
    · exact hu oid slot hs
  · rw [hsl]
    exact h.inRange
  · exact h.distinct
  · exact hk

theorem Inv.globalCount_pos (h : r.Inv) {waiter : Waiter}
    (hw : r.waiters[index]? = some waiter) (hc : waiter.isCounted) :
    0 < r.globalCount := by
  rw [h.global, List.countP_pos_iff]
  exact ⟨waiter, List.mem_of_getElem? hw, hc⟩

theorem Inv.counted_pos (h : r.Inv) {waiter : Waiter} (hw : r.waiters[index]? = some waiter)
    (hin : waiter.isIn slot) : 0 < r.counted slot := by
  rw [h.counted, List.countP_pos_iff]
  exact ⟨waiter, List.mem_of_getElem? hw, hin⟩

/-- A waiter gives its place in the global count back. -/
theorem Inv.release (h : r.Inv) {new : Waiter} (ho : r.waiters[index]? = some old)
    (hc : old.isCounted = true) (hn : new.isCounted = false)
    (hin : ∀ slot, old.isIn slot = new.isIn slot) (hu : new.uses = none)
    (hg : ∀ slot, new.guardsSlot slot = false)
    (hk : ∀ oid slot, old.keeps oid slot → new.keeps oid slot) :
    (r.release.goto index new).Inv := by
  have ha : new.isAdmitted = false := by
    cases new <;> first | rfl | exact hn
  have hp := h.globalCount_pos ho hc
  refine h.move ho rfl rfl rfl rfl ?_ ?_ ?_ ?_ ?_ ?_
  · rw [hc, hn]
    simp only [goto, WatcherRegistry.release, Bool.toNat_true, Bool.toNat_false]
    omega
  · intro had
    cases ha.symm.trans had
  · intro slot
    rw [hin slot]
    rfl
  · intro slot hgu
    cases (hg slot).symm.trans hgu
  · intro oid slot hs
    cases hu.symm.trans hs
  · intro oid slot _ hke
    exact .inl (hk oid slot hke)

/-- A waiter is counted out of its slot. -/
theorem Inv.countOut (h : r.Inv) {new : Waiter} (ho : r.waiters[index]? = some old)
    (hin : ∀ other, old.isIn other = (slot == other)) (hn : ∀ other, new.isIn other = false)
    (hc : old.isCounted = new.isCounted) (ha : new.isAdmitted → old.isAdmitted)
    (hu : new.uses = none) (hg : ∀ other, new.guardsSlot other = false)
    (hk : ∀ oid other, r.perObject.lookup oid = some other → old.keeps oid other →
      new.keeps oid other ∨ 0 < (r.countOut slot).counted other) :
    ((r.countOut slot).goto index new).Inv := by
  refine h.move ho rfl rfl rfl (by simp [goto, WatcherRegistry.countOut]) ?_ ?_ ?_ ?_ ?_ ?_
  · rw [hc]
    rfl
  · exact ha
  · intro other
    have hp : (slot == other) = true → 0 < r.counted other := by
      intro heq
      exact h.counted_pos ho ((hin other).trans heq)
    rw [counted_goto, counted_countOut, hin, hn]
    cases hs : slot == other with
    | false => simp
    | true =>
      have := hp hs
      simp only [Bool.toNat_true, Bool.toNat_false]
      omega
  · intro other hgu
    cases (hg other).symm.trans hgu
  · intro oid other hs
    cases hu.symm.trans hs
  · exact hk

/-- A waiter is counted in the slot that it has found. -/
theorem Inv.countIn (h : r.Inv) {oid : ObjKey} (ho : r.waiters[index]? = some (.found oid slot))
    {new : Waiter}
    (hn : new = .overObject oid slot ∨ new = .guard oid slot ∧ r.counted slot <
      r.caps.perObject) : ((r.countIn slot).goto index new).Inv := by
  have hl := h.mapped _ (List.mem_of_getElem? ho) oid slot rfl
  have hf : new.isCounted = true ∧ new.uses = some (oid, slot) ∧
      (∀ other, new.isIn other = (slot == other)) ∧
      ∀ oid' other, new.keeps oid' other = (Waiter.found oid slot).keeps oid' other := by
    rcases hn with rfl | ⟨rfl, -⟩ <;> exact ⟨rfl, rfl, fun _ ↦ rfl, fun _ _ ↦ rfl⟩
  obtain ⟨hc, hu, hi, hk⟩ := hf
  refine h.move ho rfl rfl rfl (by simp [goto, WatcherRegistry.countIn]) ?_ ?_ ?_ ?_ ?_ ?_
  · rw [hc]
    rfl
  · exact fun _ ↦ rfl
  · intro other
    rw [hi]
    exact counted_countIn (h.inRange hl) other
  · intro other hg
    rcases hn with rfl | ⟨rfl, hr⟩
    · cases hg
    · obtain rfl : slot = other := by simpa [Waiter.guardsSlot] using hg
      exact hr
  · intro oid' other hs
    cases hu.symm.trans hs
    exact hl
  · intro oid' other _ hke
    exact .inl ((hk oid' other).trans hke)

/-- A waiter has found the slot of its object, or has created it. -/
theorem Inv.findSlot (h : r.Inv) {oid : ObjKey} (ho : r.waiters[index]? = some (.reserved oid)) :
    ((r.findSlot oid).1.goto index (.found oid (r.findSlot oid).2)).Inv := by
  unfold WatcherRegistry.findSlot
  cases hl : r.perObject.lookup oid with
  | some slot =>
    dsimp only
    refine h.move ho rfl rfl rfl rfl rfl ?_ ?_ ?_ ?_ ?_
    · exact fun _ ↦ rfl
    · exact fun _ ↦ rfl
    · intro other hg
      cases hg
    · intro oid' other hu
      cases hu
      exact hl
    · intro oid' other _ hk
      cases hk
  | none =>
    dsimp only
    have hf : ∀ {oid' slot}, r.perObject.lookup oid' = some slot → slot ≠ r.slots.length :=
      fun hs ↦ (h.inRange hs).ne
    have hc : ∀ slot, (((r.slots ++ [⟨0, 0⟩])[slot]?).map ObjectSlot.waiters).getD 0 =
        r.counted slot := by
      intro slot
      rw [WatcherRegistry.counted]
      by_cases hlt : slot < r.slots.length
      · rw [List.getElem?_append_left hlt]
      · rw [List.getElem?_eq_none (Nat.le_of_not_lt hlt),
          List.getElem?_append_right (Nat.le_of_not_lt hlt)]
        cases slot - r.slots.length <;> rfl
    refine h.transition ho rfl rfl rfl (fun _ ↦ rfl) ?_ ?_ ?_ ?_ ?_ ?_ ?_
    · exact hc
    · intro slot hg
      cases hg
    · intro oid' slot hs
      rcases HashMap.lookup_insert_cases hs with ⟨rfl, rfl⟩ | ⟨-, hs⟩
      · exact .inr (by simp [Waiter.keeps])
      · exact .inl hs
    · intro waiter hw oid' slot hs
      change AList.lookup oid' (r.perObject.insert oid r.slots.length) = some slot
      rcases List.mem_or_eq_of_mem_set hw with hw | rfl
      · have hb := h.mapped waiter hw oid' slot hs
        have hne : oid' ≠ oid := by
          rintro rfl
          cases hl.symm.trans hb
        rwa [AList.lookup_insert_ne hne]
      · cases hs
        rw [AList.lookup_insert]
    · intro oid' slot hs
      change slot < (r.slots ++ [_]).length
      rw [List.length_append, List.length_singleton]
      rcases HashMap.lookup_insert_cases hs with ⟨-, rfl⟩ | ⟨-, hs⟩
      · omega
      · have := h.inRange hs
        omega
    · intro oid₁ oid₂ slot hslot₁ hslot₂
      rcases HashMap.lookup_insert_cases hslot₁ with ⟨rfl, rfl⟩ | ⟨-, hfi⟩ <;>
        rcases HashMap.lookup_insert_cases hslot₂ with ⟨rfl, hn⟩ | ⟨-, hse⟩
      · rfl
      · exact absurd rfl (hf hse)
      · exact absurd hn (hf hfi)
      · exact h.distinct hfi hse
    · intro oid' slot _ hk
      cases hk

/-- A waiter in the last operation of `drop` removes a slot that nobody uses. -/
theorem Inv.removeIf (h : r.Inv) {oid : ObjKey}
    (hol : r.waiters[index]? = some (.collecting oid slot))
    (hc : ∀ slot, r.perObject.lookup oid = some slot → r.counted slot = 0 →
      .found oid slot ∉ r.waiters) : ((r.removeIf oid).goto index .done).Inv := by
  -- if the slot stays, somebody is counted in
  have hs : (∀ other, r.perObject.lookup oid = some other → r.counted other ≠ 0) →
      (r.goto index .done).Inv := by
    intro hco
    refine h.move hol rfl rfl rfl rfl rfl ?_ (fun _ ↦ rfl) ?_ ?_ ?_
    · exact fun ha ↦ by cases ha
    · exact fun _ hg ↦ by cases hg
    · exact fun _ _ hu ↦ by cases hu
    · intro oid' other hl hk
      obtain ⟨rfl, -⟩ : oid = oid' ∧ slot = other := by simpa [Waiter.keeps] using hk
      exact .inr (Nat.pos_of_ne_zero (hco other hl))
  unfold WatcherRegistry.removeIf
  cases hl : r.perObject.lookup oid with
  | none =>
    apply hs
    intro other ho
    cases hl.symm.trans ho
  | some found =>
    dsimp only
    split
    · next hz =>
      refine h.transition hol rfl rfl rfl ?_ (fun _ ↦ rfl) ?_ ?_ ?_ ?_ ?_ ?_
      · exact fun ha ↦ by cases ha
      · exact fun _ hg ↦ by cases hg
      · exact fun oid' other ho ↦ .inl (HashMap.lookup_of_lookup_erase ho)
      · intro waiter hw oid' other hu
        rcases List.mem_or_eq_of_mem_set hw with hw | rfl
        · have hb := h.mapped waiter hw oid' other hu
          have hne : oid' ≠ oid := by
            rintro rfl
            cases hl.symm.trans hb
            -- a waiter that uses the slot is counted in, or has just found it
            rw [h.counted, List.countP_eq_zero] at hz
            cases waiter with
            | found o s =>
              cases hu
              exact hc _ hl (by rw [h.counted, List.countP_eq_zero]; exact hz) hw
            | overObject o s | guard o s =>
              cases hu
              exact hz _ hw (by simp [Waiter.isIn])
            | overGlobal | reserved | uncounted | dropping | checking | collecting | done =>
              cases hu
          change AList.lookup oid' (r.perObject.erase oid) = some other
          rwa [AList.lookup_erase_ne hne]
        · cases hu
      · exact fun ho ↦ h.inRange (HashMap.lookup_of_lookup_erase ho)
      · exact fun hf hse ↦ h.distinct (HashMap.lookup_of_lookup_erase hf)
          (HashMap.lookup_of_lookup_erase hse)
      · intro oid' other ho hk
        obtain ⟨rfl, -⟩ : oid = oid' ∧ slot = other := by simpa [Waiter.keeps] using hk
        change AList.lookup oid (r.perObject.erase oid) = some other at ho
        rw [AList.lookup_erase] at ho
        cases ho
    · next hz =>
      apply hs
      intro other ho
      cases hl.symm.trans ho
      exact hz

/-- The operations of a waiter keep the invariant. -/
theorem Inv.advance (h : r.Inv) (hc : r.Careful (.advance index))
    : (r.advance index).Inv := by
  cases ho : r.waiters[index]? with
  | none => simpa only [WatcherRegistry.advance, ho] using h
  | some waiter =>
    cases waiter with
    | guard | done => simpa only [WatcherRegistry.advance, ho] using h
    | overGlobal =>
      simp only [WatcherRegistry.advance, ho]
      exact h.release ho rfl rfl (fun _ ↦ rfl) rfl (fun _ ↦ rfl) (fun _ _ hk ↦ hk)
    | uncounted =>
      simp only [WatcherRegistry.advance, ho]
      exact h.release ho rfl rfl (fun _ ↦ rfl) rfl (fun _ ↦ rfl) (fun _ _ hk ↦ hk)
    | dropping oid slot =>
      simp only [WatcherRegistry.advance, ho]
      exact h.release ho rfl rfl (fun _ ↦ rfl) rfl (fun _ ↦ rfl) (fun _ _ hk ↦ hk)
    | reserved oid =>
      simp only [WatcherRegistry.advance, ho]
      exact h.findSlot ho
    | found oid slot =>
      simp only [WatcherRegistry.advance, ho]
      apply h.countIn ho
      by_cases hr : r.counted slot ≥ r.caps.perObject
      · exact .inl (if_pos hr)
      · exact .inr ⟨if_neg hr, by omega⟩
    | overObject oid slot =>
      simp only [Careful, ho] at hc
      simp only [WatcherRegistry.advance, ho]
      refine h.countOut ho (fun _ ↦ rfl) (fun _ ↦ rfl) rfl (fun _ ↦ rfl) rfl (fun _ ↦ rfl) ?_
      intro oid' other _ hk
      obtain ⟨-, rfl⟩ : oid = oid' ∧ slot = other := by simpa [Waiter.keeps] using hk
      rw [counted_countOut, beq_self_eq_true, Bool.toNat_true]
      omega
    | checking oid slot =>
      simp only [WatcherRegistry.advance, ho]
      split
      · refine h.move ho rfl rfl rfl rfl rfl ?_ (fun _ ↦ rfl) ?_ ?_ ?_
        · exact fun ha ↦ by cases ha
        · exact fun _ hg ↦ by cases hg
        · exact fun _ _ hu ↦ by cases hu
        · exact fun _ _ _ hk ↦ .inl hk
      · next hco =>
        refine h.move ho rfl rfl rfl rfl rfl ?_ (fun _ ↦ rfl) ?_ ?_ ?_
        · exact fun ha ↦ by cases ha
        · exact fun _ hg ↦ by cases hg
        · exact fun _ _ hu ↦ by cases hu
        · intro oid' other _ hk
          obtain ⟨-, rfl⟩ : oid = oid' ∧ slot = other := by simpa [Waiter.keeps] using hk
          exact .inr (Nat.pos_of_ne_zero hco)
    | collecting oid slot =>
      simp only [Careful, ho] at hc
      simp only [WatcherRegistry.advance, ho]
      exact h.removeIf ho hc

theorem Inv.drop (h : r.Inv) (index : Nat) : (r.drop index).Inv := by
  unfold WatcherRegistry.drop
  split
  · next oid slot ho =>
    refine h.countOut ho (fun _ ↦ rfl) (fun _ ↦ rfl) rfl (fun _ ↦ rfl) rfl (fun _ ↦ rfl) ?_
    exact fun _ _ _ hk ↦ .inl hk
  · exact h

theorem countP_isAdmitted_le (waiters : List Waiter) :
    waiters.countP Waiter.isAdmitted ≤ waiters.countP Waiter.isCounted := by
  apply List.countP_mono_left
  intro waiter _ ha
  cases waiter <;> first | rfl | cases ha

theorem Inv.register (h : r.Inv) (oid : ObjKey) : (r.register oid).Inv := by
  unfold WatcherRegistry.register
  obtain ⟨waiter, hw⟩ : ∃ waiter : Waiter,
      waiter = if r.globalCount ≥ r.caps.global then .overGlobal else .reserved oid := ⟨_, rfl⟩
  rw [← hw]
  have hf : waiter.isCounted = true ∧ waiter.uses = none ∧
      (∀ slot, waiter.isIn slot = false) ∧ ∀ slot, waiter.guardsSlot slot = false := by
    subst hw
    split <;> exact ⟨rfl, rfl, fun _ ↦ rfl, fun _ ↦ rfl⟩
  obtain ⟨hc, hu, hi, hg⟩ := hf
  constructor
  case global => simp [List.countP_append, hc, h.global]
  case admitted =>
    have hle := countP_isAdmitted_le r.waiters
    have hb := h.admitted
    rw [← h.global] at hle
    rw [List.countP_append]
    by_cases hr : r.globalCount ≥ r.caps.global
    · rw [hw, if_pos hr]
      exact hb
    · rw [hw, if_neg hr]
      change r.waiters.countP Waiter.isAdmitted + 1 ≤ r.caps.global
      omega
  case counted =>
    intro slot
    rw [List.countP_append, List.countP_singleton, hi]
    exact h.counted slot
  case bounded =>
    intro slot
    rw [List.countP_append, List.countP_singleton, hg]
    exact h.bounded slot
  case mapped =>
    intro other ho oid' slot hs
    rcases List.mem_append.mp ho with ho | ho
    · exact h.mapped other ho oid' slot hs
    · rw [List.mem_singleton.mp ho, hu] at hs
      cases hs
  case inRange => exact h.inRange
  case distinct => exact h.distinct
  case kept =>
    intro oid' slot hl
    obtain ⟨other, ho, hk⟩ := h.kept oid' slot hl
    exact ⟨other, List.mem_append_left _ ho, hk⟩

theorem Inv.notify (h : r.Inv) (oid : ObjKey) : (r.notify oid).Inv := by
  unfold WatcherRegistry.notify
  split
  · next slot hl =>
    refine ⟨h.global, h.admitted, ?_, h.bounded, h.mapped, ?_, h.distinct, h.kept⟩
    · intro other
      rw [← h.counted other]
      simp only [WatcherRegistry.counted, List.getElem?_modify]
      cases r.slots[other]? with
      | none => rfl
      | some found =>
        by_cases heq : slot = other
        · simp [heq]
        · simp [heq]
    · intro oid' other ho
      rw [List.length_modify]
      exact h.inRange ho
  · exact h

/-- Every careful operation keeps the invariant. -/
theorem Inv.step (h : r.Inv) {op : WatcherOp} (hc : r.Careful op) : (r.step op).Inv := by
  cases op with
  | register oid => exact h.register oid
  | advance index => exact h.advance hc
  | drop index => exact h.drop index
  | notify oid => exact h.notify oid

theorem inv_new (caps : WatcherCaps) : (new caps).Inv where
  global := rfl
  admitted := Nat.zero_le _
  counted _ := rfl
  bounded _ := Nat.zero_le _
  mapped _ h := absurd h List.not_mem_nil
  inRange h := by cases h
  distinct h := by cases h
  kept _ _ h := by cases h

/-- A registry with the invariant reaches its guards, keeps its caps and is empty in the end. -/
theorem Inv.orderly (h : r.Inv) : r.Orderly where
  reached := by
    intro oid slot hg
    have hl := h.mapped _ hg oid slot rfl
    have hlt := h.inRange hl
    simp [WatcherRegistry.notify, hl, notified, hlt]
  globalCap := by
    refine le_trans ?_ h.admitted
    apply List.countP_mono_left
    intro waiter _ hg
    cases waiter <;> first | rfl | cases hg
  objectCap := by
    intro oid
    cases hl : r.perObject.lookup oid with
    | none =>
      have hz : r.waiters.countP (Waiter.guardsObject oid) = 0 := by
        rw [List.countP_eq_zero]
        intro waiter hw hg
        cases waiter with
        | guard o s =>
          obtain rfl : o = oid := by simpa [Waiter.guardsObject] using hg
          cases hl.symm.trans (h.mapped _ hw o s rfl)
        | overGlobal | reserved | found | overObject | uncounted | dropping | checking
        | collecting | done => cases hg
      omega
    | some slot =>
      refine le_trans ?_ (h.bounded slot)
      apply List.countP_mono_left
      intro waiter hw hg
      cases waiter with
      | guard o s =>
        obtain rfl : o = oid := by simpa [Waiter.guardsObject] using hg
        cases hl.symm.trans (h.mapped _ hw o s rfl)
        simp [Waiter.guardsSlot]
      | overGlobal | reserved | found | overObject | uncounted | dropping | checking
      | collecting | done => cases hg
  quiet := by
    intro hd
    have hn : ∀ p : Waiter → Bool, p .done = false → r.waiters.countP p = 0 := by
      intro p hp
      rw [List.countP_eq_zero]
      intro waiter hw
      rw [hd waiter hw, hp]
      exact Bool.false_ne_true
    refine ⟨h.global.trans (hn _ rfl), ?_, ?_⟩
    · intro slot hs
      obtain ⟨i, hi⟩ := List.getElem?_of_mem hs
      have hc := (h.counted i).trans (hn _ rfl)
      rwa [WatcherRegistry.counted, hi] at hc
    · intro oid ho
      obtain ⟨slot, hl⟩ := Option.isSome_iff_exists.mp (AList.lookup_isSome.mpr ho)
      obtain ⟨waiter, hw, hk⟩ := h.kept oid slot hl
      rw [hd waiter hw] at hk
      cases hk

/-- A machine that performs operations. -/
def perform (r : WatcherRegistry) (op : WatcherOp) : Unit × WatcherRegistry := ((), r.step op)

/-- In every interleaving of careful operations notifications reach all guards of their object,
the caps hold, and nothing is left after all guards are dropped. -/
theorem orderly_of_run {caps : WatcherCaps} {outputs : List Unit} {r : WatcherRegistry}
    (hrun : Run perform (fun _ r op ↦ r.Careful op) (new caps) outputs r) : r.Orderly :=
  (hrun.invariant (fun _ (r : WatcherRegistry) ↦ r.Inv) (inv_new caps) fun h hc ↦ h.step hc).orderly

private def watched : ObjKey := ⟨Vector.replicate 32 7⟩

/-- A waiter registers, is notified and drops its guard. -/
private def oneWaiter : List WatcherOp :=
  [.register watched, .advance 0, .advance 0, .notify watched, .drop 0, .advance 0, .advance 0,
    .advance 0]

/-- Nothing is left of a waiter that has dropped its guard. -/
theorem orderly_oneWaiter :
    let r := (feed perform ([], new ⟨32, 1024⟩) oneWaiter).2
    r.Orderly ∧ r.waiters = [.done] ∧ r.perObject.keys = [] := by
  intro r
  have hf : Feeds perform (fun _ r op ↦ r.Careful op) ([], new ⟨32, 1024⟩) oneWaiter := by
    refine ⟨trivial, trivial, trivial, trivial, trivial, trivial, trivial, ?_, trivial⟩
    intro slot _ _ hfo
    cases List.mem_singleton.mp hfo
  exact ⟨orderly_of_run (Run.start.feed hf), by decide +kernel, by decide +kernel⟩

/-- A second waiter finds the slot of the first, which drops its guard and removes the slot
before the second one is counted in. -/
private def orphaned : List WatcherOp :=
  [.register watched, .advance 0, .advance 0, .register watched, .advance 1, .drop 0, .advance 0,
    .advance 0, .advance 0, .advance 1]

/-- A second waiter exceeds the cap of the object while the first one drops its guard. -/
private def leftover : List WatcherOp :=
  [.register watched, .advance 0, .advance 0, .register watched, .advance 1, .advance 1, .drop 0,
    .advance 0, .advance 0, .advance 1, .advance 1]

/-- In the one interleaving a notification misses a guard, in the other a slot remains after all
guards are dropped and all calls have returned. -/
theorem not_orderly_interleaved :
    let missed := (feed perform ([], new ⟨32, 1024⟩) orphaned).2
    let left := (feed perform ([], new ⟨1, 1024⟩) leftover).2
    (Waiter.guard watched 0 ∈ missed.waiters ∧
        (missed.notify watched).notified 0 = missed.notified 0 ∧ ¬ missed.Orderly) ∧
      (∀ waiter ∈ left.waiters, waiter = .done) ∧ left.perObject.keys = [watched] ∧
        ¬ left.Orderly := by
  intro missed left
  refine ⟨⟨by decide +kernel, by decide +kernel, ?_⟩, by decide +kernel, by decide +kernel, ?_⟩
  · intro h
    have hr := h.reached watched 0 (by decide +kernel)
    revert hr
    decide +kernel
  · intro h
    have he := (h.quiet (by decide +kernel)).2.2 watched
    revert he
    decide +kernel

end WatcherRegistry

end Setu.State
