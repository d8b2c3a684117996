import Setu.Types.Event

/-!
# Routing events by subnet

Library `Consensus`. Events of an anchor are grouped by the subnet that executes them; putting
the groups together again gives every event once. Source `consensus/src/router.rs:13-113`,
`consensus/src/anchor_builder.rs:187-197`.
-/

namespace Setu.Consensus

open Setu.Base Setu.Types

/-- Events grouped by subnet, `router.rs:13-25`. -/
structure RoutedEvents where
  rootEvents : List Event
  systemEvents : HashMap SubnetId (List Event)
  appEvents : HashMap SubnetId (List Event)
  unroutedEvents : List Event

namespace RoutedEvents

/-- No events, `router.rs:29-31`. -/
def new : RoutedEvents := ⟨[], ∅, ∅, []⟩

variable (routed : RoutedEvents)

/-- The body of the routing loop, `router.rs:83-109`. -/
def route (event : Event) : RoutedEvents :=
  if event.subnetId.isNone then
    { routed with unroutedEvents := routed.unroutedEvents ++ [event] }
  else
    let subnetId := event.getSubnetId
    if event.eventType.isValidatorExecuted || subnetId.isRoot then
      { routed with rootEvents := routed.rootEvents ++ [event] }
    else if subnetId.isSystem && !subnetId.isRoot then
      { routed with systemEvents := routed.systemEvents.pushAt subnetId event }
    else if subnetId.isApp then
      { routed with appEvents := routed.appEvents.pushAt subnetId event }
    else
      { routed with unroutedEvents := routed.unroutedEvents ++ [event] }

/-- `router.rs:80-113`. -/
def routeEvents (events : List Event) : RoutedEvents := events.foldl route new

/-- `anchor_builder.rs:187-197`. -/
def allEvents : List Event :=
  routed.rootEvents ++ routed.systemEvents.values.flatten ++ routed.appEvents.values.flatten ++
    routed.unroutedEvents

private theorem allEvents_route (event : Event) :
    (routed.route event).allEvents.Perm (event :: routed.allEvents) := by
  have hm : ∀ {a b c d a' b' c' d' : List Event}, a.Perm a' → b.Perm b' → c.Perm c' →
      d.Perm d' → (a ++ b ++ c ++ d).Perm (a' ++ b' ++ c' ++ d') :=
    fun ha hb hc hd ↦ ((ha.append hb).append hc).append hd
  have hs : ∀ l : List Event, (l ++ [event]).Perm (event :: l) :=
    fun l ↦ List.perm_append_singleton event l
  have hr : ({ routed with rootEvents := routed.rootEvents ++ [event] } : RoutedEvents).allEvents
      |>.Perm (event :: routed.allEvents) :=
    hm (hs _) (.refl _) (.refl _) (.refl _)
  have hu :
      ({ routed with unroutedEvents := routed.unroutedEvents ++ [event] } : RoutedEvents).allEvents
      |>.Perm (event :: routed.allEvents) :=
    (hm (.refl _) (.refl _) (.refl _) (hs _)).trans List.perm_middle
  unfold route
  split
  · exact hu
  · dsimp only
    split
    · exact hr
    · split
      · have hp := HashMap.perm_flatten_values_pushAt routed.systemEvents event.getSubnetId event
        have hg := hm (.refl routed.rootEvents) hp
          (.refl routed.appEvents.values.flatten) (.refl routed.unroutedEvents)
        apply hg.trans
        simp only [allEvents, List.append_assoc, List.cons_append]
        exact List.perm_middle
      · split
        · have hp := HashMap.perm_flatten_values_pushAt routed.appEvents event.getSubnetId event
          have hg := hm (.refl routed.rootEvents)
            (.refl routed.systemEvents.values.flatten) hp (.refl routed.unroutedEvents)
          apply hg.trans
          simp only [allEvents, List.append_assoc, List.cons_append]
          rw [← List.append_assoc, ← List.append_assoc]
          exact List.perm_middle
        · exact hu

/-- Routing loses and duplicates nothing. -/
theorem allEvents_routeEvents (events : List Event) :
    (routeEvents events).allEvents.Perm events := by
  suffices h : ∀ (routed : RoutedEvents),
      (events.foldl route routed).allEvents.Perm (events ++ routed.allEvents) by
    simpa [routeEvents, new, allEvents, HashMap.values, HashMap.toList_empty] using h new
  induction events with
  | nil => exact fun routed ↦ .refl _
  | cons event rest ih =>
    intro routed
    have hs := (ih (routed.route event)).trans ((allEvents_route routed event).append_left rest)
    exact hs.trans List.perm_middle

end RoutedEvents

end Setu.Consensus
