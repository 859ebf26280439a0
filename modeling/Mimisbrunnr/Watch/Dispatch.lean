import Mathlib.Logic.Function.Iterate
import Mimisbrunnr.Watch.Subscriptions

/-!
# The mutation hooks, one subscription at a time

Every hook visits a list of identifiers and hands each live subscription among
them, with its queue, to one handler. A visit touches the visited subscription
only, so what a hook does to a subscription is its handler, repeated as often
as the list names it.
-/

namespace Mimisbrunnr.Watch

set_option autoImplicit false

open Mimisbrunnr.Lib.FiniteMap
open Mimisbrunnr.Ontology
open Mimisbrunnr.Types

/-- A call of one of the mutation hooks. -/
inductive Hook where
  | tagAdded (oid : ObjectId) (tag : TagId) (lsn : Nat) (tsNs : Int64)
  | tagRemoved (oid : ObjectId) (tag : TagId) (lsn : Nat) (tsNs : Int64)
  | objectCreated (oid : ObjectId) (lsn : Nat) (tsNs : Int64)
  | objectDeleted (oid : ObjectId) (lsn : Nat) (tsNs : Int64)
  | contentChanged (oid : ObjectId) (lsn : Nat) (tsNs : Int64)

abbrev Slot := Subscription × List WatchEvent

namespace SubscriptionEngine

def dispatch (s : SubscriptionEngine) : Hook → SubscriptionEngine
  | .tagAdded oid tag lsn tsNs => s.onTagAdded oid tag lsn tsNs
  | .tagRemoved oid tag lsn tsNs => s.onTagRemoved oid tag lsn tsNs
  | .objectCreated oid lsn tsNs => s.onObjectCreated oid lsn tsNs
  | .objectDeleted oid lsn tsNs => s.onObjectDeleted oid lsn tsNs
  | .contentChanged oid lsn tsNs => s.onContentChanged oid lsn tsNs

/-- The identifiers that a hook visits. -/
def audience (s : SubscriptionEngine) : Hook → List SubscriptionId
  | .tagAdded _ tag _ _ => (s.tagToSubs.lookup tag).getD []
  | .tagRemoved _ tag _ _ => (s.tagToSubs.lookup tag).getD []
  | _ => s.ids

/-- What a hook does with a live subscription. -/
def handler : Hook → Subscription → List WatchEvent → Slot
  | .tagAdded oid tag lsn tsNs => handleTagAdded oid tag lsn (hlc tsNs)
  | .tagRemoved oid tag lsn tsNs => handleTagRemoved oid tag lsn (hlc tsNs)
  | .objectCreated oid lsn tsNs => fun sub queue =>
      emit sub queue lsn ChangeInterest.created (.created oid (hlc tsNs))
  | .objectDeleted oid lsn tsNs => handleObjectDeleted oid lsn (hlc tsNs)
  | .contentChanged oid lsn tsNs => handleContentChanged oid lsn (hlc tsNs)

def visitAll (handle : Subscription → List WatchEvent → Slot) (visited : List SubscriptionId)
    (s : SubscriptionEngine) : SubscriptionEngine :=
  visited.foldl (fun s sid => s.visit sid handle) s

theorem dispatch_eq (s : SubscriptionEngine) (hook : Hook) :
    s.dispatch hook = s.visitAll (handler hook) (s.audience hook) := by
  cases hook <;> rfl

def pending (s : SubscriptionEngine) (id : SubscriptionId) : List WatchEvent :=
  (s.pendingEvents.lookup id).getD []

def slot (s : SubscriptionEngine) (id : SubscriptionId) : Option Slot :=
  (s.subscriptions.lookup id).map fun sub => (sub, s.pending id)

theorem slot_eq_some (s : SubscriptionEngine) (id : SubscriptionId) (sub : Subscription)
    (queue : List WatchEvent) :
    s.slot id = some (sub, queue) ↔
      s.subscriptions.lookup id = some sub ∧ s.pending id = queue := by
  rw [slot, Option.map_eq_some_iff]
  constructor
  · intro found
    obtain ⟨other, located, same⟩ := found
    cases same
    exact ⟨located, rfl⟩
  · intro found
    exact ⟨sub, found.1, by rw [found.2]⟩

def serve (handle : Subscription → List WatchEvent → Slot) (slot : Slot) : Slot :=
  if slot.1.isActive then handle slot.1 slot.2 else slot

section Visits

variable (handle : Subscription → List WatchEvent → Slot)

private theorem slot_visit (s : SubscriptionEngine) (sid id : SubscriptionId) :
    (s.visit sid handle).slot id =
      if id = sid then (s.slot id).map (serve handle) else s.slot id := by
  unfold visit
  split
  · next missing =>
      by_cases same : id = sid
      · subst same
        rw [if_pos rfl, slot, missing]
        rfl
      · rw [if_neg same]
  · next sub found =>
      by_cases live : sub.isActive = true
      · rw [if_pos live]
        by_cases same : id = sid
        · subst same
          simp only [slot, pending, serve, Finmap.lookup_insert, found, Option.map_some,
            Option.getD_some, if_pos live]
          rfl
        · simp only [slot, pending, lookup_insert_eq, if_neg same]
      · rw [if_neg live]
        by_cases same : id = sid
        · subst same
          simp only [slot, serve, found, Option.map_some, if_neg live]
          rfl
        · rw [if_neg same]

theorem visit_all_cons (s : SubscriptionEngine) (sid : SubscriptionId)
    (visited : List SubscriptionId) :
    s.visitAll handle (sid :: visited) = (s.visit sid handle).visitAll handle visited := rfl

private theorem slot_visit_all (visited : List SubscriptionId) (s : SubscriptionEngine)
    (id : SubscriptionId) :
    (s.visitAll handle visited).slot id =
      (s.slot id).map ((serve handle)^[visited.count id]) := by
  induction visited generalizing s with
  | nil =>
      rw [List.count_nil, Function.iterate_zero, Option.map_id]
      rfl
  | cons sid visited ih =>
      rw [visit_all_cons, ih, slot_visit]
      by_cases same : id = sid
      · subst same
        rw [if_pos rfl, List.count_cons_self, Option.map_map, Function.iterate_succ]
      · rw [if_neg same, List.count_cons_of_ne fun equal => same equal.symm]

end Visits

theorem slot_dispatch (s : SubscriptionEngine) (hook : Hook) (id : SubscriptionId) :
    (s.dispatch hook).slot id =
      (s.slot id).map ((serve (handler hook))^[(s.audience hook).count id]) := by
  rw [dispatch_eq, slot_visit_all]

theorem slot_dispatch_dormant (s : SubscriptionEngine) (hook : Hook) (id : SubscriptionId)
    (sub : Subscription) (found : s.subscriptions.lookup id = some sub)
    (asleep : sub.state = .dormant) : (s.dispatch hook).slot id = s.slot id := by
  have skipped : serve (handler hook) (sub, s.pending id) = (sub, s.pending id) := by
    rw [serve, Subscription.isActive, asleep]
    rfl
  rw [slot_dispatch, slot, found, Option.map_some, Option.map_some,
    Function.iterate_fixed skipped]

/-- A relation between slots that every handled visit respects, and that can be
chained, relates a slot before a hook with the slot after it. -/
theorem dispatch_related (related : Slot → Slot → Prop) (reflexive : ∀ slot, related slot slot)
    (transitive : ∀ first second third, related first second → related second third →
      related first third)
    (s : SubscriptionEngine) (hook : Hook) (id : SubscriptionId)
    (respected : ∀ slot, related slot (serve (handler hook) slot)) :
    Option.Rel related (s.slot id) ((s.dispatch hook).slot id) := by
  rw [slot_dispatch]
  cases s.slot id with
  | none => exact Option.Rel.none
  | some before =>
      apply Option.Rel.some
      generalize (s.audience hook).count id = times
      induction times with
      | zero => exact reflexive before
      | succ times ih =>
          rw [Function.iterate_succ_apply']
          exact transitive _ _ _ ih (respected _)

end SubscriptionEngine

end Mimisbrunnr.Watch
