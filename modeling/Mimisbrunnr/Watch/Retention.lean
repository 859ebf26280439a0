import Mathlib.Data.List.DropRight
import Mimisbrunnr.Watch.EventStream

/-!
# Bounded queues

A bound on the pending events of a subscription drops the oldest of them and does
nothing else. Cutting a queue to its newest events after each push, or once at the
end, is the same; so a bounded subscription has the newest events of its unlimited
twin after every sequence of hooks and drains.
-/

namespace Mimisbrunnr.Watch

set_option autoImplicit false

open Mimisbrunnr.Lib
open Mimisbrunnr.Lib.FiniteMap
open Mimisbrunnr.Types

section

variable {α : Type}

/-- The loop of the source: the oldest entry goes while there are too many. -/
def popBeyond (cap : Nat) : List α → List α
  | [] => []
  | first :: rest => if cap < (first :: rest).length then popBeyond cap rest else first :: rest

theorem pop_beyond_eq (cap : Nat) : ∀ queue : List α, popBeyond cap queue = queue.rtake cap := by
  intro queue
  induction queue with
  | nil => rw [popBeyond, List.rtake_nil]
  | cons first rest ih =>
      unfold popBeyond
      split
      · next more =>
          have shape : (first :: rest).length - cap = rest.length - cap + 1 := by
            rw [List.length_cons] at more ⊢
            omega
          rw [ih, List.rtake, List.rtake, shape, List.drop_succ_cons]
      · next enough =>
          rw [List.rtake, Nat.sub_eq_zero_of_le (Nat.not_lt.mp enough), List.drop_zero]

theorem rtake_rtake_append (cap : Nat) (queue events : List α) :
    (queue.rtake cap ++ events).rtake cap = (queue ++ events).rtake cap := by
  rw [List.rtake, List.rtake, List.rtake, List.length_append, List.length_append,
    List.length_drop, List.drop_append, List.drop_append, List.drop_drop, List.length_drop]
  congr 2 <;> omega

end

/-- How many events a retention keeps, none when it keeps them all. -/
def Retention.capacity : Retention → Option Nat
  | .atMostOnce => some 1
  | .bounded maxEvents => some maxEvents.toNat
  | .unlimited => none

private theorem apply_retention_of_capacity (retention : Retention) (cap : Nat)
    (bound : retention.capacity = some cap) (queue : List WatchEvent) :
    applyRetention retention queue = popBeyond cap queue := by
  rw [pop_beyond_eq]
  cases retention with
  | atMostOnce =>
      cases bound
      rfl
  | bounded maxEvents =>
      cases bound
      rfl
  | unlimited => cases bound

def Slot.bounded (id : SubscriptionId) (retention : Retention) (cap : Nat) (slot : Slot) : Slot :=
  ({ slot.1 with id := id, retention := retention }, slot.2.rtake cap)

section

variable (id : SubscriptionId) (retention : Retention) (cap : Nat)
  (bound : retention.capacity = some cap)

include bound

theorem emit_bounded (sub : Subscription) (queue : List WatchEvent) (lsn : Nat)
    (kind : ChangeInterest) (event : WatchEvent) (unlimited : sub.retention = .unlimited) :
    emit { sub with id := id, retention := retention } (queue.rtake cap) lsn kind event =
      Slot.bounded id retention cap (emit sub queue lsn kind event) := by
  unfold emit
  by_cases wanted : sub.interest.containsMask kind = true
  · rw [if_pos wanted, if_pos wanted, apply_retention_of_capacity retention cap bound,
      pop_beyond_eq, rtake_rtake_append, unlimited]
    rfl
  · rw [if_neg wanted, if_neg wanted]
    rfl

private theorem tag_removed_bounded (oid : ObjectId) (tag : TagId) (lsn : Nat)
    (timestamp : HybridTimestamp) (sub : Subscription) (queue : List WatchEvent)
    (unlimited : sub.retention = .unlimited) :
    SubscriptionEngine.handleTagRemoved oid tag lsn timestamp
        { sub with id := id, retention := retention } (queue.rtake cap) =
      Slot.bounded id retention cap
        (SubscriptionEngine.handleTagRemoved oid tag lsn timestamp sub queue) := by
  unfold SubscriptionEngine.handleTagRemoved
  by_cases inside : oid.low32 ∈ sub.cachedResult
  · rw [if_pos inside, if_pos inside]
    have first := emit_bounded id retention cap bound
      { sub with cachedResult := sub.cachedResult.erase oid.low32 } queue lsn
      ChangeInterest.tagRemoved (.tagRemoved oid tag timestamp) unlimited
    have kept : (emit { sub with cachedResult := sub.cachedResult.erase oid.low32 } queue lsn
        ChangeInterest.tagRemoved (.tagRemoved oid tag timestamp)).1.retention = .unlimited := by
      rw [emit_keeps]
      exact unlimited
    simp only
    rw [first]
    exact emit_bounded id retention cap bound _ _ lsn ChangeInterest.exited (.exited oid timestamp)
      kept
  · rw [if_neg inside, if_neg inside]
    rfl

private theorem handler_bounded (hook : Hook) (sub : Subscription) (queue : List WatchEvent)
    (unlimited : sub.retention = .unlimited) :
    SubscriptionEngine.handler hook { sub with id := id, retention := retention }
        (queue.rtake cap) =
      Slot.bounded id retention cap (SubscriptionEngine.handler hook sub queue) := by
  cases hook with
  | tagAdded oid tag lsn tsNs =>
      simp only [SubscriptionEngine.handler, SubscriptionEngine.handleTagAdded]
      by_cases inside : oid.low32 ∈ sub.cachedResult
      · rw [if_pos inside, if_pos inside]
        exact emit_bounded id retention cap bound sub queue _ _ _ unlimited
      · rw [if_neg inside, if_neg inside]
        exact emit_bounded id retention cap bound
          { sub with cachedResult := insert oid.low32 sub.cachedResult } queue _ _ _ unlimited
  | tagRemoved oid tag lsn tsNs =>
      exact tag_removed_bounded id retention cap bound oid tag lsn (hlc tsNs) sub queue unlimited
  | objectCreated oid lsn tsNs =>
      exact emit_bounded id retention cap bound sub queue _ _ _ unlimited
  | objectDeleted oid lsn tsNs =>
      simp only [SubscriptionEngine.handler, SubscriptionEngine.handleObjectDeleted]
      by_cases inside : oid.low32 ∈ sub.cachedResult
      · rw [if_pos inside, if_pos inside]
        exact emit_bounded id retention cap bound
          { sub with cachedResult := sub.cachedResult.erase oid.low32 } queue _ _ _ unlimited
      · rw [if_neg inside, if_neg inside]
        rfl
  | contentChanged oid lsn tsNs =>
      simp only [SubscriptionEngine.handler, SubscriptionEngine.handleContentChanged]
      by_cases inside : oid.low32 ∈ sub.cachedResult
      · rw [if_pos inside, if_pos inside]
        exact emit_bounded id retention cap bound sub queue _ _ _ unlimited
      · rw [if_neg inside, if_neg inside]
        rfl

private theorem serve_bounded (hook : Hook) (slot : Slot)
    (unlimited : slot.1.retention = .unlimited) :
    SubscriptionEngine.serve (SubscriptionEngine.handler hook) (slot.bounded id retention cap) =
      (SubscriptionEngine.serve (SubscriptionEngine.handler hook) slot).bounded id retention cap := by
  unfold SubscriptionEngine.serve
  by_cases live : slot.1.isActive = true
  · have alive : (slot.bounded id retention cap).1.isActive = true := live
    rw [if_pos live, if_pos alive]
    exact handler_bounded id retention cap bound hook slot.1 slot.2 unlimited
  · have asleep : ¬ (slot.bounded id retention cap).1.isActive = true := live
    rw [if_neg live, if_neg asleep]

end

inductive Call where
  | hook (call : Hook)
  | drain (id : SubscriptionId)

/-- A call as one subscription sees it. -/
inductive Seen where
  | hook (call : Hook)
  | drained

def Call.seen (id : SubscriptionId) : Call → Option Seen
  | .hook call => some (.hook call)
  | .drain drained => if drained = id then some .drained else none

/-- How often a hook visits a subscription that each tag names so often. -/
def Hook.visits (links : TagId → Nat) : Hook → Nat
  | .tagAdded _ tag _ _ => links tag
  | .tagRemoved _ tag _ _ => links tag
  | _ => 1

def Seen.apply (links : TagId → Nat) : Seen → Slot → Slot
  | .hook call =>
      (SubscriptionEngine.serve (SubscriptionEngine.handler call))^[call.visits links]
  | .drained => fun slot => (slot.1, [])

private theorem seen_bounded (id : SubscriptionId) (retention : Retention) (cap : Nat)
    (bound : retention.capacity = some cap) (links : TagId → Nat) (seen : Seen) (slot : Slot)
    (unlimited : slot.1.retention = .unlimited) :
    seen.apply links (slot.bounded id retention cap) =
        (seen.apply links slot).bounded id retention cap ∧
      (seen.apply links slot).1.retention = .unlimited := by
  cases seen with
  | hook call =>
      simp only [Seen.apply]
      generalize call.visits links = times
      induction times generalizing slot with
      | zero => exact ⟨rfl, unlimited⟩
      | succ times ih =>
          have kept := (SubscriptionEngine.handler_served call slot).retention.trans unlimited
          rw [Function.iterate_succ_apply, Function.iterate_succ_apply,
            serve_bounded id retention cap bound call slot unlimited]
          exact ih _ kept
  | drained =>
      refine ⟨?_, unlimited⟩
      simp only [Seen.apply, Slot.bounded, List.rtake_nil]

namespace SubscriptionEngine

def call (s : SubscriptionEngine) : Call → SubscriptionEngine
  | .hook call => s.dispatch call
  | .drain id => (s.drain id).2

def calls (s : SubscriptionEngine) (calls : List Call) : SubscriptionEngine := calls.foldl call s

def links (s : SubscriptionEngine) (id : SubscriptionId) : TagId → Nat :=
  fun tag => ((s.tagToSubs.lookup tag).getD []).count id

private theorem visit_tag_to_subs (s : SubscriptionEngine) (sid : SubscriptionId)
    (handle : Subscription → List WatchEvent → Slot) :
    (s.visit sid handle).tagToSubs = s.tagToSubs := by
  unfold visit
  split
  · rfl
  · split <;> rfl

private theorem call_tag_to_subs (s : SubscriptionEngine) (step : Call) :
    (s.call step).tagToSubs = s.tagToSubs := by
  cases step with
  | hook hook =>
      rw [call, dispatch_eq]
      generalize s.audience hook = visited
      induction visited generalizing s with
      | nil => rfl
      | cons sid visited ih => rw [visit_all_cons, ih, visit_tag_to_subs]
  | drain id =>
      simp only [call, drain]
      cases s.pendingEvents.lookup id <;> rfl

private theorem audience_count (s : SubscriptionEngine) (hook : Hook) (id : SubscriptionId)
    (sub : Subscription) (found : s.subscriptions.lookup id = some sub) :
    (s.audience hook).count id = hook.visits (s.links id) := by
  have once : s.ids.count id = 1 :=
    List.count_eq_one_of_mem s.ids_distinct ((s.mem_ids id).mpr ⟨sub, found⟩)
  cases hook with
  | tagAdded oid tag lsn tsNs => rfl
  | tagRemoved oid tag lsn tsNs => rfl
  | objectCreated oid lsn tsNs => exact once
  | objectDeleted oid lsn tsNs => exact once
  | contentChanged oid lsn tsNs => exact once

private theorem slot_drain (s : SubscriptionEngine) (drained id : SubscriptionId) :
    (s.drain drained).2.slot id =
      if drained = id then (s.slot id).map fun slot => (slot.1, []) else s.slot id := by
  unfold drain
  cases queued : s.pendingEvents.lookup drained with
  | none =>
      by_cases same : drained = id
      · subst same
        rw [if_pos rfl]
        simp only [slot, pending, queued]
        cases s.subscriptions.lookup drained <;> rfl
      · rw [if_neg same]
  | some queue =>
      by_cases same : drained = id
      · subst same
        rw [if_pos rfl]
        simp only [slot, pending, Finmap.lookup_insert]
        cases s.subscriptions.lookup drained <;> rfl
      · rw [if_neg same]
        simp only [slot, pending, lookup_insert_eq, if_neg (Ne.symm same)]

private theorem slot_call (s : SubscriptionEngine) (step : Call) (id : SubscriptionId) (slot : Slot)
    (known : s.slot id = some slot) :
    (s.call step).slot id =
      some (((step.seen id).map fun seen => seen.apply (s.links id) slot).getD slot) := by
  cases step with
  | hook hook =>
      have found := ((s.slot_eq_some id slot.1 slot.2).mp known).1
      rw [call, slot_dispatch, known, audience_count s hook id slot.1 found]
      rfl
  | drain drained =>
      rw [call, slot_drain, known]
      by_cases same : drained = id
      · simp only [Call.seen, if_pos same]
        rfl
      · simp only [Call.seen, if_neg same]
        rfl

/-- A run, for one subscription, is the run of the calls that it sees. -/
theorem slot_calls (calls : List Call) : ∀ (s : SubscriptionEngine) (id : SubscriptionId)
    (slot : Slot), s.slot id = some slot →
      (s.calls calls).slot id =
        some ((calls.filterMap (Call.seen id)).foldl (fun slot seen => seen.apply (s.links id) slot)
          slot) := by
  induction calls with
  | nil =>
      intro s id slot known
      exact known
  | cons step calls ih =>
      intro s id slot known
      have after := s.slot_call step id slot known
      have linked : (s.call step).links id = s.links id := by
        funext tag
        rw [links, call_tag_to_subs]
        rfl
      have rest := ih (s.call step) id _ after
      rw [linked] at rest
      refine rest.trans ?_
      cases seen : step.seen id with
      | none => rw [List.filterMap_cons_none seen]; rfl
      | some what => rw [List.filterMap_cons_some seen]; rfl

/-- Twins that see the same calls stay twins. -/
theorem seen_all_bounded (id : SubscriptionId) (retention : Retention) (cap : Nat)
    (bound : retention.capacity = some cap) (links : TagId → Nat) (all : List Seen) :
    ∀ slot : Slot, slot.1.retention = .unlimited →
      all.foldl (fun slot seen => seen.apply links slot) (slot.bounded id retention cap) =
        (all.foldl (fun slot seen => seen.apply links slot) slot).bounded id retention cap := by
  induction all with
  | nil =>
      intro slot _
      rfl
  | cons seen all ih =>
      intro slot unlimited
      obtain ⟨same, kept⟩ := seen_bounded id retention cap bound links seen slot unlimited
      rw [List.foldl_cons, List.foldl_cons, same]
      exact ih _ kept

theorem registered_twins (s : SubscriptionEngine) (name : String) (query : Query)
    (interest : ChangeInterest) (retention : Retention) (cap : Nat) (initialResult : Finset Nat)
    (currentLsn : Nat) :
    let (whole, id) := s.register name query interest .unlimited initialResult currentLsn
    let (cut, bounded) := s.register name query interest retention initialResult currentLsn
    ∃ sub, sub.retention = .unlimited ∧ whole.subscriptions.lookup id = some sub ∧
      cut.subscriptions.lookup bounded = some { sub with id := bounded, retention := retention } ∧
      cut.links bounded = whole.links id ∧ cut.pending bounded = (whole.pending id).rtake cap := by
  refine ⟨_, rfl, Finmap.lookup_insert _, Finmap.lookup_insert _, rfl, ?_⟩
  simp only [pending, Finmap.lookup_insert, Option.getD_some, List.rtake_nil]

/-- Of two subscriptions that differ in the retention only, the bounded one has after the same
hooks and drains the newest of the events of the unlimited one, and everything else alike. -/
theorem bounded_keeps_newest (s t : SubscriptionEngine) (id bounded : SubscriptionId)
    (sub : Subscription) (retention : Retention) (cap : Nat)
    (bound : retention.capacity = some cap) (unlimited : sub.retention = .unlimited)
    (found : s.subscriptions.lookup id = some sub)
    (twin : t.subscriptions.lookup bounded = some { sub with id := bounded, retention := retention })
    (linked : t.links bounded = s.links id)
    (queued : t.pending bounded = (s.pending id).rtake cap) (calls others : List Call)
    (same : others.filterMap (Call.seen bounded) = calls.filterMap (Call.seen id)) :
    ∃ after, (s.calls calls).subscriptions.lookup id = some after ∧
      (t.calls others).subscriptions.lookup bounded =
        some { after with id := bounded, retention := retention } ∧
      (t.calls others).pending bounded = ((s.calls calls).pending id).rtake cap := by
  have before : s.slot id = some (sub, s.pending id) :=
    (s.slot_eq_some id sub _).mpr ⟨found, rfl⟩
  have beforeTwin : t.slot bounded =
      some (Slot.bounded bounded retention cap (sub, s.pending id)) :=
    (t.slot_eq_some bounded _ _).mpr ⟨twin, queued⟩
  have after := slot_calls calls s id _ before
  have afterTwin := slot_calls others t bounded _ beforeTwin
  rw [same, linked, seen_all_bounded bounded retention cap bound (s.links id) _ _ unlimited]
    at afterTwin
  obtain ⟨located, pending⟩ := ((s.calls calls).slot_eq_some id _ _).mp after
  obtain ⟨locatedTwin, pendingTwin⟩ := ((t.calls others).slot_eq_some bounded _ _).mp afterTwin
  exact ⟨_, located, locatedTwin, pendingTwin.trans (congrArg (List.rtake · cap) pending.symm)⟩

/-- An object comes and goes; three events, of which the bounded subscription has the last. -/
theorem visitor_cut :
    let whole := (new.register "shelf" (.hasTag 1) ChangeInterest.all .unlimited {3} 0).1
    let cut := (new.register "shelf" (.hasTag 1) ChangeInterest.all .atMostOnce {3} 0).1
    let calls : List Call :=
      [.hook (.tagAdded (.fromParts 0 7) 1 1 0), .drain 4, .hook (.tagRemoved (.fromParts 0 7) 1 2 0)]
    (whole.calls calls).pending 1 =
        [.entered (.fromParts 0 7) (hlc 0), .tagRemoved (.fromParts 0 7) 1 (hlc 0),
          .exited (.fromParts 0 7) (hlc 0)] ∧
      ∃ after, (whole.calls calls).subscriptions.lookup 1 = some after ∧
        (cut.calls calls).subscriptions.lookup 1 =
          some { after with id := 1, retention := .atMostOnce } ∧
        (cut.calls calls).pending 1 = ((whole.calls calls).pending 1).rtake 1 := by
  obtain ⟨sub, unlimited, found, twin, linked, queued⟩ :=
    registered_twins new "shelf" (.hasTag 1) ChangeInterest.all .atMostOnce 1 {3} 0
  exact ⟨rfl, bounded_keeps_newest _ _ 1 1 sub .atMostOnce 1 rfl unlimited found twin linked queued
    _ _ rfl⟩

end SubscriptionEngine

end Mimisbrunnr.Watch
