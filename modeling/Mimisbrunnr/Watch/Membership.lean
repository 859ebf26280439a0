import Mimisbrunnr.Watch.Dispatch

/-!
# What the hooks do to a cached result

A hook that names a subscription inserts one entry into its cached result, or
erases one, or leaves it; being named twice makes no difference. The query and
the state of the subscription stay.
-/

namespace Mimisbrunnr.Watch

set_option autoImplicit false

open Mimisbrunnr.Types

namespace Hook

/-- The change a hook makes to the result of a live subscription it names. -/
def effect : Hook → Finset Nat → Finset Nat
  | .tagAdded oid _ _ _, members => insert oid.low32 members
  | .tagRemoved oid _ _ _, members => members.erase oid.low32
  | .objectDeleted oid _ _, members => members.erase oid.low32
  | .objectCreated _ _ _, members => members
  | .contentChanged _ _ _, members => members

private theorem effect_idempotent (hook : Hook) (members : Finset Nat) :
    hook.effect (hook.effect members) = hook.effect members := by
  cases hook <;> simp [effect]

end Hook

theorem emit_subscription (sub : Subscription) (queue : List WatchEvent) (lsn : Nat)
    (kind : ChangeInterest) (event : WatchEvent) :
    (emit sub queue lsn kind event).1.cachedResult = sub.cachedResult ∧
      (emit sub queue lsn kind event).1.query = sub.query ∧
      (emit sub queue lsn kind event).1.state = sub.state := by
  unfold emit
  split <;> exact ⟨rfl, rfl, rfl⟩

namespace SubscriptionEngine

private theorem handler_subscription (hook : Hook) (sub : Subscription) (queue : List WatchEvent) :
    (handler hook sub queue).1.cachedResult = hook.effect sub.cachedResult ∧
      (handler hook sub queue).1.query = sub.query ∧
      (handler hook sub queue).1.state = sub.state := by
  cases hook with
  | tagAdded oid tag lsn tsNs =>
      simp only [handler, handleTagAdded, Hook.effect]
      split
      · next inside =>
          rw [Finset.insert_eq_of_mem inside]
          exact emit_subscription sub queue lsn _ _
      · exact emit_subscription { sub with cachedResult := insert oid.low32 sub.cachedResult }
          queue lsn _ _
  | tagRemoved oid tag lsn tsNs =>
      simp only [handler, handleTagRemoved, Hook.effect]
      split
      · simp only [emit_subscription, and_self]
      · next outside =>
          rw [Finset.erase_eq_of_notMem outside]
          exact ⟨rfl, rfl, rfl⟩
  | objectCreated oid lsn tsNs => exact emit_subscription sub queue lsn _ _
  | objectDeleted oid lsn tsNs =>
      simp only [handler, handleObjectDeleted, Hook.effect]
      split
      · exact emit_subscription { sub with cachedResult := sub.cachedResult.erase oid.low32 }
          queue lsn _ _
      · next outside =>
          rw [Finset.erase_eq_of_notMem outside]
          exact ⟨rfl, rfl, rfl⟩
  | contentChanged oid lsn tsNs =>
      simp only [handler, handleContentChanged, Hook.effect]
      split
      · exact emit_subscription sub queue lsn _ _
      · exact ⟨rfl, rfl, rfl⟩

/-- A live subscription with a query and a result. -/
structure Live (s : SubscriptionEngine) (id : SubscriptionId) (query : Query)
    (members : Finset Nat) : Prop where
  found : ∃ sub, s.subscriptions.lookup id = some sub ∧ sub.query = query ∧
    sub.state = .active ∧ sub.cachedResult = members

theorem Live.unique {s : SubscriptionEngine} {id : SubscriptionId} {query other : Query}
    {members rest : Finset Nat} (left : s.Live id query members) (right : s.Live id other rest) :
    members = rest := by
  obtain ⟨sub, found, _, _, cached⟩ := left.found
  obtain ⟨again, located, _, _, same⟩ := right.found
  rw [found] at located
  cases located
  rw [← cached, ← same]

theorem serve_live (hook : Hook) (slot : Slot) (active : slot.1.state = .active) :
    (serve (handler hook) slot).1.cachedResult = hook.effect slot.1.cachedResult ∧
      (serve (handler hook) slot).1.query = slot.1.query ∧
      (serve (handler hook) slot).1.state = .active := by
  have live : slot.1.isActive = true := by
    rw [Subscription.isActive, active]
    rfl
  have handled := handler_subscription hook slot.1 slot.2
  rw [serve, if_pos live]
  exact ⟨handled.1, handled.2.1, handled.2.2.trans active⟩

private theorem serve_often (hook : Hook) (slot : Slot) (active : slot.1.state = .active)
    (times : Nat) :
    ((serve (handler hook))^[times] slot).1.cachedResult =
        (if times = 0 then slot.1.cachedResult else hook.effect slot.1.cachedResult) ∧
      ((serve (handler hook))^[times] slot).1.query = slot.1.query ∧
      ((serve (handler hook))^[times] slot).1.state = .active := by
  induction times with
  | zero => exact ⟨rfl, rfl, active⟩
  | succ times ih =>
      rw [Function.iterate_succ_apply']
      have served := serve_live hook _ ih.2.2
      refine ⟨?_, served.2.1.trans ih.2.1, served.2.2⟩
      rw [served.1, ih.1, if_neg (Nat.succ_ne_zero times)]
      split
      · rfl
      · exact hook.effect_idempotent slot.1.cachedResult

theorem dispatch_live (s : SubscriptionEngine) (hook : Hook) (id : SubscriptionId) (query : Query)
    (members : Finset Nat) (live : s.Live id query members) :
    (s.dispatch hook).Live id query
      (if id ∈ s.audience hook then hook.effect members else members) := by
  obtain ⟨sub, found, asked, active, cached⟩ := live.found
  have before : s.slot id = some (sub, s.pending id) :=
    (s.slot_eq_some id sub _).mpr ⟨found, rfl⟩
  have after := s.slot_dispatch hook id
  rw [before, Option.map_some] at after
  have served := serve_often hook (sub, s.pending id) active ((s.audience hook).count id)
  obtain ⟨located, _⟩ := ((s.dispatch hook).slot_eq_some id _ _).mp after
  refine ⟨⟨_, located, served.2.1.trans asked, served.2.2, ?_⟩⟩
  rw [served.1, ← cached]
  by_cases named : id ∈ s.audience hook
  · rw [if_neg (Nat.pos_iff_ne_zero.mp (List.count_pos_iff.mpr named)), if_pos named]
  · rw [if_pos (List.count_eq_zero.mpr named), if_neg named]

end SubscriptionEngine

end Mimisbrunnr.Watch
