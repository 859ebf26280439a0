import Mimisbrunnr.Lib.ChangeLog
import Mimisbrunnr.Watch.Dispatch

/-!
# The event stream of a subscription

A subscription that wants every event and keeps all of them can be followed
from outside: what it has been handed, and what is still pending for it, is an
effective log of the changes of its cached result. A paused subscription is
handed nothing.
-/

namespace Mimisbrunnr.Watch

set_option autoImplicit false

open Mimisbrunnr.Lib.ChangeLog
open Mimisbrunnr.Lib.FiniteMap
open Mimisbrunnr.Ontology
open Mimisbrunnr.Types

/-- The change of membership that an event reports. -/
def changeOf : WatchEvent → Option (Change Nat)
  | .entered oid _ => some ⟨oid.low32, true⟩
  | .exited oid _ => some ⟨oid.low32, false⟩
  | .deleted oid _ => some ⟨oid.low32, false⟩
  | _ => none

def changes (events : List WatchEvent) : List (Change Nat) := events.filterMap changeOf

private theorem changes_append (events more : List WatchEvent) :
    changes (events ++ more) = changes events ++ changes more :=
  List.filterMap_append

/-- The events lead from one set of members to another, each change a real one. -/
structure Follows (initial : Finset Nat) (events : List WatchEvent) (members : Finset Nat) :
    Prop where
  effective : Effective initial (changes events)
  replayed : replay initial (changes events) = members

theorem Follows.none (members : Finset Nat) (events : List WatchEvent)
    (silent : changes events = []) : Follows members events members := by
  constructor
  · rw [silent]
    exact True.intro
  · rw [silent]
    rfl

theorem Follows.append {initial middle members : Finset Nat} {events more : List WatchEvent}
    (first : Follows initial events middle) (second : Follows middle more members) :
    Follows initial (events ++ more) members := by
  constructor
  · rw [changes_append, effective_append, first.replayed]
    exact ⟨first.effective, second.effective⟩
  · rw [changes_append, replay_append, first.replayed, second.replayed]

private theorem Follows.entered (members : Finset Nat) (oid : ObjectId)
    (timestamp : HybridTimestamp)
    (outside : oid.low32 ∉ members) :
    Follows members [.entered oid timestamp] (insert oid.low32 members) := by
  constructor
  · exact ⟨by simp [outside], True.intro⟩
  · rfl

theorem Follows.left (members : Finset Nat) (oid : ObjectId) (events : List WatchEvent)
    (leaves : changes events = [⟨oid.low32, false⟩]) (inside : oid.low32 ∈ members) :
    Follows members events (members.erase oid.low32) := by
  constructor
  · rw [leaves]
    exact ⟨by simp [inside], True.intro⟩
  · rw [leaves]
    rfl

namespace Subscription

/-- The subscription wants every event and drops none. -/
structure Complete (sub : Subscription) : Prop where
  interest : sub.interest = ChangeInterest.all
  retention : sub.retention = .unlimited

theorem Complete.with_members {sub : Subscription} (complete : sub.Complete)
    (members : Finset Nat) : Complete { sub with cachedResult := members } :=
  ⟨complete.interest, complete.retention⟩

private theorem Complete.with_cursor {sub : Subscription} (complete : sub.Complete) (lsn : Nat) :
    Complete { sub with cursor := lsn } :=
  ⟨complete.interest, complete.retention⟩

end Subscription

/-- What a handled visit keeps of a subscription, and what it reports. -/
structure Served (before after : Slot) : Prop where
  interest : after.1.interest = before.1.interest
  retention : after.1.retention = before.1.retention
  reported : before.1.Complete → ∃ events, after.2 = before.2 ++ events ∧
    Follows before.1.cachedResult events after.1.cachedResult

theorem Served.refl (slot : Slot) : Served slot slot where
  interest := rfl
  retention := rfl
  reported _ := ⟨[], (List.append_nil slot.2).symm, Follows.none _ [] rfl⟩

private theorem Served.trans (first second third : Slot) (left : Served first second)
    (right : Served second third) : Served first third where
  interest := right.interest.trans left.interest
  retention := right.retention.trans left.retention
  reported complete := by
    have kept : second.1.Complete :=
      ⟨left.interest.trans complete.interest, left.retention.trans complete.retention⟩
    obtain ⟨events, queued, followed⟩ := left.reported complete
    obtain ⟨more, requeued, refollowed⟩ := right.reported kept
    refine ⟨events ++ more, ?_, followed.append refollowed⟩
    rw [requeued, queued, List.append_assoc]

theorem emit_keeps (sub : Subscription) (queue : List WatchEvent) (lsn : Nat)
    (kind : ChangeInterest) (event : WatchEvent) :
    (emit sub queue lsn kind event).1 =
      { sub with cursor := (emit sub queue lsn kind event).1.cursor } := by
  unfold emit
  split <;> rfl

theorem emit_complete (sub : Subscription) (queue : List WatchEvent) (lsn : Nat)
    (kind : ChangeInterest) (event : WatchEvent) (complete : sub.Complete)
    (known : ChangeInterest.all.containsMask kind = true) :
    emit sub queue lsn kind event = ({ sub with cursor := lsn }, queue ++ [event]) := by
  rw [emit, complete.interest, if_pos known, complete.retention]
  rfl

namespace SubscriptionEngine

theorem served_of_live (handle : Subscription → List WatchEvent → Slot) (slot : Slot)
    (kept : (handle slot.1 slot.2).1 =
      { slot.1 with
        cursor := (handle slot.1 slot.2).1.cursor
        cachedResult := (handle slot.1 slot.2).1.cachedResult })
    (reported : slot.1.Complete → ∃ events, (handle slot.1 slot.2).2 = slot.2 ++ events ∧
      Follows slot.1.cachedResult events (handle slot.1 slot.2).1.cachedResult) :
    Served slot (serve handle slot) := by
  by_cases live : slot.1.isActive = true
  · rw [serve, if_pos live]
    constructor
    · rw [kept]
    · rw [kept]
    · exact reported
  · rw [serve, if_neg live]
    exact Served.refl slot

private theorem tag_added_served (oid : ObjectId) (tag : TagId) (lsn : Nat)
    (timestamp : HybridTimestamp)
    (slot : Slot) : Served slot (serve (handleTagAdded oid tag lsn timestamp) slot) := by
  apply served_of_live
  · unfold handleTagAdded
    split
    · rw [emit_keeps]
    · rw [emit_keeps]
  · intro complete
    unfold handleTagAdded
    split
    · rw [emit_complete _ _ _ _ _ complete (by decide)]
      exact ⟨_, rfl, Follows.none _ _ rfl⟩
    · next outside =>
        have moved := complete.with_members (insert oid.low32 slot.1.cachedResult)
        rw [emit_complete _ _ _ _ _ moved (by decide)]
        exact ⟨_, rfl, Follows.entered _ oid timestamp outside⟩

private theorem tag_removed_served (oid : ObjectId) (tag : TagId) (lsn : Nat)
    (timestamp : HybridTimestamp) (slot : Slot) :
    Served slot (serve (handleTagRemoved oid tag lsn timestamp) slot) := by
  apply served_of_live
  · unfold handleTagRemoved
    split
    · simp only
      rw [emit_keeps, emit_keeps]
    · rfl
  · intro complete
    unfold handleTagRemoved
    split
    · next inside =>
        have moved := complete.with_members (slot.1.cachedResult.erase oid.low32)
        have advanced := moved.with_cursor lsn
        simp only
        rw [emit_complete _ _ _ _ _ moved (by decide),
          emit_complete _ _ _ _ _ advanced (by decide)]
        exact ⟨_, List.append_assoc _ _ _, Follows.left _ oid _ rfl inside⟩
    · exact ⟨[], (List.append_nil slot.2).symm, Follows.none _ [] rfl⟩

private theorem object_created_served (oid : ObjectId) (lsn : Nat) (timestamp : HybridTimestamp)
    (slot : Slot) :
    Served slot (serve (fun sub queue =>
      emit sub queue lsn ChangeInterest.created (.created oid timestamp)) slot) := by
  apply served_of_live
  · rw [emit_keeps]
  · intro complete
    rw [emit_complete _ _ _ _ _ complete (by decide)]
    exact ⟨_, rfl, Follows.none _ _ rfl⟩

private theorem object_deleted_served (oid : ObjectId) (lsn : Nat) (timestamp : HybridTimestamp)
    (slot : Slot) : Served slot (serve (handleObjectDeleted oid lsn timestamp) slot) := by
  apply served_of_live
  · unfold handleObjectDeleted
    split
    · rw [emit_keeps]
    · rfl
  · intro complete
    unfold handleObjectDeleted
    split
    · next inside =>
        have moved := complete.with_members (slot.1.cachedResult.erase oid.low32)
        rw [emit_complete _ _ _ _ _ moved (by decide)]
        exact ⟨_, rfl, Follows.left _ oid _ rfl inside⟩
    · exact ⟨[], (List.append_nil slot.2).symm, Follows.none _ [] rfl⟩

private theorem content_changed_served (oid : ObjectId) (lsn : Nat) (timestamp : HybridTimestamp)
    (slot : Slot) : Served slot (serve (handleContentChanged oid lsn timestamp) slot) := by
  apply served_of_live
  · unfold handleContentChanged
    split
    · rw [emit_keeps]
    · rfl
  · intro complete
    unfold handleContentChanged
    split
    · rw [emit_complete _ _ _ _ _ complete (by decide)]
      exact ⟨_, rfl, Follows.none _ _ rfl⟩
    · exact ⟨[], (List.append_nil slot.2).symm, Follows.none _ [] rfl⟩

theorem handler_served (hook : Hook) (slot : Slot) :
    Served slot (serve (handler hook) slot) := by
  cases hook with
  | tagAdded oid tag lsn tsNs => exact tag_added_served oid tag lsn (hlc tsNs) slot
  | tagRemoved oid tag lsn tsNs => exact tag_removed_served oid tag lsn (hlc tsNs) slot
  | objectCreated oid lsn tsNs => exact object_created_served oid lsn (hlc tsNs) slot
  | objectDeleted oid lsn tsNs => exact object_deleted_served oid lsn (hlc tsNs) slot
  | contentChanged oid lsn tsNs => exact content_changed_served oid lsn (hlc tsNs) slot

private theorem dispatch_served (s : SubscriptionEngine) (hook : Hook) (id : SubscriptionId) :
    Option.Rel Served (s.slot id) ((s.dispatch hook).slot id) :=
  dispatch_related Served Served.refl Served.trans s hook id (handler_served hook)

end SubscriptionEngine

/-- What an observer of a subscription knows: its result when it was
registered, and the events handed out since. -/
structure Account where
  initial : Finset Nat
  delivered : List WatchEvent

structure Watched where
  engine : SubscriptionEngine
  accounts : FMap SubscriptionId Account

inductive WatchOp where
  | register (name : String) (query : Query) (interest : ChangeInterest) (retention : Retention)
      (initialResult : Finset Nat) (currentLsn : Nat)
  | unregister (id : SubscriptionId)
  | pause (id : SubscriptionId)
  | resume (id : SubscriptionId)
  | refreshOntologyLinks (ontology : OntologyState)
  | hook (call : Hook)
  | drain (id : SubscriptionId)

namespace Watched

def unobserved (engine : SubscriptionEngine) : Watched := { engine := engine, accounts := ∅ }

def step (w : Watched) : WatchOp → Watched
  | .register name query interest retention initialResult currentLsn =>
      let (engine, id) :=
        w.engine.register name query interest retention initialResult currentLsn
      { engine := engine
        accounts := w.accounts.insert id { initial := initialResult, delivered := [] } }
  | .unregister id =>
      match w.engine.unregister id with
      | .ok engine => { engine := engine, accounts := w.accounts.erase id }
      | .error _ => w
  | .pause id => { w with engine := w.engine.pause id }
  | .resume id => { w with engine := w.engine.resume id }
  | .refreshOntologyLinks ontology =>
      { w with engine := w.engine.refreshOntologyLinks ontology }
  | .hook call => { w with engine := w.engine.dispatch call }
  | .drain id =>
      let (events, engine) := w.engine.drain id
      { engine := engine
        accounts := update w.accounts id fun account =>
          { account with delivered := account.delivered ++ events } }

def run (w : Watched) (ops : List WatchOp) : Watched := ops.foldl step w

def stream (w : Watched) (id : SubscriptionId) : List WatchEvent :=
  ((w.accounts.lookup id).map Account.delivered).getD [] ++ w.engine.pending id

def initial (w : Watched) (id : SubscriptionId) : Option (Finset Nat) :=
  (w.accounts.lookup id).map Account.initial

end Watched

/-- The operation ends the subscription under an identifier or starts one. -/
def WatchOp.Renews (s : SubscriptionEngine) (id : SubscriptionId) : WatchOp → Prop
  | .register _ _ _ _ _ _ => id = (s.nextId + 1) % 2 ^ 64
  | .unregister ended => id = ended
  | _ => False

namespace Watched

/-- Nothing under the identifier differs. -/
structure SameAt (w v : Watched) (id : SubscriptionId) : Prop where
  account : v.accounts.lookup id = w.accounts.lookup id
  subscription : v.engine.subscriptions.lookup id = w.engine.subscriptions.lookup id
  pending : v.engine.pending id = w.engine.pending id

theorem SameAt.stream {w v : Watched} {id : SubscriptionId} (same : SameAt w v id) :
    v.stream id = w.stream id := by
  rw [Watched.stream, Watched.stream, same.account, same.pending]

theorem register_elsewhere (w : Watched) (name : String) (query : Query)
    (interest : ChangeInterest) (retention : Retention) (initialResult : Finset Nat)
    (currentLsn : Nat) (id : SubscriptionId) (other : id ≠ (w.engine.nextId + 1) % 2 ^ 64) :
    SameAt w (w.step (.register name query interest retention initialResult currentLsn)) id := by
  constructor
  · exact Finmap.lookup_insert_of_ne _ other
  · exact Finmap.lookup_insert_of_ne _ other
  · exact congrArg (fun found => Option.getD found []) (Finmap.lookup_insert_of_ne _ other)

theorem unregister_elsewhere (w : Watched) (ended id : SubscriptionId) (other : id ≠ ended) :
    SameAt w (w.step (.unregister ended)) id := by
  simp only [step, SubscriptionEngine.unregister]
  cases w.engine.subscriptions.lookup ended with
  | none => exact ⟨rfl, rfl, rfl⟩
  | some sub =>
      constructor
      · exact Finmap.lookup_erase_ne other
      · exact Finmap.lookup_erase_ne other
      · exact congrArg (fun found => Option.getD found []) (Finmap.lookup_erase_ne other)

theorem drained_stream (w : Watched) (drained id : SubscriptionId) (account : Account)
    (known : w.accounts.lookup id = some account) :
    (w.step (.drain drained)).stream id = w.stream id := by
  by_cases same : id = drained
  · subst same
    simp only [step, stream, SubscriptionEngine.drain, SubscriptionEngine.pending]
    cases pending : w.engine.pendingEvents.lookup id with
    | none => simp [known, pending]
    | some queue => simp [known]
  · simp only [step, stream, SubscriptionEngine.drain, SubscriptionEngine.pending]
    cases pending : w.engine.pendingEvents.lookup drained with
    | none => simp [same]
    | some queue => simp [same]

private theorem drained_subscriptions (w : Watched) (drained : SubscriptionId) :
    (w.step (.drain drained)).engine.subscriptions = w.engine.subscriptions := by
  simp only [step, SubscriptionEngine.drain]
  cases w.engine.pendingEvents.lookup drained <;> rfl

private theorem initial_step (w : Watched) (op : WatchOp) (id : SubscriptionId)
    (kept : ¬ op.Renews w.engine id) : (w.step op).initial id = w.initial id := by
  cases op with
  | register name query interest retention initialResult currentLsn =>
      rw [initial, (register_elsewhere w _ _ _ _ _ _ id kept).account]
      rfl
  | unregister ended =>
      rw [initial, (unregister_elsewhere w ended id kept).account]
      rfl
  | pause paused => rfl
  | resume resumed => rfl
  | refreshOntologyLinks ontology => rfl
  | hook call => rfl
  | drain drained =>
      simp only [step, initial, lookup_update]
      split
      · rw [Option.map_map]
        rfl
      · rfl

theorem hook_stream (w : Watched) (call : Hook) (id : SubscriptionId) :
    (w.step (.hook call)).stream id =
      ((w.accounts.lookup id).map Account.delivered).getD [] ++
        (w.engine.dispatch call).pending id := rfl

theorem dormant_step (w : Watched) (op : WatchOp) (id : SubscriptionId) (sub : Subscription)
    (account : Account) (found : w.engine.subscriptions.lookup id = some sub)
    (known : w.accounts.lookup id = some account) (asleep : sub.state = .dormant)
    (kept : ¬ op.Renews w.engine id) : (w.step op).stream id = w.stream id := by
  cases op with
  | register name query interest retention initialResult currentLsn =>
      exact (register_elsewhere w _ _ _ _ _ _ id kept).stream
  | unregister ended => exact (unregister_elsewhere w ended id kept).stream
  | pause paused => rfl
  | resume resumed => rfl
  | refreshOntologyLinks ontology => rfl
  | hook call =>
      have before : w.engine.slot id = some (sub, w.engine.pending id) :=
        (w.engine.slot_eq_some id sub _).mpr ⟨found, rfl⟩
      have after := w.engine.slot_dispatch_dormant call id sub found asleep
      rw [before, SubscriptionEngine.slot_eq_some] at after
      rw [hook_stream, after.2]
      rfl
  | drain drained => exact drained_stream w drained id account known

/-- The stream of every subscription that wants all events follows its result. -/
def Faithful (w : Watched) : Prop :=
  ∀ id sub account, w.engine.subscriptions.lookup id = some sub →
    w.accounts.lookup id = some account → sub.Complete →
      Follows account.initial (w.stream id) sub.cachedResult

private theorem faithful_unobserved (engine : SubscriptionEngine) :
    (unobserved engine).Faithful := by
  intro id sub account _ known _
  cases known

/-- An operation that keeps the subscription, and takes its stream from one
result to the other, keeps the stream faithful. -/
theorem follows_kept {w v : Watched} {id : SubscriptionId} {sub : Subscription}
    {account : Account} (faithful : w.Faithful) (sameInitial : v.initial id = w.initial id)
    (known : v.accounts.lookup id = some account) (before : Subscription)
    (found : w.engine.subscriptions.lookup id = some before) (complete : before.Complete)
    (events : List WatchEvent) (extended : v.stream id = w.stream id ++ events)
    (followed : Follows before.cachedResult events sub.cachedResult) :
    Follows account.initial (v.stream id) sub.cachedResult := by
  rw [initial, initial, known, Option.map_some] at sameInitial
  obtain ⟨old, located, started⟩ := Option.map_eq_some_iff.mp sameInitial.symm
  rw [extended, ← started]
  exact (faithful id before old found located complete).append followed

theorem SameAt.follows {w v : Watched} {id : SubscriptionId} {sub : Subscription}
    {account : Account} (same : SameAt w v id) (faithful : w.Faithful)
    (found : v.engine.subscriptions.lookup id = some sub)
    (known : v.accounts.lookup id = some account) (complete : sub.Complete) :
    Follows account.initial (v.stream id) sub.cachedResult := by
  rw [same.stream]
  exact faithful id sub account (same.subscription.symm.trans found)
    (same.account.symm.trans known) complete

private theorem register_faithful (w : Watched) (name : String) (query : Query)
    (interest : ChangeInterest) (retention : Retention) (initialResult : Finset Nat)
    (currentLsn : Nat) (faithful : w.Faithful) :
    (w.step (.register name query interest retention initialResult currentLsn)).Faithful := by
  intro id sub account found known complete
  by_cases fresh : id = (w.engine.nextId + 1) % 2 ^ 64
  · subst fresh
    simp only [step, SubscriptionEngine.register, Finmap.lookup_insert, Option.some.injEq]
      at found known
    subst found known
    apply Follows.none
    simp [stream, step, SubscriptionEngine.register, SubscriptionEngine.pending, changes]
  · exact (register_elsewhere w _ _ _ _ _ _ id fresh).follows faithful found known complete

private theorem unregister_faithful (w : Watched) (ended : SubscriptionId) (faithful : w.Faithful) :
    (w.step (.unregister ended)).Faithful := by
  intro id sub account found known complete
  by_cases same : id = ended
  · subst same
    simp only [step, SubscriptionEngine.unregister] at found
    cases present : w.engine.subscriptions.lookup id with
    | none => simp [present] at found
    | some old => simp [present] at found
  · exact (unregister_elsewhere w ended id same).follows faithful found known complete

private theorem set_state_faithful (w : Watched) (changed : SubscriptionId)
    (state : SubscriptionState)
    (faithful : w.Faithful) : Faithful { w with engine := w.engine.setState changed state } := by
  intro id sub account found known complete
  simp only [SubscriptionEngine.setState, lookup_update] at found
  split at found
  · obtain ⟨before, located, rfl⟩ := Option.map_eq_some_iff.mp found
    exact faithful id before account located known ⟨complete.interest, complete.retention⟩
  · exact faithful id sub account found known complete

private theorem hook_faithful (w : Watched) (call : Hook) (faithful : w.Faithful) :
    (w.step (.hook call)).Faithful := by
  intro id sub account found known complete
  have after : (w.engine.dispatch call).slot id = some (sub, (w.engine.dispatch call).pending id) :=
    ((w.engine.dispatch call).slot_eq_some id sub _).mpr ⟨found, rfl⟩
  have related := w.engine.dispatch_served call id
  rw [after] at related
  cases before : w.engine.slot id with
  | none =>
      rw [before] at related
      cases related
  | some slot =>
      rw [before] at related
      cases related with
      | some served =>
          obtain ⟨located, queued⟩ := (w.engine.slot_eq_some id slot.1 slot.2).mp before
          have whole : slot.1.Complete :=
            ⟨served.interest.symm.trans complete.interest,
              served.retention.symm.trans complete.retention⟩
          obtain ⟨events, extended, followed⟩ := served.reported whole
          refine follows_kept faithful rfl known slot.1 located whole events ?_ followed
          have pending : (w.engine.dispatch call).pending id = slot.2 ++ events := extended
          rw [hook_stream, pending, ← queued, ← List.append_assoc]
          rfl

private theorem drain_faithful (w : Watched) (drained : SubscriptionId) (faithful : w.Faithful) :
    (w.step (.drain drained)).Faithful := by
  intro id sub account found known complete
  rw [drained_subscriptions] at found
  have sameInitial : (w.step (.drain drained)).initial id = w.initial id :=
    initial_step w (.drain drained) id fun renews => renews
  have sameStream : (w.step (.drain drained)).stream id = w.stream id ++ [] := by
    rw [List.append_nil]
    rw [initial, known] at sameInitial
    obtain ⟨old, located, _⟩ := Option.map_eq_some_iff.mp sameInitial.symm
    exact drained_stream w drained id old located
  exact follows_kept faithful sameInitial known sub found complete [] sameStream
    (Follows.none sub.cachedResult [] rfl)

private theorem step_faithful (w : Watched) (op : WatchOp) (faithful : w.Faithful) :
    (w.step op).Faithful := by
  cases op with
  | register name query interest retention initialResult currentLsn =>
      exact register_faithful w name query interest retention initialResult currentLsn faithful
  | unregister ended => exact unregister_faithful w ended faithful
  | pause paused => exact set_state_faithful w paused .dormant faithful
  | resume resumed => exact set_state_faithful w resumed .active faithful
  | refreshOntologyLinks ontology => exact faithful
  | hook call => exact hook_faithful w call faithful
  | drain drained => exact drain_faithful w drained faithful

private theorem run_faithful (ops : List WatchOp) (w : Watched) (faithful : w.Faithful) :
    (w.run ops).Faithful := by
  induction ops generalizing w with
  | nil => exact faithful
  | cons op ops ih => exact ih (w.step op) (step_faithful w op faithful)

/-- In every run, of every subscription registered in it: the events drained and
still pending lead from the result at its registration to its cached result and
alternate for every key, if it wants all events and keeps them; and no operation
adds an event while it is paused. -/
theorem stream_reconstructs_membership (engine : SubscriptionEngine) (ops : List WatchOp)
    (id : SubscriptionId) (sub : Subscription) (account : Account)
    (found : ((unobserved engine).run ops).engine.subscriptions.lookup id = some sub)
    (known : ((unobserved engine).run ops).accounts.lookup id = some account) :
    (sub.interest = ChangeInterest.all → sub.retention = .unlimited →
      replay account.initial (changes (((unobserved engine).run ops).stream id)) =
          sub.cachedResult ∧
        ∀ key, (decide (key ∈ account.initial) ::
          history key (changes (((unobserved engine).run ops).stream id))).IsChain (· ≠ ·)) ∧
      (sub.state = .dormant → ∀ op : WatchOp,
        ¬ op.Renews ((unobserved engine).run ops).engine id →
          (((unobserved engine).run ops).step op).stream id =
            ((unobserved engine).run ops).stream id) := by
  constructor
  · intro interest retention
    have followed := run_faithful ops (unobserved engine) (faithful_unobserved engine)
      id sub account found known ⟨interest, retention⟩
    exact ⟨followed.replayed, fun key => effective_alternates _ _ key followed.effective⟩
  · intro asleep op kept
    exact dormant_step _ op id sub account found known asleep kept

/-- An object comes and goes; then the subscription is paused. -/
def shelfRun : List WatchOp :=
  [.register "shelf" (.hasTag 1) ChangeInterest.all .unlimited {3} 0,
    .hook (.tagAdded (.fromParts 0 7) 1 1 0), .drain 1,
    .hook (.tagRemoved (.fromParts 0 7) 1 2 0), .pause 1]

def visitor : Subscription :=
  { id := 1
    name := "shelf"
    query := .hasTag 1
    interest := ChangeInterest.all
    cursor := 2
    state := .dormant
    retention := .unlimited
    debounceMs := none
    cachedResult := {3} }

def visitorAccount : Account :=
  { initial := {3}
    delivered := [.entered (.fromParts 0 7) (hlc 0)] }

private theorem visitor_found :
    ((unobserved .new).run shelfRun).engine.subscriptions.lookup 1 = some visitor := by
  rfl

private theorem visitor_known :
    ((unobserved .new).run shelfRun).accounts.lookup 1 = some visitorAccount := by
  rfl

theorem visitor_followed :
    ((unobserved .new).run shelfRun).stream 1 =
        [.entered (.fromParts 0 7) (hlc 0), .tagRemoved (.fromParts 0 7) 1 (hlc 0),
          .exited (.fromParts 0 7) (hlc 0)] ∧
      replay {3} (changes (((unobserved .new).run shelfRun).stream 1)) = {3} ∧
      (((unobserved .new).run shelfRun).step (.hook (.tagAdded (.fromParts 0 7) 1 3 0))).stream 1 =
        ((unobserved .new).run shelfRun).stream 1 := by
  have result := stream_reconstructs_membership .new shelfRun 1 visitor visitorAccount
    visitor_found visitor_known
  refine ⟨rfl, (result.1 rfl rfl).1, result.2 rfl _ ?_⟩
  intro renews
  exact renews

end Watched

end Mimisbrunnr.Watch
