import Mimisbrunnr.Disk.ObjectIds
import Mimisbrunnr.Disk.ZoneAreas
import Mimisbrunnr.Engine.ReplayEquivalence

/-!
# What mutations leave fit to be stored

Mutations and the replay of their log keep every record, location and subscription
under its own identifier, and all objects those of the node. The states of the
objects and the counter are the same in a live engine and in one that replays.
-/

namespace Mimisbrunnr

set_option autoImplicit false

open Mimisbrunnr.Index
open Mimisbrunnr.Lib.FiniteMap
open Mimisbrunnr.Ontology
open Mimisbrunnr.Pool
open Mimisbrunnr.Types
open Mimisbrunnr.Wal
open Mimisbrunnr.Watch

namespace Watch.SubscriptionEngine

def KeepsId (handle : Subscription → List WatchEvent → Subscription × List WatchEvent) : Prop :=
  ∀ sub queue, (handle sub queue).1.id = sub.id

theorem emit_keeps_id (sub : Subscription) (queue : List WatchEvent) (lsn : Nat)
    (kind : ChangeInterest) (event : WatchEvent) :
    (emit sub queue lsn kind event).1.id = sub.id := by
  unfold emit
  split <;> rfl

private theorem visit_keyed (s : SubscriptionEngine) (sid : SubscriptionId)
    (handle : Subscription → List WatchEvent → Subscription × List WatchEvent)
    (keeps : KeepsId handle) (keyed : s.Keyed) : (s.visit sid handle).Keyed := by
  unfold visit
  split
  · exact keyed
  · next sub found =>
      split
      · constructor
        · intro id other located
          rw [lookup_insert_eq] at located
          split at located
          · next same =>
              cases located
              rw [keeps, keyed.own sid sub found, same]
          · exact keyed.own id other located
        · intro id other located
          rw [lookup_insert_eq] at located
          split at located
          · next same =>
              rw [same]
              exact keyed.narrow sid sub found
          · exact keyed.narrow id other located
      · exact keyed

theorem visits_keyed (handle : Subscription → List WatchEvent → Subscription × List WatchEvent)
    (keeps : KeepsId handle) (ids : List SubscriptionId) :
    ∀ s : SubscriptionEngine, s.Keyed →
      (ids.foldl (fun s sid => s.visit sid handle) s).Keyed := by
  induction ids with
  | nil => exact fun _ keyed => keyed
  | cons sid ids ih => exact fun s keyed => ih _ (s.visit_keyed sid handle keeps keyed)

section

variable {s : SubscriptionEngine} (oid : ObjectId) (tag : TagId) (lsn : Nat) (tsNs : Int64)

private theorem created_keyed (keyed : s.Keyed) : (s.onObjectCreated oid lsn tsNs).Keyed :=
  visits_keyed _ (fun _ _ => emit_keeps_id _ _ _ _ _) _ s keyed

private theorem deleted_keyed (keyed : s.Keyed) : (s.onObjectDeleted oid lsn tsNs).Keyed := by
  apply visits_keyed _ _ _ s keyed
  intro sub queue
  unfold handleObjectDeleted
  split
  · exact emit_keeps_id _ _ _ _ _
  · rfl

private theorem content_changed_keyed (keyed : s.Keyed) :
    (s.onContentChanged oid lsn tsNs).Keyed := by
  apply visits_keyed _ _ _ s keyed
  intro sub queue
  unfold handleContentChanged
  split
  · exact emit_keeps_id _ _ _ _ _
  · rfl

private theorem tag_added_keyed (keyed : s.Keyed) : (s.onTagAdded oid tag lsn tsNs).Keyed := by
  apply visits_keyed _ _ _ s keyed
  intro sub queue
  unfold handleTagAdded
  split
  · exact emit_keeps_id _ _ _ _ _
  · exact emit_keeps_id _ _ _ _ _

private theorem tag_removed_keyed (keyed : s.Keyed) : (s.onTagRemoved oid tag lsn tsNs).Keyed := by
  apply visits_keyed _ _ _ s keyed
  intro sub queue
  unfold handleTagRemoved
  split
  · exact (emit_keeps_id _ _ _ _ _).trans (emit_keeps_id _ _ _ _ _)
  · rfl

end

end Watch.SubscriptionEngine

namespace Engine

/-- Every record and subscription is kept under its own identifier, every location under one of
the node. -/
structure Filed (nodeId : NodeId) (e : Engine) : Prop where
  node : e.nodeId = nodeId
  keyed : e.TableKeyed
  located : ∀ key ∈ e.locationTable, (ObjectId.fromU64 key).nodeId = nodeId
  subscriptions : e.subscriptions.Keyed

theorem filed_new (nodeId : NodeId) : Filed nodeId (Engine.new nodeId) := by
  refine ⟨rfl, (numbered_new nodeId).keyed, ?_, ?_, ?_⟩
  · exact fun key member => absurd member Finmap.notMem_empty
  · intro id sub found
    cases found
  · intro id sub found
    cases found

/-- Nothing has been filed elsewhere, and only locations are gone. -/
structure Refiled (e after : Engine) : Prop where
  node : after.nodeId = e.nodeId
  keyed : e.TableKeyed → after.TableKeyed
  located : ∀ key ∈ after.locationTable, key ∈ e.locationTable
  subscriptions : e.subscriptions.Keyed → after.subscriptions.Keyed

theorem refiled_refl (e : Engine) : Refiled e e := ⟨rfl, id, fun _ member => member, id⟩

theorem Refiled.trans {first second third : Engine} (left : Refiled first second)
    (right : Refiled second third) : Refiled first third :=
  ⟨right.node.trans left.node, fun keyed => right.keyed (left.keyed keyed),
    fun key member => left.located key (right.located key member),
    fun keyed => right.subscriptions (left.subscriptions keyed)⟩

theorem Filed.refiled {nodeId : NodeId} {e after : Engine} (filed : Filed nodeId e)
    (refiled : Refiled e after) : Filed nodeId after :=
  ⟨refiled.node.trans filed.node, refiled.keyed filed.keyed,
    fun key member => filed.located key (refiled.located key member),
    refiled.subscriptions filed.subscriptions⟩

theorem refiled_apply (env : Env) (e : Engine) (mutation : Mutation) (reading : Option Int64) :
    Refiled e (e.apply env mutation reading).2 := by
  have setting := setting_apply env e mutation reading
  have node : (e.apply env mutation reading).2.nodeId = e.nodeId := congrArg Setting.nodeId setting
  have keyed : e.TableKeyed → (e.apply env mutation reading).2.TableKeyed := by
    intro keyed
    by_cases creates : mutation = .createObject
    · rw [creates]
      exact keyed_insert keyed _ _ rfl
    · exact (apply_same_records env e mutation reading creates).keyed keyed
  have erased (oid : ObjectId) : ∀ key ∈ e.locationTable.erase oid.toU64, key ∈ e.locationTable :=
    fun key member => (Finmap.mem_erase.mp member).2
  refine ⟨node, keyed, ?_, ?_⟩
  · cases mutation with
    | createObject => exact fun _ member => member
    | deleteObject oid =>
        simp only [apply, logged, deleteObject]
        split
        · exact erased oid
        · exact fun _ member => member
    | addTag oid tag =>
        simp only [apply, logged, addTag]
        split <;> exact fun _ member => member
    | removeTag oid tag =>
        simp only [apply, logged, removeTag]
        split <;> exact fun _ member => member
    | setAttr oid key value =>
        simp only [apply, logged, setAttr]
        split <;> exact fun _ member => member
    | removeAttr oid key valueHash =>
        simp only [apply, logged, removeAttr]
        split <;> exact fun _ member => member
    | addRelation oid predicate target =>
        simp only [apply, logged, addRelation]
        split <;> exact fun _ member => member
    | removeRelation oid predicate target =>
        simp only [apply, logged, removeRelation]
        split <;> exact fun _ member => member
    | writeBlob oid plaintext =>
        simp only [apply, logged, writeBlob]
        split
        · split <;> exact fun _ member => member
        · exact fun _ member => member
  · intro subscriptions
    cases mutation with
    | createObject => exact SubscriptionEngine.created_keyed _ _ _ subscriptions
    | deleteObject oid =>
        simp only [apply, logged, deleteObject]
        split
        · exact SubscriptionEngine.deleted_keyed _ _ _ subscriptions
        · exact subscriptions
    | addTag oid tag =>
        simp only [apply, logged, addTag]
        split
        · exact SubscriptionEngine.tag_added_keyed _ _ _ _ subscriptions
        · exact subscriptions
    | removeTag oid tag =>
        simp only [apply, logged, removeTag]
        split
        · exact SubscriptionEngine.tag_removed_keyed _ _ _ _ subscriptions
        · exact subscriptions
    | setAttr oid key value =>
        simp only [apply, logged, setAttr]
        split
        · exact SubscriptionEngine.content_changed_keyed _ _ _ subscriptions
        · exact subscriptions
    | removeAttr oid key valueHash =>
        simp only [apply, logged, removeAttr]
        split
        · exact SubscriptionEngine.content_changed_keyed _ _ _ subscriptions
        · exact subscriptions
    | addRelation oid predicate target =>
        simp only [apply, logged, addRelation]
        split <;> exact subscriptions
    | removeRelation oid predicate target =>
        simp only [apply, logged, removeRelation]
        split <;> exact subscriptions
    | writeBlob oid plaintext =>
        simp only [apply, logged, writeBlob]
        split
        · split
          · exact subscriptions
          · exact SubscriptionEngine.content_changed_keyed _ _ _ subscriptions
        · exact subscriptions

theorem last_applied_apply (env : Env) (e : Engine) (mutation : Mutation) (reading : Option Int64) :
    (e.apply env mutation reading).2.lastAppliedLsn = e.lastAppliedLsn := by
  cases mutation with
  | createObject => rfl
  | deleteObject oid =>
      simp only [apply, logged, deleteObject]
      split <;> rfl
  | addTag oid tag =>
      simp only [apply, logged, addTag]
      split <;> rfl
  | removeTag oid tag =>
      simp only [apply, logged, removeTag]
      split <;> rfl
  | setAttr oid key value =>
      simp only [apply, logged, setAttr]
      split <;> rfl
  | removeAttr oid key valueHash =>
      simp only [apply, logged, removeAttr]
      split <;> rfl
  | addRelation oid predicate target =>
      simp only [apply, logged, addRelation]
      split <;> rfl
  | removeRelation oid predicate target =>
      simp only [apply, logged, removeRelation]
      split <;> rfl
  | writeBlob oid plaintext =>
      simp only [apply, logged, writeBlob]
      split
      · split <;> rfl
      · rfl

private theorem keyed_ensure {e : Engine} (keyed : e.TableKeyed) (oid : ObjectId) :
    ∀ key record, (e.ensureRecord oid).lookup key = some record → record.id = key := by
  unfold ensureRecord
  split
  · exact keyed
  · exact keyed_insert keyed _ _ rfl

theorem refiled_replay (env : Env) (e : Engine) (op : WalOp) : Refiled e (e.replayOp env op) := by
  have same (after : Engine) (node : after.nodeId = e.nodeId)
      (keyed : e.TableKeyed → after.TableKeyed) (located : after.locationTable = e.locationTable)
      (subscriptions : after.subscriptions = e.subscriptions) : Refiled e after := by
    refine ⟨node, keyed, ?_, ?_⟩
    · rw [located]
      exact fun _ member => member
    · rw [subscriptions]
      exact id
  have updated (before after : Engine) (oid : ObjectId) (change : ObjectRecord → ObjectRecord)
      (own : ∀ record, (change record).id = record.id)
      (table : after.objectTable = before.updateRecord oid change) (keyed : before.TableKeyed) :
      after.TableKeyed := by
    intro key record found
    rw [table, updateRecord, lookup_update] at found
    split at found
    · obtain ⟨old, here, changed⟩ := Option.map_eq_some_iff.mp found
      rw [← changed, own]
      exact keyed key old here
    · exact keyed key record found
  cases op with
  | createObject oid _ createdNs =>
      exact same _ rfl (fun keyed => keyed_replay_create keyed _ _) rfl rfl
  | deleteObject oid _ =>
      refine ⟨rfl, updated e _ (ObjectId.fromU64 oid) (fun record => record.setState .tombstoned)
        (fun _ => rfl) rfl, ?_, id⟩
      exact fun key member => (Finmap.mem_erase.mp member).2
  | addTag oid tag _ => exact same _ rfl (fun keyed => keyed_ensure keyed _) rfl rfl
  | removeTag oid tag =>
      simp only [replayOp, replayRemoveTag]
      split
      · exact same _ rfl id rfl rfl
      · exact same _ rfl id rfl rfl
  | setAttr oid key value => exact same _ rfl (fun keyed => keyed_ensure keyed _) rfl rfl
  | removeAttr oid key valueHash => exact same _ rfl id rfl rfl
  | addRelation oid predicate target => exact same _ rfl (fun keyed => keyed_ensure keyed _) rfl rfl
  | removeRelation oid predicate target => exact same _ rfl id rfl rfl
  | writeBlob oid contentHash _ size =>
      refine same _ rfl ?_ rfl rfl
      intro keyed
      exact updated { e with objectTable := e.ensureRecord (ObjectId.fromU64 oid) } _
        (ObjectId.fromU64 oid)
        (fun record =>
          { record with
            contentHash := contentHash
            blobLength := UInt64.ofNat size
            storedSize := UInt64.ofNat size })
        (fun _ => rfl) rfl (keyed_ensure keyed _)
  | foreign _ => exact same _ rfl id rfl rfl

end Engine

namespace Core

/-- All objects are of the node and below the counter, the last one counted among them. -/
structure Counted (nodeId : NodeId) (c : Core) : Prop where
  positive : 1 ≤ c.nextOidLocal
  below : ∀ raw, (c.states raw).isSome → raw.toNat % 2 ^ 48 < c.nextOidLocal
  own : ∀ raw, (c.states raw).isSome → (ObjectId.fromU64 raw).nodeId = nodeId
  last : 1 < c.nextOidLocal → c.known (ObjectId.fromParts nodeId (c.nextOidLocal - 1)) = true

/-- The same objects in the same states, and the same counter. -/
structure SameStates (left right : Core) : Prop where
  states : left.states = right.states
  counter : left.nextOidLocal = right.nextOidLocal

theorem counted_new (nodeId : NodeId) : Counted nodeId (Engine.new nodeId).core := by
  refine ⟨Nat.le_refl 1, ?_, ?_, ?_⟩
  · intro raw known
    cases known
  · intro raw known
    cases known
  · exact fun more => absurd more (Nat.lt_irrefl 1)

theorem Counted.same {nodeId : NodeId} {left right : Core} (counted : Counted nodeId left)
    (same : SameStates left right) : Counted nodeId right := by
  constructor
  · rw [← same.counter]
    exact counted.positive
  · rw [← same.counter, ← same.states]
    exact counted.below
  · rw [← same.states]
    exact counted.own
  · rw [← same.counter, known, ← same.states]
    exact counted.last

theorem step_below (s : Setting) (c : Core) (mutation : Mutation)
    (below : ∀ raw, (c.states raw).isSome → raw.toNat % 2 ^ 48 < c.nextOidLocal)
    (small : c.nextOidLocal + 1 < 2 ^ 48) :
    (c.step s mutation).nextOidLocal ≤ c.nextOidLocal + 1 ∧
      ∀ raw, ((c.step s mutation).states raw).isSome →
        raw.toNat % 2 ^ 48 < (c.step s mutation).nextOidLocal := by
  rcases step_states s c mutation with rfl | ⟨target, rfl⟩ | ⟨-, -, states, counter⟩
  · have next : Engine.saturatingSucc c.nextOidLocal = c.nextOidLocal + 1 := by
      unfold Engine.saturatingSucc
      omega
    simp only [step, next, Nat.le_refl, true_and, setState, Function.update_apply]
    intro raw known
    split at known
    · next same =>
        rw [same, minted, ObjectId.toU64, ObjectId.raw_from_parts]
        omega
    · have before := below raw known
      omega
  · simp only [step]
    split
    · next known =>
        refine ⟨Nat.le_succ _, ?_⟩
        intro raw here
        simp only [setState, Function.update_apply] at here
        split at here
        · next same =>
            rw [same]
            exact below _ known
        · exact below raw here
    · exact ⟨Nat.le_succ _, below⟩
  · rw [states, counter]
    exact ⟨Nat.le_succ _, below⟩

private theorem own_minted (s : Setting) (c : Core) : (c.minted s).nodeId = s.nodeId := by
  have number := ObjectId.raw_from_parts s.nodeId c.nextOidLocal
  have bound := s.nodeId.toNat_lt
  rw [ObjectId.nodeId, minted, number]
  apply UInt16.toNat_inj.mp
  rw [UInt16.toNat_ofNat']
  omega

theorem Counted.kept {nodeId : NodeId} {c after : Core} (counted : Counted nodeId c)
    (known : ∀ raw, (after.states raw).isSome = (c.states raw).isSome)
    (counter : after.nextOidLocal = c.nextOidLocal) : Counted nodeId after := by
  constructor
  · rw [counter]
    exact counted.positive
  · intro raw here
    rw [counter]
    exact counted.below raw (by rw [← known raw]; exact here)
  · intro raw here
    exact counted.own raw (by rw [← known raw]; exact here)
  · rw [counter]
    intro more
    rw [Core.known, known]
    exact counted.last more

theorem Counted.step {s : Setting} {c : Core} (counted : Counted s.nodeId c) (mutation : Mutation)
    (small : c.nextOidLocal + 1 < 2 ^ 48) : Counted s.nodeId (c.step s mutation) := by
  rcases step_states s c mutation with rfl | ⟨target, rfl⟩ | ⟨-, -, states, counter⟩
  · have next : Engine.saturatingSucc c.nextOidLocal = c.nextOidLocal + 1 := by
      unfold Engine.saturatingSucc
      omega
    refine ⟨?_, (step_below s c .createObject counted.below small).2, ?_, ?_⟩
    · simp only [Core.step, next]
      exact Nat.le_add_left _ _
    · intro raw known
      simp only [Core.step, setState, Function.update_apply] at known
      split at known
      · next same =>
          rw [same]
          exact own_minted s c
      · exact counted.own raw known
    · intro _
      simp only [Core.step, next, Nat.add_sub_cancel, Core.known, setState, minted]
      rw [Function.update_self]
      rfl
  · simp only [Core.step]
    split
    · next found =>
        refine counted.kept ?_ rfl
        intro raw
        simp only [setState, Function.update_apply]
        split
        · next same =>
            rw [same]
            exact found.symm
        · rfl
    · exact counted
  · exact counted.kept (fun raw => by rw [states]) counter

theorem Counted.fresh {s : Setting} {c : Core} (counted : Counted s.nodeId c)
    (small : c.nextOidLocal < 2 ^ 48) : c.known (c.minted s) = false := by
  rw [Bool.eq_false_iff]
  intro known
  have below := counted.below _ known
  rw [ObjectId.toU64, minted, ObjectId.raw_from_parts] at below
  omega

/-- A live step and the replay of the entry it logs keep the objects the same, whatever is in
their indices. -/
theorem SameStates.step {s : Setting} {left right : Core} (same : SameStates left right)
    (counted : Counted s.nodeId left) (mutation : Mutation) (op : OpKind)
    (small : left.nextOidLocal < 2 ^ 48) (logs : left.Logs s op mutation) :
    SameStates (left.step s mutation) (right.replay s op) := by
  obtain ⟨states, counter⟩ := same
  have knownRight (oid : ObjectId) (known : left.known oid = true) : right.known oid = true := by
    rw [Core.known, ← states]
    exact known
  cases mutation with
  | createObject =>
      cases logs
      have fresh := counted.fresh small
      have here := ObjectId.local_seq_from_parts s.nodeId left.nextOidLocal small
      have unknown : right.known (left.minted s) = false := by
        rw [Core.known, ← states]
        exact fresh
      constructor
      · simp only [Core.step, replay, ensured, unknown, Bool.false_eq_true, if_false, setState,
          states]
      · simp only [Core.step, replay, minted, here, ← counter, Nat.le_refl, if_true]
  | deleteObject oid =>
      obtain ⟨known, rfl⟩ := logs
      simp only [Core.step, known, if_true, replay, knownRight oid known, setState, states]
      exact ⟨rfl, counter⟩
  | addTag oid tag =>
      obtain ⟨known, rfl⟩ := logs
      simp only [Core.step, known, if_true, replay, ensured_known right oid (knownRight oid known)]
      exact ⟨states, counter⟩
  | removeTag oid tag =>
      obtain ⟨known, rfl⟩ := logs
      simp only [Core.step, known, if_true, replay, knownRight oid known]
      exact ⟨states, counter⟩
  | setAttr oid key value =>
      obtain ⟨known, rfl⟩ := logs
      simp only [Core.step, known, if_true, replay, ensured_known right oid (knownRight oid known)]
      exact ⟨states, counter⟩
  | removeAttr oid key valueHash =>
      obtain ⟨known, rfl⟩ := logs
      simp only [Core.step, known, if_true, replay]
      exact ⟨states, counter⟩
  | addRelation oid predicate target =>
      obtain ⟨known, rfl⟩ := logs
      simp only [Core.step, known, if_true, replay, ensured_known right oid (knownRight oid known)]
      exact ⟨states, counter⟩
  | removeRelation oid predicate target =>
      obtain ⟨known, rfl⟩ := logs
      simp only [Core.step, known, if_true, replay]
      exact ⟨states, counter⟩
  | writeBlob oid plaintext =>
      obtain ⟨known, contentHash, size, rfl⟩ := logs
      simp only [Core.step, replay, ensured_known right oid (knownRight oid known)]
      exact ⟨states, counter⟩

end Core

theorem Engine.new_narrow_tags (e : Engine) (indices : e.indices = Indices.new) :
    e.NarrowTags := by
  constructor
  · intro entry member
    rw [indices, show Indices.new.kv.sortedEntries = [] from
      @to_sorted_of_entries _ _ kvOrder [] List.Pairwise.nil] at member
    cases member
  · intro object member
    rw [indices, show toSorted Indices.new.forward.entries = [] from
      to_sorted_of_entries [] List.Pairwise.nil] at member
    cases member
  · intro tag store found
    rw [indices] at found
    cases found
  · intro tag key set found
    rw [indices] at found
    cases found

theorem Engine.known_key (e : Engine) (key : UInt64) :
    (e.core.states key).isSome = true ↔ key ∈ e.objectTable := by
  change (e.stateOf key).isSome = true ↔ _
  rw [stateOf, Option.isSome_map, Finmap.lookup_isSome]

theorem MountedEngine.storable_of_filed {nodeId : NodeId} {m : MountedEngine}
    (filed : m.engine.Filed nodeId) (counted : m.engine.core.Counted nodeId)
    (tags : m.engine.NarrowTags) : m.Storable := by
  refine ⟨tags, filed.keyed, ?_, ?_, filed.subscriptions⟩
  · intro left right leftMember rightMember same
    have leftOwn := counted.own left ((m.engine.known_key left).mpr leftMember)
    have rightOwn := counted.own right ((m.engine.known_key right).mpr rightMember)
    have nodes := congrArg UInt16.toNat (leftOwn.trans rightOwn.symm)
    have leftBound := left.toNat_lt
    have rightBound := right.toNat_lt
    simp only [ObjectId.nodeId, ObjectId.fromU64, UInt16.toNat_ofNat'] at nodes
    apply UInt64.toNat_inj.mp
    omega
  · intro oid member
    rw [filed.node]
    exact filed.located oid member

end Mimisbrunnr
