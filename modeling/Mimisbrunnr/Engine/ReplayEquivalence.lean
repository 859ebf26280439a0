import Mimisbrunnr.Engine.Effects
import Mimisbrunnr.Engine.Replay

/-!
# Replay against live execution

A run on an engine and the replay of its log on another engine keep the two
cores equal, step by step, except that a replayed deletion leaves the entries
of the attribute indices in place. The equality therefore holds for the runs
that delete an object only when these indices hold nothing of it under the
attributes it has.
-/

namespace Mimisbrunnr

set_option autoImplicit false

open Mimisbrunnr.Index
open Mimisbrunnr.Lib
open Mimisbrunnr.Ontology
open Mimisbrunnr.Types
open Mimisbrunnr.Wal

namespace Indices

/-- The attribute indices do not return the object for this entry of its list. -/
def Unindexed (hash : ValueHash) (ix : Indices) (oid : ObjectId) (entry : Entry) : Prop :=
  match entry.1 with
  | .attr key value =>
      oid.low32 ∉ ix.kv.lookup hash key value ∧ oid.low32 ∉ ix.range.lookup key value
  | _ => True

instance (hash : ValueHash) (ix : Indices) (oid : ObjectId) (entry : Entry) :
    Decidable (ix.Unindexed hash oid entry) :=
  match entry with
  | (.attr key value, _) =>
      inferInstanceAs
        (Decidable (oid.low32 ∉ ix.kv.lookup hash key value ∧
          oid.low32 ∉ ix.range.lookup key value))
  | (.tag _, _) => instDecidableTrue
  | (.relation _ _, _) => instDecidableTrue

private theorem strip_unindexed (hash : ValueHash) (ix : Indices) (oid : ObjectId) (entry : Entry)
    (absent : ix.Unindexed hash oid entry) : stripAttr hash oid ix entry = ix := by
  cases entry with
  | mk assertion origin =>
      cases assertion with
      | tag t => rfl
      | relation predicate target => rfl
      | attr key value =>
          have kv : ix.kv.remove hash key value oid.low32 = ix.kv := by
            unfold KvIndex.remove
            rw [Bitmaps.remove_absent _ _ _ absent.1]
          have range : ix.range.remove key value oid.low32 = ix.range := by
            unfold RangeIndex.remove
            rw [Bitmaps.remove_absent _ _ _ absent.2]
          simp only [stripAttr, kv, range]

theorem delete_eq_replay_delete (hash : ValueHash) (ix : Indices) (oid : ObjectId)
    (absent : ∀ entry ∈ ix.entriesOf oid, ix.Unindexed hash oid entry) :
    ix.deleteObject hash oid = ix.replayDeleteObject oid := by
  have stripped (entries : List Entry) (part : ∀ entry ∈ entries, entry ∈ ix.entriesOf oid) :
      entries.foldl (stripAttr hash oid) { ix with tag := ix.tag.removeObjectFromAll oid } =
        { ix with tag := ix.tag.removeObjectFromAll oid } := by
    induction entries with
    | nil => rfl
    | cons head rest ih =>
        have first := strip_unindexed hash { ix with tag := ix.tag.removeObjectFromAll oid } oid
          head (absent head (part head List.mem_cons_self))
        rw [List.foldl_cons, first]
        exact ih fun entry member => part entry (List.mem_cons_of_mem head member)
  have whole := stripped (ix.entriesOf oid) (fun _ member => member)
  simp only [deleteObject, replayDeleteObject]
  unfold entriesOf at whole
  rw [whole]

end Indices

namespace Core

/-- The entry a successful mutation leaves in the operation log. -/
def Logs (s : Setting) (c : Core) (op : OpKind) : Mutation → Prop
  | .createObject => op = .createObject (c.minted s)
  | .deleteObject oid => c.known oid = true ∧ op = .deleteObject oid
  | .addTag oid tag => c.known oid = true ∧ op = .addTag oid tag
  | .removeTag oid tag => c.known oid = true ∧ op = .removeTag oid tag
  | .setAttr oid key value => c.known oid = true ∧ op = .setAttr oid key value
  | .removeAttr oid key valueHash => c.known oid = true ∧ op = .removeAttr oid key valueHash
  | .addRelation oid predicate target =>
      c.known oid = true ∧ op = .addRelation oid predicate target
  | .removeRelation oid predicate target =>
      c.known oid = true ∧ op = .removeRelation oid predicate target
  | .writeBlob oid _ =>
      c.known oid = true ∧ ∃ contentHash size, op = .writeBlob oid contentHash size

/-- A created object is new or active already, and a deleted object is in no
attribute index under an attribute it holds. -/
def Replayable (s : Setting) (c : Core) : Mutation → Prop
  | .createObject =>
      c.known (c.minted s) = true → c.states (c.minted s).toU64 = some ObjectState.active.toU8
  | .deleteObject oid => ∀ entry ∈ c.indices.entriesOf oid, c.indices.Unindexed s.hash oid entry
  | _ => True

instance (s : Setting) (c : Core) : (mutation : Mutation) → Decidable (c.Replayable s mutation)
  | .createObject =>
      inferInstanceAs
        (Decidable (c.known (c.minted s) = true →
          c.states (c.minted s).toU64 = some ObjectState.active.toU8))
  | .deleteObject oid =>
      inferInstanceAs
        (Decidable (∀ entry ∈ c.indices.entriesOf oid, c.indices.Unindexed s.hash oid entry))
  | .addTag _ _ | .removeTag _ _ | .setAttr _ _ _ | .removeAttr _ _ _ | .addRelation _ _ _
  | .removeRelation _ _ _ | .writeBlob _ _ => instDecidableTrue

/-- The same indices and the same record states. -/
structure Same (left right : Core) : Prop where
  indices : left.indices = right.indices
  states : left.states = right.states

private theorem Same.known (left right : Core) (same : Same left right) (oid : ObjectId) :
    left.known oid = right.known oid := by
  unfold Core.known
  rw [same.states]

theorem ensured_known (c : Core) (oid : ObjectId) (known : c.known oid = true) :
    c.ensured oid = c.states := by
  simp [ensured, known]

theorem same_step (s : Setting) (left right : Core) (mutation : Mutation) (op : OpKind)
    (same : Same left right) (logs : left.Logs s op mutation)
    (replayable : left.Replayable s mutation) : Same (left.step s mutation) (right.replay s op) := by
  have knownRight (oid : ObjectId) (known : left.known oid = true) : right.known oid = true := by
    rw [← same.known left right oid]
    exact known
  cases mutation with
  | createObject =>
      subst logs
      apply Same.mk
      · exact same.indices
      · simp only [step, replay]
        unfold ensured
        rw [← same.known left right (left.minted s)]
        cases known : left.known (left.minted s) with
        | false =>
            simp only [Bool.false_eq_true, if_false]
            unfold setState
            rw [same.states]
        | true =>
            have active := replayable known
            simp only [if_true]
            unfold setState
            rw [← active, Function.update_eq_self]
            exact same.states
  | deleteObject oid =>
      cases logs with
      | intro known isOp =>
          subst isOp
          apply Same.mk
          · simp only [step, known, if_true, replay]
            rw [Indices.delete_eq_replay_delete s.hash left.indices oid replayable, same.indices]
          · simp only [step, known, if_true, replay, knownRight oid known]
            unfold setState
            rw [same.states]
  | addTag oid tag =>
      cases logs with
      | intro known isOp =>
          subst isOp
          simp only [step, known, if_true, replay, ensured_known right oid (knownRight oid known)]
          exact ⟨congrArg (fun ix => Indices.addTag s.ontology ix oid tag) same.indices, same.states⟩
  | removeTag oid tag =>
      cases logs with
      | intro known isOp =>
          subst isOp
          simp only [step, known, if_true, replay, knownRight oid known]
          exact ⟨congrArg (fun ix => Indices.removeTag s.ontology ix oid tag) same.indices,
            same.states⟩
  | setAttr oid key value =>
      cases logs with
      | intro known isOp =>
          subst isOp
          simp only [step, known, if_true, replay, ensured_known right oid (knownRight oid known)]
          exact ⟨congrArg (fun ix => Indices.setAttr s.hash ix oid key value) same.indices,
            same.states⟩
  | removeAttr oid key valueHash =>
      cases logs with
      | intro known isOp =>
          subst isOp
          simp only [step, known, if_true, replay]
          exact ⟨congrArg (fun ix => Indices.removeAttr s.hash ix oid key valueHash) same.indices,
            same.states⟩
  | addRelation oid predicate target =>
      cases logs with
      | intro known isOp =>
          subst isOp
          simp only [step, known, if_true, replay, ensured_known right oid (knownRight oid known)]
          exact ⟨congrArg (fun ix => ix.addRelation oid predicate target) same.indices,
            same.states⟩
  | removeRelation oid predicate target =>
      cases logs with
      | intro known isOp =>
          subst isOp
          simp only [step, known, if_true, replay]
          exact ⟨congrArg (fun ix => (ix.removeRelation oid predicate target).1) same.indices,
            same.states⟩
  | writeBlob oid plaintext =>
      cases logs with
      | intro known isOp =>
          cases isOp with
          | intro contentHash rest =>
              cases rest with
              | intro size isOp =>
                  subst isOp
                  simp only [step, replay, ensured_known right oid (knownRight oid known)]
                  exact same

end Core

namespace Engine

/-- A mutation of an object that refuses an unknown object and logs otherwise. -/
theorem logged_ok {α : Type} (e : Engine) (oid : ObjectId) (entry : α → OpKind)
    (outcome : Except EngineError α × Engine) (op : OpKind)
    (refuses : e.hasRecord oid = false → ∃ err, outcome.1 = .error err)
    (ok : (logged entry outcome).1 = .ok op) :
    e.core.known oid = true ∧ ∃ result, outcome.1 = .ok result ∧ op = entry result := by
  rw [known_core]
  cases known : e.hasRecord oid with
  | false =>
      cases refuses known with
      | intro err failed =>
          simp only [logged, failed, Except.map] at ok
          cases ok
  | true =>
      apply And.intro rfl
      cases result : outcome.1 with
      | error err =>
          simp only [logged, result, Except.map] at ok
          cases ok
      | ok value =>
          simp only [logged, result, Except.map, Except.ok.injEq] at ok
          exact ⟨value, rfl, ok.symm⟩

theorem apply_logs (env : Env) (e : Engine) (mutation : Mutation) (reading : Option Int64)
    (op : OpKind) (ok : (e.apply env mutation reading).1 = .ok op) :
    e.core.Logs (e.setting env) op mutation := by
  cases mutation with
  | createObject =>
      simp only [apply, Except.ok.injEq] at ok
      exact ok.symm
  | deleteObject oid =>
      have facts := logged_ok e oid _ _ op
        (by intro missing; simp [deleteObject, missing]) ok
      cases facts.2 with
      | intro _ named => exact ⟨facts.1, named.2⟩
  | addTag oid tag =>
      have facts := logged_ok e oid _ _ op (by intro missing; simp [addTag, missing]) ok
      cases facts.2 with
      | intro _ named => exact ⟨facts.1, named.2⟩
  | removeTag oid tag =>
      have facts := logged_ok e oid _ _ op (by intro missing; simp [removeTag, missing]) ok
      cases facts.2 with
      | intro _ named => exact ⟨facts.1, named.2⟩
  | setAttr oid key value =>
      have facts := logged_ok e oid _ _ op (by intro missing; simp [setAttr, missing]) ok
      cases facts.2 with
      | intro _ named => exact ⟨facts.1, named.2⟩
  | removeAttr oid key valueHash =>
      have facts := logged_ok e oid _ _ op (by intro missing; simp [removeAttr, missing]) ok
      cases facts.2 with
      | intro _ named => exact ⟨facts.1, named.2⟩
  | addRelation oid predicate target =>
      have facts := logged_ok e oid _ _ op (by intro missing; simp [addRelation, missing]) ok
      cases facts.2 with
      | intro _ named => exact ⟨facts.1, named.2⟩
  | removeRelation oid predicate target =>
      have facts := logged_ok e oid _ _ op (by intro missing; simp [removeRelation, missing]) ok
      cases facts.2 with
      | intro _ named => exact ⟨facts.1, named.2⟩
  | writeBlob oid plaintext =>
      have facts := logged_ok e oid _ _ op (by intro missing; simp [writeBlob, missing]) ok
      cases facts.2 with
      | intro result named => exact ⟨facts.1, result.contentHash, result.originalSize, named.2⟩

theorem apply_error_core (env : Env) (e : Engine) (mutation : Mutation) (reading : Option Int64)
    (err : EngineError) (failed : (e.apply env mutation reading).1 = .error err) :
    (e.apply env mutation reading).2.core = e.core := by
  rw [core_apply]
  have unknown (oid : ObjectId) (missing : e.hasRecord oid ≠ true) : e.core.known oid = false := by
    rw [known_core, Bool.eq_false_iff]
    exact missing
  cases mutation with
  | createObject => cases failed
  | writeBlob oid plaintext => rfl
  | deleteObject oid =>
      simp only [apply, logged, deleteObject] at failed
      split at failed
      · cases failed
      · next missing => simp [Core.step, unknown oid missing]
  | addTag oid tag =>
      simp only [apply, logged, addTag] at failed
      split at failed
      · cases failed
      · next missing => simp [Core.step, unknown oid missing]
  | removeTag oid tag =>
      simp only [apply, logged, removeTag] at failed
      split at failed
      · cases failed
      · next missing => simp [Core.step, unknown oid missing]
  | setAttr oid key value =>
      simp only [apply, logged, setAttr] at failed
      split at failed
      · cases failed
      · next missing => simp [Core.step, unknown oid missing]
  | removeAttr oid key valueHash =>
      simp only [apply, logged, removeAttr] at failed
      split at failed
      · cases failed
      · next missing => simp [Core.step, unknown oid missing]
  | addRelation oid predicate target =>
      simp only [apply, logged, addRelation] at failed
      split at failed
      · cases failed
      · next missing => simp [Core.step, unknown oid missing]
  | removeRelation oid predicate target =>
      simp only [apply, logged, removeRelation] at failed
      split at failed
      · cases failed
      · next missing => simp [Core.step, unknown oid missing]

/-- The replay of the entries of a run follows the run. -/
theorem replay_follows (env : Env) (run : List TimedMutation) :
    ∀ (e : Engine) (other : Core), Core.Same e.core other →
      Along env (fun e mutation => e.core.Replayable (e.setting env) mutation) e run →
      Core.Same (e.after env run).core
        ((e.execute env run).1.foldl (Core.replay (e.setting env)) other) := by
  induction run with
  | nil =>
      intro e other same _
      exact same
  | cons step rest ih =>
      intro e other same along
      cases step with
      | mk mutation reading =>
          have sameSetting := setting_apply env e mutation reading
          simp only [after_cons, execute, List.foldl_append]
          rw [← sameSetting]
          cases outcome : (e.apply env mutation reading).1 with
          | error err =>
              have unchanged := apply_error_core env e mutation reading err outcome
              apply ih _ _ _ along.2
              rw [unchanged]
              exact same
          | ok op =>
              apply ih _ _ _ along.2
              rw [core_apply]
              simp only [Except.toOption, Option.toList_some, List.foldl_cons, List.foldl_nil]
              rw [sameSetting]
              exact Core.same_step _ e.core other mutation op same
                (apply_logs env e mutation reading op outcome) along.1

/-- A log of projected operations beyond the last applied one replays without error. -/
theorem replay_log_core (env : Env) (codec : WalCodec) (ops : List OpKind) :
    ∀ (lsn : Nat) (records : List WalRecord) (e : Engine),
      WalRecord.logOf codec lsn ops = .ok records → e.lastAppliedLsn < lsn →
      ∃ replayed, e.replayLog env codec records = .ok replayed ∧
        replayed.core = ops.foldl (Core.replay (e.setting env)) e.core := by
  induction ops with
  | nil =>
      intro lsn records e logged _
      simp only [WalRecord.logOf, Except.ok.injEq] at logged
      subst logged
      exact ⟨e, rfl, rfl⟩
  | cons op rest ih =>
      intro lsn records e logged ahead
      simp only [WalRecord.logOf] at logged
      split at logged
      · cases logged
      · next payload encoded =>
          split at logged
          · cases logged
          · next later rest_ =>
              simp only [Except.ok.injEq] at logged
              subst logged
              have fresh : ¬ (lsn ≠ 0 ∧ lsn ≤ e.lastAppliedLsn) := by omega
              have decoded := codec.decode_encode (projectOp op) payload encoded
              let next : Engine :=
                { e.replayOp env (projectOp op) with
                  lastAppliedLsn := max e.lastAppliedLsn lsn }
              have first : e.replayWalOp env codec (projectOp op).kind payload lsn =
                  (.ok (), next) := by
                simp only [replayWalOp, if_neg fresh, decoded]
                rfl
              have nextCore : next.core = e.core.replay (e.setting env) op := core_replay env e op
              have nextSetting : next.setting env = e.setting env := setting_replay env e op
              have applied : next.lastAppliedLsn < lsn + 1 := by
                have value : next.lastAppliedLsn = max e.lastAppliedLsn lsn := rfl
                omega
              cases ih (lsn + 1) later next rest_ applied with
              | intro replayed facts =>
                  refine ⟨replayed, ?_, ?_⟩
                  · simp only [replayLog, first]
                    exact facts.1
                  · rw [facts.2, nextSetting, nextCore]
                    rfl

def IsLive (e : Engine) (oid : ObjectId) : Prop :=
  ∃ state, e.stateOf oid.toU64 = some state ∧ state ≠ ObjectState.tombstoned.toU8

/-- The log of a run, replayed on another fresh engine, gives the same assertions,
tag members, attribute lookups and live objects, for the runs in which no
deleted object is in an attribute index. -/
theorem replay_reproduces_run (env : Env) (codec : WalCodec) (nodeId : UInt16)
    (ontology : OntologyState) (run : List TimedMutation) (records : List WalRecord)
    (logged : WalRecord.logOf codec 1 ((fresh nodeId ontology).execute env run).1 = .ok records)
    (replayable : Along env (fun e mutation => e.core.Replayable (e.setting env) mutation)
      (fresh nodeId ontology) run) :
    ∃ replayed, (fresh nodeId ontology).replayLog env codec records = .ok replayed ∧
      (∀ oid, replayed.indices.forward.assertionsOf oid =
        ((fresh nodeId ontology).after env run).indices.forward.assertionsOf oid) ∧
      (∀ t, replayed.indices.tag.membersOf t =
        ((fresh nodeId ontology).after env run).indices.tag.membersOf t) ∧
      (∀ k w, replayed.indices.kv.lookup env.hash k w =
        ((fresh nodeId ontology).after env run).indices.kv.lookup env.hash k w) ∧
      (∀ k w, replayed.indices.range.lookup k w =
        ((fresh nodeId ontology).after env run).indices.range.lookup k w) ∧
      ∀ oid, replayed.IsLive oid ↔ ((fresh nodeId ontology).after env run).IsLive oid := by
  have follows := replay_follows env run (fresh nodeId ontology) (fresh nodeId ontology).core
    ⟨rfl, rfl⟩ replayable
  cases replay_log_core env codec _ 1 records (fresh nodeId ontology) logged
    Nat.zero_lt_one with
  | intro replayed facts =>
      rw [← facts.2] at follows
      have indices : replayed.indices = ((fresh nodeId ontology).after env run).indices :=
        follows.indices.symm
      have states : replayed.stateOf = ((fresh nodeId ontology).after env run).stateOf :=
        follows.states.symm
      refine ⟨replayed, facts.1, ?_⟩
      simp only [indices, IsLive, states, implies_true, and_self]

/-- The CBOR payloads of a few operations on the first object of node 1. -/
def samplePayloads : List (WalOp × List UInt8) :=
  [(.createObject 0x0001000000000001 0 0,
      [0xa3, 0x63, 0x6f, 0x69, 0x64, 0x1b, 0x00, 0x01, 0x00, 0x00, 0x00, 0x00, 0x00, 0x01,
        0x6a, 0x67, 0x65, 0x6e, 0x65, 0x72, 0x61, 0x74, 0x69, 0x6f, 0x6e, 0x00, 0x6a, 0x63,
        0x72, 0x65, 0x61, 0x74, 0x65, 0x64, 0x5f, 0x6e, 0x73, 0x00]),
    (.setAttr 0x0001000000000001 7 (.int 1),
      [0xa3, 0x63, 0x6f, 0x69, 0x64, 0x1b, 0x00, 0x01, 0x00, 0x00, 0x00, 0x00, 0x00, 0x01,
        0x63, 0x6b, 0x65, 0x79, 0x07, 0x65, 0x76, 0x61, 0x6c, 0x75, 0x65, 0xa1, 0x63, 0x49,
        0x6e, 0x74, 0x01]),
    (.removeAttr 0x0001000000000001 7 0x03d2eada3cfbd632,
      [0xa3, 0x63, 0x6f, 0x69, 0x64, 0x1b, 0x00, 0x01, 0x00, 0x00, 0x00, 0x00, 0x00, 0x01,
        0x63, 0x6b, 0x65, 0x79, 0x07, 0x6a, 0x76, 0x61, 0x6c, 0x75, 0x65, 0x5f, 0x68, 0x61,
        0x73, 0x68, 0x1b, 0x03, 0xd2, 0xea, 0xda, 0x3c, 0xfb, 0xd6, 0x32]),
    (.deleteObject 0x0001000000000001 0,
      [0xa2, 0x63, 0x6f, 0x69, 0x64, 0x1b, 0x00, 0x01, 0x00, 0x00, 0x00, 0x00, 0x00, 0x01,
        0x63, 0x6c, 0x73, 0x6e, 0x00])]

def sampleCodec : WalCodec := WalCodec.ofTable samplePayloads (by decide +kernel)

def attributeRemovedBeforeDelete : List TimedMutation :=
  [(.createObject, none), (.setAttr firstObject 7 (.int 1), none),
    (.removeAttr firstObject 7 (sampleHash (.int 1)), none), (.deleteObject firstObject, none)]

/-- The records of a log, none if an operation has no encoding. -/
def recordsOf (run : List TimedMutation) : List WalRecord :=
  match WalRecord.logOf sampleCodec 1 ((fresh 1 OntologyState.new).execute Env.sample run).1 with
  | .ok records => records
  | .error _ => []

theorem replay_reproduces_attribute_removed :
    (recordsOf attributeRemovedBeforeDelete).length = 4 ∧
      ∃ replayed, (fresh 1 OntologyState.new).replayLog Env.sample sampleCodec
          (recordsOf attributeRemovedBeforeDelete) = .ok replayed ∧
        ∀ k w, replayed.indices.kv.lookup Env.sample.hash k w =
          ((fresh 1 OntologyState.new).after Env.sample
            attributeRemovedBeforeDelete).indices.kv.lookup Env.sample.hash k w := by
  apply And.intro (by decide +kernel)
  have logged : WalRecord.logOf sampleCodec 1
      ((fresh 1 OntologyState.new).execute Env.sample attributeRemovedBeforeDelete).1 =
        .ok (recordsOf attributeRemovedBeforeDelete) := by rfl
  cases replay_reproduces_run Env.sample sampleCodec 1 OntologyState.new
    attributeRemovedBeforeDelete _ logged (by decide +kernel) with
  | intro replayed facts => exact ⟨replayed, facts.1, facts.2.2.2.1⟩

def attributeHeldAtDelete : List TimedMutation :=
  [(.createObject, none), (.setAttr firstObject 7 (.int 1), none),
    (.deleteObject firstObject, none)]

/-- The engine after the replay of the log of a run. -/
def replayedFrom (run : List TimedMutation) : Engine :=
  match (fresh 1 OntologyState.new).replayLog Env.sample sampleCodec (recordsOf run) with
  | .ok replayed => replayed
  | .error _ => fresh 1 OntologyState.new

/-- The live deletion strips the attribute index, the replayed one does not. -/
theorem replay_keeps_deleted_attribute :
    (recordsOf attributeHeldAtDelete).length = 3 ∧
      ¬ ((replayedFrom attributeHeldAtDelete).indices.kv.lookup Env.sample.hash 7 (.int 1) =
        ((fresh 1 OntologyState.new).after Env.sample
          attributeHeldAtDelete).indices.kv.lookup Env.sample.hash 7 (.int 1)) := by
  decide +kernel

end Engine

end Mimisbrunnr
