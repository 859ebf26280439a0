import Mimisbrunnr.Engine.Mutation

/-!
# Projection to the log and replay

`projectOp` turns an entry of the operation log into a log operation; the
functions named `replay…` apply one to an engine. Every mutation exists in both
forms. `Core.replay` is the replayed effect on the core, beside the live effect
`Core.step`.
-/

namespace Mimisbrunnr

set_option autoImplicit false

open Mimisbrunnr.Index
open Mimisbrunnr.Lib.FiniteMap
open Mimisbrunnr.Types
open Mimisbrunnr.Wal

def tagOriginDirect : UInt8 := 0

def projectOp : OpKind → WalOp
  | .createObject oid => .createObject oid.toU64 0 0
  | .deleteObject oid => .deleteObject oid.toU64 0
  | .addTag oid tag => .addTag oid.toU64 tag tagOriginDirect
  | .removeTag oid tag => .removeTag oid.toU64 tag
  | .setAttr oid key value => .setAttr oid.toU64 key value
  | .removeAttr oid key valueHash => .removeAttr oid.toU64 key valueHash
  | .addRelation oid predicate target => .addRelation oid.toU64 predicate target.toU64
  | .removeRelation oid predicate target => .removeRelation oid.toU64 predicate target.toU64
  | .writeBlob oid contentHash size =>
      .writeBlob oid.toU64 contentHash { diskId := 0, blockNo := 0, generation := 0 } size

namespace Engine

/-- The object table with an active record for the object, made up if there is none. -/
def ensureRecord (e : Engine) (oid : ObjectId) : FMap UInt64 ObjectRecord :=
  if e.hasRecord oid then e.objectTable
  else e.objectTable.insert oid.toU64 ((ObjectRecord.new oid.toU64).setState .active)

def replayCreateObject (e : Engine) (oid : ObjectId) (createdNs : Int64) : Engine :=
  { e with
    objectTable :=
      if e.hasRecord oid then e.objectTable
      else
        e.objectTable.insert oid.toU64
          { (ObjectRecord.new oid.toU64).setState .active with
            createdNs := createdNs
            modifiedNs := createdNs }
    nextOidLocal :=
      if e.nextOidLocal ≤ oid.localSeq then saturatingSucc oid.localSeq else e.nextOidLocal }

def replayDeleteObject (e : Engine) (oid : ObjectId) : Engine :=
  { e with
    objectTable := e.updateRecord oid fun record => record.setState .tombstoned
    indices := e.indices.replayDeleteObject oid
    locationTable := e.locationTable.erase oid.toU64 }

def replayAddTag (e : Engine) (oid : ObjectId) (tag : TagId) : Engine :=
  { e with
    objectTable := e.ensureRecord oid
    indices := e.indices.addTag e.ontology oid tag }

def replayRemoveTag (e : Engine) (oid : ObjectId) (tag : TagId) : Engine :=
  if e.hasRecord oid then { e with indices := e.indices.removeTag e.ontology oid tag } else e

def replaySetAttr (env : Env) (e : Engine) (oid : ObjectId) (key : TagId) (value : Value) :
    Engine :=
  { e with
    objectTable := e.ensureRecord oid
    indices := e.indices.setAttr env.hash oid key value }

def replayRemoveAttrByHash (env : Env) (e : Engine) (oid : ObjectId) (key : TagId)
    (valueHash : UInt64) : Engine :=
  { e with indices := e.indices.removeAttr env.hash oid key valueHash }

def replayAddRelation (e : Engine) (oid : ObjectId) (predicate : TagId) (target : ObjectId) :
    Engine :=
  { e with
    objectTable := e.ensureRecord oid
    indices := e.indices.addRelation oid predicate target }

def replayRemoveRelation (e : Engine) (oid : ObjectId) (predicate : TagId)
    (target : ObjectId) : Engine :=
  { e with indices := (e.indices.removeRelation oid predicate target).1 }

def replayWriteBlob (e : Engine) (oid : ObjectId) (contentHash : List UInt8) (size : Nat) :
    Engine :=
  let ensured := { e with objectTable := e.ensureRecord oid }
  { ensured with
    objectTable := ensured.updateRecord oid fun record =>
      { record with
        contentHash := contentHash
        blobLength := UInt64.ofNat size
        storedSize := UInt64.ofNat size } }

/-- The effect of a decoded operation; those of other subsystems have none. -/
def replayOp (env : Env) (e : Engine) : WalOp → Engine
  | .createObject oid _ createdNs => e.replayCreateObject (ObjectId.fromU64 oid) createdNs
  | .deleteObject oid _ => e.replayDeleteObject (ObjectId.fromU64 oid)
  | .addTag oid tag _ => e.replayAddTag (ObjectId.fromU64 oid) tag
  | .removeTag oid tag => e.replayRemoveTag (ObjectId.fromU64 oid) tag
  | .setAttr oid key value => e.replaySetAttr env (ObjectId.fromU64 oid) key value
  | .removeAttr oid key valueHash =>
      e.replayRemoveAttrByHash env (ObjectId.fromU64 oid) key valueHash
  | .addRelation oid predicate target =>
      e.replayAddRelation (ObjectId.fromU64 oid) predicate (ObjectId.fromU64 target)
  | .removeRelation oid predicate target =>
      e.replayRemoveRelation (ObjectId.fromU64 oid) predicate (ObjectId.fromU64 target)
  | .writeBlob oid contentHash _ size =>
      e.replayWriteBlob (ObjectId.fromU64 oid) contentHash size
  | .foreign _ => e

def replayWalOp (env : Env) (codec : WalCodec) (e : Engine) (kind : WalOpKind)
    (payload : List UInt8) (lsn : Nat) : Except EngineError Unit × Engine :=
  if lsn ≠ 0 ∧ lsn ≤ e.lastAppliedLsn then (.error (.lsnAlreadyApplied lsn), e)
  else
    match codec.decode kind payload with
    | .error err => (.error (.wal err), e)
    | .ok op =>
        let replayed := e.replayOp env op
        (.ok (), { replayed with lastAppliedLsn := max e.lastAppliedLsn lsn })

end Engine

/-- An entry of the write-ahead log. -/
structure WalRecord where
  lsn : Nat
  kind : WalOpKind
  payload : List UInt8
deriving DecidableEq, Repr

namespace WalRecord

/-- The log of a run: its operations, encoded, with consecutive sequence numbers. -/
def logOf (codec : WalCodec) : Nat → List OpKind → Except WalError (List WalRecord)
  | _, [] => .ok []
  | lsn, op :: rest =>
      match codec.encode (projectOp op) with
      | .error err => .error err
      | .ok payload =>
          match logOf codec (lsn + 1) rest with
          | .error err => .error err
          | .ok records =>
              .ok ({ lsn := lsn, kind := (projectOp op).kind, payload := payload } :: records)

end WalRecord

namespace Engine

/-- The records in order, up to the first that fails. -/
def replayLog (env : Env) (codec : WalCodec) (e : Engine) :
    List WalRecord → Except EngineError Engine
  | [] => .ok e
  | record :: rest =>
      match e.replayWalOp env codec record.kind record.payload record.lsn with
      | (.error err, _) => .error err
      | (.ok _, next) => replayLog env codec next rest

end Engine

namespace Core

def ensured (c : Core) (oid : ObjectId) : UInt64 → Option UInt8 :=
  if c.known oid then c.states else c.setState oid .active

def replay (s : Setting) (c : Core) : OpKind → Core
  | .createObject oid =>
      { c with
        states := c.ensured oid
        nextOidLocal :=
          if c.nextOidLocal ≤ oid.localSeq then Engine.saturatingSucc oid.localSeq
          else c.nextOidLocal }
  | .deleteObject oid =>
      { c with
        indices := c.indices.replayDeleteObject oid
        states := if c.known oid then c.setState oid .tombstoned else c.states }
  | .addTag oid tag =>
      { c with
        indices := c.indices.addTag s.ontology oid tag
        states := c.ensured oid }
  | .removeTag oid tag =>
      if c.known oid then { c with indices := c.indices.removeTag s.ontology oid tag } else c
  | .setAttr oid key value =>
      { c with
        indices := c.indices.setAttr s.hash oid key value
        states := c.ensured oid }
  | .removeAttr oid key valueHash =>
      { c with indices := c.indices.removeAttr s.hash oid key valueHash }
  | .addRelation oid predicate target =>
      { c with
        indices := c.indices.addRelation oid predicate target
        states := c.ensured oid }
  | .removeRelation oid predicate target =>
      { c with indices := (c.indices.removeRelation oid predicate target).1 }
  | .writeBlob oid _ _ => { c with states := c.ensured oid }

end Core

namespace Engine

private theorem state_of_insert (e changed : Engine) (oid : ObjectId) (record : ObjectRecord)
    (state : ObjectState) (table : changed.objectTable = e.objectTable.insert oid.toU64 record)
    (stored : record.state = state.toU8) : changed.stateOf = e.core.setState oid state := by
  funext raw
  simp only [stateOf, table, lookup_insert_eq, Core.setState, core, Function.update_apply]
  split
  · simp [stored]
  · rfl

/-- A record that is made up for an object without one is active. -/
theorem state_of_ensure (e changed : Engine) (oid : ObjectId) (record : ObjectRecord)
    (table : changed.objectTable =
      if e.hasRecord oid then e.objectTable else e.objectTable.insert oid.toU64 record)
    (stored : record.state = ObjectState.active.toU8) :
    changed.stateOf = e.core.ensured oid := by
  unfold Core.ensured
  rw [known_core]
  cases present : e.hasRecord oid with
  | true =>
      rw [present] at table
      funext raw
      rw [stateOf, table]
      rfl
  | false =>
      rw [present] at table
      exact state_of_insert e changed oid record .active table stored

/-- A change of a record that sets its state byte. -/
theorem state_of_delete (e changed : Engine) (oid : ObjectId)
    (change : ObjectRecord → ObjectRecord)
    (table : changed.objectTable = e.updateRecord oid change)
    (marks : ∀ record, (change record).state = ObjectState.tombstoned.toU8) :
    changed.stateOf =
      if e.core.known oid then e.core.setState oid .tombstoned else e.core.states := by
  funext raw
  rw [stateOf, table, updateRecord, lookup_update, known_core]
  cases found : e.objectTable.lookup oid.toU64 with
  | none =>
      have absent : e.hasRecord oid = false := by simp [hasRecord, found]
      rw [absent]
      simp only [Bool.false_eq_true, if_false, core, stateOf]
      split
      · next same =>
          subst same
          rw [found]
          rfl
      · rfl
  | some record =>
      have present : e.hasRecord oid = true := by simp [hasRecord, found]
      rw [present]
      simp only [if_true, Core.setState, Function.update_apply, core, stateOf]
      split
      · next same =>
          subst same
          rw [found]
          simp [marks]
      · rfl

theorem setting_replay (env : Env) (e : Engine) (op : OpKind) :
    (e.replayOp env (projectOp op)).setting env = e.setting env := by
  cases op with
  | removeTag oid tag =>
      simp only [projectOp, replayOp, replayRemoveTag]
      split <;> rfl
  | createObject oid => rfl
  | deleteObject oid => rfl
  | addTag oid tag => rfl
  | setAttr oid key value => rfl
  | removeAttr oid key valueHash => rfl
  | addRelation oid predicate target => rfl
  | removeRelation oid predicate target => rfl
  | writeBlob oid contentHash size => rfl

theorem core_replay (env : Env) (e : Engine) (op : OpKind) :
    (e.replayOp env (projectOp op)).core = e.core.replay (e.setting env) op := by
  cases op with
  | createObject oid =>
      simp only [projectOp, replayOp, replayCreateObject, Core.replay, ObjectId.from_u64_to_u64,
        core, Core.mk.injEq, true_and]
      exact ⟨state_of_ensure e _ oid _ rfl rfl, rfl⟩
  | deleteObject oid =>
      have states : (e.replayDeleteObject oid).stateOf =
          if e.core.known oid then e.core.setState oid .tombstoned else e.core.states :=
        state_of_delete e _ oid _ rfl (fun _ => rfl)
      simp only [projectOp, replayOp, Core.replay, ObjectId.from_u64_to_u64]
      rw [core, states]
      rfl
  | addTag oid tag =>
      simp only [projectOp, replayOp, replayAddTag, Core.replay, ObjectId.from_u64_to_u64,
        core, Core.mk.injEq, and_true]
      exact ⟨rfl, state_of_ensure e _ oid _ rfl rfl⟩
  | removeTag oid tag =>
      have unfolded : e.replayOp env (projectOp (.removeTag oid tag)) = e.replayRemoveTag oid tag :=
        rfl
      rw [unfolded, replayRemoveTag, Core.replay, known_core]
      cases e.hasRecord oid with
      | true => rfl
      | false => rfl
  | setAttr oid key value =>
      simp only [projectOp, replayOp, replaySetAttr, Core.replay, ObjectId.from_u64_to_u64,
        core, Core.mk.injEq, and_true]
      exact ⟨rfl, state_of_ensure e _ oid _ rfl rfl⟩
  | removeAttr oid key valueHash => rfl
  | addRelation oid predicate target =>
      simp only [projectOp, replayOp, replayAddRelation, Core.replay, ObjectId.from_u64_to_u64,
        core, Core.mk.injEq, true_and, and_true]
      exact state_of_ensure e _ oid _ rfl rfl
  | removeRelation oid predicate target => rfl
  | writeBlob oid contentHash size =>
      simp only [projectOp, replayOp, replayWriteBlob, Core.replay, ObjectId.from_u64_to_u64,
        core, Core.mk.injEq, true_and, and_true]
      rw [← core]
      have ensured := state_of_ensure e { e with objectTable := e.ensureRecord oid } oid _
        rfl rfl
      rw [← ensured]
      exact state_of_update _ _ oid _ rfl (fun _ => rfl)

end Engine

end Mimisbrunnr
