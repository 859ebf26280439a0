import Mimisbrunnr.Disk.Mutations

/-!
# Failed durable mutations

A mutation that is refused before the engine changes leaves everything but the
clock as it was. One that fails in the append leaves the engine changed: the
log ring has refused an entry for a mutation that is already in force.
-/

namespace Mimisbrunnr

set_option autoImplicit false

open Mimisbrunnr.Lib.ByteStore
open Mimisbrunnr.Lib.FiniteMap
open Mimisbrunnr.Ontology
open Mimisbrunnr.Storage
open Mimisbrunnr.Types
open Mimisbrunnr.Wal

namespace Mutation

/-- The object a mutation needs a record of. -/
def subject : Mutation → Option ObjectId
  | createObject => none
  | deleteObject oid => some oid
  | addTag oid _ => some oid
  | removeTag oid _ => some oid
  | setAttr oid _ _ => some oid
  | removeAttr oid _ _ => some oid
  | addRelation oid _ _ => some oid
  | removeRelation oid _ _ => some oid
  | writeBlob oid _ => some oid

def plaintext : Mutation → Option (List UInt8)
  | writeBlob _ plaintext => some plaintext
  | _ => none

end Mutation

namespace Engine

/-- The object has no record, or the transform refuses the bytes. -/
def refuses (env : Env) (e : Engine) (mutation : Mutation) : Bool :=
  mutation.subject.any (fun oid => !e.hasRecord oid) ||
    mutation.plaintext.any fun bytes => !(e.transform.apply env.codecs bytes).isOk

theorem apply_missing (env : Env) (e : Engine) (mutation : Mutation) (reading : Option Int64)
    (oid : ObjectId) (named : mutation.subject = some oid) (missing : e.hasRecord oid = false) :
    e.apply env mutation reading = (.error (.objectNotFound oid), e) := by
  cases mutation <;> simp only [Mutation.subject, Option.some.injEq, reduceCtorEq] at named <;>
    subst named <;>
    simp [apply, logged, deleteObject, addTag, removeTag, setAttr, removeAttr, addRelation,
      removeRelation, writeBlob, missing, Except.map]

theorem apply_refused (env : Env) (e : Engine) (mutation : Mutation) (reading : Option Int64)
    (refused : e.refuses env mutation = true) :
    (∃ err, (e.apply env mutation reading).1 = .error err) ∧
      ∃ clock, (e.apply env mutation reading).2 = { e with clock := clock } := by
  cases named : mutation.subject with
  | none => cases mutation <;> simp [refuses, Mutation.subject, Mutation.plaintext] at refused named
  | some oid =>
      cases present : e.hasRecord oid with
      | false =>
          rw [apply_missing env e mutation reading oid named present]
          exact ⟨⟨_, rfl⟩, e.clock, rfl⟩
      | true =>
          -- only the transform is left to refuse
          cases mutation <;> simp [refuses, named, present, Mutation.plaintext] at refused
          next subject plaintext =>
            cases named
            cases transformed : e.transform.apply env.codecs plaintext with
            | ok result => simp [transformed, Except.isOk, Except.toBool] at refused
            | error err =>
                simp only [apply, logged, writeBlob, present, transformed, if_true]
                exact ⟨⟨_, rfl⟩, (e.clock.now reading).2, rfl⟩

/-- A mutation that is not refused succeeds and is recorded under the time of the clock. -/
theorem apply_accepted (env : Env) (e : Engine) (mutation : Mutation) (reading : Option Int64)
    (accepted : e.refuses env mutation = false) :
    ∃ op, (e.apply env mutation reading).1 = .ok op ∧
      (e.apply env mutation reading).2.oplog = e.oplog.record op 0 (e.clock.now reading).1 := by
  cases mutation with
  | createObject => exact ⟨_, rfl, rfl⟩
  | writeBlob oid plaintext =>
      have facts : e.hasRecord oid = true ∧
          (e.transform.apply env.codecs plaintext).isOk = true := by
        simpa [refuses, Mutation.subject, Mutation.plaintext] using accepted
      cases transformed : e.transform.apply env.codecs plaintext with
      | error err =>
          rw [transformed] at facts
          cases facts.2
      | ok result =>
          simp only [apply, logged, writeBlob, facts.1, transformed, if_true]
          exact ⟨_, rfl, rfl⟩
  | _ oid =>
      have present : e.hasRecord oid = true := by
        simpa [refuses, Mutation.subject, Mutation.plaintext] using accepted
      simp only [apply, logged, deleteObject, addTag, removeTag, setAttr, removeAttr, addRelation,
        removeRelation, present, if_true]
      exact ⟨_, rfl, rfl⟩

end Engine

namespace DiskEngine

/-- The same to every later read, query and commit: only the clock may differ. -/
structure SameView (before after : DiskEngine) : Prop where
  engine : ∃ clock, after.engine = { before.engine with clock := clock }
  blobs : after.blobs = before.blobs
  wal : after.wal = before.wal
  device : after.device = before.device
  readOnly : after.readOnly = before.readOnly

def refuses (env : DiskEnv) (d : DiskEngine) (mutation : Mutation) : Bool :=
  d.readOnly || d.engine.refuses env.toEnv mutation

theorem engine_append_wal (env : DiskEnv) (d : DiskEngine) (op : OpKind)
    (reading : Option Int64) :
    ∃ clock, (d.appendWal env op reading).2.engine = { d.engine with clock := clock } := by
  unfold appendWal
  split
  · exact ⟨d.engine.clock, rfl⟩
  · exact ⟨(d.engine.clock.now reading).2, rfl⟩

/-- A writable pool holds the mutated engine, whatever the append returns. -/
theorem engine_durably {α : Type} (env : DiskEnv) (d : DiskEngine)
    (mutated : Except EngineError α × Engine)
    (store : α → FMap Nat (List UInt8) → FMap Nat (List UInt8)) (entry : α → OpKind)
    (reading : Option Int64) (writable : d.readOnly = false) :
    ∃ clock, (d.durably env mutated store entry reading).2.engine =
      { mutated.2 with clock := clock } := by
  unfold durably
  rw [writable]
  simp only [Bool.false_eq_true, if_false]
  split
  · next err engine => exact ⟨engine.clock, rfl⟩
  · next result engine => exact engine_append_wal env _ (entry result) reading

/-- A failed mutation of the engine is the last thing that happens. -/
theorem durably_failed {α : Type} (env : DiskEnv) (d : DiskEngine)
    (mutated : Except EngineError α × Engine)
    (store : α → FMap Nat (List UInt8) → FMap Nat (List UInt8)) (entry : α → OpKind)
    (reading : Option Int64) (err : EngineError) (failed : mutated.1 = .error err)
    (kept : ∃ clock, mutated.2 = { d.engine with clock := clock }) :
    SameView d (d.durably env mutated store entry reading).2 := by
  unfold durably
  split
  · exact ⟨⟨d.engine.clock, rfl⟩, rfl, rfl, rfl, rfl⟩
  · split
    · exact ⟨kept, rfl, rfl, rfl, rfl⟩
    · cases failed

theorem durably_read_only {α : Type} (env : DiskEnv) (d : DiskEngine)
    (mutated : Except EngineError α × Engine)
    (store : α → FMap Nat (List UInt8) → FMap Nat (List UInt8)) (entry : α → OpKind)
    (reading : Option Int64) (fixed : d.readOnly = true) :
    (d.durably env mutated store entry reading).2 = d := by
  simp [durably, fixed]

theorem apply_same_view (env : DiskEnv) (d : DiskEngine) (mutation : Mutation)
    (readings : Readings) (refused : d.refuses env mutation = true) :
    SameView d (d.apply env mutation readings).2 := by
  rw [apply_durably]
  cases fixed : d.readOnly with
  | true =>
      have kept := durably_read_only env d (d.engine.apply env.toEnv mutation readings.mutation)
        (fun _ _ => d.stored env.toEnv mutation) id readings.append fixed
      simp only [outcome, kept]
      exact ⟨⟨d.engine.clock, rfl⟩, rfl, rfl, rfl, rfl⟩
  | false =>
      have byEngine : d.engine.refuses env.toEnv mutation = true := by
        simpa [refuses, fixed] using refused
      have facts := Engine.apply_refused env.toEnv d.engine mutation readings.mutation byEngine
      cases facts.1 with
      | intro err failed => exact durably_failed env d _ _ _ _ err failed facts.2

/-- A mutation that is not refused is in the log of the engine afterwards,
whatever the append returns. -/
theorem apply_recorded (env : DiskEnv) (d : DiskEngine) (mutation : Mutation)
    (readings : Readings) (accepted : d.refuses env mutation = false) :
    ∃ op, (d.apply env mutation readings).2.engine.oplog =
      d.engine.oplog.record op 0 (d.engine.clock.now readings.mutation).1 := by
  have writable : d.readOnly = false := (Bool.or_eq_false_iff.mp accepted).1
  have byEngine : d.engine.refuses env.toEnv mutation = false := (Bool.or_eq_false_iff.mp accepted).2
  rw [apply_durably]
  cases engine_durably env d (d.engine.apply env.toEnv mutation readings.mutation)
    (fun _ _ => d.stored env.toEnv mutation) id readings.append writable with
  | intro clock engine =>
      cases Engine.apply_accepted env.toEnv d.engine mutation readings.mutation byEngine with
      | intro op facts =>
          refine ⟨op, ?_⟩
          simp only [outcome, engine]
          exact facts.2

def FreshTime (d : DiskEngine) (reading : Option Int64) : Prop :=
  ∀ entry ∈ d.engine.oplog.entries, entry.timestamp ≠ (d.engine.clock.now reading).1

/-- A failed mutation changes nothing if it was refused at its entry: the pool is
read-only, its object has no record or its bytes do not pass the transform. It
changes nothing only then, as the log of the engine shows. -/
theorem failed_mutation_changes_nothing (env : DiskEnv) (d : DiskEngine) (mutation : Mutation)
    (readings : Readings) (err : EngineError)
    (_failed : (d.apply env mutation readings).1 = .error err) :
    (d.refuses env mutation = true → SameView d (d.apply env mutation readings).2) ∧
      (d.FreshTime readings.mutation → SameView d (d.apply env mutation readings).2 →
        d.refuses env mutation = true) := by
  refine ⟨apply_same_view env d mutation readings, ?_⟩
  intro unused same
  cases refused : d.refuses env mutation with
  | true => rfl
  | false =>
      cases apply_recorded env d mutation readings refused with
      | intro op recorded =>
          cases same.engine with
          | intro clock engine =>
              have log : d.engine.oplog = d.engine.oplog.record op 0
                  (d.engine.clock.now readings.mutation).1 := by
                rw [← recorded, engine]
              have newest : { timestamp := (d.engine.clock.now readings.mutation).1
                              lsn := 0
                              op := op } ∈ d.engine.oplog.entries := by
                rw [log]
                simp [OpLog.record]
              exact absurd rfl (unused _ newest)

def wideValue : Value := .blob (List.replicate 4100 0)

/-- The CBOR payloads of the creation of the first object and of its wide attribute. -/
def widePayloads : List (WalOp × List UInt8) :=
  [(.createObject 0x0001000000000001 0 0,
      [0xa3, 0x63, 0x6f, 0x69, 0x64, 0x1b, 0x00, 0x01, 0x00, 0x00, 0x00, 0x00, 0x00, 0x01,
        0x6a, 0x67, 0x65, 0x6e, 0x65, 0x72, 0x61, 0x74, 0x69, 0x6f, 0x6e, 0x00, 0x6a, 0x63,
        0x72, 0x65, 0x61, 0x74, 0x65, 0x64, 0x5f, 0x6e, 0x73, 0x00]),
    (.setAttr 0x0001000000000001 7 wideValue,
      [0xa3, 0x63, 0x6f, 0x69, 0x64, 0x1b, 0x00, 0x01, 0x00, 0x00, 0x00, 0x00, 0x00, 0x01,
        0x63, 0x6b, 0x65, 0x79, 0x07, 0x65, 0x76, 0x61, 0x6c, 0x75, 0x65, 0xa1, 0x64, 0x42,
        0x6c, 0x6f, 0x62, 0x99, 0x10, 0x04] ++ List.replicate 4100 0x00)]

def diskSample : DiskEnv :=
  { Env.sample with
    hash := fun value => if value = wideValue then 0x2d1da98375fee9ff else sampleHash value
    codec := WalCodec.ofTable widePayloads (by decide +kernel)
    crc := crc32c }

/-- A device of 64 MiB that was never written. -/
def blankDevice : Device :=
  { bytes := fun _ => 0
    capacity := 64 * 1024 * 1024
    readOnly := false
    faults := [] }

/-- A pool of node 1 after its format, with the ring where the pool layout puts it. -/
def freshPool : DiskEngine :=
  { engine := Engine.new 1
    blobs := ∅
    wal := Wal.formatted crc32c (64 * 1024) (1024 * 1024)
    device := (Wal.format crc32c blankDevice (64 * 1024) (1024 * 1024)).2
    readOnly := false }

def noReadings : Readings :=
  { mutation := none
    append := none }

theorem missing_object_changes_nothing :
    (freshPool.apply diskSample (.addTag firstObject 7) noReadings).1 =
        .error (.objectNotFound firstObject) ∧
      SameView freshPool (freshPool.apply diskSample (.addTag firstObject 7) noReadings).2 := by
  have failed : (freshPool.apply diskSample (.addTag firstObject 7) noReadings).1 =
      .error (.objectNotFound firstObject) := by rfl
  exact ⟨failed, (failed_mutation_changes_nothing diskSample freshPool (.addTag firstObject 7)
    noReadings _ failed).1 (by decide +kernel)⟩

def withObject : DiskEngine := (freshPool.createObject diskSample noReadings).2

set_option maxRecDepth 200000 in
/-- The attribute is found although its mutation failed. -/
theorem wide_attribute_kept :
    (withObject.apply diskSample (.setAttr firstObject 7 wideValue) noReadings).1 =
        .error (.wal (.payloadTooLarge 4134 4052)) ∧
      ¬ ((withObject.apply diskSample (.setAttr firstObject 7 wideValue)
            noReadings).2.engine.indices.kv.lookup diskSample.hash 7 wideValue =
          withObject.engine.indices.kv.lookup diskSample.hash 7 wideValue) := by
  decide +kernel

end DiskEngine

end Mimisbrunnr
