import Mimisbrunnr.Engine.Replay
import Mimisbrunnr.Wal.Ring

/-!
# Durable mutations

The engine on a disk. A mutation is applied to the engine in memory first and
then appended to the log ring; the append reads the clock a second time, so each
mutation takes two readings of the system clock. What an append can refuse is
only known after the engine has changed.
-/

namespace Mimisbrunnr

set_option autoImplicit false

open Mimisbrunnr.Lib.FiniteMap
open Mimisbrunnr.Storage
open Mimisbrunnr.Transform
open Mimisbrunnr.Types
open Mimisbrunnr.Wal

/-- The external functions of the engine on a disk. -/
structure DiskEnv extends Env where
  codec : WalCodec
  crc : Crc

/-- The clock readings of a durable mutation: its own and that of the append. -/
structure Readings where
  mutation : Option Int64
  append : Option Int64
deriving DecidableEq

structure DiskEngine where
  engine : Engine
  blobs : FMap Nat (List UInt8)
  wal : Wal
  device : Device
  readOnly : Bool

namespace DiskEngine

/-- The clock is read before the ring checks anything. -/
def appendWal (env : DiskEnv) (d : DiskEngine) (op : OpKind) (reading : Option Int64) :
    Except EngineError UInt64 × DiskEngine :=
  match env.codec.encode (projectOp op) with
  | .error err => (.error (.wal err), d)
  | .ok payload =>
      let (ts, clock) := d.engine.clock.now reading
      let appended := d.wal.appendRaw env.crc d.device (projectOp op).kind payload ts 0
      (appended.1.mapError EngineError.wal,
        { d with
          engine := { d.engine with clock := clock }
          wal := appended.2.1
          device := appended.2.2 })

/-- A mutation of the engine, if the pool is writable, and then its log entry. -/
def durably {α : Type} (env : DiskEnv) (d : DiskEngine) (mutated : Except EngineError α × Engine)
    (store : α → FMap Nat (List UInt8) → FMap Nat (List UInt8)) (entry : α → OpKind)
    (reading : Option Int64) : Except EngineError α × DiskEngine :=
  if d.readOnly then (.error .readOnly, d)
  else
    match mutated with
    | (.error err, engine) => (.error err, { d with engine := engine })
    | (.ok result, engine) =>
        let applied := { d with engine := engine, blobs := store result d.blobs }
        let appended := applied.appendWal env (entry result) reading
        (appended.1.map fun _ => result, appended.2)

def createObject (env : DiskEnv) (d : DiskEngine) (readings : Readings) :
    Except EngineError ObjectId × DiskEngine :=
  d.durably env
    (.ok (d.engine.createObject readings.mutation).1, (d.engine.createObject readings.mutation).2)
    (fun _ blobs => blobs) .createObject readings.append

def deleteObject (env : DiskEnv) (d : DiskEngine) (oid : ObjectId) (readings : Readings) :
    Except EngineError Unit × DiskEngine :=
  d.durably env (d.engine.deleteObject env.toEnv oid readings.mutation) (fun _ blobs => blobs)
    (fun _ => .deleteObject oid) readings.append

def addTag (env : DiskEnv) (d : DiskEngine) (oid : ObjectId) (tag : TagId) (readings : Readings) :
    Except EngineError Unit × DiskEngine :=
  d.durably env (d.engine.addTag oid tag readings.mutation) (fun _ blobs => blobs)
    (fun _ => .addTag oid tag) readings.append

def removeTag (env : DiskEnv) (d : DiskEngine) (oid : ObjectId) (tag : TagId)
    (readings : Readings) : Except EngineError Unit × DiskEngine :=
  d.durably env (d.engine.removeTag oid tag readings.mutation) (fun _ blobs => blobs)
    (fun _ => .removeTag oid tag) readings.append

def setAttr (env : DiskEnv) (d : DiskEngine) (oid : ObjectId) (key : TagId) (value : Value)
    (readings : Readings) : Except EngineError Unit × DiskEngine :=
  d.durably env (d.engine.setAttr env.toEnv oid key value readings.mutation)
    (fun _ blobs => blobs) (fun _ => .setAttr oid key value) readings.append

def removeAttr (env : DiskEnv) (d : DiskEngine) (oid : ObjectId) (key : TagId)
    (valueHash : UInt64) (readings : Readings) : Except EngineError Unit × DiskEngine :=
  d.durably env (d.engine.removeAttr env.toEnv oid key valueHash readings.mutation)
    (fun _ blobs => blobs) (fun _ => .removeAttr oid key valueHash) readings.append

def addRelation (env : DiskEnv) (d : DiskEngine) (oid : ObjectId) (predicate : TagId)
    (target : ObjectId) (readings : Readings) : Except EngineError Unit × DiskEngine :=
  d.durably env (d.engine.addRelation oid predicate target readings.mutation)
    (fun _ blobs => blobs) (fun _ => .addRelation oid predicate target) readings.append

def removeRelation (env : DiskEnv) (d : DiskEngine) (oid : ObjectId) (predicate : TagId)
    (target : ObjectId) (readings : Readings) : Except EngineError Unit × DiskEngine :=
  d.durably env (d.engine.removeRelation oid predicate target readings.mutation)
    (fun _ blobs => blobs) (fun _ => .removeRelation oid predicate target) readings.append

/-- The transformed bytes go into the map of blobs before the log entry is written. -/
def writeBlob (env : DiskEnv) (d : DiskEngine) (oid : ObjectId) (plaintext : List UInt8)
    (readings : Readings) : Except EngineError TransformResult × DiskEngine :=
  d.durably env (d.engine.writeBlob env.toEnv oid plaintext readings.mutation)
    (fun result blobs => blobs.insert oid.localSeq result.data)
    (fun result => .writeBlob oid result.contentHash result.originalSize) readings.append

def readBlob (d : DiskEngine) (oid : ObjectId) : Option (List UInt8) := d.blobs.lookup oid.localSeq

def outcome {α : Type} (result : Except EngineError α × DiskEngine) :
    Except EngineError Unit × DiskEngine :=
  (result.1.map fun _ => (), result.2)

def apply (env : DiskEnv) (d : DiskEngine) (mutation : Mutation) (readings : Readings) :
    Except EngineError Unit × DiskEngine :=
  match mutation with
  | .createObject => outcome (d.createObject env readings)
  | .deleteObject oid => outcome (d.deleteObject env oid readings)
  | .addTag oid tag => outcome (d.addTag env oid tag readings)
  | .removeTag oid tag => outcome (d.removeTag env oid tag readings)
  | .setAttr oid key value => outcome (d.setAttr env oid key value readings)
  | .removeAttr oid key valueHash => outcome (d.removeAttr env oid key valueHash readings)
  | .addRelation oid predicate target => outcome (d.addRelation env oid predicate target readings)
  | .removeRelation oid predicate target =>
      outcome (d.removeRelation env oid predicate target readings)
  | .writeBlob oid plaintext => outcome (d.writeBlob env oid plaintext readings)

/-- The map of blobs once a mutation has succeeded. -/
def stored (env : Env) (d : DiskEngine) : Mutation → FMap Nat (List UInt8)
  | .writeBlob oid plaintext =>
      match d.engine.transform.apply env.codecs plaintext with
      | .ok result => d.blobs.insert oid.localSeq result.data
      | .error _ => d.blobs
  | _ => d.blobs

private theorem outcome_durably {α : Type} (env : DiskEnv) (d : DiskEngine)
    (mutated : Except EngineError α × Engine)
    (store : α → FMap Nat (List UInt8) → FMap Nat (List UInt8)) (entry : α → OpKind)
    (blobs : FMap Nat (List UInt8)) (reading : Option Int64)
    (same : ∀ result, mutated.1 = .ok result → store result d.blobs = blobs) :
    outcome (d.durably env mutated store entry reading) =
      outcome (d.durably env (Engine.logged entry mutated) (fun _ _ => blobs) id reading) := by
  unfold durably
  split
  · rfl
  · cases mutated with
    | mk result engine =>
        cases result with
        | error err => rfl
        | ok value =>
            simp only [Engine.logged, Except.map, same value rfl, id_eq, outcome]
            cases (appendWal env { d with engine := engine, blobs := blobs } (entry value)
              reading).1 with
            | error err => rfl
            | ok lsn => rfl

/-- Every durable mutation is the mutation of the engine, made durable. -/
theorem apply_durably (env : DiskEnv) (d : DiskEngine) (mutation : Mutation)
    (readings : Readings) :
    d.apply env mutation readings =
      outcome (d.durably env (d.engine.apply env.toEnv mutation readings.mutation)
        (fun _ _ => d.stored env.toEnv mutation) id readings.append) := by
  cases mutation with
  | createObject => exact outcome_durably env d _ _ _ _ _ (fun _ _ => rfl)
  | writeBlob oid plaintext =>
      apply outcome_durably
      intro result ok
      simp only [Engine.writeBlob] at ok
      split at ok
      · split at ok
        · cases ok
        · next other transformed =>
            cases ok
            simp only [stored, transformed]
      · cases ok
  | deleteObject oid => exact outcome_durably env d _ _ _ _ _ (fun _ _ => rfl)
  | addTag oid tag => exact outcome_durably env d _ _ _ _ _ (fun _ _ => rfl)
  | removeTag oid tag => exact outcome_durably env d _ _ _ _ _ (fun _ _ => rfl)
  | setAttr oid key value => exact outcome_durably env d _ _ _ _ _ (fun _ _ => rfl)
  | removeAttr oid key valueHash => exact outcome_durably env d _ _ _ _ _ (fun _ _ => rfl)
  | addRelation oid predicate target => exact outcome_durably env d _ _ _ _ _ (fun _ _ => rfl)
  | removeRelation oid predicate target => exact outcome_durably env d _ _ _ _ _ (fun _ _ => rfl)

end DiskEngine

end Mimisbrunnr
