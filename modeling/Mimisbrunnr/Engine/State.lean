import Mimisbrunnr.Engine.Indices
import Mimisbrunnr.Index.BitmapPage
import Mimisbrunnr.Meta.Radix
import Mimisbrunnr.Pool.StateRoot
import Mimisbrunnr.Transform.Pipeline
import Mimisbrunnr.Unix.Projection
import Mimisbrunnr.Wal.Op
import Mimisbrunnr.Watch.Subscriptions

/-!
# The engine

The in-memory state of the engine and its mutations. A mutation that finds its
object has a record advances the clock, changes the indices, the record, the
subscriptions and the operation log, in the order of the source; the tables no
mutation fills (backpointers, bucket allocation, free space, chunks, path
contexts) are left out. Each mutation takes the reading of the system clock as
an argument, with `none` for a reading the program discards.
-/

namespace Mimisbrunnr

set_option autoImplicit false

open Mimisbrunnr.Index
open Mimisbrunnr.Lib.Digraph
open Mimisbrunnr.Lib.FiniteMap
open Mimisbrunnr.Ontology
open Mimisbrunnr.Storage
open Mimisbrunnr.Transform
open Mimisbrunnr.Types
open Mimisbrunnr.Wal
open Mimisbrunnr.Watch

/-- The external functions the engine calls. -/
structure Env where
  topo : Toposort TagId
  hash : ValueHash
  codecs : Codecs

inductive EngineError where
  | wal (err : WalError)
  | metadata (err : Meta.MetaError)
  | index (err : IndexError)
  | ontology (err : OntologyError)
  | pool (err : Pool.PoolError)
  | transform (err : TransformError)
  | watch (err : WatchError)
  | unix (err : Unix.UnixError)
  | cbor (message : String)
  | notImplemented (message : String)
  | storage (err : StorageError)
  | objectNotFound (oid : ObjectId)
  | lsnAlreadyApplied (lsn : Nat)
  | readOnly
deriving DecidableEq, Repr

structure HybridClock where
  nodeId : UInt16
  last : HybridTimestamp
deriving DecidableEq

namespace HybridClock

def new (nodeId : UInt16) : HybridClock :=
  { nodeId := nodeId
    last := { physicalNs := 0, logical := 0, nodeId := nodeId } }

def nowNs (clock : HybridClock) (reading : Option Int64) : Int64 :=
  reading.getD clock.last.physicalNs

def now (clock : HybridClock) (reading : Option Int64) : HybridTimestamp × HybridClock :=
  let next := { clock.last.tick (clock.nowNs reading) with nodeId := clock.nodeId }
  (next, { clock with last := next })

end HybridClock

inductive OpKind where
  | createObject (oid : ObjectId)
  | deleteObject (oid : ObjectId)
  | addTag (oid : ObjectId) (tag : TagId)
  | removeTag (oid : ObjectId) (tag : TagId)
  | setAttr (oid : ObjectId) (key : TagId) (value : Value)
  | removeAttr (oid : ObjectId) (key : TagId) (valueHash : UInt64)
  | addRelation (oid : ObjectId) (predicate : TagId) (target : ObjectId)
  | removeRelation (oid : ObjectId) (predicate : TagId) (target : ObjectId)
  | writeBlob (oid : ObjectId) (contentHash : List UInt8) (size : Nat)
deriving DecidableEq, Repr

structure OpLogEntry where
  timestamp : HybridTimestamp
  lsn : Nat
  op : OpKind
deriving DecidableEq

structure OpLog where
  entries : List OpLogEntry
  maxLen : Nat
deriving DecidableEq

namespace OpLog

def defaultCapacity : Nat := 4096

def new (capacity : Nat) : OpLog :=
  { entries := []
    maxLen := if capacity = 0 then defaultCapacity else capacity }

/-- The oldest entries are dropped until there is room for the new one. -/
def record (log : OpLog) (op : OpKind) (lsn : Nat) (timestamp : HybridTimestamp) : OpLog :=
  { log with
    entries :=
      log.entries.drop (log.entries.length + 1 - log.maxLen) ++
        [{ timestamp := timestamp, lsn := lsn, op := op }] }

end OpLog

structure Engine where
  objectTable : FMap UInt64 ObjectRecord
  locationTable : FMap UInt64 (List UInt8)
  indices : Indices
  ontology : OntologyState
  subscriptions : SubscriptionEngine
  oplog : OpLog
  clock : HybridClock
  nodeId : UInt16
  transform : TransformPipeline
  nextOidLocal : Nat
  nextTagId : Nat
  lastAppliedLsn : Nat

namespace Engine

def new (nodeId : UInt16) : Engine :=
  { objectTable := ∅
    locationTable := ∅
    indices := Indices.new
    ontology := OntologyState.new
    subscriptions := SubscriptionEngine.new
    oplog := OpLog.new OpLog.defaultCapacity
    clock := HybridClock.new nodeId
    nodeId := nodeId
    transform := TransformPipeline.passthrough
    nextOidLocal := 1
    nextTagId := 1
    lastAppliedLsn := 0 }

def saturatingSucc (n : Nat) : Nat := min (n + 1) (2 ^ 64 - 1)

def createObject (e : Engine) (reading : Option Int64) : ObjectId × Engine :=
  let oid := ObjectId.fromParts e.nodeId e.nextOidLocal
  let (ts, clock) := e.clock.now reading
  let record :=
    { (ObjectRecord.new oid.toU64).setState .active with
      createdNs := ts.physicalNs
      modifiedNs := ts.physicalNs }
  (oid,
    { e with
      nextOidLocal := saturatingSucc e.nextOidLocal
      clock := clock
      objectTable := e.objectTable.insert oid.toU64 record
      oplog := e.oplog.record (.createObject oid) 0 ts
      subscriptions := e.subscriptions.onObjectCreated oid 0 ts.physicalNs })

def updateRecord (e : Engine) (oid : ObjectId) (change : ObjectRecord → ObjectRecord) :
    FMap UInt64 ObjectRecord :=
  update e.objectTable oid.toU64 change

def hasRecord (e : Engine) (oid : ObjectId) : Bool := (e.objectTable.lookup oid.toU64).isSome

def deleteObject (env : Env) (e : Engine) (oid : ObjectId) (reading : Option Int64) :
    Except EngineError Unit × Engine :=
  if e.hasRecord oid then
    let (ts, clock) := e.clock.now reading
    (.ok (),
      { e with
        clock := clock
        objectTable := e.updateRecord oid fun record =>
          { record.setState .tombstoned with modifiedNs := ts.physicalNs }
        indices := e.indices.deleteObject env.hash oid
        locationTable := e.locationTable.erase oid.toU64
        oplog := e.oplog.record (.deleteObject oid) 0 ts
        subscriptions := e.subscriptions.onObjectDeleted oid 0 ts.physicalNs })
  else (.error (.objectNotFound oid), e)

def addTag (e : Engine) (oid : ObjectId) (tag : TagId) (reading : Option Int64) :
    Except EngineError Unit × Engine :=
  if e.hasRecord oid then
    let (ts, clock) := e.clock.now reading
    let closureCount := UInt16.ofNat (e.ontology.materialise [tag]).length
    (.ok (),
      { e with
        clock := clock
        indices := e.indices.addTag e.ontology oid tag
        subscriptions := e.subscriptions.onTagAdded oid tag 0 ts.physicalNs
        objectTable := e.updateRecord oid fun record =>
          { record with
            tagCount := saturatingAdd16 record.tagCount closureCount
            modifiedNs := ts.physicalNs }
        oplog := e.oplog.record (.addTag oid tag) 0 ts })
  else (.error (.objectNotFound oid), e)

def removeTag (e : Engine) (oid : ObjectId) (tag : TagId) (reading : Option Int64) :
    Except EngineError Unit × Engine :=
  if e.hasRecord oid then
    let (ts, clock) := e.clock.now reading
    (.ok (),
      { e with
        clock := clock
        indices := e.indices.removeTag e.ontology oid tag
        objectTable := e.updateRecord oid fun record =>
          { record with
            tagCount := saturatingSub16 record.tagCount 1
            modifiedNs := ts.physicalNs }
        subscriptions := e.subscriptions.onTagRemoved oid tag 0 ts.physicalNs
        oplog := e.oplog.record (.removeTag oid tag) 0 ts })
  else (.error (.objectNotFound oid), e)

def setAttr (env : Env) (e : Engine) (oid : ObjectId) (key : TagId) (value : Value)
    (reading : Option Int64) : Except EngineError Unit × Engine :=
  if e.hasRecord oid then
    let (ts, clock) := e.clock.now reading
    (.ok (),
      { e with
        clock := clock
        indices := e.indices.setAttr env.hash oid key value
        objectTable := e.updateRecord oid fun record =>
          { record with
            attrCount := saturatingAdd16 record.attrCount 1
            modifiedNs := ts.physicalNs }
        subscriptions := e.subscriptions.onContentChanged oid 0 ts.physicalNs
        oplog := e.oplog.record (.setAttr oid key value) 0 ts })
  else (.error (.objectNotFound oid), e)

def removeAttr (env : Env) (e : Engine) (oid : ObjectId) (key : TagId) (valueHash : UInt64)
    (reading : Option Int64) : Except EngineError Unit × Engine :=
  if e.hasRecord oid then
    let (ts, clock) := e.clock.now reading
    let found := (e.indices.selectedValue env.hash oid key valueHash).isSome
    (.ok (),
      { e with
        clock := clock
        indices := e.indices.removeAttr env.hash oid key valueHash
        objectTable :=
          if found then
            e.updateRecord oid fun record =>
              { record with
                attrCount := saturatingSub16 record.attrCount 1
                modifiedNs := ts.physicalNs }
          else e.objectTable
        subscriptions := e.subscriptions.onContentChanged oid 0 ts.physicalNs
        oplog := e.oplog.record (.removeAttr oid key valueHash) 0 ts })
  else (.error (.objectNotFound oid), e)

def addRelation (e : Engine) (oid : ObjectId) (predicate : TagId) (target : ObjectId)
    (reading : Option Int64) : Except EngineError Unit × Engine :=
  if e.hasRecord oid then
    let (ts, clock) := e.clock.now reading
    (.ok (),
      { e with
        clock := clock
        indices := e.indices.addRelation oid predicate target
        objectTable := e.updateRecord oid fun record =>
          { record with
            relationCount := saturatingAdd16 record.relationCount 1
            modifiedNs := ts.physicalNs }
        oplog := e.oplog.record (.addRelation oid predicate target) 0 ts })
  else (.error (.objectNotFound oid), e)

def removeRelation (e : Engine) (oid : ObjectId) (predicate : TagId) (target : ObjectId)
    (reading : Option Int64) : Except EngineError Unit × Engine :=
  if e.hasRecord oid then
    let (ts, clock) := e.clock.now reading
    let removed := e.indices.removeRelation oid predicate target
    (.ok (),
      { e with
        clock := clock
        indices := removed.1
        objectTable :=
          if removed.2 then
            e.updateRecord oid fun record =>
              { record with
                relationCount := saturatingSub16 record.relationCount 1
                modifiedNs := ts.physicalNs }
          else e.objectTable
        oplog := e.oplog.record (.removeRelation oid predicate target) 0 ts })
  else (.error (.objectNotFound oid), e)

/-- A refused transform has already advanced the clock. -/
def writeBlob (env : Env) (e : Engine) (oid : ObjectId) (plaintext : List UInt8)
    (reading : Option Int64) : Except EngineError TransformResult × Engine :=
  if e.hasRecord oid then
    let (ts, clock) := e.clock.now reading
    match e.transform.apply env.codecs plaintext with
    | .error err => (.error (.transform err), { e with clock := clock })
    | .ok result =>
        (.ok result,
          { e with
            clock := clock
            objectTable := e.updateRecord oid fun record =>
              { record with
                contentHash := result.contentHash
                blobLength := UInt64.ofNat result.originalSize
                storedSize := UInt64.ofNat result.storedSize
                modifiedNs := ts.physicalNs }
            subscriptions := e.subscriptions.onContentChanged oid 0 ts.physicalNs
            oplog := e.oplog.record
              (.writeBlob oid result.contentHash result.originalSize) 0 ts })
  else (.error (.objectNotFound oid), e)

def highestTag (e : Engine) : Nat := e.ontology.tags.keys.sup id

def nextFreeTagId (e : Engine) : Nat := max e.nextTagId ((e.highestTag + 1) % 2 ^ 32)

def resolveTagName (e : Engine) (name : String) : Option TagId := e.ontology.names.lookup name

def installOntologyModule (env : Env) (e : Engine) (bundle : OntologyModule) :
    Except EngineError InstallResult × Engine :=
  match e.ontology.install env.topo bundle (IdAllocator.startingAt e.nextFreeTagId) with
  | (ontology, .error err, _) => (.error (.ontology err), { e with ontology := ontology })
  | (ontology, .ok res, _) =>
      let installed := { e with ontology := ontology }
      (.ok res,
        { installed with
          nextTagId := max e.nextTagId ((installed.highestTag + 1) % 2 ^ 32)
          subscriptions := e.subscriptions.refreshOntologyLinks ontology })

theorem install_frame (env : Env) (e : Engine) (bundle : OntologyModule) :
    (e.installOntologyModule env bundle).2.indices = e.indices ∧
      (e.installOntologyModule env bundle).2.ontology =
        (e.ontology.install env.topo bundle (.startingAt e.nextFreeTagId)).1 := by
  unfold installOntologyModule
  rcases e.ontology.install env.topo bundle (.startingAt e.nextFreeTagId) with
    ⟨ontology, err | res, allocator⟩
  · exact ⟨rfl, rfl⟩
  · exact ⟨rfl, rfl⟩

def registerTag (e : Engine) (name : String) : TagId × Engine :=
  match e.resolveTagName name with
  | some existing => (existing, e)
  | none =>
      let id := e.nextFreeTagId
      let definition : TagDefinition :=
        { id := id
          name := name
          semantics := .label
          implies := []
          storage := none }
      (id,
        { e with
          nextTagId := min (id + 1) (2 ^ 32 - 1)
          ontology :=
            { e.ontology with
              dag := e.ontology.dag.addTag id
              names := e.ontology.names.insert name id
              tags := e.ontology.tags.insert id definition } })

end Engine

end Mimisbrunnr
