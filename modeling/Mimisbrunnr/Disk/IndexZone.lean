import Mimisbrunnr.Disk.Mutations
import Mimisbrunnr.Index.ChunkIndex
import Mimisbrunnr.Index.ForwardRegion
import Mimisbrunnr.Index.KvRegion
import Mimisbrunnr.Index.RangeRegion
import Mimisbrunnr.Index.TagRegion
import Mimisbrunnr.Meta.Backpointers
import Mimisbrunnr.Meta.Tables
import Mimisbrunnr.Ontology.Region
import Mimisbrunnr.Pool.Manager
import Mimisbrunnr.Storage.Buckets
import Mimisbrunnr.Watch.Region

/-!
# The index zone

Twelve regions at fixed offsets hold the indices and the tables of the engine.
What has no region yet goes into a framed CBOR blob behind them: the path
contexts, the operation log, three counters and the map of blobs. The bitmap pages
of the tag index and the overflow regions of the forward index have areas of their
own behind the start of the blob.
-/

namespace Mimisbrunnr

set_option autoImplicit false

open Mimisbrunnr.Index
open Mimisbrunnr.Lib.FiniteMap
open Mimisbrunnr.Lib.Layout
open Mimisbrunnr.Meta
open Mimisbrunnr.Ontology
open Mimisbrunnr.Pool
open Mimisbrunnr.Storage
open Mimisbrunnr.Types
open Mimisbrunnr.Unix
open Mimisbrunnr.Watch

def chunkIndexRegionOffset : Nat := 0

def kvIndexRegionOffset : Nat := 256 * 1024

def forwardIndexRegionOffset : Nat := 512 * 1024

def tagIndexRegionOffset : Nat := 768 * 1024

def rangeIndexRegionOffset : Nat := 1024 * 1024

def objectTableRegionOffset : Nat := 1280 * 1024

def locationTableRegionOffset : Nat := 1536 * 1024

def ontologyRegionOffset : Nat := 1792 * 1024

def subscriptionsRegionOffset : Nat := 2048 * 1024

def backpointerTableRegionOffset : Nat := 2304 * 1024

def bucketAllocRegionOffset : Nat := 2560 * 1024

def freespaceLruRegionOffset : Nat := 2816 * 1024

def legacyCborBlobOffset : Nat := 3072 * 1024

def tagBitmapAreaOffset : Nat := 4 * 1024 * 1024

def tagBitmapAreaPages : Nat := 1024

def forwardOverflowAreaOffset : Nat := 8 * 1024 * 1024

def forwardOverflowAreaRegions : Nat := 32

/-- The reference to the tree at an offset of the zone. -/
def rootRefFor (diskId : UInt16) (zoneOffset treeOffset : Nat) : BlockRef :=
  { diskId := diskId
    pad := 0
    blockNo := UInt32.ofNat ((zoneOffset + treeOffset) / blockSize)
    generation := 1 }

def seedRootPointer (root : RootPointer) (diskId : UInt16) (zoneOffset : Nat) : RootPointer :=
  { root with
    chunkIndexRoot := rootRefFor diskId zoneOffset chunkIndexRegionOffset
    kvIndexRoot := rootRefFor diskId zoneOffset kvIndexRegionOffset
    forwardIndexRoot := rootRefFor diskId zoneOffset forwardIndexRegionOffset
    tagIndexRoot := rootRefFor diskId zoneOffset tagIndexRegionOffset
    rangeIndexRoot := rootRefFor diskId zoneOffset rangeIndexRegionOffset
    objectTableRoot := rootRefFor diskId zoneOffset objectTableRegionOffset
    locationTableRoot := rootRefFor diskId zoneOffset locationTableRegionOffset
    ontologyRoot := rootRefFor diskId zoneOffset ontologyRegionOffset
    subscriptionsRoot := rootRefFor diskId zoneOffset subscriptionsRegionOffset
    backpointerRoot := rootRefFor diskId zoneOffset backpointerTableRegionOffset }

def isZero (ref : BlockRef) : Bool := ref.blockNo = 0 && ref.generation = 0

/-- The tables of the engine that no mutation fills. -/
structure SideTables where
  chunkIndex : ChunkIndex
  backpointerTable : BackpointerTable
  bucketAlloc : BucketAllocTable
  freespaceLru : FreespaceLru
  pathContexts : PathContextManager

def SideTables.new : SideTables :=
  { chunkIndex := ∅
    backpointerTable := ∅
    bucketAlloc := ∅
    freespaceLru := ∅
    pathContexts := PathContextManager.new }

/-- The engine on its primary disk, with the files of the host as they were when it was opened. -/
structure MountedEngine extends DiskEngine where
  side : SideTables
  superblock : Superblock
  config : PoolConfig
  handle : FileBlockDevice
  files : FileSystem

structure IndexBlob where
  pathContextsBytes : List UInt8
  oplogBytes : List UInt8
  nextOidLocal : Nat
  nextTagId : Nat
  lastAppliedLsn : Nat
  blobs : FMap Nat (List UInt8)

/-- The codings of the regions and of the blob. -/
structure ZoneEnv extends DiskEnv where
  roaring : Roaring
  chunkCbor : Cbor (List (ChunkHashKey × ChunkIndexValue))
  forwardCbor : Cbor (List (ForwardIndexKey × List UInt8))
  tagCbor : Cbor (List (TagIndexKey × TagIndexValue))
  rangeCbor : Cbor (List (RangeIndexKey × List UInt8))
  ontologyCbor : Cbor (List (UInt32 × OntologyImage))
  subscriptionCbor : Cbor (List (SubscriptionsKey × List UInt8))
  recordCbor : Cbor PersistedSub
  record_some_byte : ∀ value bytes, recordCbor.encode value = .ok bytes → bytes ≠ []
  record_short : ∀ value bytes, recordCbor.encode value = .ok bytes → bytes.length < 2 ^ 63
  record_narrow : ∀ bytes value, recordCbor.decode bytes = .ok value → value.id < 2 ^ 64
  backpointerCbor : Cbor (List (BackpointerKey × BackpointerValue))
  bucketCbor : Cbor (List (BucketAllocKey × BucketAllocEntry))
  freespaceCbor : Cbor (List (FreespaceLruKey × Unit))
  pathContextsCbor : Cbor PathContextManager
  oplogCbor : Cbor OpLog
  blobCbor : Cbor IndexBlob

namespace ZoneEnv

def chunk (env : ZoneEnv) : ChunkRegionEnv := { env with cbor := env.chunkCbor }

def kv (env : ZoneEnv) : KvRegionEnv := { env with }

def forward (env : ZoneEnv) : ForwardRegionEnv := { env with cbor := env.forwardCbor }

def tag (env : ZoneEnv) : TagRegionEnv := { env with cbor := env.tagCbor }

def range (env : ZoneEnv) : RangeRegionEnv := { env with cbor := env.rangeCbor }

def ontology (env : ZoneEnv) : OntologyRegionEnv := { env with cbor := env.ontologyCbor }

def subscriptions (env : ZoneEnv) : SubscriptionRegionEnv :=
  { env with
    record := env.recordCbor
    some_byte := env.record_some_byte
    short := env.record_short
    narrow := env.record_narrow
    table := env.subscriptionCbor }

def backpointers (env : ZoneEnv) : BackpointerRegionEnv := { env with cbor := env.backpointerCbor }

def buckets (env : ZoneEnv) : BucketRegionEnv := { env with cbor := env.bucketCbor }

def freespace (env : ZoneEnv) : FreespaceRegionEnv := { env with cbor := env.freespaceCbor }

end ZoneEnv

namespace MountedEngine

def indexBlobMagic : UInt32 := 0x4d495849

def indexBlobNextTagId (e : Engine) : Nat := (e.highestTag + 1) % 2 ^ 32

def buildIndexBlob (env : ZoneEnv) (m : MountedEngine) : Except EngineError IndexBlob := do
  let pathContexts ← (env.pathContextsCbor.encode m.side.pathContexts).mapError fun text =>
    EngineError.unix (.cbor text)
  let oplog ← (env.oplogCbor.encode m.engine.oplog).mapError EngineError.cbor
  .ok
    { pathContextsBytes := pathContexts
      oplogBytes := oplog
      nextOidLocal := m.engine.nextOidLocal
      nextTagId := indexBlobNextTagId m.engine
      lastAppliedLsn := m.engine.lastAppliedLsn
      blobs := m.blobs }

def framed (payload : List UInt8) : List UInt8 :=
  Pod.u32.toBytes indexBlobMagic ++
    (Pod.u32.toBytes (UInt32.ofNat payload.length) ++ payload)

def zoneOffset (m : MountedEngine) : Nat := m.superblock.indexZone.offset.toNat

def zoneLength (m : MountedEngine) : Nat := m.superblock.indexZone.length.toNat

def saveBlob (env : ZoneEnv) (m : MountedEngine) : DeviceM EngineError Unit := do
  let blob ← DeviceM.lift (m.buildIndexBlob env)
  let payload ← DeviceM.lift ((env.blobCbor.encode blob).mapError EngineError.cbor)
  if m.zoneLength - legacyCborBlobOffset < 4 + 4 + payload.length then
    DeviceM.lift (.error (.notImplemented
      ("legacy index blob too large for the index zone — TODO(ENGINE8): " ++
        "migrate the remaining indices off the CBOR blob")))
  else do
    (DeviceM.writeAt (m.zoneOffset + legacyCborBlobOffset) (framed payload)).mapError .storage
    DeviceM.sync.mapError .storage

def saveRegions (env : ZoneEnv) (m : MountedEngine) : DeviceM EngineError Unit := do
  let active := m.superblock.activeRootPointer
  let indices := m.engine.indices
  (m.side.chunkIndex.flushToRegion env.chunk active.chunkIndexRoot.offset).mapError .index
  (indices.kv.flushToRegion env.kv active.kvIndexRoot.offset).mapError .index
  let _ ← (indices.forward.flushToRegion env.forward active.forwardIndexRoot.offset
    (m.zoneOffset + forwardOverflowAreaOffset) forwardOverflowAreaRegions).mapError .index
  let _ ← (indices.tag.flushToRegion env.tag active.tagIndexRoot.offset
    (m.zoneOffset + tagBitmapAreaOffset) tagBitmapAreaPages).mapError .index
  (indices.range.flushToRegion env.range active.rangeIndexRoot.offset).mapError .index
  (flushObjectTable m.engine.objectTable active.objectTableRoot.offset).mapError .metadata
  (flushLocationTable m.engine.locationTable active.locationTableRoot.offset).mapError .metadata
  (m.engine.ontology.flushToRegion env.ontology active.ontologyRoot.offset).mapError .ontology
  (m.engine.subscriptions.flushToRegion env.subscriptions
    active.subscriptionsRoot.offset).mapError .watch
  (m.side.backpointerTable.flushToRegion env.backpointers
    active.backpointerRoot.offset).mapError .metadata
  (m.side.bucketAlloc.flushToRegion env.buckets (m.zoneOffset + bucketAllocRegionOffset)
    0).mapError .storage
  (m.side.freespaceLru.flushToRegion env.freespace
    (m.zoneOffset + freespaceLruRegionOffset)).mapError .storage

def saveZone (env : ZoneEnv) (m : MountedEngine) : DeviceM EngineError Unit :=
  if m.zoneLength < forwardOverflowAreaOffset + forwardOverflowAreaRegions * 256 * 1024 then
    DeviceM.lift (.error (.notImplemented
      ("index zone too small for the fixed-offset layout (needs ≥ 16 MiB for directory regions + " ++
        "tag bitmap area + forward overflow area)")))
  else do
    m.saveRegions env
    m.saveBlob env

def saveIndexState (env : ZoneEnv) (m : MountedEngine) : Except EngineError Unit × MountedEngine :=
  if m.readOnly then (.error .readOnly, m)
  else
    let saved := m.saveZone env m.device
    (saved.1, { m with device := saved.2 })

/-- A tree is loaded from its slot; an empty slot stands for an empty tree. -/
def loadRegion {α ε : Type} (ref : BlockRef) (fallback : α)
    (load : Nat → Option (Except ε α)) (wrap : ε → EngineError) (set : α → MountedEngine) :
    Option (Except EngineError MountedEngine) :=
  if isZero ref then some (.ok (set fallback))
  else (load ref.offset).map fun loaded => (loaded.mapError wrap).map set

/-- Trees are loaded one by one; those before a failure stay loaded. -/
def loadInTurn : List (MountedEngine → Option (Except EngineError MountedEngine)) →
    MountedEngine → Option (Except EngineError Unit × MountedEngine)
  | [], m => some (.ok (), m)
  | load :: rest, m =>
      match load m with
      | none => none
      | some (.error err) => some (.error err, m)
      | some (.ok next) => loadInTurn rest next

def withIndices (m : MountedEngine) (change : Indices → Indices) : MountedEngine :=
  { m with engine := { m.engine with indices := change m.engine.indices } }

/-- Only the walk through the chains of the tag index needs fuel. -/
def regionLoads (env : ZoneEnv) (fuel : Nat) (d : Device) (zoneOffset : Nat) (root : RootPointer)
    (nodeId : UInt16) : List (MountedEngine → Option (Except EngineError MountedEngine)) :=
  [ fun m => loadRegion root.chunkIndexRoot ∅
      (fun at_ => some (ChunkIndex.loadFromRegion env.chunk d at_)) .index
      fun chunkIndex => { m with side := { m.side with chunkIndex } },
    fun m => loadRegion root.kvIndexRoot KvIndex.new
      (fun at_ => some (KvIndex.loadFromRegion env.kv d at_)) .index
      fun kv => m.withIndices fun indices => { indices with kv },
    fun m => loadRegion root.forwardIndexRoot ForwardIndex.new
      (fun at_ => some (ForwardIndex.loadFromRegion env.forward d at_)) .index
      fun forward => m.withIndices fun indices => { indices with forward },
    fun m => loadRegion root.tagIndexRoot TagIndex.new
      (fun at_ => TagIndex.loadFromRegion env.tag fuel d at_) .index
      fun tag => m.withIndices fun indices => { indices with tag },
    fun m => loadRegion root.rangeIndexRoot RangeIndex.new
      (fun at_ => some (RangeIndex.loadFromRegion env.range d at_)) .index
      fun range => m.withIndices fun indices => { indices with range },
    fun m => loadRegion root.objectTableRoot ∅
      (fun at_ => some (loadObjectTable d at_)) .metadata
      fun objectTable => { m with engine := { m.engine with objectTable } },
    fun m => loadRegion root.locationTableRoot ∅
      (fun at_ => some (loadLocationTable d at_ nodeId)) .metadata
      fun locationTable => { m with engine := { m.engine with locationTable } },
    fun m => loadRegion root.ontologyRoot OntologyState.new
      (fun at_ => some (OntologyState.loadFromRegion env.ontology d at_)) .ontology
      fun ontology => { m with engine := { m.engine with ontology } },
    fun m => loadRegion root.subscriptionsRoot SubscriptionEngine.new
      (fun at_ => some (SubscriptionEngine.loadFromRegion env.subscriptions d at_)) .watch
      fun subscriptions => { m with engine := { m.engine with subscriptions } },
    fun m => loadRegion root.backpointerRoot ∅
      (fun at_ => some (BackpointerTable.loadFromRegion env.backpointers d at_)) .metadata
      fun backpointerTable => { m with side := { m.side with backpointerTable } },
    fun m => some ((BucketAllocTable.loadFromRegion env.buckets d
      (zoneOffset + bucketAllocRegionOffset)).mapError .storage |>.map
      fun bucketAlloc => { m with side := { m.side with bucketAlloc } }),
    fun m => some ((FreespaceLru.loadFromRegion env.freespace d
      (zoneOffset + freespaceLruRegionOffset)).mapError .storage |>.map
      fun freespaceLru => { m with side := { m.side with freespaceLru } }) ]

def loadAllRegions (env : ZoneEnv) (fuel : Nat) (m : MountedEngine) (d : Device) (zoneOffset : Nat)
    (root : RootPointer) (nodeId : UInt16) : Option (Except EngineError Unit × MountedEngine) :=
  loadInTurn (regionLoads env fuel d zoneOffset root nodeId) m

/-- A blob that is not there, not recognised or too long for the zone is skipped. -/
def readIndexBlob (env : ZoneEnv) (d : Device) (sb : Superblock) :
    Except EngineError (Option IndexBlob) :=
  let zoneOffset := sb.indexZone.offset.toNat
  let zoneLength := sb.indexZone.length.toNat
  if zoneLength < legacyCborBlobOffset + 8 then .ok none
  else do
    let blobOffset := zoneOffset + legacyCborBlobOffset
    let header ← (d.readAt blobOffset 8).mapError EngineError.storage
    let magic := Pod.u32.ofBytes (header.take 4)
    if magic ≠ indexBlobMagic then .ok none
    else do
      let payloadLength := (Pod.u32.ofBytes (header.drop 4)).toNat
      if zoneLength - legacyCborBlobOffset < payloadLength + 8 then .ok none
      else do
        let payload ← (d.readAt (blobOffset + 8) payloadLength).mapError EngineError.storage
        let blob ← (env.blobCbor.decode payload).mapError EngineError.cbor
        .ok (some blob)

/-- A counter that was ahead is caught up with by a record for the number below it. -/
def caughtUp (e : Engine) (nextOidLocal : Nat) : Engine :=
  if e.nextOidLocal < nextOidLocal then
    e.replayCreateObject (ObjectId.fromParts e.nodeId (nextOidLocal - 1)) 0
  else e

/-- What was saved, unless it cannot be decoded. -/
def restored {α : Type} (cbor : Cbor α) (bytes : List UInt8) (current : α) : α :=
  match cbor.decode bytes with
  | .ok value => value
  | .error _ => current

def applyIndexBlob (env : ZoneEnv) (m : MountedEngine) (blob : IndexBlob) : MountedEngine :=
  let pathContexts := restored env.pathContextsCbor blob.pathContextsBytes m.side.pathContexts
  let oplog := restored env.oplogCbor blob.oplogBytes m.engine.oplog
  let counted := caughtUp { m.engine with oplog } blob.nextOidLocal
  { m with
    side := { m.side with pathContexts }
    engine := { counted with lastAppliedLsn := max counted.lastAppliedLsn blob.lastAppliedLsn } }

def loadBlob (env : ZoneEnv) (m : MountedEngine) : Except EngineError Unit × MountedEngine :=
  match readIndexBlob env m.device m.superblock with
  | .error err => (.error err, m)
  | .ok none => (.ok (), m)
  | .ok (some blob) => (.ok (), applyIndexBlob env { m with blobs := blob.blobs } blob)

def loadIndexState (env : ZoneEnv) (fuel : Nat) (m : MountedEngine) :
    Option (Except EngineError Unit × MountedEngine) :=
  match loadAllRegions env fuel m m.device m.zoneOffset m.superblock.activeRootPointer
      m.engine.nodeId with
  | none => none
  | some (.error err, partly) => some (.error err, partly)
  | some (.ok (), loaded) => some (loaded.loadBlob env)

end MountedEngine

end Mimisbrunnr
