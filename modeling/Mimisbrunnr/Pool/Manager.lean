import Mathlib.Data.List.MinMax
import Mimisbrunnr.Lib.MachineOrder
import Mimisbrunnr.Lib.SortedEntries
import Mimisbrunnr.Pool.StateRoot
import Mimisbrunnr.Storage.FileDevice
import Mimisbrunnr.Storage.Superblock

/-!
# The pool manager

A pool is a list of disks in the configuration and an open device for each. The
disk with the lowest id is the primary one: it carries the pool state block,
which every change of the pool writes anew. Opening a pool checks the
superblock of every disk and takes the states from the pool state block.

Placement rules do not take part in this.
-/

namespace Mimisbrunnr.Pool

set_option autoImplicit false

open Mimisbrunnr.Lib.FiniteMap
open Mimisbrunnr.Lib.MachineOrder
open Mimisbrunnr.Storage
open Mimisbrunnr.Types

abbrev DiskId := UInt16

abbrev NodeId := UInt16

structure DiskConfigEntry where
  id : DiskId
  path : Path
  mediaType : MediaType
  tier : StorageTier
  capacityBytes : UInt64
deriving DecidableEq, Repr

structure PoolConfig where
  nodeId : NodeId
  disks : List DiskConfigEntry
deriving DecidableEq, Repr

def PoolConfig.primary (config : PoolConfig) : Option DiskConfigEntry :=
  config.disks.argmin DiskConfigEntry.id

/-- What the pool takes from its libraries: the checksum, and the text that stands for
a path. -/
structure Env where
  crc : Crc
  toStringLossy : Path → List UInt8

def poolStateRootOffset : Nat := blockSize * 4

def fmtWalOffset : UInt64 := 64 * 1024

def fmtWalSize : UInt64 := 1024 * 1024

def fmtIndexZoneOffset : UInt64 := fmtWalOffset + fmtWalSize

def fmtIndexZoneSize : UInt64 := 32 * 1024 * 1024

def fmtMetadataZoneOffset : UInt64 := fmtIndexZoneOffset + fmtIndexZoneSize

def fmtMetadataZoneSize : UInt64 := 4 * 1024 * 1024

def fmtBlobZoneOffset : UInt64 := fmtMetadataZoneOffset + fmtMetadataZoneSize

/-- Node and disk in little-endian order, `MIMIPOOL` and zeros. -/
def fsUuidFor (nodeId : NodeId) (diskId : DiskId) : List.Vector UInt8 16 :=
  ⟨[UInt8.ofNat (nodeId.toNat % 256), UInt8.ofNat (nodeId.toNat / 256),
    UInt8.ofNat (diskId.toNat % 256), UInt8.ofNat (diskId.toNat / 256),
    0x4d, 0x49, 0x4d, 0x49, 0x50, 0x4f, 0x4f, 0x4c, 0, 0, 0, 0], rfl⟩

def saturatingSub64 (a b : UInt64) : UInt64 := if b ≤ a then a - b else 0

def saturatingAdd64 (a b : UInt64) : UInt64 :=
  if a.toNat + b.toNat < 2 ^ 64 then a + b else 0xffffffffffffffff

def formatOf (nodeId : NodeId) (entry : DiskConfigEntry) : Superblock.Format :=
  { fsUuid := fsUuidFor nodeId entry.id
    nodeId := nodeId
    diskId := entry.id
    mediaType := entry.mediaType
    tier := entry.tier
    bucketSizeLog2 := 20
    btreeNodeSizeLog2 := 18
    bootstrapBuckets := 64
    walOffset := fmtWalOffset
    walSize := fmtWalSize
    indexZone := { offset := fmtIndexZoneOffset, length := fmtIndexZoneSize, flags := 0, pad := 0 }
    metadataZone :=
      { offset := fmtMetadataZoneOffset, length := fmtMetadataZoneSize, flags := 0, pad := 0 }
    blobZone :=
      { offset := fmtBlobZoneOffset
        length := saturatingSub64 entry.capacityBytes fmtBlobZoneOffset
        flags := 0
        pad := 0 }
    formatVersion := 1 }

structure DiskRuntime where
  config : DiskConfigEntry
  state : DiskState
  usedBytes : UInt64
  device : FileBlockDevice
  superblock : Superblock

def formatDisk (env : Env) (fs : FileSystem) (entry : DiskConfigEntry) (nodeId : NodeId) :
    Except PoolError (FileBlockDevice × Superblock) × FileSystem :=
  let (handle, opened) := fs.openDevice entry.path entry.capacityBytes.toNat
  let (formatted, after) := opened.on handle (Superblock.format env.crc (formatOf nodeId entry))
  match formatted with
  | .error err => (.error (.storage err), after)
  | .ok _ =>
      match Superblock.open env.crc (after.device handle) with
      | .error err => (.error (.storage err), after)
      | .ok sb => (.ok (handle, sb), after)

def openDisk (env : Env) (fs : FileSystem) (entry : DiskConfigEntry) (nodeId : NodeId) :
    Except PoolError (FileBlockDevice × Superblock) × FileSystem :=
  let (handle, opened) := fs.openDevice entry.path 0
  match Superblock.open env.crc (opened.device handle) with
  | .error err => (.error (.storage err), opened)
  | .ok sb =>
      if sb.nodeId ≠ nodeId then
        (.error (.nodeIdMismatch entry.id nodeId sb.nodeId), opened)
      else if sb.diskId ≠ entry.id then
        (.error (.diskIdMismatch entry.id sb.diskId), opened)
      else (.ok (handle, sb), opened)

/-- The two uses of `open_or_format_disk`. -/
def openOrFormatDisk (env : Env) (fs : FileSystem) (entry : DiskConfigEntry) (nodeId : NodeId)
    (format : Bool) : Except PoolError (FileBlockDevice × Superblock) × FileSystem :=
  if format then formatDisk env fs entry nodeId else openDisk env fs entry nodeId

/-- The loop over the configured disks. -/
def openAll (env : Env) (nodeId : NodeId) (format : Bool) :
    List DiskConfigEntry → FMap DiskId DiskRuntime → FileSystem →
      Except PoolError (FMap DiskId DiskRuntime) × FileSystem
  | [], disks, fs => (.ok disks, fs)
  | entry :: rest, disks, fs =>
      match openOrFormatDisk env fs entry nodeId format with
      | (.error err, after) => (.error err, after)
      | (.ok (handle, sb), after) =>
          openAll env nodeId format rest
            (disks.insert entry.id
              { config := entry
                state := .online
                usedBytes := 0
                device := handle
                superblock := sb })
            after

structure PoolManager where
  config : PoolConfig
  disks : FMap DiskId DiskRuntime

namespace PoolManager

def describe (env : Env) (rt : DiskRuntime) : Except PoolError DiskDescriptorOnDisk := do
  let path := env.toStringLossy rt.config.path
  if diskPathInlineLen < path.length then
    .error (.diskPathTooLong path.length diskPathInlineLen)
  else
    let d ← DiskDescriptorOnDisk.new rt.config.id rt.config.mediaType rt.config.tier rt.state
      rt.config.capacityBytes path
    .ok { d with usedBytes := rt.usedBytes }

def stateRoot (env : Env) (mgr : PoolManager) : Except PoolError PoolStateRoot := do
  let wire ← (toSorted mgr.disks).mapM fun row => describe env row.2
  { PoolStateRoot.newBlank with clusterNodeCount := 1 }.setInlineDisks wire

def writePoolStateRoot (env : Env) (mgr : PoolManager) (fs : FileSystem) :
    Except PoolError Unit × FileSystem :=
  match mgr.config.primary with
  | none => (.error .emptyPool, fs)
  | some primary =>
      match mgr.stateRoot env with
      | .error err => (.error err, fs)
      | .ok psr =>
          match mgr.disks.lookup primary.id with
          | none => (.error (.diskNotFound primary.id), fs)
          | some rt =>
              fs.on rt.device
                (DeviceM.mapError PoolError.storage do
                  psr.write env.crc poolStateRootOffset
                  DeviceM.sync)

def firstDuplicate : List DiskConfigEntry → List DiskId → Option DiskId
  | [], _ => none
  | entry :: rest, seen =>
      if entry.id ∈ seen then some entry.id else firstDuplicate rest (entry.id :: seen)

def create (env : Env) (config : PoolConfig) (fs : FileSystem) :
    Except PoolError PoolManager × FileSystem :=
  if config.disks = [] then (.error .emptyPool, fs)
  else if poolStateRootInlineDisks < config.disks.length then
    (.error (.diskOverflowUnsupported config.disks.length poolStateRootInlineDisks), fs)
  else
    match firstDuplicate config.disks [] with
    | some id => (.error (.duplicateDiskId id), fs)
    | none =>
        match openAll env config.nodeId true config.disks ∅ fs with
        | (.error err, after) => (.error err, after)
        | (.ok disks, formatted) =>
            let mgr : PoolManager := { config := config, disks := disks }
            match mgr.writePoolStateRoot env formatted with
            | (.error err, after) => (.error err, after)
            | (.ok _, after) => (.ok mgr, after)

/-- The states of the descriptors; disks the pool does not have are passed over. -/
def applyDescriptors : List DiskDescriptorOnDisk → FMap DiskId DiskRuntime →
    Except PoolError (FMap DiskId DiskRuntime)
  | [], disks => .ok disks
  | d :: rest, disks => do
      let state ← d.stateTyped
      applyDescriptors rest
        (update disks d.diskId fun rt => { rt with state := state, usedBytes := d.usedBytes })

def «open» (env : Env) (config : PoolConfig) (fs : FileSystem) :
    Except PoolError PoolManager × FileSystem :=
  if config.disks = [] then (.error .emptyPool, fs)
  else
    match openAll env config.nodeId false config.disks ∅ fs with
    | (.error err, after) => (.error err, after)
    | (.ok disks, after) =>
        match config.primary with
        | none => (.error .emptyPool, after)
        | some primary =>
            match disks.lookup primary.id with
            | none => (.error (.diskNotFound primary.id), after)
            | some rt =>
                match PoolStateRoot.read env.crc (after.device rt.device) poolStateRootOffset with
                | .error err => (.error err, after)
                | .ok psr =>
                    match applyDescriptors psr.inlineIter disks with
                    | .error err => (.error err, after)
                    | .ok applied => (.ok { config := config, disks := applied }, after)

def addDisk (env : Env) (mgr : PoolManager) (entry : DiskConfigEntry) (fs : FileSystem) :
    Except PoolError DiskId × PoolManager × FileSystem :=
  if entry.id ∈ mgr.disks then (.error (.duplicateDiskId entry.id), mgr, fs)
  else if poolStateRootInlineDisks < mgr.disks.keys.card + 1 then
    (.error (.diskOverflowUnsupported (mgr.disks.keys.card + 1) poolStateRootInlineDisks), mgr, fs)
  else
    match openOrFormatDisk env fs entry mgr.config.nodeId true with
    | (.error err, after) => (.error err, mgr, after)
    | (.ok (handle, sb), formatted) =>
        let added : PoolManager :=
          { config := { mgr.config with disks := mgr.config.disks ++ [entry] }
            disks := mgr.disks.insert entry.id
              { config := entry
                state := .online
                usedBytes := 0
                device := handle
                superblock := sb } }
        match added.writePoolStateRoot env formatted with
        | (.error err, after) => (.error err, added, after)
        | (.ok _, after) => (.ok entry.id, added, after)

def removeDisk (env : Env) (mgr : PoolManager) (id : DiskId) (fs : FileSystem) :
    Except PoolError Unit × PoolManager × FileSystem :=
  if id ∉ mgr.disks then (.error (.diskNotFound id), mgr, fs)
  else
    let drained : PoolManager :=
      { mgr with disks := update mgr.disks id fun rt => { rt with state := .draining } }
    let (result, after) := drained.writePoolStateRoot env fs
    (result, drained, after)

def commit (env : Env) (mgr : PoolManager) (fs : FileSystem) :
    Except PoolError Unit × FileSystem :=
  mgr.writePoolStateRoot env fs

end PoolManager

structure TierBreakdown where
  diskCount : UInt32
  capacityBytes : UInt64
  usedBytes : UInt64
deriving DecidableEq, Repr

structure PoolStatus where
  nodeId : NodeId
  diskCount : UInt32
  totalCapacity : UInt64
  totalUsed : UInt64
  disks : List (DiskId × DiskState × MediaType × StorageTier × UInt64 × UInt64)
  byTier : FMap StorageTier TierBreakdown
  faultedDisks : List DiskId

def addToTier (tiers : FMap StorageTier TierBreakdown) (rt : DiskRuntime) :
    FMap StorageTier TierBreakdown :=
  let old := (tiers.lookup rt.config.tier).getD ⟨0, 0, 0⟩
  tiers.insert rt.config.tier
    { diskCount := old.diskCount + 1
      capacityBytes := saturatingAdd64 old.capacityBytes rt.config.capacityBytes
      usedBytes := saturatingAdd64 old.usedBytes rt.usedBytes }

def PoolManager.status (mgr : PoolManager) : PoolStatus :=
  let rows := toSorted mgr.disks
  { nodeId := mgr.config.nodeId
    diskCount := UInt32.ofNat rows.length
    totalCapacity :=
      rows.foldl (fun total row => saturatingAdd64 total row.2.config.capacityBytes) 0
    totalUsed := rows.foldl (fun total row => saturatingAdd64 total row.2.usedBytes) 0
    disks := rows.map fun row =>
      (row.1, row.2.state, row.2.config.mediaType, row.2.config.tier, row.2.config.capacityBytes,
        row.2.usedBytes)
    byTier := rows.foldl (fun tiers row => addToTier tiers row.2) ∅
    faultedDisks := (rows.filter fun row => row.2.state = .faulted).map Prod.fst }

inductive Call where
  | addDisk (entry : DiskConfigEntry)
  | removeDisk (id : DiskId)
  | commit
deriving DecidableEq, Repr

/-- The pool after a call that succeeds. -/
def Call.perform (env : Env) (mgr : PoolManager) (fs : FileSystem) :
    Call → Option (PoolManager × FileSystem)
  | .addDisk entry =>
      match mgr.addDisk env entry fs with
      | (.ok _, added, after) => some (added, after)
      | (.error _, _, _) => none
  | .removeDisk id =>
      match mgr.removeDisk env id fs with
      | (.ok _, drained, after) => some (drained, after)
      | (.error _, _, _) => none
  | .commit =>
      match mgr.commit env fs with
      | (.ok _, after) => some (mgr, after)
      | (.error _, _) => none

def performAll (env : Env) : List Call → PoolManager → FileSystem →
    Option (PoolManager × FileSystem)
  | [], mgr, fs => some (mgr, fs)
  | call :: rest, mgr, fs =>
      match call.perform env mgr fs with
      | some (next, after) => performAll env rest next after
      | none => none

end Mimisbrunnr.Pool
