import Mimisbrunnr.Disk.IndexZone

/-!
# Creating, committing and opening

An engine is created on the primary disk of a new pool. A commit saves the index
zone, appends a checkpoint to the log, empties the log up to it and makes a new
root the active one. Opening reads the disk that the files of the host make up at
that moment: the superblock, the log header, the index zone, and at last the
entries of the log that the zone does not have.

The configuration is taken to be read as it was saved.
-/

namespace Mimisbrunnr

set_option autoImplicit false

open Mimisbrunnr.Lib.FiniteMap
open Mimisbrunnr.Lib.Layout
open Mimisbrunnr.Pool
open Mimisbrunnr.Storage
open Mimisbrunnr.Types
open Mimisbrunnr.Wal

structure Checkpoint where
  newRoot : List UInt8
  gcReserveBuckets : UInt32
deriving DecidableEq, Repr

def Checkpoint.fromRoot (root : RootPointer) (gcReserveBuckets : UInt32) : Checkpoint :=
  { newRoot := RootPointer.layout.toBytes root
    gcReserveBuckets := gcReserveBuckets }

/-- What a commit and an opening take from their libraries besides the codings of the zone. -/
structure LifecycleEnv extends ZoneEnv where
  toStringLossy : Path → List UInt8
  checkpointCbor : Cbor Checkpoint

def LifecycleEnv.pool (env : LifecycleEnv) : Pool.Env :=
  { crc := env.crc
    toStringLossy := env.toStringLossy }

namespace MountedEngine

/-- The id of the primary disk and the open disk. -/
def primaryRuntime (pool : PoolManager) (config : PoolConfig) :
    Except PoolError (DiskId × DiskRuntime) :=
  match config.primary with
  | none => .error .emptyPool
  | some primary =>
      match pool.disks.lookup primary.id with
      | none => .error (.diskNotFound primary.id)
      | some rt => .ok (primary.id, rt)

/-- The root that follows the active one, with the trees at their places in the zone. -/
def nextRoot (sb : Superblock) (diskId : UInt16) (lsn : UInt64) : RootPointer :=
  let active := sb.activeRootPointer
  seedRootPointer { active with seq := saturatingAdd64 active.seq 1, lsn := lsn } diskId
    sb.indexZone.offset.toNat

/-- The engine on a primary disk that the pool has formatted. -/
def format (env : LifecycleEnv) (config : PoolConfig) (handle : FileBlockDevice)
    (files : FileSystem) (diskId : DiskId) : Except EngineError MountedEngine :=
  let device := files.device handle
  match Superblock.open env.crc device with
  | .error err => .error (.storage err)
  | .ok sb =>
      match Wal.format env.crc device sb.walOffset.toNat sb.walSize.toNat with
      | (.error err, _) => .error (.wal err)
      | (.ok wal, ringed) =>
          match sb.commitRoot env.crc (nextRoot sb diskId wal.header.nextLsn) ringed with
          | (.error err, _, _) => .error (.storage err)
          | (.ok (), committed, device) =>
              .ok
                { engine := Engine.new config.nodeId
                  blobs := ∅
                  wal := wal
                  device := device
                  readOnly := false
                  side := SideTables.new
                  superblock := committed
                  config := config
                  handle := handle
                  files := files }

def create (env : LifecycleEnv) (config : PoolConfig) (fs : FileSystem) :
    Except EngineError MountedEngine :=
  match PoolManager.create env.pool config fs with
  | (.error err, _) => .error (.pool err)
  | (.ok pool, formatted) =>
      match primaryRuntime pool config with
      | .error err => .error (.pool err)
      | .ok (primaryId, rt) => format env config rt.device formatted primaryId

/-- The clock is read before the payload is encoded. -/
def appendCheckpoint (env : LifecycleEnv) (m : MountedEngine) (root : RootPointer)
    (reading : Option Int64) : Except EngineError UInt64 × MountedEngine :=
  let (ts, clock) := m.engine.clock.now reading
  let timed := { m with engine := { m.engine with clock := clock } }
  match env.checkpointCbor.encode (Checkpoint.fromRoot root 0) with
  | .error text => (.error (.wal (.cborEncode text)), timed)
  | .ok payload =>
      let appended := m.wal.appendRaw env.crc m.device .checkpoint payload ts 0
      (appended.1.mapError EngineError.wal,
        { timed with wal := appended.2.1, device := appended.2.2 })

def committedRoot (env : LifecycleEnv) (m : MountedEngine) : RootPointer :=
  (nextRoot m.superblock m.superblock.diskId m.wal.header.nextLsn).recomputeCrc env.crc

/-- The log is emptied and the root flipped once the checkpoint is appended. -/
def finishCommit (env : LifecycleEnv) (m : MountedEngine) (root : RootPointer) (lsn : UInt64) :
    Except EngineError Unit × MountedEngine :=
  let trimmed := m.wal.checkpoint env.crc m.device lsn
  let emptied := { m with wal := trimmed.2.1, device := trimmed.2.2 }
  match trimmed.1 with
  | .error err => (.error (.wal err), emptied)
  | .ok _ =>
      let flipped := m.superblock.commitRoot env.crc
        (({ root with lsn := lsn } : RootPointer).recomputeCrc env.crc) emptied.device
      let rooted := { emptied with superblock := flipped.2.1, device := flipped.2.2 }
      match flipped.1 with
      | .error err => (.error (.storage err), rooted)
      | .ok () =>
          (.ok (),
            { rooted with
              engine :=
                { m.engine with lastAppliedLsn := max m.engine.lastAppliedLsn lsn.toNat } })

def commit (env : LifecycleEnv) (m : MountedEngine) (reading : Option Int64) :
    Except EngineError Unit × MountedEngine :=
  if m.readOnly then (.error .readOnly, m)
  else
    match m.saveIndexState env.toZoneEnv with
    | (.error err, saved) => (.error err, saved)
    | (.ok (), saved) =>
        let root := saved.committedRoot env
        match saved.appendCheckpoint env root reading with
        | (.error err, appended) => (.error err, appended)
        | (.ok lsn, appended) => appended.finishCommit env root lsn

/-- Checkpoints are passed over, and so is what the engine refuses. -/
def replayEntries (env : LifecycleEnv) :
    List (Except WalError WalEntry) → Engine → Except EngineError Engine
  | [], e => .ok e
  | .error err :: _, _ => .error (.wal err)
  | .ok entry :: rest, e =>
      match WalOpKind.fromU8 entry.header.opKind with
      | .error err => .error (.wal err)
      | .ok kind =>
          if kind = .checkpoint then replayEntries env rest e
          else
            replayEntries env rest
              (e.replayWalOp env.toEnv env.codec kind entry.payload entry.header.lsn.toNat).2

def replayWal (env : LifecycleEnv) (m : MountedEngine) : Except EngineError MountedEngine :=
  let start := Engine.saturatingSucc m.engine.lastAppliedLsn
  (replayEntries env (m.wal.iterFrom env.crc m.device start) m.engine).map fun engine =>
    { m with engine := engine }

/-- An engine without objects on the disk, before its indices are read. -/
def blank (config : PoolConfig) (handle : FileBlockDevice) (files : FileSystem) (sb : Superblock)
    (wal : Wal) : MountedEngine :=
  { engine := Engine.new config.nodeId
    blobs := ∅
    wal := wal
    device := files.device handle
    readOnly := false
    side := SideTables.new
    superblock := sb
    config := config
    handle := handle
    files := files }

/-- The engine that the primary disk holds. -/
def mount (env : LifecycleEnv) (fuel : Nat) (config : PoolConfig) (handle : FileBlockDevice)
    (files : FileSystem) : Option (Except EngineError MountedEngine) :=
  let device := files.device handle
  match Superblock.open env.crc device with
  | .error err => some (.error (.storage err))
  | .ok sb =>
      match Wal.open env.crc device sb.walOffset.toNat sb.walSize.toNat with
      | .error err => some (.error (.wal err))
      | .ok wal =>
          match (blank config handle files sb wal).loadIndexState env.toZoneEnv fuel with
          | none => none
          | some (.error err, _) => some (.error err)
          | some (.ok (), loaded) => some (loaded.replayWal env)

/-- Without enough fuel for the chains of the tag index nothing is known of the outcome. -/
def «open» (env : LifecycleEnv) (fuel : Nat) (config : PoolConfig) (fs : FileSystem) :
    Option (Except EngineError MountedEngine) :=
  match PoolManager.open env.pool config fs with
  | (.error err, _) => some (.error (.pool err))
  | (.ok pool, opened) =>
      match primaryRuntime pool config with
      | .error err => some (.error (.pool err))
      | .ok (_, rt) => mount env fuel config rt.device opened

def current (m : MountedEngine) : FileSystem := m.files.stored m.handle m.device

def ensureOidExists (m : MountedEngine) (oid : ObjectId) : MountedEngine :=
  { m with engine := m.engine.replayCreateObject oid 0 }

def mutate (env : LifecycleEnv) (m : MountedEngine) (mutation : Mutation) (readings : Readings) :
    Except EngineError Unit × MountedEngine :=
  let applied := m.toDiskEngine.apply env.toDiskEnv mutation readings
  (applied.1, { m with toDiskEngine := applied.2 })

/-- A commit and, where it succeeds, an opening of what is on the disk then. -/
def reopen (env : LifecycleEnv) (m : MountedEngine) (reading : Option Int64) (fuel : Nat) :
    Option MountedEngine :=
  match m.commit env reading with
  | (.error _, _) => none
  | (.ok (), saved) =>
      match «open» env fuel saved.config saved.current with
      | some (.ok opened) => some opened
      | _ => none

end MountedEngine

/-- A call of a run: a mutation, a record that is made to exist, or a commit with an opening. -/
inductive DiskCall where
  | mutate (mutation : Mutation) (readings : Readings)
  | ensure (oid : ObjectId)
  | reopen (reading : Option Int64) (fuel : Nat)

namespace MountedEngine

/-- Mutations may fail; a run does not go on behind a commit or an opening that does. -/
def perform (env : LifecycleEnv) (m : MountedEngine) : DiskCall → Option MountedEngine
  | .mutate mutation readings => some (m.mutate env mutation readings).2
  | .ensure oid => some (m.ensureOidExists oid)
  | .reopen reading fuel => m.reopen env reading fuel

end MountedEngine

end Mimisbrunnr
