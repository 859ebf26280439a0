import Mimisbrunnr.Disk.Reopening
import Mimisbrunnr.Pool.FailedChanges

/-!
# Runs of an engine on its disk

Every engine of a run fits to its disk: the engine that was created, the one
after a mutation, whatever the append of its log entry returned, and the one that
was opened after a commit.
-/

namespace Mimisbrunnr

set_option autoImplicit false

open Mimisbrunnr.Lib.FiniteMap
open Mimisbrunnr.Lib.Layout
open Mimisbrunnr.Pool
open Mimisbrunnr.Storage
open Mimisbrunnr.Types
open Mimisbrunnr.Wal

namespace DiskEngine

/-- What a durable mutation leaves of the log: it is as it was, or an entry was appended to it,
with or without success. -/
inductive LogAfter (crc : Crc) (before after : DiskEngine) : Prop where
  | same (wal : after.wal = before.wal) (device : after.device = before.device)
  | appended (kind : WalOpKind) (payload : List UInt8) (ts : HybridTimestamp)
      (result : Except WalError UInt64)
      (ran : before.wal.appendRaw crc before.device kind payload ts 0 =
        (result, after.wal, after.device))

private theorem append_wal_log (env : DiskEnv) (d : DiskEngine) (op : OpKind)
    (reading : Option Int64) :
    LogAfter env.crc d (d.appendWal env op reading).2 := by
  unfold appendWal
  split
  · exact .same rfl rfl
  · exact .appended _ _ _ _ rfl

private theorem apply_log (env : DiskEnv) (d : DiskEngine) (mutation : Mutation)
    (readings : Readings) :
    LogAfter env.crc d (d.apply env mutation readings).2 := by
  rw [apply_durably, outcome]
  unfold durably
  split
  · exact .same rfl rfl
  · split
    · exact .same rfl rfl
    · next result engine _ =>
        have log := append_wal_log env
          { d with engine := engine, blobs := d.stored env.toEnv mutation } result readings.append
        cases log with
        | same wal device => exact .same wal device
        | appended kind payload ts outcome ran => exact .appended kind payload ts outcome ran

/-- On a device without faults a mutation that the engine takes is made durable. -/
theorem apply_healthy (env : DiskEnv) (d : DiskEngine) (mutation : Mutation) (readings : Readings)
    (op : OpKind) (engine : Engine) (payload : List UInt8) (entries : List WalEntry)
    (writable : d.readOnly = false)
    (taken : d.engine.apply env.toEnv mutation readings.mutation = (.ok op, engine))
    (encoded : env.codec.encode (projectOp op) = .ok payload)
    (ring : Wal.Ring env.crc d.wal d.device entries) (healthy : d.device.Healthy)
    (accepted : d.wal.refusal payload 0 = none)
    (more : d.wal.header.header.generation.toNat + 1 < 2 ^ 64) :
    ∃ clock after, d.apply env mutation readings = (.ok (), after) ∧
      after.engine = { engine with clock := clock } ∧ after.blobs = d.stored env.toEnv mutation ∧
      after.readOnly = false ∧ after.device.Healthy ∧
      after.wal.header.header.generation.toNat = d.wal.header.header.generation.toNat + 1 ∧
      clock = (engine.clock.now readings.append).2 := by
  obtain ⟨wal, device, appended, sound, -, generation⟩ := Wal.append_healthy env.crc d.wal
    d.device entries ring healthy (projectOp op).kind payload
    (engine.clock.now readings.append).1 0 accepted more
  rw [apply_durably, taken]
  unfold durably appendWal
  rw [writable]
  simp only [Bool.false_eq_true, if_false, id_eq, encoded]
  rw [appended]
  exact ⟨_, _, rfl, rfl, rfl, rfl, sound, generation, rfl⟩

end DiskEngine

namespace MountedEngine

theorem blank_laid_out (env : LifecycleEnv) (nodeId : NodeId) (entry : DiskConfigEntry)
    (capacity : UInt64) (diskId : UInt16) (lsn : UInt64) :
    LaidOut ((Superblock.newBlank env.crc (formatOf nodeId entry) capacity).withRoot env.crc
      (nextRoot (Superblock.newBlank env.crc (formatOf nodeId entry) capacity) diskId lsn)) := by
  apply laid_out_with_root env.crc _ _ diskId
  all_goals rfl

/-- The superblocks are not where the log is. -/
theorem ring_behind_root (crc : Crc) (wal : Wal) (ringed device : Device)
    (ring : Wal.Ring crc wal ringed []) (base : wal.base = fmtWalOffset.toNat)
    (size : wal.size = fmtWalSize.toNat) (width : device.capacity = ringed.capacity)
    (room : blobStart ≤ ringed.capacity) (bounded : ringed.capacity < 2 ^ 64)
    (outside : ∀ address, 2 * blockSize ≤ address → address < ringed.capacity - blockSize →
      device.bytes address = ringed.bytes address) : Wal.Ring crc wal device [] := by
  have block : blockSize = 4096 := rfl
  have start : blobStart = 4259840 := rfl
  have wal_first : fmtWalOffset.toNat = 65536 := rfl
  have wal_end : fmtWalOffset.toNat + fmtWalSize.toNat = 1114112 := rfl
  apply Wal.ring_moved ring
  · rw [width, base, size]
    omega
  · rw [width]
    exact bounded
  · intro address above below
    rw [base] at above
    rw [base, size] at below
    exact outside address (by omega) (by omega)

private theorem format_ok (env : LifecycleEnv) (config : PoolConfig) (primary : DiskConfigEntry)
    (handle : FileBlockDevice) (files : FileSystem) (diskId : DiskId) (m : MountedEngine)
    (least : config.primary = some primary)
    (holds : HoldsFormat env.pool config.nodeId files primary handle)
    (room : blobStart + 8 ≤ handle.capacity)
    (bounded : (files.file handle.path).length < 2 ^ 64)
    (ok : format env config handle files diskId = .ok m) : OnDisk env m := by
  obtain ⟨capacity, stored⟩ : ∃ capacity, Superblock.Stored env.crc
      (Superblock.newBlank env.crc (formatOf config.nodeId primary) capacity)
      (files.device handle) := holds.stored
  have opened := Superblock.open_stored env.crc _ _ stored
  have block : blockSize = 4096 := rfl
  have start : blobStart = 4259840 := rfl
  have width : (files.device handle).capacity = handle.capacity := rfl
  have length := holds.length
  rw [← holds.path] at length
  unfold format at ok
  simp only [opened] at ok
  have walOffset : (Superblock.newBlank env.crc (formatOf config.nodeId primary)
      capacity).walOffset = fmtWalOffset := rfl
  have walSize : (Superblock.newBlank env.crc (formatOf config.nodeId primary)
      capacity).walSize = fmtWalSize := rfl
  rw [walOffset, walSize] at ok
  split at ok
  · cases ok
  next wal ringed formatted =>
    have wal_end : fmtWalOffset.toNat + fmtWalSize.toNat = 1114112 := rfl
    have wal_first : fmtWalOffset.toNat = 65536 := rfl
    obtain ⟨same, ring⟩ := Wal.format_ok env.crc (files.device handle) ringed fmtWalOffset.toNat
      fmtWalSize.toNat wal (by omega) (by omega) formatted
    have kept := Wal.format_capacity env.crc _ _ _ _ _ formatted
    split at ok
    · cases ok
    next committed device flipped =>
      obtain ⟨newSb, -, sameWidth, outside⟩ := Superblock.commit_root_ok env.crc _ committed _ ringed
        device (by rw [kept, width]; omega) stored.magic flipped
      cases ok
      have base : wal.base = fmtWalOffset.toNat := by rw [same]; rfl
      have size : wal.size = fmtWalSize.toNat := by rw [same]; rfl
      refine ⟨⟨primary, least, holds.path⟩, sameWidth.trans kept, length, bounded, ?_, ⟨[], ?_⟩, base,
        size⟩
      · rw [newSb]
        exact blank_laid_out env config.nodeId primary capacity diskId wal.header.nextLsn
      · apply Wal.tracked_of_ring
        · exact ring_behind_root env.crc wal ringed device ring base size sameWidth
            (by rw [kept, width]; omega) (by rw [kept, width]; omega) outside
        · rw [same]
          rfl

/-- What an engine that was formatted has from its disk. -/
theorem format_facts (env : LifecycleEnv) (config : PoolConfig) (handle : FileBlockDevice)
    (files : FileSystem) (diskId : DiskId) (m : MountedEngine)
    (ok : format env config handle files diskId = .ok m) :
    m.config = config ∧ m.engine = Engine.new config.nodeId ∧ m.blobs = ∅ ∧ m.readOnly = false ∧
      m.handle = handle := by
  unfold format at ok
  dsimp only at ok
  split at ok
  · cases ok
  split at ok
  · cases ok
  split at ok
  · cases ok
  cases ok
  exact ⟨rfl, rfl, rfl, rfl, rfl⟩

theorem create_facts (env : LifecycleEnv) (config : PoolConfig) (fs : FileSystem)
    (m : MountedEngine) (ok : create env config fs = .ok m) :
    m.config = config ∧ m.engine = Engine.new config.nodeId ∧ m.blobs = ∅ ∧ m.readOnly = false := by
  unfold create at ok
  split at ok
  · cases ok
  · split at ok
    · cases ok
    · obtain ⟨same, engine, blobs, writable, -⟩ := format_facts env config _ _ _ m ok
      exact ⟨same, engine, blobs, writable⟩

/-- On a disk without faults the format succeeds and leaves an empty log. -/
theorem format_fresh (env : LifecycleEnv) (config : PoolConfig) (primary : DiskConfigEntry)
    (handle : FileBlockDevice) (files : FileSystem) (diskId : DiskId)
    (holds : HoldsFormat env.pool config.nodeId files primary handle)
    (room : blobStart + 8 ≤ handle.capacity) (bounded : handle.capacity < 2 ^ 64)
    (healthy : (files.device handle).Healthy) :
    ∃ m, format env config handle files diskId = .ok m ∧
      m.wal = Wal.formatted env.crc fmtWalOffset.toNat fmtWalSize.toNat ∧
      m.device.Healthy ∧ Wal.Ring env.crc m.wal m.device [] := by
  obtain ⟨capacity, stored⟩ : ∃ capacity, Superblock.Stored env.crc
      (Superblock.newBlank env.crc (formatOf config.nodeId primary) capacity)
      (files.device handle) := holds.stored
  have opened := Superblock.open_stored env.crc _ _ stored
  have block : blockSize = 4096 := rfl
  have start : blobStart = 4259840 := rfl
  have width : (files.device handle).capacity = handle.capacity := rfl
  have wal_end : fmtWalOffset.toNat + fmtWalSize.toNat = 1114112 := rfl
  obtain ⟨ringed, formatted, ring, still⟩ := Wal.format_ring env.crc (files.device handle)
    fmtWalOffset.toNat fmtWalSize.toNat healthy (by decide) (by omega) (by omega)
  have kept := Wal.format_capacity env.crc _ _ _ _ _ formatted
  rw [width] at kept
  obtain ⟨device, flipped, final⟩ := Superblock.commit_root_healthy env.crc
    (Superblock.newBlank env.crc (formatOf config.nodeId primary) capacity)
    (nextRoot (Superblock.newBlank env.crc (formatOf config.nodeId primary) capacity) diskId
      (Wal.formatted env.crc fmtWalOffset.toNat fmtWalSize.toNat).header.nextLsn) ringed still
    (by omega)
  obtain ⟨-, -, sameWidth, outside⟩ := Superblock.commit_root_ok env.crc _ _ _ ringed device
    (by omega) stored.magic flipped
  unfold format
  simp only [opened]
  have walOffset : (Superblock.newBlank env.crc (formatOf config.nodeId primary)
      capacity).walOffset = fmtWalOffset := rfl
  have walSize : (Superblock.newBlank env.crc (formatOf config.nodeId primary)
      capacity).walSize = fmtWalSize := rfl
  rw [walOffset, walSize, formatted]
  dsimp only
  rw [flipped]
  exact ⟨_, rfl, rfl, final, ring_behind_root env.crc _ ringed device ring rfl rfl sameWidth
    (by omega) (by omega) outside⟩

theorem create_mounted (env : LifecycleEnv) (config : PoolConfig) (fs : FileSystem)
    (m : MountedEngine) (bounded : ∀ path, (fs.file path).length < 2 ^ 64)
    (ok : create env config fs = .ok m) : Mounted env m := by
  unfold create at ok
  split at ok
  · cases ok
  next pool formatted created =>
    obtain ⟨ids, hold⟩ := create_holds env.pool config pool fs formatted created
    have lengths := create_lengths env.pool config pool fs formatted bounded created
    split at ok
    · cases ok
    next primaryId rt running =>
      have facts := format_facts env config rt.device formatted primaryId m ok
      refine ⟨by rw [facts.1]; exact ids, ?_⟩
      intro usable
      have paths := usable.paths
      rw [facts.1] at paths
      unfold primaryRuntime at running
      split at running
      · cases running
      next primary least =>
        obtain ⟨found, here, holds⟩ := hold paths primary least
        rw [here] at running
        cases running
        have room := usable.room
        rw [facts.2.2.2.2] at room
        have far : poolStateRootOffset + 2 * blockSize ≤ blobStart + 8 := by decide
        exact format_ok env config primary rt.device formatted primary.id m least
          (holds (Nat.le_trans far room)) room (lengths _) ok

/-- An engine on the only disk of a new pool, on a host without files and without faults. -/
theorem lone_engine_created (env : LifecycleEnv) (nodeId : NodeId) (disk : DiskConfigEntry)
    (short : (env.toStringLossy disk.path).length ≤ diskPathInlineLen)
    (room : blobStart + 8 ≤ disk.capacityBytes.toNat) :
    ∃ m, create env { nodeId := nodeId, disks := [disk] } emptyHost = .ok m ∧
      m.wal = Wal.formatted env.crc fmtWalOffset.toNat fmtWalSize.toNat ∧
      m.device.Healthy ∧ Wal.Ring env.crc m.wal m.device [] := by
  have block : blockSize = 4096 := rfl
  have start : blobStart = 4259840 := rfl
  have psr : poolStateRootOffset + 2 * blockSize ≤ blobStart := by decide
  obtain ⟨files, pooled⟩ := lone_pool_created env.pool nodeId disk short (by omega) (by omega)
  have least : ({ nodeId := nodeId, disks := [disk] } : PoolConfig).primary = some disk := rfl
  have found : (blankDisks env.pool nodeId [disk] ∅).lookup disk.id =
      some (blankRuntime env.pool nodeId disk) := Finmap.lookup_insert _
  obtain ⟨rt, here, holds⟩ := (create_holds env.pool _ _ emptyHost files pooled).2 (by simp) disk least
  rw [found] at here
  cases here
  have faults := created_faults env.pool _ _ emptyHost files (fun _ => rfl) pooled disk.path
  have healthy : (files.device (handleOf disk)).Healthy := by
    apply sound_device _ _ rfl
    intro fault member
    rw [show (handleOf disk).path = disk.path from rfl, faults] at member
    cases member
  obtain ⟨m, made, facts⟩ := format_fresh env { nodeId := nodeId, disks := [disk] } disk
    (handleOf disk) files disk.id (holds (Nat.le_trans psr (by
      change blobStart ≤ disk.capacityBytes.toNat
      omega))) room disk.capacityBytes.toNat_lt healthy
  refine ⟨m, ?_, facts⟩
  unfold create primaryRuntime
  rw [pooled]
  dsimp only
  rw [least]
  dsimp only
  rw [found]
  exact made

theorem mutate_mounted (env : LifecycleEnv) (m : MountedEngine) (mutation : Mutation)
    (readings : Readings) (mounted : Mounted env m) :
    Mounted env (m.mutate env mutation readings).2 := by
  refine ⟨mounted.ids, ?_⟩
  intro usable
  have on := mounted.disk ⟨usable.room, usable.paths⟩
  have log := DiskEngine.apply_log env.toDiskEnv m.toDiskEngine mutation readings
  have applied : (m.mutate env mutation readings).2 =
      { m with toDiskEngine := (m.toDiskEngine.apply env.toDiskEnv mutation readings).2 } := rfl
  rw [applied]
  generalize (m.toDiskEngine.apply env.toDiskEnv mutation readings).2 = after at log ⊢
  obtain ⟨entries, tracked⟩ := on.tracked
  cases log with
  | same wal device =>
      refine ⟨on.primary, ?_, on.length, on.bounded, on.laid, ⟨entries, ?_⟩, ?_, ?_⟩
      · exact (congrArg Device.capacity device).trans on.capacity
      · dsimp only
        rw [wal, device]
        exact tracked
      · exact (congrArg Wal.base wal).trans on.base
      · exact (congrArg Wal.size wal).trans on.size
  | appended kind payload ts result ran =>
      have stays := Wal.append_tracked kind payload ts 0 result tracked ran
      exact ⟨on.primary, stays.outside.1.trans on.capacity, on.length, on.bounded, on.laid,
        stays.tracked, stays.base.trans on.base, stays.size.trans on.size⟩

theorem ensure_mounted (env : LifecycleEnv) (m : MountedEngine) (oid : ObjectId)
    (mounted : Mounted env m) : Mounted env (m.ensureOidExists oid) := by
  refine ⟨mounted.ids, ?_⟩
  intro usable
  have on := mounted.disk ⟨usable.room, usable.paths⟩
  exact ⟨on.primary, on.capacity, on.length, on.bounded, on.laid, on.tracked, on.base, on.size⟩

theorem reopen_mounted (env : LifecycleEnv) (m opened : MountedEngine) (mounted : Mounted env m)
    (reopened : Reopened env m opened) : Mounted env opened := by
  refine ⟨?_, fun _ => reopened.disk⟩
  rw [reopened.config]
  exact mounted.ids

end MountedEngine

end Mimisbrunnr
