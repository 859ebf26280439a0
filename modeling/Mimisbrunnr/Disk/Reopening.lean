import Mimisbrunnr.Disk.Committed

/-!
# Reopening an engine

A commit and an opening behind it. The opening sees the whole file, which may be
longer than the device of the commit was. It finds what the commit has saved when
the last superblock copy is not written over the end of the blob, and when the
end of a longer file does not hold a superblock that is newer still.
-/

namespace Mimisbrunnr

set_option autoImplicit false

open Mimisbrunnr.Lib.ByteStore
open Mimisbrunnr.Lib.FiniteMap
open Mimisbrunnr.Lib.Layout
open Mimisbrunnr.Meta
open Mimisbrunnr.Pool
open Mimisbrunnr.Storage
open Mimisbrunnr.Types
open Mimisbrunnr.Wal

private theorem leaf_read_congr {α : Type} (shape : LeafShape α) (d e : Device) (offset : Nat)
    (inside : offset + regionSize ≤ d.capacity) (room : offset + regionSize ≤ e.capacity)
    (same : read e.bytes offset regionSize = read d.bytes offset regionSize) :
    Leaf.read shape e offset = Leaf.read shape d offset := by
  have probe : read e.bytes offset 8 = read d.bytes offset 8 := by
    have parts := same
    have split : regionSize = 8 + (regionSize - 8) := by decide
    rw [split, read_add, read_add] at parts
    exact (List.append_inj parts (by simp)).1
  have small : 8 ≤ regionSize := by decide
  rw [Leaf.read, Leaf.read, Device.read_at_ok d offset 8 (by omega),
    Device.read_at_ok e offset 8 (by omega), Device.read_at_ok d offset regionSize inside,
    Device.read_at_ok e offset regionSize room, probe, same]

def NewerThan (sb : Superblock) (found : UInt64 × UInt64 × Superblock) : Prop :=
  sb.activeRootPointer.seq < found.1 ∨
    sb.activeRootPointer.seq = found.1 ∧ sb.activeRootPointer.lsn < found.2.1

private theorem open_newest (crc : Crc) (sb : Superblock) (d : Device)
    (room : blockSize * 3 ≤ d.capacity) (magic : sb.magicFull = superblockMagicFull)
    (root : sb.activeRootPointer.verifyCrc crc = true)
    (first : read d.bytes 0 blockSize = sealed crc Superblock.body sb)
    (second : read d.bytes blockSize blockSize = sealed crc Superblock.body sb)
    (last : ∀ found, Superblock.candidate crc
      (read d.bytes (d.capacity - blockSize) blockSize) = some found → ¬ NewerThan sb found) :
    Superblock.open crc d = .ok sb := by
  have own := Superblock.candidate_sealed crc sb magic root
  have copy (offset : Nat) (inside : offset + blockSize ≤ d.capacity) :
      Superblock.copyAt crc d offset =
        Superblock.candidate crc (read d.bytes offset blockSize) := by
    rw [Superblock.copyAt, Device.read_at_ok d offset blockSize inside]
  rw [Superblock.open, if_neg (Nat.not_lt.mpr room), Superblock.copyOffsets, List.foldl_cons,
    List.foldl_cons, List.foldl_cons, List.foldl_nil, copy 0 (by omega), copy blockSize (by omega),
    copy (d.capacity - blockSize) (by omega), first, second, own]
  have start (found : UInt64 × UInt64 × Superblock) :
      Superblock.newer none (some found) = some found := rfl
  rw [start, newer_same]
  cases end_ : Superblock.candidate crc (read d.bytes (d.capacity - blockSize) blockSize) with
  | none => rfl
  | some found =>
      have older := last found end_
      rw [NewerThan] at older
      rw [Superblock.newer, if_neg older]

namespace MountedEngine

/-- The blob that would be saved now ends before the last superblock copy. -/
def BlobFits (env : LifecycleEnv) (m : MountedEngine) : Prop :=
  ∀ blob payload, m.buildIndexBlob env.toZoneEnv = .ok blob →
    env.blobCbor.encode blob = .ok payload →
      blobStart + (8 + payload.length) ≤ m.handle.capacity - blockSize

/-- The last block of the file, once the last copy is written, holds no superblock that is newer
than the one a commit would write now. -/
def NewestAtEnd (env : LifecycleEnv) (m : MountedEngine) : Prop :=
  ∀ found, Superblock.candidate env.crc
      (read
        (overwrite m.device.bytes (m.device.capacity - blockSize)
          (sealed env.crc Superblock.body (m.committedSuperblock env)))
        ((m.files.file m.handle.path).length - blockSize) blockSize) = some found →
    ¬ NewerThan (m.committedSuperblock env) found

theorem newest_at_end (env : LifecycleEnv) (m : MountedEngine) (on : OnDisk env m)
    (whole : (m.files.file m.handle.path).length = m.handle.capacity) : NewestAtEnd env m := by
  intro found here
  have magic := (committed_laid_out env m on.laid).magic
  have root : (m.committedSuperblock env).activeRootPointer.verifyCrc env.crc = true := by
    rw [committedSuperblock, Superblock.active_with_root]
    exact RootPointer.verify_recompute env.crc _
  have width := Superblock.length_copy env.crc (m.committedSuperblock env)
  have copy := read_overwrite m.device.bytes (m.device.capacity - blockSize)
    (sealed env.crc Superblock.body (m.committedSuperblock env))
  rw [width] at copy
  rw [whole, ← on.capacity, copy, Superblock.candidate_sealed env.crc _ magic root] at here
  cases here
  rw [NewerThan]
  simp

/-- The disk has room for the start of the blob, and no other disk has its file. -/
structure Usable (m : MountedEngine) : Prop where
  room : blobStart + 8 ≤ m.handle.capacity
  paths : (m.config.disks.map DiskConfigEntry.path).Nodup

/-- What holds of every engine of a run. -/
structure Mounted (env : LifecycleEnv) (m : MountedEngine) : Prop where
  ids : (m.config.disks.map DiskConfigEntry.id).Nodup
  disk : Usable m → OnDisk env m

/-- What a reopening finds of the engine before. -/
structure Reopened (env : LifecycleEnv) (m opened : MountedEngine) : Prop where
  objects : ∃ before stored table, flushObjectTable m.engine.objectTable objectTableStart before =
      (.ok (), stored) ∧ loadObjectTable stored objectTableStart = .ok table ∧
    SameObjects opened.engine
      (caughtUp { Engine.new m.config.nodeId with objectTable := table } m.engine.nextOidLocal)
  blobs : opened.blobs = m.blobs
  config : opened.config = m.config
  writable : opened.readOnly = false
  disk : OnDisk env opened

private theorem save_built (env : ZoneEnv) (m : MountedEngine) (d after : Device)
    (ok : m.saveZone env d = (.ok (), after)) :
    ∃ blob payload, m.buildIndexBlob env = .ok blob ∧ env.blobCbor.encode blob = .ok payload := by
  unfold saveZone at ok
  split at ok
  · cases ok
  obtain ⟨⟨⟩, middle, -, ok⟩ := DeviceM.bind_ok _ _ _ _ _ ok
  obtain ⟨blob, _, lifted, ok⟩ := DeviceM.bind_ok _ _ _ _ _ ok
  obtain ⟨built, -⟩ := DeviceM.lift_ok _ _ _ _ lifted
  obtain ⟨payload, _, lifted, ok⟩ := DeviceM.bind_ok _ _ _ _ _ ok
  obtain ⟨encoded, -⟩ := DeviceM.lift_ok _ _ _ _ lifted
  refine ⟨blob, payload, built, ?_⟩
  cases coded : env.blobCbor.encode blob with
  | ok bytes =>
      rw [coded] at encoded
      cases encoded
      rfl
  | error text =>
      rw [coded] at encoded
      cases encoded

private theorem build_index_blob_ok (env : ZoneEnv) (m : MountedEngine) (blob : IndexBlob)
    (built : m.buildIndexBlob env = .ok blob) :
    blob.nextOidLocal = m.engine.nextOidLocal ∧ blob.blobs = m.blobs := by
  unfold buildIndexBlob at built
  simp only [bind, Except.bind] at built
  split at built
  · cases built
  · split at built
    · cases built
    · cases built
      exact ⟨rfl, rfl⟩

private theorem open_mounts (env : LifecycleEnv) (fuel : Nat) (config : PoolConfig)
    (fs : FileSystem)
    (opened : MountedEngine) (ids : (config.disks.map DiskConfigEntry.id).Nodup)
    (ok : «open» env fuel config fs = some (.ok opened)) :
    (config.disks.map DiskConfigEntry.path).Nodup ∧
      ∀ primary, config.primary = some primary → ∃ after, SameFiles fs after ∧
        mount env fuel config (fileDevice fs primary.path) after = some (.ok opened) := by
  unfold «open» at ok
  split at ok
  · cases ok
  next pool after pooled =>
    obtain ⟨same, paths, disks⟩ := open_ok env.pool config pool fs after ids pooled
    refine ⟨paths, ?_⟩
    intro primary least
    obtain ⟨rt, found, device⟩ := disks primary (primary_mem config primary least)
    simp only [primaryRuntime, least, found] at ok
    rw [device] at ok
    exact ⟨after, same, ok⟩

private theorem reopen_steps (env : LifecycleEnv) (m opened : MountedEngine)
    (reading : Option Int64)
    (fuel : Nat) (ok : m.reopen env reading fuel = some opened) :
    ∃ saved, m.commit env reading = (.ok (), saved) ∧
      «open» env fuel saved.config saved.current = some (.ok opened) := by
  unfold reopen at ok
  split at ok
  · cases ok
  next saved committed =>
    split at ok
    · next found here =>
        cases ok
        exact ⟨saved, committed, here⟩
    · cases ok

/-- The superblock that is found on the whole file after a commit. -/
theorem superblock_found (env : LifecycleEnv) (m saved : MountedEngine) (payload : List UInt8)
    (on : OnDisk env m) (committed : Committed env m saved payload) (newest : NewestAtEnd env m)
    (d : Device) (bytes : d.bytes = saved.device.bytes)
    (capacity : d.capacity = (m.files.file m.handle.path).length) :
    Superblock.open env.crc d = .ok (m.committedSuperblock env) := by
  have block : blockSize = 4096 := rfl
  have start : blobStart = 4259840 := rfl
  have inside := committed.inside
  have length : m.device.capacity ≤ d.capacity := by
    rw [capacity, on.capacity]
    exact on.length
  have stored := committed.stored
  obtain ⟨first, second, third⟩ := stored_reads env.crc saved.superblock saved.device stored
  rw [committed.capacity] at third
  rw [committed.superblock] at first second third stored
  rw [← bytes] at first second third
  apply open_newest env.crc _ d (by omega) stored.magic stored.root first second
  have same : read d.bytes (d.capacity - blockSize) blockSize =
      read (overwrite m.device.bytes (m.device.capacity - blockSize)
          (sealed env.crc Superblock.body (m.committedSuperblock env)))
        ((m.files.file m.handle.path).length - blockSize) blockSize := by
    rw [← capacity]
    apply read_congr
    intro address above _
    have copy := Superblock.length_copy env.crc (m.committedSuperblock env)
    by_cases behind : m.device.capacity ≤ address
    · rw [overwrite_outside _ _ _ _ (by omega), bytes, committed.behind address behind]
    · -- the block begins within the last copy
      have place : address =
          m.device.capacity - blockSize + (address - (m.device.capacity - blockSize)) := by omega
      have index : address - (m.device.capacity - blockSize) < blockSize := by omega
      have here := get_read d.bytes (m.device.capacity - blockSize) blockSize _ index
      rw [third] at here
      have there := overwrite_inside m.device.bytes (m.device.capacity - blockSize)
        (address - (m.device.capacity - blockSize))
        (sealed env.crc Superblock.body (m.committedSuperblock env)) (by omega)
      rw [← place] at here there
      exact Option.some.inj (here.symm.trans there)
  rw [same]
  exact newest

/-- The engine that is mounted on the whole file after a commit. -/
theorem mount_committed (env : LifecycleEnv) (m saved opened : MountedEngine)
    (payload : List UInt8) (fuel : Nat) (handle : FileBlockDevice) (files : FileSystem)
    (on : OnDisk env m) (committed : Committed env m saved payload)
    (room : blobStart + (8 + payload.length) ≤ m.device.capacity - blockSize)
    (newest : NewestAtEnd env m)
    (bytes : (files.device handle).bytes = saved.device.bytes)
    (capacity : (files.device handle).capacity = (m.files.file m.handle.path).length)
    (place : handle.path = m.handle.path)
    (length : (files.file handle.path).length = (m.files.file m.handle.path).length)
    (ok : mount env fuel m.config handle files = some (.ok opened)) : Reopened env m opened := by
  have start : blobStart = 4259840 := rfl
  have table : objectTableStart + regionSize = 2686976 := rfl
  have wide : m.device.capacity ≤ (files.device handle).capacity := by
    rw [capacity, on.capacity]
    exact on.length
  have bounded : (files.device handle).capacity < 2 ^ 64 := by
    rw [capacity]
    exact on.bounded
  have rooted := superblock_found env m saved payload on committed newest _ bytes capacity
  have laid := committed_laid_out env m on.laid
  have ring : Wal.Ring env.crc saved.wal (files.device handle) [] := by
    apply Wal.ring_moved committed.ring
    · have inside := committed.ring.log.inside
      rw [committed.capacity] at inside
      omega
    · exact bounded
    · intro address _ _
      rw [bytes]
  have ringed := Wal.open_ring env.crc saved.wal _ [] ring committed.writable
  rw [committed.base, committed.size, ← laid.walOffset, ← laid.walSize] at ringed
  have empty (start : Nat) : saved.wal.iterFrom env.crc (files.device handle) start = [] := by
    rw [Wal.iter_from_log env.crc saved.wal _ [] ring.log start]
    rfl
  obtain ⟨blob, built, encoded⟩ := committed.built
  have blobbed := read_index_blob_ok env.toZoneEnv (files.device handle) _ laid payload blob
    committed.short (by have inside := committed.inside; omega)
    (by rw [bytes]; exact committed.blob room) (env.blobCbor.decode_encode blob payload encoded)
  have loaded := mount_ok env fuel m.config handle files _ saved.wal blob opened rooted laid ringed
    empty blobbed ok
  obtain ⟨counter, blobs⟩ := build_index_blob_ok env.toZoneEnv m blob built
  obtain ⟨before, stored, flushed, agrees⟩ := committed.objects
  obtain ⟨found, read_, same⟩ := loaded.objects
  have width : stored.capacity = m.device.capacity :=
    agrees.capacity.symm.trans committed.capacity
  have inside := committed.inside
  have tables : loadObjectTable (files.device handle) objectTableStart =
      loadObjectTable stored objectTableStart := by
    have leaf := leaf_read_congr objectLeaf stored (files.device handle) objectTableStart
      (by omega) (by omega) (by rw [bytes, read_agrees agrees])
    rw [loadObjectTable, loadObjectTable, leaf]
  have device := loaded.device
  refine ⟨⟨before, stored, found, flushed, tables.symm.trans read_, ?_⟩, loaded.blobs.trans blobs,
    loaded.config, loaded.readOnly, ?_⟩
  · rw [← counter]
    exact same
  · obtain ⟨primary, least, path⟩ := on.primary
    constructor
    · refine ⟨primary, ?_, ?_⟩
      · rw [loaded.config]
        exact least
      · rw [loaded.handle]
        exact place.trans path
    · rw [loaded.device, loaded.handle]
      rfl
    · rw [loaded.handle, loaded.files]
      change handle.capacity ≤ (files.file handle.path).length
      rw [length, ← capacity]
      exact Nat.le_refl _
    · rw [loaded.handle, loaded.files]
      change (files.file handle.path).length < 2 ^ 64
      rw [length]
      exact on.bounded
    · rw [loaded.superblock]
      exact laid
    · refine ⟨[], ?_⟩
      rw [loaded.wal, loaded.device]
      exact Wal.tracked_of_ring ring committed.writable
    · rw [loaded.wal]
      exact committed.base
    · rw [loaded.wal]
      exact committed.size

theorem reopen_ok (env : LifecycleEnv) (m opened : MountedEngine) (reading : Option Int64)
    (fuel : Nat) (mounted : Mounted env m) (fits : BlobFits env m) (newest : NewestAtEnd env m)
    (ok : m.reopen env reading fuel = some opened) : Reopened env m opened := by
  obtain ⟨saved, commit, opens⟩ := reopen_steps env m opened reading fuel ok
  obtain ⟨zone, -, -, -, -, -, -, -, zoned, -, -, -, sameConfig, -, -⟩ :=
    commit_steps env m saved reading commit
  obtain ⟨some_blob, some_payload, built, encoded⟩ := save_built env.toZoneEnv m _ _ zoned
  have room := fits some_blob some_payload built encoded
  obtain ⟨paths, mounts⟩ := open_mounts env fuel saved.config saved.current opened (by
    rw [sameConfig]
    exact mounted.ids) opens
  rw [sameConfig] at paths mounts
  have on := mounted.disk ⟨by omega, paths⟩
  obtain ⟨payload, committed⟩ := commit_ok env m saved reading on commit
  obtain ⟨blob, here, coded⟩ := committed.built
  obtain ⟨primary, least, path⟩ := on.primary
  obtain ⟨after, same, mount⟩ := mounts primary least
  -- the file of the primary disk as a device
  have place : saved.handle.path = primary.path := by
    rw [committed.handle]
    exact path
  have file : saved.current.file primary.path =
      { m.files.file m.handle.path with bytes := saved.device.bytes } := by
    rw [current, FileSystem.file_stored, if_pos place.symm, committed.files, committed.handle]
  have device := same_files_device same (fileDevice saved.current primary.path)
  have last := fits blob payload here coded
  rw [← on.capacity] at last
  apply mount_committed env m saved opened payload fuel _ after on committed last newest _ _
    path.symm _ mount
  · rw [device, FileSystem.device, fileDevice, file]
  · rw [device, FileSystem.device, fileDevice, file]
  · rw [same.files, fileDevice, file]

end MountedEngine

end Mimisbrunnr
