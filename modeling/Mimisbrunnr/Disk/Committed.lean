import Mimisbrunnr.Disk.Mounting
import Mimisbrunnr.Pool.Openings

/-!
# What a commit leaves on the disk

A commit that succeeds has saved the zone, has emptied the log and has written the
new superblock over its three copies. The last copy is at the end of the device
and may reach into the blob; behind the end of the device nothing has changed.
-/

namespace Mimisbrunnr

set_option autoImplicit false

open Mimisbrunnr.Lib.ByteStore
open Mimisbrunnr.Lib.FiniteMap
open Mimisbrunnr.Lib.Layout
open Mimisbrunnr.Meta
open Mimisbrunnr.Pool
open Mimisbrunnr.Storage
open Mimisbrunnr.Types
open Mimisbrunnr.Wal

private theorem confines_write_copies (bytes : List UInt8) (offsets : List Nat) :
    Confines 0 (Superblock.writeCopies bytes offsets) := by
  induction offsets with
  | nil => exact confines_pure ()
  | cons offset rest ih =>
      apply confines_bind (confines_write offset bytes (Nat.zero_le _))
      intro _
      exact ih

private theorem confined_commit_root (crc : Crc) (sb committed : Superblock) (new : RootPointer)
    (d after : Device) (ok : sb.commitRoot crc new d = (.ok (), committed, after)) :
    Confined 0 d after := by
  have written : ((sb.withRoot crc new).writeAll crc d).2 = after :=
    congrArg (fun result => result.2.2) ok
  have confines : Confines 0 (do
      Superblock.writeCopies (sealed crc Superblock.body (sb.withRoot crc new))
        (Superblock.copyOffsets d.capacity)
      DeviceM.sync : DeviceM StorageError Unit) := by
    apply confines_bind (confines_write_copies _ _)
    intro _
    exact confines_sync
  have last := confines d
  rw [← written]
  exact last

theorem recompute_seeded (crc : Crc) (root : RootPointer) (diskId : UInt16) (start : Nat)
    (seeded : seedRootPointer root diskId start = root) :
    seedRootPointer (root.recomputeCrc crc) diskId start = root.recomputeCrc crc := by
  calc seedRootPointer (root.recomputeCrc crc) diskId start
      = { seedRootPointer root diskId start with crc := root.computeCrc crc } := rfl
    _ = root.recomputeCrc crc := by
        rw [seeded]
        rfl

/-- A new root with the trees at their places keeps the layout. -/
theorem laid_out_with_root (crc : Crc) (sb : Superblock) (new : RootPointer) (diskId : UInt16)
    (magic : sb.magicFull = superblockMagicFull) (walOffset : sb.walOffset = fmtWalOffset)
    (walSize : sb.walSize = fmtWalSize) (zoneOffset : sb.indexZone.offset = fmtIndexZoneOffset)
    (zoneLength : sb.indexZone.length = fmtIndexZoneSize)
    (seeded : seedRootPointer new diskId fmtIndexZoneOffset.toNat = new) :
    LaidOut (sb.withRoot crc new) := by
  have active := Superblock.active_with_root crc sb new
  have root : ∃ diskId, seedRootPointer (sb.withRoot crc new).activeRootPointer diskId
      fmtIndexZoneOffset.toNat = (sb.withRoot crc new).activeRootPointer := by
    refine ⟨diskId, ?_⟩
    rw [active]
    exact recompute_seeded crc new diskId _ seeded
  unfold Superblock.withRoot at root ⊢
  split at root
  · next first =>
      rw [if_pos first]
      exact ⟨magic, walOffset, walSize, zoneOffset, zoneLength, root⟩
  · next second =>
      rw [if_neg second]
      exact ⟨magic, walOffset, walSize, zoneOffset, zoneLength, root⟩

namespace MountedEngine

def committedSuperblock (env : LifecycleEnv) (m : MountedEngine) : Superblock :=
  m.superblock.withRoot env.crc
    (({ m.committedRoot env with lsn := m.wal.header.nextLsn } : RootPointer).recomputeCrc env.crc)

theorem committed_laid_out (env : LifecycleEnv) (m : MountedEngine) (laid : LaidOut m.superblock) :
    LaidOut (m.committedSuperblock env) := by
  apply laid_out_with_root env.crc m.superblock _ m.superblock.diskId laid.magic laid.walOffset
    laid.walSize laid.zoneOffset laid.zoneLength
  apply recompute_seeded
  have seeded : seedRootPointer (m.committedRoot env) m.superblock.diskId
      fmtIndexZoneOffset.toNat = m.committedRoot env := by
    rw [← laid.zoneOffset]
    exact recompute_seeded env.crc _ _ _ rfl
  calc seedRootPointer { m.committedRoot env with lsn := m.wal.header.nextLsn }
        m.superblock.diskId fmtIndexZoneOffset.toNat
      = { seedRootPointer (m.committedRoot env) m.superblock.diskId fmtIndexZoneOffset.toNat with
          lsn := m.wal.header.nextLsn } := rfl
    _ = { m.committedRoot env with lsn := m.wal.header.nextLsn } := by rw [seeded]

/-- The engine and its primary disk fit together. -/
structure OnDisk (env : LifecycleEnv) (m : MountedEngine) : Prop where
  primary : ∃ primary, m.config.primary = some primary ∧ m.handle.path = primary.path
  capacity : m.device.capacity = m.handle.capacity
  length : m.handle.capacity ≤ (m.files.file m.handle.path).length
  bounded : (m.files.file m.handle.path).length < 2 ^ 64
  laid : LaidOut m.superblock
  tracked : ∃ entries, Wal.Tracked env.crc m.wal m.device entries
  base : m.wal.base = fmtWalOffset.toNat
  size : m.wal.size = fmtWalSize.toNat

private theorem OnDisk.wal_end {env : LifecycleEnv} {m : MountedEngine} (on : OnDisk env m) :
    m.wal.base + m.wal.size = zoneStart := by
  rw [on.base, on.size]
  rfl

/-- A commit has saved this payload and made this engine of the one before. -/
structure Committed (env : LifecycleEnv) (m saved : MountedEngine) (payload : List UInt8) :
    Prop where
  built : ∃ blob, m.buildIndexBlob env.toZoneEnv = .ok blob ∧
    env.blobCbor.encode blob = .ok payload
  short : payload.length + 8 ≤ fmtIndexZoneSize.toNat - legacyCborBlobOffset
  inside : blobStart + (8 + payload.length) ≤ m.device.capacity
  capacity : saved.device.capacity = m.device.capacity
  behind : ∀ address, m.device.capacity ≤ address →
    saved.device.bytes address = m.device.bytes address
  config : saved.config = m.config
  handle : saved.handle = m.handle
  files : saved.files = m.files
  superblock : saved.superblock = m.committedSuperblock env
  stored : Superblock.Stored env.crc saved.superblock saved.device
  ring : Wal.Ring env.crc saved.wal saved.device []
  base : saved.wal.base = fmtWalOffset.toNat
  size : saved.wal.size = fmtWalSize.toNat
  writable : saved.wal.readOnly = false
  objects : ∃ before stored, flushObjectTable m.engine.objectTable objectTableStart before =
      (.ok (), stored) ∧ AgreesOn objectTableStart regionSize stored saved.device
  blob : blobStart + (8 + payload.length) ≤ m.device.capacity - blockSize →
    read saved.device.bytes blobStart (8 + payload.length) = framed payload

/-- A checkpoint that is appended has gone to the log. -/
theorem append_checkpoint_ok (env : LifecycleEnv) (m appended : MountedEngine) (root : RootPointer)
    (reading : Option Int64) (lsn : UInt64)
    (ok : m.appendCheckpoint env root reading = (.ok lsn, appended)) :
    ∃ payload ts, m.wal.appendRaw env.crc m.device .checkpoint payload ts 0 =
        (.ok lsn, appended.wal, appended.device) ∧
      ∃ clock, appended =
        { m with
          engine := { m.engine with clock := clock }
          wal := appended.wal
          device := appended.device } := by
  unfold appendCheckpoint at ok
  rcases clocked : m.engine.clock.now reading with ⟨ts, clock⟩
  rw [clocked] at ok
  dsimp only at ok
  cases encoded : env.checkpointCbor.encode (Checkpoint.fromRoot root 0) with
  | error text =>
      rw [encoded] at ok
      cases ok
  | ok payload =>
      rw [encoded] at ok
      dsimp only at ok
      rcases ran : m.wal.appendRaw env.crc m.device .checkpoint payload ts 0 with
        ⟨_ | number, wal, device⟩
      · rw [ran] at ok
        cases ok
      · rw [ran] at ok
        cases ok
        exact ⟨payload, ts, ran, clock, rfl⟩

private theorem finish_commit_ok (env : LifecycleEnv) (m saved : MountedEngine) (root : RootPointer)
    (lsn : UInt64) (ok : m.finishCommit env root lsn = (.ok (), saved)) :
    ∃ count emptied, m.wal.checkpoint env.crc m.device lsn = (.ok count, saved.wal, emptied) ∧
      m.superblock.commitRoot env.crc
          (({ root with lsn := lsn } : RootPointer).recomputeCrc env.crc) emptied =
        (.ok (), saved.superblock, saved.device) ∧
      saved.config = m.config ∧ saved.handle = m.handle ∧ saved.files = m.files := by
  unfold finishCommit at ok
  rcases trimmed : m.wal.checkpoint env.crc m.device lsn with ⟨_ | count, wal, emptied⟩
  · rw [trimmed] at ok
    cases ok
  · rw [trimmed] at ok
    dsimp only at ok
    rcases flipped : m.superblock.commitRoot env.crc
        (({ root with lsn := lsn } : RootPointer).recomputeCrc env.crc) emptied with
      ⟨_ | done, superblock, device⟩
    · rw [flipped] at ok
      cases ok
    · rw [flipped] at ok
      cases ok
      exact ⟨count, emptied, rfl, flipped, rfl, rfl, rfl⟩

/-- The steps of a commit that succeeds. -/
theorem commit_steps (env : LifecycleEnv) (m saved : MountedEngine) (reading : Option Int64)
    (ok : m.commit env reading = (.ok (), saved)) :
    ∃ zone payload ts lsn appended middle count emptied,
      m.saveZone env.toZoneEnv m.device = (.ok (), zone) ∧
      m.wal.appendRaw env.crc zone .checkpoint payload ts 0 = (.ok lsn, appended, middle) ∧
      appended.checkpoint env.crc middle lsn = (.ok count, saved.wal, emptied) ∧
      m.superblock.commitRoot env.crc
          (({ m.committedRoot env with lsn := lsn } : RootPointer).recomputeCrc env.crc) emptied =
        (.ok (), saved.superblock, saved.device) ∧
      saved.config = m.config ∧ saved.handle = m.handle ∧ saved.files = m.files := by
  unfold commit at ok
  split at ok
  · cases ok
  next writable =>
    simp only [saveIndexState, if_neg writable] at ok
    rcases zoned : m.saveZone env.toZoneEnv m.device with ⟨_ | done, zone⟩
    · rw [zoned] at ok
      cases ok
    · rw [zoned] at ok
      dsimp only at ok
      split at ok
      · cases ok
      next lsn appended checkpointed =>
        obtain ⟨payload, ts, ran, clock, same⟩ :=
          append_checkpoint_ok env _ appended _ reading lsn checkpointed
        obtain ⟨count, emptied, trimmed, flipped, config, handle, files⟩ :=
          finish_commit_ok env appended saved _ lsn ok
        rw [same] at flipped config handle files
        exact ⟨zone, payload, ts, lsn, appended.wal, appended.device, count, emptied, rfl, ran, trimmed,
          flipped, config, handle, files⟩

theorem commit_ok (env : LifecycleEnv) (m saved : MountedEngine) (reading : Option Int64)
    (on : OnDisk env m) (ok : m.commit env reading = (.ok (), saved)) :
    ∃ payload, Committed env m saved payload := by
  obtain ⟨zone, bytes, ts, lsn, appended, middle, count, emptied, zoned, ran, trimmed, flipped,
    config, handle, files⟩ := commit_steps env m saved reading ok
  obtain ⟨payload, saving⟩ := save_zone_ok env.toZoneEnv m on.laid m.device zone zoned
  obtain ⟨entries, tracked⟩ := on.tracked
  have block : blockSize = 4096 := rfl
  have start : blobStart = 4259840 := rfl
  have first : zoneStart = 1114112 := rfl
  have table : objectTableStart + regionSize = 2686976 := rfl
  have tableFirst : zoneStart ≤ objectTableStart := Nat.le_add_right _ _
  have walFirst : fmtWalOffset.toNat = 65536 := rfl
  have walEnd := on.wal_end
  have inside := saving.inside
  have bounded : m.device.capacity < 2 ^ 64 := by
    rw [on.capacity]
    exact Nat.lt_of_le_of_lt on.length on.bounded
  have moved : Wal.Tracked env.crc m.wal zone entries := by
    apply tracked.moved
    · rw [walEnd, saving.confined.capacity]
      omega
    · rw [saving.confined.capacity]
      exact bounded
    · intro address _ below
      rw [walEnd] at below
      exact saving.confined.kept address (Or.inl below)
  obtain ⟨number, ring, outside, base, size, writable⟩ :=
    Wal.append_then_checkpoint moved .checkpoint bytes ts 0 lsn count ran trimmed
  have width : emptied.capacity = m.device.capacity :=
    outside.1.trans saving.confined.capacity
  obtain ⟨same, stored, capacity, kept⟩ := Superblock.commit_root_ok env.crc m.superblock
    saved.superblock _ emptied saved.device (by rw [width]; omega) on.laid.magic flipped
  have saved_width : saved.device.capacity = m.device.capacity := capacity.trans width
  have zone_bytes (address : Nat) (above : zoneStart ≤ address)
      (below : address < m.device.capacity - blockSize) :
      saved.device.bytes address = zone.bytes address := by
    rw [kept address (by omega) (by rw [width]; exact below)]
    exact outside.2 address (Or.inr (by rw [walEnd]; exact above))
  have last : Wal.Ring env.crc saved.wal saved.device [] := by
    apply Wal.ring_moved ring
    · rw [base, size, walEnd, saved_width]
      omega
    · rw [saved_width]
      exact bounded
    · intro address above below
      rw [base, on.base, walFirst] at above
      rw [base, size, walEnd] at below
      exact kept address (by omega) (by rw [width]; omega)
  obtain ⟨before, flushed, beforeWidth, flush, agrees⟩ := saving.objects
  refine ⟨payload, saving.built, saving.short, inside, saved_width, ?_, config, handle, files, ?_,
    stored, last, base.trans on.base, size.trans on.size, writable, ⟨before, flushed, flush, ?_⟩, ?_⟩
  · intro address behind
    rw [(confined_commit_root _ _ _ _ _ _ flipped).kept address (Or.inr (by rw [width]; exact behind)),
      outside.2 address (Or.inr (by rw [walEnd]; omega)),
      saving.confined.kept address (Or.inr behind)]
  · rw [same, number]
    rfl
  · refine agrees_trans agrees ⟨saved_width.trans saving.confined.capacity.symm, ?_⟩
    intro address above below
    exact zone_bytes address (by omega) (by omega)
  · intro room
    rw [← saving.blob]
    apply read_congr
    intro address above below
    exact zone_bytes address (by omega) (by omega)

end MountedEngine

end Mimisbrunnr
