import Mimisbrunnr.Pool.FormattedAreas

/-!
# Pools over files that exist

Opening a pool leaves every file as it was and finds each disk as long as its
file. Two disks of a pool that opens have different files, since a file holds one
superblock and with it one disk id.
-/

namespace Mimisbrunnr.Pool

set_option autoImplicit false

open Mimisbrunnr.Lib.ByteStore
open Mimisbrunnr.Lib.FiniteMap
open Mimisbrunnr.Storage

/-- Files and failures to come are the same; a missing file may have become an empty one. -/
structure SameFiles (fs after : FileSystem) : Prop where
  files : ∀ path, after.file path = fs.file path
  faults : after.faults = fs.faults

private theorem same_files_refl (fs : FileSystem) : SameFiles fs fs := ⟨fun _ => rfl, rfl⟩

theorem same_files_trans {first second third : FileSystem} (left : SameFiles first second)
    (right : SameFiles second third) : SameFiles first third :=
  ⟨fun path => (right.files path).trans (left.files path), right.faults.trans left.faults⟩

theorem same_files_device {fs after : FileSystem} (same : SameFiles fs after)
    (handle : FileBlockDevice) : after.device handle = fs.device handle := by
  unfold FileSystem.device
  rw [same.files, same.faults]

def fileDevice (fs : FileSystem) (path : Path) : FileBlockDevice :=
  { path := path, capacity := (fs.file path).length, readOnly := false }

theorem open_device_found (fs : FileSystem) (path : Path) :
    (fs.openDevice path 0).1 = fileDevice fs path ∧ SameFiles fs (fs.openDevice path 0).2 := by
  refine ⟨rfl, ?_, rfl⟩
  intro other
  rw [FileSystem.openDevice, if_pos rfl, FileSystem.file_set_file]
  split
  · next same => rw [same]
  · rfl

def NamesDisk (env : Env) (fs : FileSystem) (entry : DiskConfigEntry) : Prop :=
  ∃ sb, Superblock.open env.crc (fs.device (fileDevice fs entry.path)) = .ok sb ∧
    sb.diskId = entry.id

private theorem open_disk_found (env : Env) (fs after : FileSystem) (entry : DiskConfigEntry)
    (nodeId : NodeId) (handle : FileBlockDevice) (sb : Superblock)
    (ok : openDisk env fs entry nodeId = (.ok (handle, sb), after)) :
    handle = fileDevice fs entry.path ∧ SameFiles fs after ∧ NamesDisk env fs entry := by
  obtain ⟨found, same⟩ := open_device_found fs entry.path
  unfold openDisk at ok
  rcases device : fs.openDevice entry.path 0 with ⟨given, middle⟩
  rw [device] at found same ok
  dsimp only at found same ok
  rw [found, same_files_device same] at ok
  split at ok
  · cases ok
  · next opened =>
      split at ok
      · cases ok
      · split at ok
        · cases ok
        · next named =>
            cases ok
            exact ⟨rfl, same, _, opened, not_not.mp named⟩

theorem open_all_found (env : Env) (nodeId : NodeId) (entries : List DiskConfigEntry)
    (ids : (entries.map DiskConfigEntry.id).Nodup) :
    ∀ (disks final : FMap DiskId DiskRuntime) (fs after : FileSystem),
      openAll env nodeId false entries disks fs = (.ok final, after) →
      SameFiles fs after ∧
        (∀ entry ∈ entries, NamesDisk env fs entry ∧
          ∃ rt, final.lookup entry.id = some rt ∧ rt.device = fileDevice fs entry.path) ∧
        ∀ id, id ∉ entries.map DiskConfigEntry.id → final.lookup id = disks.lookup id := by
  induction entries with
  | nil =>
      intro disks final fs after ok
      cases ok
      exact ⟨same_files_refl fs, by simp, fun _ _ => rfl⟩
  | cons entry rest ih =>
      intro disks final fs after ok
      rw [List.map_cons, List.nodup_cons] at ids
      rw [openAll, openOrFormatDisk, if_neg (by simp)] at ok
      rcases done : openDisk env fs entry nodeId with ⟨_ | ⟨handle, sb⟩, middle⟩
      · rw [done] at ok
        cases ok
      · rw [done] at ok
        dsimp only at ok
        obtain ⟨device, same, named⟩ := open_disk_found env fs middle entry nodeId handle sb done
        obtain ⟨later, all, kept⟩ := ih ids.2 _ final middle after ok
        refine ⟨same_files_trans same later, ?_, ?_⟩
        · intro other member
          cases List.mem_cons.mp member with
          | inl here =>
              subst here
              have found := kept other.id ids.1
              rw [lookup_insert_eq, if_pos rfl] at found
              exact ⟨named, _, found, device⟩
          | inr inside =>
              obtain ⟨⟨other_sb, opened, id⟩, rt, found, handle⟩ := all other inside
              have place : fileDevice middle other.path = fileDevice fs other.path := by
                unfold fileDevice
                rw [same.files]
              rw [place, same_files_device same] at opened
              rw [place] at handle
              exact ⟨⟨other_sb, opened, id⟩, rt, found, handle⟩
        · intro id missed
          rw [List.map_cons, List.mem_cons, not_or] at missed
          rw [kept id missed.2, lookup_insert_eq, if_neg missed.1]

theorem apply_descriptors_devices (descriptors : List DiskDescriptorOnDisk) :
    ∀ disks applied, PoolManager.applyDescriptors descriptors disks = .ok applied → ∀ id,
      (applied.lookup id).map DiskRuntime.device = (disks.lookup id).map DiskRuntime.device := by
  induction descriptors with
  | nil =>
      intro disks applied ok id
      cases ok
      rfl
  | cons descriptor rest ih =>
      intro disks applied ok id
      simp only [PoolManager.applyDescriptors, bind, Except.bind] at ok
      split at ok
      · cases ok
      · rw [ih _ applied ok id, lookup_update]
        split
        · cases disks.lookup id with
          | none => rfl
          | some rt => rfl
        · rfl

theorem open_ok (env : Env) (config : PoolConfig) (pool : PoolManager) (fs after : FileSystem)
    (ids : (config.disks.map DiskConfigEntry.id).Nodup)
    (ok : PoolManager.open env config fs = (.ok pool, after)) :
    SameFiles fs after ∧ (config.disks.map DiskConfigEntry.path).Nodup ∧
      ∀ entry ∈ config.disks,
        ∃ rt, pool.disks.lookup entry.id = some rt ∧ rt.device = fileDevice fs entry.path := by
  unfold PoolManager.open at ok
  split at ok
  · cases ok
  split at ok
  · cases ok
  next disks _ opened =>
    obtain ⟨same, all, -⟩ := open_all_found env config.nodeId config.disks ids ∅ disks fs _ opened
    split at ok
    · cases ok
    split at ok
    · cases ok
    split at ok
    · cases ok
    split at ok
    · cases ok
    next applied described =>
      cases ok
      have entries : config.disks.Nodup := List.Nodup.of_map _ ids
      refine ⟨same, ?_, ?_⟩
      · apply List.Nodup.map_on _ entries
        intro left leftMember right rightMember path
        obtain ⟨⟨sb, leftOpened, leftId⟩, -⟩ := all left leftMember
        obtain ⟨⟨other, rightOpened, rightId⟩, -⟩ := all right rightMember
        rw [path, rightOpened] at leftOpened
        cases leftOpened
        exact List.inj_on_of_nodup_map ids leftMember rightMember (leftId.symm.trans rightId)
      · intro entry member
        obtain ⟨-, rt, found, device⟩ := all entry member
        have devices := apply_descriptors_devices _ _ _ described entry.id
        rw [found, Option.map_some, Option.map_eq_some_iff] at devices
        obtain ⟨last, here, same⟩ := devices
        exact ⟨last, here, same.trans device⟩

/-- A disk that was formatted and whose file still holds its superblock. -/
structure HoldsFormat (env : Env) (nodeId : NodeId) (fs : FileSystem) (entry : DiskConfigEntry)
    (handle : FileBlockDevice) : Prop where
  path : handle.path = entry.path
  writable : handle.readOnly = false
  length : handle.capacity ≤ (fs.file entry.path).length
  stored : ∃ capacity, Superblock.Stored env.crc
    (Superblock.newBlank env.crc (formatOf nodeId entry) capacity) (fs.device handle)

private theorem holds_format_elsewhere (env : Env) (nodeId : NodeId) (fs after : FileSystem)
    (entry : DiskConfigEntry) (handle : FileBlockDevice)
    (holds : HoldsFormat env nodeId fs entry handle)
    (same : after.file entry.path = fs.file entry.path) :
    HoldsFormat env nodeId after entry handle := by
  obtain ⟨capacity, stored⟩ := holds.stored
  refine ⟨holds.path, holds.writable, ?_, capacity, stored.room, stored.magic, stored.root, ?_⟩
  · rw [same]
    exact holds.length
  · intro offset member
    have copy := stored.copies offset member
    rw [Device.readAt] at copy ⊢
    rw [FileSystem.device, holds.path] at copy ⊢
    rw [same]
    exact copy

private theorem format_disk_holds (env : Env) (fs after : FileSystem) (entry : DiskConfigEntry)
    (nodeId : NodeId) (handle : FileBlockDevice) (sb : Superblock)
    (ok : formatDisk env fs entry nodeId = (.ok (handle, sb), after)) :
    HoldsFormat env nodeId after entry handle ∧
      ∀ path, path ≠ entry.path → after.file path = fs.file path := by
  have lengths := (format_disk_formatted env fs after entry nodeId handle sb ok).2 entry.path
  have formatted := (format_disk_formatted env fs after entry nodeId handle sb ok).1
  obtain ⟨middle, d, device, -, rfl, stored⟩ :=
    format_disk_stored env fs after entry nodeId handle sb ok
  have opened := (open_device_length fs entry entry.path).1
  rw [device] at opened
  dsimp only at opened
  have blank := formatted.blank
  have place : handle.path = entry.path := by rw [opened]
  refine ⟨⟨place, by rw [opened], ?_, UInt64.ofNat handle.capacity, ?_⟩, ?_⟩
  · rw [lengths, if_pos rfl, formatted.capacity, openedCapacity]
    split
    · exact Nat.le_max_left _ _
    · exact Nat.le_max_right _ _
  · rw [blank] at stored
    exact stored
  · intro path different
    rw [FileSystem.file_stored, place, if_neg different]
    have elsewhere := congrArg (fun result => result.2.file path) device
    dsimp only at elsewhere
    rw [← elsewhere, FileSystem.openDevice]
    split
    · rw [FileSystem.file_set_file, if_neg different]
    · rw [FileSystem.file_set_file, if_neg different]

private theorem format_all_hold (env : Env) (nodeId : NodeId) (entries : List DiskConfigEntry)
    (ids : (entries.map DiskConfigEntry.id).Nodup)
    (paths : (entries.map DiskConfigEntry.path).Nodup) :
    ∀ (disks final : FMap DiskId DiskRuntime) (fs after : FileSystem),
      openAll env nodeId true entries disks fs = (.ok final, after) →
      (∀ entry ∈ entries, ∃ rt, final.lookup entry.id = some rt ∧
        HoldsFormat env nodeId after entry rt.device) ∧
      ∀ path, path ∉ entries.map DiskConfigEntry.path → after.file path = fs.file path := by
  induction entries with
  | nil =>
      intro disks final fs after ok
      cases ok
      exact ⟨by simp, fun _ _ => rfl⟩
  | cons entry rest ih =>
      intro disks final fs after ok
      rw [List.map_cons, List.nodup_cons] at ids paths
      have kept := open_all_keeps env nodeId rest
      rw [openAll, openOrFormatDisk, if_pos rfl] at ok
      rcases done : formatDisk env fs entry nodeId with ⟨_ | ⟨handle, sb⟩, middle⟩
      · rw [done] at ok
        cases ok
      · rw [done] at ok
        dsimp only at ok
        obtain ⟨holds, elsewhere⟩ := format_disk_holds env fs middle entry nodeId handle sb done
        obtain ⟨all, outside⟩ := ih ids.2 paths.2 _ final middle after ok
        constructor
        · intro other member
          cases List.mem_cons.mp member with
          | inl same =>
              subst same
              have found := kept _ final middle after other.id ok ids.1
              rw [lookup_insert_eq, if_pos rfl] at found
              exact ⟨_, found, holds_format_elsewhere env nodeId middle after other handle holds
                (outside other.path paths.1)⟩
          | inr inside => exact all other inside
        · intro path missed
          rw [List.map_cons, List.mem_cons, not_or] at missed
          rw [outside path missed.2, elsewhere path missed.1]

/-- The pool state block is apart from the superblock copies of a disk that is not tiny. -/
theorem holds_format_overwritten (env : Env) (nodeId : NodeId) (fs : FileSystem)
    (entry : DiskConfigEntry) (handle : FileBlockDevice) (d : Device) (block : List UInt8)
    (holds : HoldsFormat env nodeId fs entry handle)
    (room : poolStateRootOffset + 2 * blockSize ≤ handle.capacity)
    (length : block.length = blockSize)
    (bytes : d.bytes = overwrite (fs.file entry.path).bytes poolStateRootOffset block) :
    HoldsFormat env nodeId (fs.stored handle d) entry handle := by
  obtain ⟨capacity, stored⟩ := holds.stored
  have file : (fs.stored handle d).file entry.path = { fs.file entry.path with bytes := d.bytes } := by
    rw [FileSystem.file_stored, if_pos holds.path.symm, holds.path]
  refine ⟨holds.path, holds.writable, ?_, capacity, stored.room, stored.magic, stored.root, ?_⟩
  · rw [file]
    exact holds.length
  · intro offset member
    have copy := stored.copies offset member
    obtain ⟨here, inside⟩ := read_of_read_at _ _ _ _ copy
    have last : ((fs.stored handle d).device handle).bytes = d.bytes := by
      rw [FileSystem.device, holds.path, file]
    have first : (fs.device handle).bytes = (fs.file entry.path).bytes := by
      rw [FileSystem.device, holds.path]
    change offset ∈ Superblock.copyOffsets handle.capacity at member
    have apart : Apart poolStateRootOffset block.length offset blockSize := by
      rw [length, Apart]
      simp only [Superblock.copyOffsets, List.mem_cons, List.not_mem_nil, or_false] at member
      simp only [poolStateRootOffset, blockSize] at room member ⊢
      omega
    rw [Device.read_at_ok ((fs.stored handle d).device handle) offset blockSize inside, last, bytes,
      ← here, first, read_overwrite_apart _ _ _ _ _ apart]

theorem create_holds (env : Env) (config : PoolConfig) (pool : PoolManager)
    (fs after : FileSystem) (ok : PoolManager.create env config fs = (.ok pool, after)) :
    (config.disks.map DiskConfigEntry.id).Nodup ∧
      ((config.disks.map DiskConfigEntry.path).Nodup → ∀ primary,
        config.primary = some primary → ∃ rt, pool.disks.lookup primary.id = some rt ∧
          (poolStateRootOffset + 2 * blockSize ≤ rt.device.capacity →
            HoldsFormat env config.nodeId after primary rt.device)) := by
  unfold PoolManager.create at ok
  split at ok
  · cases ok
  split at ok
  · cases ok
  split at ok
  · cases ok
  next free =>
    have ids := (duplicate_free config.disks [] free).1
    refine ⟨ids, ?_⟩
    intro paths primary least
    rcases opened : openAll env config.nodeId true config.disks ∅ fs with ⟨_ | disks, formatted⟩
    · rw [opened] at ok
      cases ok
    · rw [opened] at ok
      dsimp only at ok
      obtain ⟨rt, found, holds⟩ := (format_all_hold env config.nodeId config.disks ids paths ∅ disks
        fs formatted opened).1 primary (primary_mem config primary least)
      simp only [PoolManager.writePoolStateRoot, least, found] at ok
      split at ok
      · cases ok
      next written =>
        split at written
        · cases written
        next psr _ =>
          obtain ⟨d, done, rfl⟩ := FileSystem.on_ok _ _ _ _ _ written
          have plain := DeviceM.map_error_ok _ _ _ _ _ done
          obtain ⟨⟨⟩, middle, block, synced⟩ := DeviceM.bind_ok _ _ _ _ _ plain
          have settled := Device.sync_ok middle d synced
          have overwritten := (Device.write_at_ok _ _ _ _ block).2
          cases ok
          refine ⟨rt, found, ?_⟩
          intro room
          apply holds_format_overwritten env _ _ _ _ _ _ holds room (psr.length_block env.crc)
          rw [settled, overwritten, FileSystem.device, holds.path]

theorem create_lengths (env : Env) (config : PoolConfig) (pool : PoolManager)
    (fs after : FileSystem) (bounded : ∀ path, (fs.file path).length < 2 ^ 64)
    (ok : PoolManager.create env config fs = (.ok pool, after)) :
    ∀ path, (after.file path).length < 2 ^ 64 := by
  have formats (entries : List DiskConfigEntry) : ∀ (disks final : FMap DiskId DiskRuntime)
      (fs after : FileSystem), (∀ path, (fs.file path).length < 2 ^ 64) →
      openAll env config.nodeId true entries disks fs = (.ok final, after) →
      ∀ path, (after.file path).length < 2 ^ 64 := by
    induction entries with
    | nil =>
        intro disks final fs after bounded ok
        cases ok
        exact bounded
    | cons entry rest ih =>
        intro disks final fs after bounded ok
        rw [openAll, openOrFormatDisk, if_pos rfl] at ok
        rcases done : formatDisk env fs entry config.nodeId with ⟨_ | ⟨handle, sb⟩, middle⟩
        · rw [done] at ok
          cases ok
        · rw [done] at ok
          apply ih _ final middle after _ ok
          intro path
          rw [(format_disk_formatted env fs middle entry _ handle sb done).2 path]
          split
          · exact Nat.max_lt.mpr ⟨bounded path, entry.capacityBytes.toNat_lt⟩
          · exact bounded path
  unfold PoolManager.create at ok
  split at ok
  · cases ok
  split at ok
  · cases ok
  split at ok
  · cases ok
  rcases opened : openAll env config.nodeId true config.disks ∅ fs with ⟨_ | disks, formatted⟩
  · rw [opened] at ok
    cases ok
  · rw [opened] at ok
    dsimp only at ok
    have lengths := formats config.disks ∅ disks fs formatted bounded opened
    split at ok
    · cases ok
    next written =>
      cases ok
      unfold PoolManager.writePoolStateRoot at written
      split at written
      · cases written
      split at written
      · cases written
      split at written
      · cases written
      obtain ⟨d, -, rfl⟩ := FileSystem.on_ok _ _ _ _ _ written
      intro path
      rw [FileSystem.file_stored]
      split
      · exact lengths _
      · exact lengths path

end Mimisbrunnr.Pool
