import Mimisbrunnr.Lib.Runs
import Mimisbrunnr.Pool.Overlap
import Mimisbrunnr.Storage.Faults

/-!
# Disk changes that fail

`add_disk` and `remove_disk` change the tables of the manager before they write
the pool state block, and do not change them back when the write fails. A call
that fails before leaves the pool as it was: what it has written lies in files
that no disk of the pool has, or is what was there already. On a pool whose block
can be written the calls succeed.
-/

namespace Mimisbrunnr.Pool

set_option autoImplicit false

open Mimisbrunnr.Lib
open Mimisbrunnr.Lib.ByteStore
open Mimisbrunnr.Lib.FiniteMap
open Mimisbrunnr.Lib.MachineOrder
open Mimisbrunnr.Storage
open Mimisbrunnr.Types

def deviceSize (fs : FileSystem) (entry : DiskConfigEntry) : Nat :=
  (fs.openDevice entry.path entry.capacityBytes.toNat).1.capacity

def TooSmall (fs : FileSystem) (entry : DiskConfigEntry) : Prop :=
  deviceSize fs entry < blockSize * 3

theorem open_device_eq (fs : FileSystem) (path : Path) (capacity : Nat) :
    fs.openDevice path capacity =
      ({ path := path, capacity := if capacity = 0 then (fs.file path).length else capacity,
          readOnly := false },
        fs.setFile path
          { fs.file path with length := max (fs.file path).length capacity }) := by
  rw [FileSystem.openDevice]
  split
  · next zero => simp [zero]
  · next some => rfl

theorem device_size_eq (fs : FileSystem) (entry : DiskConfigEntry) :
    deviceSize fs entry = if entry.capacityBytes.toNat = 0 then (fs.file entry.path).length
      else entry.capacityBytes.toNat := by
  rw [deviceSize, open_device_eq]

def openedHandle (fs : FileSystem) (entry : DiskConfigEntry) : FileBlockDevice :=
  { path := entry.path, capacity := deviceSize fs entry, readOnly := false }

/-- The file of an entry once it is opened. -/
def openedFiles (fs : FileSystem) (entry : DiskConfigEntry) : FileSystem :=
  fs.setFile entry.path
    { fs.file entry.path with
      length := max (fs.file entry.path).length entry.capacityBytes.toNat }

theorem format_disk_eq (env : Env) (fs : FileSystem) (entry : DiskConfigEntry) (nodeId : NodeId) :
    formatDisk env fs entry nodeId =
      let formatted := (openedFiles fs entry).on (openedHandle fs entry)
        (Superblock.format env.crc (formatOf nodeId entry))
      match formatted.1 with
      | .error err => (.error (.storage err), formatted.2)
      | .ok _ =>
          match Superblock.open env.crc (formatted.2.device (openedHandle fs entry)) with
          | .error err => (.error (.storage err), formatted.2)
          | .ok sb => (.ok (openedHandle fs entry, sb), formatted.2) := by
  rw [formatDisk, openedHandle, deviceSize, open_device_eq]
  rfl

theorem format_disk_snd (env : Env) (fs : FileSystem) (entry : DiskConfigEntry) (nodeId : NodeId) :
    (formatDisk env fs entry nodeId).2 = ((openedFiles fs entry).on (openedHandle fs entry)
      (Superblock.format env.crc (formatOf nodeId entry))).2 := by
  rw [format_disk_eq]
  dsimp only
  split
  · rfl
  · split
    · rfl
    · rfl

/-- Only the file of the entry is written, and it does not get shorter. -/
theorem format_disk_files (env : Env) (fs : FileSystem) (entry : DiskConfigEntry)
    (nodeId : NodeId) (path : Path) :
    ((formatDisk env fs entry nodeId).2.file path).length =
        (if path = entry.path then max (fs.file path).length entry.capacityBytes.toNat
          else (fs.file path).length) ∧
      (path ≠ entry.path → (formatDisk env fs entry nodeId).2.file path = fs.file path) := by
  rw [format_disk_snd, FileSystem.on, FileSystem.file_stored]
  by_cases here : path = entry.path
  · subst here
    simp [openedHandle, openedFiles]
  · have elsewhere : path ≠ (openedHandle fs entry).path := here
    rw [if_neg elsewhere, if_neg here, openedFiles, FileSystem.file_set_file, if_neg here]
    exact ⟨rfl, fun _ => rfl⟩

theorem opened_device (fs : FileSystem) (entry : DiskConfigEntry) :
    (openedFiles fs entry).device (openedHandle fs entry) =
      { bytes := (fs.file entry.path).bytes
        capacity := deviceSize fs entry
        readOnly := false
        faults := fs.faults entry.path } := by
  simp [FileSystem.device, openedHandle, openedFiles, FileSystem.setFile, FileSystem.file]

/-- A file that is too small is opened and no more. -/
theorem format_disk_small (env : Env) (fs : FileSystem) (entry : DiskConfigEntry)
    (nodeId : NodeId) (small : TooSmall fs entry) :
    (formatDisk env fs entry nodeId).2.file entry.path =
      { fs.file entry.path with
        length := max (fs.file entry.path).length entry.capacityBytes.toNat } := by
  rw [format_disk_snd, FileSystem.on, FileSystem.file_stored, opened_device]
  have room : deviceSize fs entry < blockSize * 3 := small
  simp [Superblock.format, room, openedHandle, openedFiles]

theorem format_disk_ok_iff (env : Env) (fs : FileSystem) (entry : DiskConfigEntry)
    (nodeId : NodeId) :
    (∃ opened, (formatDisk env fs entry nodeId).1 = .ok opened) ↔
      ¬ TooSmall fs entry ∧ Quiet 4 (fs.faults entry.path) := by
  have formats := Superblock.format_ok_iff env.crc (formatOf nodeId entry)
    ((openedFiles fs entry).device (openedHandle fs entry)) rfl
  rw [opened_device] at formats
  rw [TooSmall, Nat.not_lt, ← formats, format_disk_eq, FileSystem.on, opened_device]
  dsimp only
  rcases written : Superblock.format env.crc (formatOf nodeId entry)
    { bytes := (fs.file entry.path).bytes
      capacity := deviceSize fs entry
      readOnly := false
      faults := fs.faults entry.path } with ⟨err | sb, d⟩
  · simp
  · obtain ⟨-, stored, capacity, -⟩ := Superblock.format_ok env.crc _ _ _ _ written
    have same : ((openedFiles fs entry).stored (openedHandle fs entry) d).device
        (openedHandle fs entry) = { d with readOnly := false } := by
      rw [FileSystem.device, FileSystem.file_stored, if_pos rfl]
      simp only [FileSystem.stored, Function.update_self, capacity]
      rfl
    have found : Superblock.open env.crc { d with readOnly := false } = .ok sb :=
      Superblock.open_stored env.crc _ _ ⟨stored.room, stored.magic, stored.root, stored.copies⟩
    simp [same, found]

theorem format_disk_done (env : Env) (fs : FileSystem) (entry : DiskConfigEntry)
    (nodeId : NodeId) (formattable : ¬ TooSmall fs entry ∧ Quiet 4 (fs.faults entry.path)) :
    ∃ handle sb, formatDisk env fs entry nodeId =
      (.ok (handle, sb), (formatDisk env fs entry nodeId).2) := by
  obtain ⟨⟨handle, sb⟩, opened⟩ := (format_disk_ok_iff env fs entry nodeId).mpr formattable
  exact ⟨handle, sb, Prod.ext opened rfl⟩

theorem format_disk_opened (env : Env) (fs after : FileSystem) (entry : DiskConfigEntry)
    (nodeId : NodeId) (handle : FileBlockDevice) (sb : Superblock)
    (ok : formatDisk env fs entry nodeId = (.ok (handle, sb), after)) :
    handle = openedHandle fs entry ∧
      after.faults = Function.update fs.faults entry.path ((fs.faults entry.path).drop 4) := by
  have last := format_disk_snd env fs entry nodeId
  rw [format_disk_eq, FileSystem.on, opened_device] at ok
  rw [FileSystem.on, opened_device] at last
  rcases written : Superblock.format env.crc (formatOf nodeId entry)
    { bytes := (fs.file entry.path).bytes
      capacity := deviceSize fs entry
      readOnly := false
      faults := fs.faults entry.path } with ⟨err | blank, d⟩
  · rw [written] at ok
    cases ok
  · have faults := Superblock.format_rest env.crc _ _ _ _ rfl written
    rw [written] at ok
    dsimp only at ok
    split at ok
    · cases ok
    · cases ok
      refine ⟨rfl, ?_⟩
      rw [FileSystem.stored, faults]
      rfl

/-- The program that puts the block on a device. -/
def putStateRoot (env : Env) (psr : PoolStateRoot) : DeviceM PoolError Unit :=
  DeviceM.mapError PoolError.storage do
    psr.write env.crc poolStateRootOffset
    DeviceM.sync

theorem put_state_root_bytes (env : Env) (psr : PoolStateRoot) (d : Device) :
    ∃ count, (putStateRoot env psr d).2.bytes =
        overwrite d.bytes poolStateRootOffset ((sealed env.crc PoolStateRoot.body psr).take count) ∧
      ((putStateRoot env psr d).1 = .ok () →
        count = (sealed env.crc PoolStateRoot.body psr).length) := by
  obtain ⟨count, bytes, whole⟩ :=
    write_at_bytes d poolStateRootOffset (sealed env.crc PoolStateRoot.body psr)
  refine ⟨count, ?_, ?_⟩
  · rw [← bytes]
    rcases written : d.writeAt poolStateRootOffset (sealed env.crc PoolStateRoot.body psr) with
      ⟨err | ⟨⟩, middle⟩
    · change DeviceM.writeAt _ _ d = _ at written
      simp only [putStateRoot, DeviceM.mapError, bind, PoolStateRoot.write, written]
    · change DeviceM.writeAt _ _ d = _ at written
      have kept := sync_bytes middle
      change (DeviceM.sync middle).2.bytes = _ at kept
      rw [← kept]
      rcases synced : DeviceM.sync middle with ⟨err | ⟨⟩, last⟩
      · simp only [putStateRoot, DeviceM.mapError, bind, PoolStateRoot.write, written, synced]
      · simp only [putStateRoot, DeviceM.mapError, bind, PoolStateRoot.write, written, synced]
  · intro ok
    have plain := DeviceM.map_error_ok _ _ _ _ _ (DeviceM.ok_of_fst _ _ _ ok)
    obtain ⟨⟨⟩, middle, written, -⟩ := DeviceM.bind_ok _ _ _ _ _ plain
    exact whole (congrArg Prod.fst written)

theorem uses_put_state_root (env : Env) (psr : PoolStateRoot) (d : Device)
    (writable : d.readOnly = false) (fits : poolStateRootOffset + blockSize ≤ d.capacity) :
    Uses 2 (putStateRoot env psr) d := by
  have written := uses_write d poolStateRootOffset (sealed env.crc PoolStateRoot.body psr) writable
    (by rw [psr.length_block]; exact fits)
  have whole := @Uses.bind _ 1 1 _ DeviceM.sync _ written (by
    intro middle done
    exact uses_sync middle ((written.rest middle done).2.2.trans writable))
  exact whole.map_error PoolError.storage

theorem put_state_root_ok_iff (env : Env) (psr : PoolStateRoot) (d : Device) :
    (putStateRoot env psr d).1 = .ok () ↔ d.readOnly = false ∧
      poolStateRootOffset + blockSize ≤ d.capacity ∧ Quiet 2 d.faults := by
  constructor
  · intro ok
    have plain := DeviceM.map_error_ok _ _ _ _ _ (DeviceM.ok_of_fst _ _ _ ok)
    obtain ⟨⟨⟩, middle, written, -⟩ := DeviceM.bind_ok _ _ _ _ _ plain
    have writable : d.readOnly = false := by
      by_contra readOnly
      rw [Bool.not_eq_false] at readOnly
      change d.writeAt _ _ = _ at written
      rw [Device.writeAt, if_pos readOnly] at written
      cases written
    have fits := (Device.write_at_ok d middle _ _ written).1
    rw [psr.length_block] at fits
    exact ⟨writable, fits, (uses_put_state_root env psr d writable fits).ok_iff.mp ok⟩
  · rintro ⟨writable, fits, quiet⟩
    exact (uses_put_state_root env psr d writable fits).ok_iff.mpr quiet

theorem write_root_eq (env : Env) (mgr : PoolManager) (fs : FileSystem) (primary : DiskConfigEntry)
    (psr : PoolStateRoot) (rt : DiskRuntime) (least : mgr.config.primary = some primary)
    (built : mgr.stateRoot env = .ok psr) (found : mgr.disks.lookup primary.id = some rt) :
    mgr.writePoolStateRoot env fs = fs.on rt.device (putStateRoot env psr) := by
  simp only [PoolManager.writePoolStateRoot, least, built, found]
  rfl

/-- The write fails without touching a file unless there is a block and a disk to write it to. -/
theorem write_root_cases (env : Env) (mgr : PoolManager) (fs : FileSystem) :
    (∃ err, mgr.writePoolStateRoot env fs = (.error err, fs)) ∨
      ∃ primary psr rt, mgr.config.primary = some primary ∧ mgr.stateRoot env = .ok psr ∧
        mgr.disks.lookup primary.id = some rt := by
  unfold PoolManager.writePoolStateRoot
  rcases mgr.config.primary with _ | primary
  · exact .inl ⟨_, rfl⟩
  · rcases mgr.stateRoot env with err | psr
    · exact .inl ⟨_, rfl⟩
    · rcases found : mgr.disks.lookup primary.id with _ | rt
      · exact .inl ⟨.diskNotFound primary.id, by simp only [found]⟩
      · exact .inr ⟨primary, psr, rt, rfl, rfl, found⟩

theorem write_root_ok_iff (env : Env) (mgr : PoolManager) (fs : FileSystem) :
    (mgr.writePoolStateRoot env fs).1 = .ok () ↔
      ∃ primary psr rt, mgr.config.primary = some primary ∧ mgr.stateRoot env = .ok psr ∧
        mgr.disks.lookup primary.id = some rt ∧ rt.device.readOnly = false ∧
        poolStateRootOffset + blockSize ≤ rt.device.capacity ∧
        Quiet 2 (fs.faults rt.device.path) := by
  constructor
  · intro ok
    rcases write_root_cases env mgr fs with ⟨err, failed⟩ | ⟨primary, psr, rt, least, built, found⟩
    · rw [failed] at ok
      cases ok
    · rw [write_root_eq env mgr fs primary psr rt least built found, FileSystem.on] at ok
      exact ⟨primary, psr, rt, least, built, found, (put_state_root_ok_iff env psr _).mp ok⟩
  · rintro ⟨primary, psr, rt, least, built, found, accepts⟩
    rw [write_root_eq env mgr fs primary psr rt least built found, FileSystem.on]
    exact (put_state_root_ok_iff env psr _).mpr accepts

theorem write_root_faults (env : Env) (mgr : PoolManager) (fs : FileSystem)
    (primary : DiskConfigEntry) (psr : PoolStateRoot) (rt : DiskRuntime)
    (least : mgr.config.primary = some primary) (built : mgr.stateRoot env = .ok psr)
    (found : mgr.disks.lookup primary.id = some rt)
    (ok : (mgr.writePoolStateRoot env fs).1 = .ok ()) :
    (mgr.writePoolStateRoot env fs).2.faults = Function.update fs.faults rt.device.path
      ((fs.faults rt.device.path).drop 2) := by
  rw [write_root_eq env mgr fs primary psr rt least built found, FileSystem.on] at ok ⊢
  obtain ⟨writable, fits, -⟩ := (put_state_root_ok_iff env psr _).mp ok
  have rest := ((uses_put_state_root env psr _ writable fits).rest _
    (DeviceM.ok_of_fst _ _ _ ok)).1
  simp only [FileSystem.stored, rest]
  rfl

@[simp] theorem write_root_length (env : Env) (mgr : PoolManager) (fs : FileSystem) (path : Path) :
    ((mgr.writePoolStateRoot env fs).2.file path).length = (fs.file path).length := by
  rcases write_root_cases env mgr fs with ⟨err, failed⟩ | ⟨primary, psr, rt, least, built, found⟩
  · rw [failed]
  · rw [write_root_eq env mgr fs primary psr rt least built found, FileSystem.on,
      FileSystem.file_stored]
    split
    · next here => rw [here]
    · rfl

/-- The manager once the disk is formatted, before the pool state block is written. -/
def PoolManager.withDisk (mgr : PoolManager) (entry : DiskConfigEntry) (handle : FileBlockDevice)
    (sb : Superblock) : PoolManager :=
  { config := { mgr.config with disks := mgr.config.disks ++ [entry] }
    disks := mgr.disks.insert entry.id
      { config := entry, state := .online, usedBytes := 0, device := handle, superblock := sb } }

def PoolManager.drained (mgr : PoolManager) (id : DiskId) : PoolManager :=
  { mgr with disks := update mgr.disks id fun rt => { rt with state := .draining } }

def PoolManager.Declines (mgr : PoolManager) (entry : DiskConfigEntry) : Prop :=
  entry.id ∈ mgr.disks ∨ poolStateRootInlineDisks < mgr.disks.keys.card + 1

theorem add_disk_declined (env : Env) (mgr : PoolManager) (entry : DiskConfigEntry)
    (fs : FileSystem) (declined : mgr.Declines entry) :
    ∃ err, mgr.addDisk env entry fs = (.error err, mgr, fs) := by
  unfold PoolManager.addDisk
  split
  · exact ⟨_, rfl⟩
  · next fresh =>
      rw [if_pos (declined.resolve_left fresh)]
      exact ⟨_, rfl⟩

theorem add_disk_unformatted (env : Env) (mgr : PoolManager) (entry : DiskConfigEntry)
    (fs after : FileSystem) (err : PoolError) (accepted : ¬ mgr.Declines entry)
    (failed : formatDisk env fs entry mgr.config.nodeId = (.error err, after)) :
    mgr.addDisk env entry fs = (.error err, mgr, after) := by
  rw [PoolManager.Declines, not_or] at accepted
  rw [PoolManager.addDisk, if_neg accepted.1, if_neg accepted.2, openOrFormatDisk, if_pos rfl,
    failed]

theorem add_disk_formatted (env : Env) (mgr : PoolManager) (entry : DiskConfigEntry)
    (fs formatted : FileSystem) (handle : FileBlockDevice) (sb : Superblock)
    (accepted : ¬ mgr.Declines entry)
    (done : formatDisk env fs entry mgr.config.nodeId = (.ok (handle, sb), formatted)) :
    mgr.addDisk env entry fs =
      (((mgr.withDisk entry handle sb).writePoolStateRoot env formatted).1.map fun _ => entry.id,
        mgr.withDisk entry handle sb,
        ((mgr.withDisk entry handle sb).writePoolStateRoot env formatted).2) := by
  rw [PoolManager.Declines, not_or] at accepted
  rw [PoolManager.addDisk, if_neg accepted.1, if_neg accepted.2, openOrFormatDisk, if_pos rfl,
    done]
  dsimp only
  split
  · next err after wrote =>
      have same : (mgr.withDisk entry handle sb).writePoolStateRoot env formatted =
        (.error err, after) := wrote
      rw [same]
      rfl
  · next after wrote =>
      have same : (mgr.withDisk entry handle sb).writePoolStateRoot env formatted =
        (.ok (), after) := wrote
      rw [same]
      rfl

/-- What a call returns and leaves, whether it succeeds or not. -/
def Call.attempt (env : Env) (mgr : PoolManager) (fs : FileSystem) :
    Call → Except PoolError Unit × PoolManager × FileSystem
  | .addDisk entry =>
      ((mgr.addDisk env entry fs).1.map fun _ => (), (mgr.addDisk env entry fs).2)
  | .removeDisk id => mgr.removeDisk env id fs
  | .commit => ((mgr.commit env fs).1, mgr, (mgr.commit env fs).2)

private theorem perform_iff_attempt (env : Env) (mgr next : PoolManager) (fs after : FileSystem)
    (call : Call) :
    call.perform env mgr fs = some (next, after) ↔
      call.attempt env mgr fs = (.ok (), next, after) := by
  cases call with
  | addDisk entry =>
      simp only [Call.perform, Call.attempt]
      rcases mgr.addDisk env entry fs with ⟨err | id, added, last⟩
      · simp [Except.map]
      · simp [Except.map]
  | removeDisk id =>
      simp only [Call.perform, Call.attempt]
      rcases mgr.removeDisk env id fs with ⟨err | ⟨⟩, drained, last⟩
      · simp
      · simp
  | commit =>
      simp only [Call.perform, Call.attempt]
      rcases mgr.commit env fs with ⟨err | ⟨⟩, last⟩
      · simp
      · simp

/-- Two runtimes of a disk, the second on a device that is at least as large. -/
structure RuntimeAsLarge (rt other : DiskRuntime) : Prop where
  view : other.view = rt.view
  path : other.device.path = rt.device.path
  readOnly : other.device.readOnly = rt.device.readOnly
  capacity : rt.device.capacity ≤ other.device.capacity

/-- Two pools with the same disks and the same failures to come, the second on files and
devices that are at least as large. -/
structure AsLarge (mgr : PoolManager) (fs : FileSystem) (other : PoolManager)
    (otherFs : FileSystem) : Prop where
  config : other.config = mgr.config
  present : ∀ id rt, mgr.disks.lookup id = some rt →
    ∃ larger, other.disks.lookup id = some larger ∧ RuntimeAsLarge rt larger
  absent : ∀ id, mgr.disks.lookup id = none → other.disks.lookup id = none
  faults : otherFs.faults = fs.faults
  length : ∀ path, (fs.file path).length ≤ (otherFs.file path).length

/-- The descriptor of a disk as a function of what the status shows. -/
def describeView (env : Env) (view : DiskConfigEntry × DiskState × UInt64) :
    Except PoolError DiskDescriptorOnDisk := do
  let path := env.toStringLossy view.1.path
  if diskPathInlineLen < path.length then
    .error (.diskPathTooLong path.length diskPathInlineLen)
  else
    let d ← DiskDescriptorOnDisk.new view.1.id view.1.mediaType view.1.tier view.2.1
      view.1.capacityBytes path
    .ok { d with usedBytes := view.2.2 }

theorem state_root_of_views (env : Env) (mgr other : PoolManager)
    (same : ∀ id, (other.disks.lookup id).map DiskRuntime.view =
      (mgr.disks.lookup id).map DiskRuntime.view) :
    other.stateRoot env = mgr.stateRoot env := by
  have wire (pool : PoolManager) :
      (toSorted pool.disks).mapM (fun row => PoolManager.describe env row.2) =
        (toSorted (mapVals DiskRuntime.view pool.disks)).mapM fun row =>
          describeView env row.2 := by
    rw [to_sorted_map_vals, List.mapM_map]
    rfl
  have views : mapVals DiskRuntime.view other.disks = mapVals DiskRuntime.view mgr.disks := by
    apply Finmap.ext_lookup
    intro id
    rw [lookup_map_vals, lookup_map_vals, same]
  rw [PoolManager.stateRoot, PoolManager.stateRoot, wire, wire, views]

section

variable {env : Env} {mgr other : PoolManager} {fs otherFs : FileSystem}

private theorem AsLarge.views (large : AsLarge mgr fs other otherFs) (id : DiskId) :
    (other.disks.lookup id).map DiskRuntime.view = (mgr.disks.lookup id).map DiskRuntime.view := by
  rcases found : mgr.disks.lookup id with _ | rt
  · rw [large.absent id found]
  · obtain ⟨larger, present, same⟩ := large.present id rt found
    rw [present, Option.map_some, Option.map_some, same.view]

private theorem AsLarge.write_root (large : AsLarge mgr fs other otherFs)
    (ok : (mgr.writePoolStateRoot env fs).1 = .ok ()) :
    (other.writePoolStateRoot env otherFs).1 = .ok () ∧
      AsLarge mgr (mgr.writePoolStateRoot env fs).2 other
        (other.writePoolStateRoot env otherFs).2 := by
  obtain ⟨primary, psr, rt, least, built, found, writable, fits, quiet⟩ :=
    (write_root_ok_iff env mgr fs).mp ok
  obtain ⟨larger, otherFound, same⟩ := large.present primary.id rt found
  have otherLeast : other.config.primary = some primary := by rw [large.config, least]
  have otherBuilt : other.stateRoot env = .ok psr :=
    (state_root_of_views env mgr other large.views).trans built
  have otherOk : (other.writePoolStateRoot env otherFs).1 = .ok () := by
    apply (write_root_ok_iff env other otherFs).mpr
    refine ⟨primary, psr, larger, otherLeast, otherBuilt, otherFound, ?_, ?_, ?_⟩
    · rw [same.readOnly, writable]
    · exact fits.trans same.capacity
    · rw [large.faults, same.path]
      exact quiet
  refine ⟨otherOk, large.config, large.present, large.absent, ?_, ?_⟩
  · rw [write_root_faults env mgr fs primary psr rt least built found ok,
      write_root_faults env other otherFs primary psr larger otherLeast otherBuilt otherFound
        otherOk, large.faults, same.path]
  · intro path
    rw [write_root_length, write_root_length]
    exact large.length path

theorem AsLarge.mem_iff (large : AsLarge mgr fs other otherFs) (id : DiskId) :
    id ∈ other.disks ↔ id ∈ mgr.disks := by
  rw [Finmap.mem_iff, Finmap.mem_iff]
  rcases found : mgr.disks.lookup id with _ | rt
  · rw [large.absent id found]
  · obtain ⟨larger, present, -⟩ := large.present id rt found
    rw [present]
    simp

private theorem AsLarge.declines_iff (large : AsLarge mgr fs other otherFs)
    (entry : DiskConfigEntry) :
    other.Declines entry ↔ mgr.Declines entry := by
  have keys : other.disks.keys = mgr.disks.keys := by
    ext id
    rw [Finmap.mem_keys, Finmap.mem_keys, large.mem_iff]
  rw [PoolManager.Declines, PoolManager.Declines, large.mem_iff, keys]

theorem AsLarge.device_size (large : AsLarge mgr fs other otherFs) (entry : DiskConfigEntry) :
    deviceSize fs entry ≤ deviceSize otherFs entry := by
  rw [device_size_eq, device_size_eq]
  split
  · exact large.length entry.path
  · exact Nat.le_refl _

private theorem AsLarge.drained (large : AsLarge mgr fs other otherFs) (id : DiskId) :
    AsLarge (mgr.drained id) fs (other.drained id) otherFs := by
  refine ⟨large.config, ?_, ?_, large.faults, large.length⟩
  · intro disk rt found
    simp only [PoolManager.drained, lookup_update] at found ⊢
    split at found
    · next here =>
        obtain ⟨old, present, rfl⟩ := Option.map_eq_some_iff.mp found
        obtain ⟨larger, otherPresent, same⟩ := large.present disk old present
        rw [if_pos here, otherPresent]
        have view := same.view
        simp only [DiskRuntime.view, Prod.mk.injEq] at view
        refine ⟨_, rfl, ?_, same.path, same.readOnly, same.capacity⟩
        simp [DiskRuntime.view, view.1, view.2.2]
    · next elsewhere =>
        rw [if_neg elsewhere]
        exact large.present disk rt found
  · intro disk found
    simp only [PoolManager.drained, lookup_update] at found ⊢
    split at found
    · next here =>
        rw [if_pos here, large.absent disk (Option.map_eq_none_iff.mp found)]
        rfl
    · next elsewhere =>
        rw [if_neg elsewhere]
        exact large.absent disk found

private theorem AsLarge.formatted (large : AsLarge mgr fs other otherFs) (entry : DiskConfigEntry)
    (nodeId : NodeId) (after otherAfter : FileSystem) (handle otherHandle : FileBlockDevice)
    (sb otherSb : Superblock)
    (done : formatDisk env fs entry nodeId = (.ok (handle, sb), after))
    (otherDone : formatDisk env otherFs entry nodeId = (.ok (otherHandle, otherSb), otherAfter)) :
    AsLarge (mgr.withDisk entry handle sb) after (other.withDisk entry otherHandle otherSb)
      otherAfter := by
  obtain ⟨rfl, faults⟩ := format_disk_opened env fs after entry nodeId handle sb done
  obtain ⟨rfl, otherFaults⟩ :=
    format_disk_opened env otherFs otherAfter entry nodeId otherHandle otherSb otherDone
  refine ⟨?_, ?_, ?_, ?_, ?_⟩
  · simp only [PoolManager.withDisk, large.config]
  · intro id rt found
    simp only [PoolManager.withDisk, lookup_insert_eq] at found ⊢
    split at found
    · next here =>
        cases found
        rw [if_pos here]
        exact ⟨_, rfl, rfl, rfl, rfl, large.device_size entry⟩
    · next elsewhere =>
        rw [if_neg elsewhere]
        exact large.present id rt found
  · intro id found
    simp only [PoolManager.withDisk, lookup_insert_eq] at found ⊢
    split at found
    · cases found
    · next elsewhere =>
        rw [if_neg elsewhere]
        exact large.absent id found
  · rw [faults, otherFaults, large.faults]
  · intro path
    have files := (format_disk_files env fs entry nodeId path).1
    have otherFiles := (format_disk_files env otherFs entry nodeId path).1
    rw [done] at files
    rw [otherDone] at otherFiles
    rw [files, otherFiles]
    have grown := large.length path
    split
    · exact max_le_max_right _ grown
    · exact grown

/-- What a pool accepts, one on larger devices accepts too. -/
theorem AsLarge.attempt (large : AsLarge mgr fs other otherFs) (call : Call)
    (ok : (call.attempt env mgr fs).1 = .ok ()) :
    (call.attempt env other otherFs).1 = .ok () ∧
      AsLarge (call.attempt env mgr fs).2.1 (call.attempt env mgr fs).2.2
        (call.attempt env other otherFs).2.1 (call.attempt env other otherFs).2.2 := by
  cases call with
  | commit => exact large.write_root ok
  | removeDisk id =>
      have known : id ∈ mgr.disks := by
        by_contra unknown
        simp only [Call.attempt, PoolManager.removeDisk, if_pos unknown] at ok
        cases ok
      have otherKnown : id ∈ other.disks := (large.mem_iff id).mpr known
      simp only [Call.attempt, PoolManager.removeDisk, if_neg (not_not.mpr known),
        if_neg (not_not.mpr otherKnown)] at ok ⊢
      exact (large.drained id).write_root ok
  | addDisk entry =>
      have accepted : ¬ mgr.Declines entry := by
        intro declined
        obtain ⟨err, failed⟩ := add_disk_declined env mgr entry fs declined
        simp only [Call.attempt, failed] at ok
        cases ok
      have otherAccepted := mt (large.declines_iff entry).mp accepted
      rcases done : formatDisk env fs entry mgr.config.nodeId with ⟨err | ⟨handle, sb⟩, formatted⟩
      · simp only [Call.attempt, add_disk_unformatted env mgr entry fs formatted err accepted
          done] at ok
        cases ok
      · obtain ⟨room, quiet⟩ :=
          (format_disk_ok_iff env fs entry mgr.config.nodeId).mp ⟨_, congrArg Prod.fst done⟩
        obtain ⟨otherHandle, otherSb, otherDone⟩ := format_disk_done env otherFs entry
          other.config.nodeId (by
            rw [large.faults]
            exact ⟨fun small => room (Nat.lt_of_le_of_lt (large.device_size entry) small), quiet⟩)
        rw [large.config] at otherDone
        have grown := large.formatted entry mgr.config.nodeId formatted _ handle otherHandle sb
          otherSb done otherDone
        rw [← large.config] at otherDone
        simp only [Call.attempt, add_disk_formatted env mgr entry fs formatted handle sb accepted
          done, add_disk_formatted env other entry otherFs _ otherHandle otherSb otherAccepted
          otherDone] at ok ⊢
        have wrote : ((mgr.withDisk entry handle sb).writePoolStateRoot env formatted).1 = .ok () := by
          rcases result : ((mgr.withDisk entry handle sb).writePoolStateRoot env formatted).1 with
            err | ⟨⟩
          · rw [result] at ok
            cases ok
          · rfl
        rw [← large.config] at grown
        obtain ⟨otherWrote, larger⟩ := grown.write_root wrote
        rw [otherWrote]
        exact ⟨rfl, larger⟩

private theorem AsLarge.perform_all (calls : List Call) :
    ∀ {mgr other : PoolManager} {fs otherFs : FileSystem}, AsLarge mgr fs other otherFs →
      (performAll env calls mgr fs).isSome = true →
      (performAll env calls other otherFs).isSome = true := by
  induction calls with
  | nil =>
      intro mgr other fs otherFs _ _
      rfl
  | cons call rest ih =>
      intro mgr other fs otherFs large performed
      rw [performAll] at performed ⊢
      split at performed
      · next next after done =>
          have attempted := (perform_iff_attempt env mgr next fs after call).mp done
          obtain ⟨otherOk, larger⟩ := large.attempt call (congrArg Prod.fst attempted)
          have otherDone := (perform_iff_attempt env other _ otherFs _ call).mpr
            (Prod.ext otherOk rfl)
          rw [otherDone]
          rw [attempted] at larger
          exact ih larger performed
      · cases performed

end

theorem open_superblock_congr (crc : Crc) (d other : Device) (bytes : other.bytes = d.bytes)
    (capacity : other.capacity = d.capacity) : Superblock.open crc other = Superblock.open crc d := by
  have copies (offset : Nat) : Superblock.copyAt crc other offset = Superblock.copyAt crc d offset := by
    simp only [Superblock.copyAt, Device.readAt, bytes, capacity]
  simp only [Superblock.open, capacity, copies]

private theorem open_disk_congr (env : Env) (fs other : FileSystem) (entry : DiskConfigEntry)
    (nodeId : NodeId) (same : other.file entry.path = fs.file entry.path) :
    (openDisk env other entry nodeId).1 = (openDisk env fs entry nodeId).1 := by
  have found : Superblock.open env.crc
      ((other.openDevice entry.path 0).2.device (other.openDevice entry.path 0).1) =
        Superblock.open env.crc
          ((fs.openDevice entry.path 0).2.device (fs.openDevice entry.path 0).1) := by
    apply open_superblock_congr
    · simp [open_device_eq, FileSystem.device, same]
    · simp [open_device_eq, FileSystem.device, same]
  have handle : (other.openDevice entry.path 0).1 = (fs.openDevice entry.path 0).1 := by
    simp [open_device_eq, same]
  rw [handle] at found
  simp only [openDisk, handle, found]
  rcases Superblock.open env.crc
    ((fs.openDevice entry.path 0).2.device (fs.openDevice entry.path 0).1) with err | sb
  · rfl
  · dsimp only
    split
    · rfl
    · split
      · rfl
      · rfl

private theorem open_disk_files (env : Env) (fs : FileSystem) (entry : DiskConfigEntry)
    (nodeId : NodeId) :
    (openDisk env fs entry nodeId).2.file = fs.file := by
  have unchanged : (openDisk env fs entry nodeId).2 = (fs.openDevice entry.path 0).2 := by
    simp only [openDisk]
    split
    · rfl
    · split
      · rfl
      · split
        · rfl
        · rfl
  rw [unchanged, open_device_eq]
  funext path
  rw [FileSystem.file_set_file]
  split
  · next here => simp [here]
  · rfl

theorem open_all_congr (env : Env) (nodeId : NodeId) (entries : List DiskConfigEntry) :
    ∀ (disks : FMap DiskId DiskRuntime) (fs other : FileSystem),
      (∀ entry ∈ entries, other.file entry.path = fs.file entry.path) →
      (openAll env nodeId false entries disks other).1 =
          (openAll env nodeId false entries disks fs).1 ∧
        (openAll env nodeId false entries disks other).2.file = other.file ∧
        (openAll env nodeId false entries disks fs).2.file = fs.file := by
  induction entries with
  | nil =>
      intro disks fs other _
      exact ⟨rfl, rfl, rfl⟩
  | cons entry rest ih =>
      intro disks fs other same
      have here := open_disk_congr env fs other entry nodeId (same entry List.mem_cons_self)
      have otherFiles := open_disk_files env other entry nodeId
      have files := open_disk_files env fs entry nodeId
      simp only [openAll, openOrFormatDisk, Bool.false_eq_true, if_false]
      rcases first : openDisk env fs entry nodeId with ⟨err | ⟨handle, sb⟩, after⟩
      · rcases second : openDisk env other entry nodeId with ⟨otherErr | ⟨otherHandle, otherSb⟩, last⟩
        · rw [first, second] at here
          cases here
          rw [first] at files
          rw [second] at otherFiles
          exact ⟨rfl, otherFiles, files⟩
        · rw [first, second] at here
          cases here
      · rcases second : openDisk env other entry nodeId with ⟨otherErr | ⟨otherHandle, otherSb⟩, last⟩
        · rw [first, second] at here
          cases here
        · rw [first, second] at here
          cases here
          rw [first] at files
          rw [second] at otherFiles
          obtain ⟨result, lastFiles, afterFiles⟩ := ih
            (disks.insert entry.id
              { config := entry, state := .online, usedBytes := 0, device := handle,
                superblock := sb }) after last (by
              intro later member
              rw [otherFiles, files]
              exact same later (List.mem_cons_of_mem _ member))
          exact ⟨result, lastFiles.trans otherFiles, afterFiles.trans files⟩

private theorem open_files (env : Env) (config : PoolConfig) (fs : FileSystem) :
    (PoolManager.open env config fs).2.file = fs.file := by
  obtain ⟨-, -, files⟩ := open_all_congr env config.nodeId config.disks ∅ fs fs fun _ _ => rfl
  unfold PoolManager.open
  split
  · rfl
  · rcases all : openAll env config.nodeId false config.disks ∅ fs with ⟨err | disks, after⟩
    · rw [all] at files
      exact files
    · rw [all] at files
      dsimp only
      split
      · exact files
      · split
        · exact files
        · split
          · exact files
          · split
            · exact files
            · exact files

/-- The disks that a loop over some entries leaves: those before, and one on the file of each
entry. -/
structure OpenedFiles (entries : List DiskConfigEntry) (before after : FMap DiskId DiskRuntime) :
    Prop where
  known : ∀ id, (before.lookup id).isSome ∨ (∃ entry ∈ entries, entry.id = id) →
    (after.lookup id).isSome
  runtime : ∀ id rt, after.lookup id = some rt → before.lookup id = some rt ∨
    ∃ entry ∈ entries, entry.id = id ∧ rt.config = entry ∧ rt.device.path = entry.path

private theorem open_or_format_path (env : Env) (fs after : FileSystem) (entry : DiskConfigEntry)
    (nodeId : NodeId) (format : Bool) (handle : FileBlockDevice) (sb : Superblock)
    (ok : openOrFormatDisk env fs entry nodeId format = (.ok (handle, sb), after)) :
    handle.path = entry.path := by
  unfold openOrFormatDisk at ok
  split at ok
  · rw [(format_disk_opened env fs after entry nodeId handle sb ok).1]
    rfl
  · simp only [openDisk] at ok
    split at ok
    · cases ok
    · split at ok
      · cases ok
      · split at ok
        · cases ok
        · cases ok
          rw [open_device_eq]

theorem open_all_runtimes (env : Env) (nodeId : NodeId) (format : Bool)
    (entries : List DiskConfigEntry) :
    ∀ (disks final : FMap DiskId DiskRuntime) (fs after : FileSystem),
      openAll env nodeId format entries disks fs = (.ok final, after) →
      OpenedFiles entries disks final := by
  induction entries with
  | nil =>
      intro disks final fs after ok
      cases ok
      exact ⟨by simp, fun id rt found => .inl found⟩
  | cons entry rest ih =>
      intro disks final fs after ok
      rw [openAll] at ok
      split at ok
      · cases ok
      · next handle sb middle done =>
          have path := open_or_format_path env fs middle entry nodeId format handle sb done
          have later := ih _ final middle after ok
          constructor
          · intro id there
            apply later.known
            rw [lookup_insert_eq]
            by_cases same : id = entry.id
            · exact .inl (by rw [if_pos same]; rfl)
            · rw [if_neg same]
              rcases there with old | ⟨other, member, sameId⟩
              · exact .inl old
              · cases List.mem_cons.mp member with
                | inl here => exact absurd (here ▸ sameId).symm same
                | inr behind => exact .inr ⟨other, behind, sameId⟩
          · intro id rt found
            rcases later.runtime id rt found with old | ⟨other, member, rest⟩
            · rw [lookup_insert_eq] at old
              split at old
              · next here =>
                  cases old
                  exact .inr ⟨entry, List.mem_cons_self, here.symm, rfl, path⟩
              · exact .inl old
            · exact .inr ⟨other, List.mem_cons_of_mem _ member, rest⟩

theorem read_root_congr (crc : Crc) (d other : Device) (bytes : other.bytes = d.bytes)
    (capacity : other.capacity = d.capacity) (offset : Nat) :
    PoolStateRoot.read crc other offset = PoolStateRoot.read crc d offset := by
  simp only [PoolStateRoot.read, Device.readAt, bytes, capacity]

theorem open_congr (env : Env) (config : PoolConfig) (fs other : FileSystem)
    (same : ∀ entry ∈ config.disks, other.file entry.path = fs.file entry.path) :
    (PoolManager.open env config other).1 = (PoolManager.open env config fs).1 := by
  obtain ⟨result, otherFiles, files⟩ :=
    open_all_congr env config.nodeId config.disks ∅ fs other same
  unfold PoolManager.open
  split
  · rfl
  · rcases first : openAll env config.nodeId false config.disks ∅ fs with ⟨err | disks, after⟩
    · rcases second : openAll env config.nodeId false config.disks ∅ other with
        ⟨otherErr | otherDisks, last⟩
      · rw [first, second] at result
        cases result
        rfl
      · rw [first, second] at result
        cases result
    · rcases second : openAll env config.nodeId false config.disks ∅ other with
        ⟨otherErr | otherDisks, last⟩
      · rw [first, second] at result
        cases result
      · rw [first, second] at result
        cases result
        rw [first] at files
        rw [second] at otherFiles
        have opened := open_all_runtimes env config.nodeId false config.disks ∅ _ fs after first
        dsimp only
        rcases least : config.primary with _ | primary
        · rfl
        · rcases found : disks.lookup primary.id with _ | rt
          · simp only [found]
          · have here : last.file rt.device.path = after.file rt.device.path := by
              rcases opened.runtime primary.id rt found with old | ⟨entry, member, -, -, path⟩
              · simp at old
              · rw [path, otherFiles, files]
                exact same entry member
            have block : PoolStateRoot.read env.crc (last.device rt.device) poolStateRootOffset =
                PoolStateRoot.read env.crc (after.device rt.device) poolStateRootOffset := by
              apply read_root_congr
              · simp only [FileSystem.device, here]
              · rfl
            simp only [found, block]
            split
            · rfl
            · split
              · rfl
              · rfl

/-- Nothing of a call is left: the configuration, the status and what the configuration opens
are the same, and what would have succeeded does so, whatever the devices do later. -/
structure LeavesNoTrace (env : Env) (mgr : PoolManager) (fs : FileSystem) (after : PoolManager)
    (afterFs : FileSystem) : Prop where
  config : after.config = mgr.config
  status : after.status = mgr.status
  reopens : (PoolManager.open env mgr.config afterFs).1 = (PoolManager.open env mgr.config fs).1
  later : ∀ (faults : Path → List (Option Storage.Fault)) (calls : List Call),
    (performAll env calls mgr { fs with faults := faults }).isSome = true →
      (performAll env calls after { afterFs with faults := faults }).isSome = true

def Draining (mgr : PoolManager) (id : DiskId) : Prop :=
  ∃ rt, mgr.disks.lookup id = some rt ∧ rt.state = .draining

/-- The call is stopped before the tables of the manager change, and if the device fails while
it is formatted, the file is none of the pool's. -/
def Refused (mgr : PoolManager) (fs : FileSystem) : Call → Prop
  | .addDisk entry =>
      mgr.Declines entry ∨ TooSmall fs entry ∨
        (¬ Quiet 4 (fs.faults entry.path) ∧ ∀ disk ∈ mgr.config.disks, disk.path ≠ entry.path)
  | .removeDisk id => id ∉ mgr.disks ∨ Draining mgr id
  | .commit => True

/-- The call is stopped before the tables of the manager change. -/
def Early (mgr : PoolManager) (fs : FileSystem) : Call → Prop
  | .addDisk entry => mgr.Declines entry ∨ TooSmall fs entry ∨ ¬ Quiet 4 (fs.faults entry.path)
  | .removeDisk id => id ∉ mgr.disks ∨ Draining mgr id
  | .commit => True

/-- The tables describe the disks, the files are large enough, and the primary disk holds the
block of the current states. -/
structure Kept (env : Env) (mgr : PoolManager) (fs : FileSystem) : Prop where
  ids : (mgr.config.disks.map DiskConfigEntry.id).Nodup
  known : ∀ entry ∈ mgr.config.disks, (mgr.disks.lookup entry.id).isSome
  runtime : ∀ id rt, mgr.disks.lookup id = some rt →
    rt.config ∈ mgr.config.disks ∧ rt.config.id = id ∧ rt.device.path = rt.config.path
  sizes : ∀ entry ∈ mgr.config.disks, blockSize * 3 ≤ (fs.file entry.path).length
  current : ∃ primary psr, mgr.config.primary = some primary ∧ mgr.stateRoot env = .ok psr ∧
    read (fs.file primary.path).bytes poolStateRootOffset blockSize =
      sealed env.crc PoolStateRoot.body psr

private theorem no_trace_of_files (env : Env) (mgr : PoolManager) (fs after : FileSystem)
    (same : ∀ entry ∈ mgr.config.disks, after.file entry.path = fs.file entry.path)
    (length : ∀ path, (fs.file path).length ≤ (after.file path).length) :
    LeavesNoTrace env mgr fs mgr after where
  config := rfl
  status := rfl
  reopens := open_congr env mgr.config fs after same
  later := by
    intro faults calls performed
    have large : AsLarge mgr { fs with faults := faults } mgr { after with faults := faults } :=
      { config := rfl
        present := fun _ rt found => ⟨rt, found, rfl, rfl, rfl, Nat.le_refl _⟩
        absent := fun _ none => none
        faults := rfl
        length := length }
    exact large.perform_all calls performed

private theorem drained_same (mgr : PoolManager) (id : DiskId) (draining : Draining mgr id) :
    mgr.drained id = mgr := by
  obtain ⟨rt, found, state⟩ := draining
  have disks : update mgr.disks id (fun rt => { rt with state := .draining }) = mgr.disks := by
    apply Finmap.ext_lookup
    intro other
    rw [lookup_update]
    split
    · next here =>
        rw [here, found, Option.map_some, ← state]
    · rfl
  rw [PoolManager.drained, disks]

/-- The disk that the block is written to is the primary one of the configuration. -/
theorem Kept.primary_path {env : Env} {mgr : PoolManager} {fs : FileSystem}
    (kept : Kept env mgr fs) (primary : DiskConfigEntry) (rt : DiskRuntime)
    (least : mgr.config.primary = some primary) (found : mgr.disks.lookup primary.id = some rt) :
    rt.device.path = primary.path := by
  obtain ⟨member, sameId, path⟩ := kept.runtime primary.id rt found
  rw [path, List.inj_on_of_nodup_map kept.ids member (primary_mem mgr.config primary least) sameId]

theorem Kept.write_root {env : Env} {mgr : PoolManager} {fs : FileSystem}
    (kept : Kept env mgr fs) : (mgr.writePoolStateRoot env fs).2.file = fs.file := by
  rcases write_root_cases env mgr fs with ⟨err, failed⟩ | ⟨primary, psr, rt, least, built, found⟩
  · rw [failed]
  · obtain ⟨first, current, sameFirst, sameRoot, block⟩ := kept.current
    rw [least] at sameFirst
    rw [built] at sameRoot
    cases sameFirst
    cases sameRoot
    rw [write_root_eq env mgr fs primary psr rt least built found, FileSystem.on]
    have path := kept.primary_path primary rt least found
    obtain ⟨count, bytes, -⟩ := put_state_root_bytes env psr (fs.device rt.device)
    have stored : (fs.device rt.device).bytes = (fs.file primary.path).bytes := by
      rw [FileSystem.device, path]
    have length := psr.length_block env.crc
    rw [stored, overwrite_take_same _ _ _ _ (by rw [length]; exact block)] at bytes
    funext other
    rw [FileSystem.file_stored, bytes, path]
    split
    · next here => rw [here]
    · rfl

/-- A block that was written is on the primary disk. -/
theorem write_root_current (env : Env) (mgr : PoolManager) (fs : FileSystem)
    (ids : (mgr.config.disks.map DiskConfigEntry.id).Nodup)
    (runtime : ∀ id rt, mgr.disks.lookup id = some rt →
      rt.config ∈ mgr.config.disks ∧ rt.config.id = id ∧ rt.device.path = rt.config.path)
    (ok : (mgr.writePoolStateRoot env fs).1 = .ok ()) :
    ∃ primary psr, mgr.config.primary = some primary ∧ mgr.stateRoot env = .ok psr ∧
      read ((mgr.writePoolStateRoot env fs).2.file primary.path).bytes poolStateRootOffset
        blockSize = sealed env.crc PoolStateRoot.body psr := by
  obtain ⟨primary, psr, rt, least, built, found, -⟩ := (write_root_ok_iff env mgr fs).mp ok
  refine ⟨primary, psr, least, built, ?_⟩
  obtain ⟨member, sameId, path⟩ := runtime primary.id rt found
  rw [List.inj_on_of_nodup_map ids member (primary_mem mgr.config primary least) sameId] at path
  rw [write_root_eq env mgr fs primary psr rt least built found, FileSystem.on] at ok ⊢
  obtain ⟨count, bytes, whole⟩ := put_state_root_bytes env psr (fs.device rt.device)
  rw [FileSystem.file_stored, if_pos path.symm, bytes, whole ok, List.take_length]
  have back := read_overwrite (fs.device rt.device).bytes poolStateRootOffset
    (sealed env.crc PoolStateRoot.body psr)
  rw [psr.length_block] at back
  exact back

theorem Kept.of_files {env : Env} {mgr : PoolManager} {fs after : FileSystem}
    (kept : Kept env mgr fs)
    (same : ∀ disk ∈ mgr.config.disks, after.file disk.path = fs.file disk.path) :
    Kept env mgr after := by
  refine ⟨kept.ids, kept.known, kept.runtime, ?_, ?_⟩
  · intro entry member
    rw [same entry member]
    exact kept.sizes entry member
  · obtain ⟨primary, psr, least, built, block⟩ := kept.current
    refine ⟨primary, psr, least, built, ?_⟩
    rw [same primary (primary_mem mgr.config primary least)]
    exact block

/-- A disk that is too small for its file is smaller than what the pool's files have. -/
theorem refused_format_files (env : Env) (mgr : PoolManager) (fs : FileSystem)
    (kept : Kept env mgr fs) (entry : DiskConfigEntry) (nodeId : NodeId)
    (refused : TooSmall fs entry ∨ ∀ disk ∈ mgr.config.disks, disk.path ≠ entry.path) :
    ∀ disk ∈ mgr.config.disks,
      (formatDisk env fs entry nodeId).2.file disk.path = fs.file disk.path := by
  intro disk member
  by_cases here : disk.path = entry.path
  · rcases refused with small | free
    · have size := kept.sizes disk member
      have opened := format_disk_small env fs entry nodeId small
      rw [TooSmall, device_size_eq] at small
      rw [here] at size ⊢
      split at small
      · omega
      · rw [opened, Nat.max_eq_left (by omega)]
    · exact absurd here (free disk member)
  · exact (format_disk_files env fs entry nodeId disk.path).2 here

/-- A call that is refused leaves the tables, the files of the pool and no shorter files. -/
theorem refused_effect (env : Env) (mgr : PoolManager) (fs : FileSystem) (kept : Kept env mgr fs)
    (call : Call) (refused : Refused mgr fs call) (err : PoolError)
    (failed : (call.attempt env mgr fs).1 = .error err) :
    (call.attempt env mgr fs).2.1 = mgr ∧
      (∀ disk ∈ mgr.config.disks,
        (call.attempt env mgr fs).2.2.file disk.path = fs.file disk.path) ∧
      ∀ path, (fs.file path).length ≤ ((call.attempt env mgr fs).2.2.file path).length := by
  cases call with
  | commit =>
      have same := kept.write_root
      refine ⟨rfl, ?_, ?_⟩
      · intro disk _
        exact congrFun same disk.path
      · intro path
        exact Nat.le_of_eq (congrArg File.length (congrFun same path)).symm
  | removeDisk id =>
      by_cases known : id ∈ mgr.disks
      · have same := drained_same mgr id (refused.resolve_left (not_not.mpr known))
        have files := kept.write_root
        have ran : Call.attempt env mgr fs (.removeDisk id) =
            ((mgr.writePoolStateRoot env fs).1, mgr, (mgr.writePoolStateRoot env fs).2) := by
          rw [Call.attempt, PoolManager.removeDisk, if_neg (not_not.mpr known)]
          change (((mgr.drained id).writePoolStateRoot env fs).1, mgr.drained id,
            ((mgr.drained id).writePoolStateRoot env fs).2) = _
          rw [same]
        rw [ran]
        refine ⟨rfl, ?_, ?_⟩
        · intro disk _
          exact congrFun files disk.path
        · intro path
          exact Nat.le_of_eq (congrArg File.length (congrFun files path)).symm
      · have ran : Call.attempt env mgr fs (.removeDisk id) =
            (.error (.diskNotFound id), mgr, fs) := by
          rw [Call.attempt, PoolManager.removeDisk, if_pos known]
        rw [ran]
        exact ⟨rfl, fun _ _ => rfl, fun _ => Nat.le_refl _⟩
  | addDisk entry =>
      by_cases declined : mgr.Declines entry
      · obtain ⟨other, ran⟩ := add_disk_declined env mgr entry fs declined
        simp only [Call.attempt, ran]
        exact ⟨trivial, fun _ _ => trivial, fun _ => Nat.le_refl _⟩
      · have stopped := refused.resolve_left declined
        have unformatted : ¬ ∃ opened,
            (formatDisk env fs entry mgr.config.nodeId).1 = .ok opened := by
          rw [format_disk_ok_iff]
          rcases stopped with small | ⟨loud, -⟩
          · exact fun both => both.1 small
          · exact fun both => loud both.2
        have free : TooSmall fs entry ∨ ∀ disk ∈ mgr.config.disks, disk.path ≠ entry.path :=
          stopped.imp_right And.right
        have files := refused_format_files env mgr fs kept entry mgr.config.nodeId free
        have lengths := fun path => (format_disk_files env fs entry mgr.config.nodeId path).1
        rcases done : formatDisk env fs entry mgr.config.nodeId with ⟨other | opened, after⟩
        · rw [done] at files lengths
          simp only [Call.attempt, add_disk_unformatted env mgr entry fs after other declined done]
          refine ⟨trivial, files, ?_⟩
          intro path
          rw [lengths]
          split
          · exact Nat.le_max_left _ _
          · exact Nat.le_refl _
        · exact absurd ⟨opened, congrArg Prod.fst done⟩ unformatted

theorem draining_of_status (mgr : PoolManager) (id : DiskId) (known : id ∈ mgr.disks)
    (same : (mgr.drained id).status = mgr.status) : Draining mgr id := by
  obtain ⟨rt, found⟩ := Finmap.mem_iff.mp known
  have marked : (id, { rt with state := .draining }) ∈ toSorted (mgr.drained id).disks := by
    apply (mem_to_sorted _ _ _).mpr
    simp [PoolManager.drained, found]
  have shown := List.mem_map_of_mem (f := fun row : DiskId × DiskRuntime =>
    (row.1, row.2.state, row.2.config.mediaType, row.2.config.tier, row.2.config.capacityBytes,
      row.2.usedBytes)) marked
  have disks := congrArg PoolStatus.disks same
  simp only [PoolManager.status] at disks
  rw [disks, List.mem_map] at shown
  obtain ⟨⟨other, old⟩, member, row⟩ := shown
  simp only [Prod.mk.injEq] at row
  obtain ⟨rfl, state, -⟩ := row
  exact ⟨old, (mem_to_sorted _ _ _).mp member, state⟩

theorem early_of_no_trace (env : Env) (mgr : PoolManager) (fs : FileSystem) (call : Call)
    (err : PoolError) (failed : (call.attempt env mgr fs).1 = .error err)
    (clean : LeavesNoTrace env mgr fs (call.attempt env mgr fs).2.1
      (call.attempt env mgr fs).2.2) : Early mgr fs call := by
  cases call with
  | commit => trivial
  | removeDisk id =>
      by_cases known : id ∈ mgr.disks
      · right
        have status := clean.status
        simp only [Call.attempt, PoolManager.removeDisk, if_neg (not_not.mpr known)] at status
        exact draining_of_status mgr id known status
      · exact .inl known
  | addDisk entry =>
      by_contra late
      simp only [Early, not_or, not_not] at late
      obtain ⟨accepted, room, quiet⟩ := late
      obtain ⟨handle, sb, done⟩ := format_disk_done env fs entry mgr.config.nodeId ⟨room, quiet⟩
      have config := clean.config
      simp only [Call.attempt, add_disk_formatted env mgr entry fs _ handle sb accepted done,
        PoolManager.withDisk] at config
      have disks := congrArg (fun config => config.disks.length) config
      simp at disks

private theorem kept_drained (env : Env) (mgr : PoolManager) (fs : FileSystem)
    (kept : Kept env mgr fs)
    (id : DiskId) (ok : ((mgr.drained id).writePoolStateRoot env fs).1 = .ok ()) :
    Kept env (mgr.drained id) ((mgr.drained id).writePoolStateRoot env fs).2 := by
  have runtime : ∀ disk rt, (mgr.drained id).disks.lookup disk = some rt →
      rt.config ∈ mgr.config.disks ∧ rt.config.id = disk ∧ rt.device.path = rt.config.path := by
    intro disk rt found
    simp only [PoolManager.drained, lookup_update] at found
    split at found
    · obtain ⟨old, present, rfl⟩ := Option.map_eq_some_iff.mp found
      exact kept.runtime disk old present
    · exact kept.runtime disk rt found
  refine ⟨kept.ids, ?_, runtime, ?_, write_root_current env _ fs kept.ids runtime ok⟩
  · intro entry member
    have known := kept.known entry member
    simp only [PoolManager.drained, lookup_update]
    split
    · rw [Option.isSome_map]
      exact known
    · exact known
  · intro entry member
    rw [write_root_length]
    exact kept.sizes entry member

private theorem kept_added (env : Env) (mgr : PoolManager) (fs formatted : FileSystem)
    (kept : Kept env mgr fs) (entry : DiskConfigEntry) (handle : FileBlockDevice) (sb : Superblock)
    (accepted : ¬ mgr.Declines entry)
    (done : formatDisk env fs entry mgr.config.nodeId = (.ok (handle, sb), formatted))
    (ok : ((mgr.withDisk entry handle sb).writePoolStateRoot env formatted).1 = .ok ()) :
    Kept env (mgr.withDisk entry handle sb)
      ((mgr.withDisk entry handle sb).writePoolStateRoot env formatted).2 := by
  have fresh : ∀ other ∈ mgr.config.disks, other.id ≠ entry.id := by
    intro other member same
    apply accepted
    left
    rw [Finmap.mem_iff, ← same]
    exact Option.isSome_iff_exists.mp (kept.known other member)
  have handleEq := (format_disk_opened env fs formatted entry mgr.config.nodeId handle sb done).1
  have ids : ((mgr.withDisk entry handle sb).config.disks.map DiskConfigEntry.id).Nodup := by
    simp only [PoolManager.withDisk, List.map_append]
    rw [List.nodup_append]
    refine ⟨kept.ids, List.nodup_singleton _, ?_⟩
    intro id member last single same
    obtain ⟨other, inside, rfl⟩ := List.mem_map.mp member
    rw [List.map_singleton, List.mem_singleton] at single
    exact fresh other inside (same.trans single)
  have runtime : ∀ id rt, (mgr.withDisk entry handle sb).disks.lookup id = some rt →
      rt.config ∈ (mgr.withDisk entry handle sb).config.disks ∧ rt.config.id = id ∧
        rt.device.path = rt.config.path := by
    intro id rt found
    simp only [PoolManager.withDisk, lookup_insert_eq] at found ⊢
    split at found
    · next same =>
        cases found
        rw [handleEq]
        exact ⟨List.mem_append_right _ List.mem_cons_self, same.symm, rfl⟩
    · obtain ⟨member, rest⟩ := kept.runtime id rt found
      exact ⟨List.mem_append_left _ member, rest⟩
  refine ⟨ids, ?_, runtime, ?_, write_root_current env _ formatted ids runtime ok⟩
  · intro other member
    simp only [PoolManager.withDisk, lookup_insert_eq, List.mem_append, List.mem_singleton] at member ⊢
    split
    · rfl
    · next different =>
        rcases member with old | rfl
        · exact kept.known other old
        · exact absurd rfl different
  · intro other member
    simp only [PoolManager.withDisk, List.mem_append, List.mem_singleton] at member
    have length := (format_disk_files env fs entry mgr.config.nodeId other.path).1
    rw [done] at length
    rw [write_root_length, length]
    have room := ((format_disk_ok_iff env fs entry mgr.config.nodeId).mp
      ⟨_, congrArg Prod.fst done⟩).1
    rw [TooSmall, device_size_eq, Nat.not_lt] at room
    rcases member with old | rfl
    · have size := kept.sizes other old
      split
      · exact size.trans (Nat.le_max_left _ _)
      · exact size
    · rw [if_pos rfl]
      split at room
      · exact room.trans (Nat.le_max_left _ _)
      · exact room.trans (Nat.le_max_right _ _)

private theorem kept_attempt (env : Env) (mgr : PoolManager) (fs : FileSystem)
    (kept : Kept env mgr fs)
    (call : Call) (ok : (call.attempt env mgr fs).1 = .ok ()) :
    Kept env (call.attempt env mgr fs).2.1 (call.attempt env mgr fs).2.2 := by
  cases call with
  | commit =>
      apply kept.of_files
      intro disk _
      exact congrFun kept.write_root disk.path
  | removeDisk id =>
      by_cases known : id ∈ mgr.disks
      · simp only [Call.attempt, PoolManager.removeDisk, if_neg (not_not.mpr known)] at ok ⊢
        exact kept_drained env mgr fs kept id ok
      · simp only [Call.attempt, PoolManager.removeDisk, if_pos known] at ok
        cases ok
  | addDisk entry =>
      by_cases declined : mgr.Declines entry
      · obtain ⟨err, ran⟩ := add_disk_declined env mgr entry fs declined
        simp only [Call.attempt, ran] at ok
        cases ok
      · rcases done : formatDisk env fs entry mgr.config.nodeId with ⟨err | ⟨handle, sb⟩, formatted⟩
        · simp only [Call.attempt, add_disk_unformatted env mgr entry fs formatted err declined
            done] at ok
          cases ok
        · simp only [Call.attempt, add_disk_formatted env mgr entry fs formatted handle sb declined
            done] at ok ⊢
          apply kept_added env mgr fs formatted kept entry handle sb declined done
          rcases result : ((mgr.withDisk entry handle sb).writePoolStateRoot env formatted).1 with
            err | ⟨⟩
          · rw [result] at ok
            cases ok
          · rfl

theorem applied_runtimes (wire : List DiskDescriptorOnDisk) :
    ∀ disks final : FMap DiskId DiskRuntime, PoolManager.applyDescriptors wire disks = .ok final →
      ∀ id, (final.lookup id).map (fun rt => (rt.config, rt.device)) =
        (disks.lookup id).map fun rt => (rt.config, rt.device) := by
  induction wire with
  | nil =>
      intro disks final ok id
      cases ok
      rfl
  | cons d rest ih =>
      intro disks final ok id
      simp only [PoolManager.applyDescriptors, bind, Except.bind] at ok
      split at ok
      · cases ok
      · rw [ih _ final ok id, lookup_update]
        split
        · rw [Option.map_map]
          rfl
        · rfl

/-- The block that a pool reads when it is opened is the one that was written last. -/
theorem reads_current (env : Env) (fs last : FileSystem) (psr : PoolStateRoot) (rt : DiskRuntime)
    (primary : DiskConfigEntry) (files : last.file = fs.file) (path : rt.device.path = primary.path)
    (header : psr.header = PoolStateRoot.newBlank.header)
    (block : read (fs.file primary.path).bytes poolStateRootOffset blockSize =
      sealed env.crc PoolStateRoot.body psr) (stored : PoolStateRoot)
    (readBack : PoolStateRoot.read env.crc (last.device rt.device) poolStateRootOffset =
      .ok stored) : stored = psr := by
  rcases taken : (last.device rt.device).readAt poolStateRootOffset blockSize with err | bytes
  · simp only [PoolStateRoot.read, taken, Except.mapError, bind, Except.bind] at readBack
    cases readBack
  · have same := (read_of_read_at _ _ _ _ taken).1
    have deviceBytes : (last.device rt.device).bytes = (fs.file primary.path).bytes := by
      rw [FileSystem.device, files, path]
    rw [deviceBytes, block] at same
    rw [← same] at taken
    rw [PoolStateRoot.read_stored env.crc psr _ _ header taken] at readBack
    exact (Except.ok.inj readBack).symm

/-- Opened disks that take the states of the current block show what the manager shows. -/
theorem views_of_current (env : Env) (mgr : PoolManager) {fs : FileSystem}
    (disks final : FMap DiskId DiskRuntime) (psr : PoolStateRoot) (kept : Kept env mgr fs)
    (entryOf : ∀ id rt, disks.lookup id = some rt →
      rt.config ∈ mgr.config.disks ∧ rt.config.id = id ∧ rt.device.path = rt.config.path)
    (opened : ∀ id, ((∅ : FMap DiskId DiskRuntime).lookup id).isSome ∨
      (∃ entry ∈ mgr.config.disks, entry.id = id) → (disks.lookup id).isSome)
    (built : mgr.stateRoot env = .ok psr)
    (applied : PoolManager.applyDescriptors psr.inlineIter disks = .ok final) :
    ∀ id, (final.lookup id).map DiskRuntime.view = (mgr.disks.lookup id).map DiskRuntime.view := by
  have rowLookup : ∀ row ∈ toSorted mgr.disks, mgr.disks.lookup row.1 = some row.2 := by
    intro row inside
    exact (mem_to_sorted mgr.disks row.1 row.2).mp inside
  have own : ∀ row ∈ toSorted mgr.disks, row.2.config.id = row.1 := by
    intro row inside
    exact (kept.runtime row.1 row.2 (rowLookup row inside)).2.1
  have distinct : ((toSorted mgr.disks).map Prod.fst).Nodup :=
    (increasing_to_sorted mgr.disks).imp fun below => ne_of_lt below
  obtain ⟨last, done, changed, others⟩ := apply_described env (toSorted mgr.disks) own distinct
    psr.inlineIter disks (state_root_ok env mgr psr built).1
  rw [applied] at done
  cases done
  intro id
  rcases found : mgr.disks.lookup id with _ | old
  · have missing : ∀ row ∈ toSorted mgr.disks, row.1 ≠ id := by
      intro row inside same
      have present := rowLookup row inside
      rw [same, found] at present
      cases present
    have unopened : disks.lookup id = none := by
      rw [Option.eq_none_iff_forall_ne_some]
      intro rt there
      obtain ⟨listed, sameId, -⟩ := entryOf id rt there
      have known := kept.known rt.config listed
      rw [sameId, found] at known
      cases known
    rw [others id missing, unopened]
  · obtain ⟨listed, sameId, -⟩ := kept.runtime id old found
    obtain ⟨fresh, present⟩ :=
      Option.isSome_iff_exists.mp (opened id (.inr ⟨old.config, listed, sameId⟩))
    obtain ⟨freshListed, freshId, -⟩ := entryOf id fresh present
    have config : fresh.config = old.config :=
      List.inj_on_of_nodup_map kept.ids freshListed listed (freshId.trans sameId.symm)
    have row := changed (id, old) ((mem_to_sorted mgr.disks id old).mpr found)
    rw [row, present]
    simp [DiskRuntime.view, config]

theorem kept_opened (env : Env) (mgr opened : PoolManager) (fs after : FileSystem)
    (kept : Kept env mgr fs)
    (ok : PoolManager.open env mgr.config fs = (.ok opened, after)) : Kept env opened after := by
  obtain ⟨-, -, files⟩ := open_all_congr env mgr.config.nodeId mgr.config.disks ∅ fs fs
    fun _ _ => rfl
  obtain ⟨primary, psr, least, built, block⟩ := kept.current
  have member := primary_mem mgr.config primary least
  rw [PoolManager.open, if_neg (List.ne_nil_of_mem member)] at ok
  rcases all : openAll env mgr.config.nodeId false mgr.config.disks ∅ fs with ⟨err | disks, last⟩
  · rw [all] at ok
    cases ok
  · rw [all] at ok files
    simp only [least] at ok
    have found := open_all_runtimes env mgr.config.nodeId false mgr.config.disks ∅ disks fs last all
    have entryOf (id : DiskId) (rt : DiskRuntime) (there : disks.lookup id = some rt) :
        rt.config ∈ mgr.config.disks ∧ rt.config.id = id ∧ rt.device.path = rt.config.path := by
      rcases found.runtime id rt there with old | ⟨entry, inside, sameId, config, path⟩
      · simp at old
      · rw [config]
        exact ⟨inside, sameId, path⟩
    rcases here : disks.lookup primary.id with _ | rt
    · simp only [here] at ok
      cases ok
    · simp only [here] at ok
      split at ok
      · cases ok
      · next stored readBack =>
          split at ok
          · cases ok
          · next final applied =>
              cases ok
              obtain ⟨inside, sameId, path⟩ := entryOf primary.id rt here
              have config : rt.config = primary :=
                List.inj_on_of_nodup_map kept.ids inside member sameId
              have place : rt.device.path = primary.path := by rw [path, config]
              have same := reads_current env fs after psr rt primary files place
                (state_root_ok env mgr psr built).2.1 block stored readBack
              subst same
              have views := views_of_current env mgr disks final stored kept entryOf found.known
                built applied
              have runtimes := applied_runtimes stored.inlineIter disks final applied
              refine ⟨kept.ids, ?_, ?_, ?_, primary, stored, least, ?_, ?_⟩
              · intro entry listed
                have there := found.known entry.id (.inr ⟨entry, listed, rfl⟩)
                have isSome := congrArg Option.isSome (runtimes entry.id)
                rw [Option.isSome_map, Option.isSome_map] at isSome
                rw [isSome]
                exact there
              · intro id other there
                have parts := runtimes id
                rw [there, Option.map_some] at parts
                obtain ⟨fresh, present, pair⟩ := Option.map_eq_some_iff.mp parts.symm
                rw [Prod.mk.injEq] at pair
                rw [← pair.1, ← pair.2]
                exact entryOf id fresh present
              · intro entry listed
                rw [files]
                exact kept.sizes entry listed
              · exact (state_root_of_views env mgr _ views).trans built
              · rw [files]
                exact block

private theorem format_all_sizes (env : Env) (nodeId : NodeId) (entries : List DiskConfigEntry) :
    ∀ (disks final : FMap DiskId DiskRuntime) (fs after : FileSystem),
      openAll env nodeId true entries disks fs = (.ok final, after) →
      (∀ path, (fs.file path).length ≤ (after.file path).length) ∧
        ∀ entry ∈ entries, blockSize * 3 ≤ (after.file entry.path).length := by
  induction entries with
  | nil =>
      intro disks final fs after ok
      cases ok
      exact ⟨fun _ => Nat.le_refl _, by simp⟩
  | cons entry rest ih =>
      intro disks final fs after ok
      rw [openAll, openOrFormatDisk, if_pos rfl] at ok
      split at ok
      · cases ok
      · next handle sb middle done =>
          obtain ⟨grown, sizes⟩ := ih _ final middle after ok
          have length := fun path => (format_disk_files env fs entry nodeId path).1
          rw [done] at length
          constructor
          · intro path
            refine Nat.le_trans ?_ (grown path)
            rw [length]
            split
            · exact Nat.le_max_left _ _
            · exact Nat.le_refl _
          · intro other member
            cases List.mem_cons.mp member with
            | inr later => exact sizes other later
            | inl same =>
                subst same
                refine Nat.le_trans ?_ (grown other.path)
                have room := ((format_disk_ok_iff env fs other nodeId).mp
                  ⟨_, congrArg Prod.fst done⟩).1
                rw [TooSmall, device_size_eq, Nat.not_lt] at room
                rw [length, if_pos rfl]
                split at room
                · exact room.trans (Nat.le_max_left _ _)
                · exact room.trans (Nat.le_max_right _ _)

private theorem kept_created (env : Env) (config : PoolConfig) (mgr : PoolManager)
    (fs created : FileSystem)
    (made : PoolManager.create env config fs = (.ok mgr, created)) : Kept env mgr created := by
  unfold PoolManager.create at made
  split at made
  · cases made
  split at made
  · cases made
  split at made
  · cases made
  next free =>
    have ids := (duplicate_free config.disks [] free).1
    rcases opened : openAll env config.nodeId true config.disks ∅ fs with ⟨err | disks, formatted⟩
    · rw [opened] at made
      cases made
    · rw [opened] at made
      dsimp only at made
      have found := open_all_runtimes env config.nodeId true config.disks ∅ disks fs formatted opened
      have sizes := (format_all_sizes env config.nodeId config.disks ∅ disks fs formatted opened).2
      have runtime : ∀ id rt, disks.lookup id = some rt →
          rt.config ∈ config.disks ∧ rt.config.id = id ∧ rt.device.path = rt.config.path := by
        intro id rt there
        rcases found.runtime id rt there with old | ⟨entry, inside, sameId, same, path⟩
        · simp at old
        · rw [same]
          exact ⟨inside, sameId, path⟩
      split at made
      · cases made
      · next written =>
          cases made
          have current := write_root_current env { config := config, disks := disks } formatted ids
            runtime (congrArg Prod.fst written)
          have lengths := fun path =>
            write_root_length env { config := config, disks := disks } formatted path
          rw [written] at current lengths
          refine ⟨ids, ?_, runtime, ?_, current⟩
          · intro entry member
            exact found.known entry.id (.inr ⟨entry, member, rfl⟩)
          · intro entry member
            rw [lengths]
            exact sizes entry member

/-- What a program does with a pool, or opening the pool anew. -/
inductive Action where
  | perform (call : Call)
  | reopen
deriving DecidableEq, Repr

/-- A pool that cannot be opened stays with the manager there was. -/
def Action.step (env : Env) (state : PoolManager × FileSystem) : Action → PoolManager × FileSystem
  | .perform call => (call.attempt env state.1 state.2).2
  | .reopen =>
      match PoolManager.open env state.1.config state.2 with
      | (.ok mgr, after) => (mgr, after)
      | (.error _, after) => (state.1, after)

def Action.Fails (env : Env) (state : PoolManager × FileSystem) : Action → Prop
  | .perform call => ∃ err, (call.attempt env state.1 state.2).1 = .error err
  | .reopen => False

def FailsOnly (env : Env) (condition : PoolManager → FileSystem → Call → Prop)
    (state : PoolManager × FileSystem) (action : Action) : Prop :=
  ∀ call, action = .perform call → action.Fails env state → condition state.1 state.2 call

/-- Every disk change of the run that fails leaves no trace. -/
def NoTraceThroughout (env : Env) (start : PoolManager × FileSystem) (actions : List Action) :
    Prop :=
  ∀ before call, before ++ [.perform call] <+: actions → call ≠ .commit →
    Action.Fails env (Runs.run (Action.step env) start before) (.perform call) →
      LeavesNoTrace env (Runs.run (Action.step env) start before).1
        (Runs.run (Action.step env) start before).2
        (Runs.run (Action.step env) start (before ++ [.perform call])).1
        (Runs.run (Action.step env) start (before ++ [.perform call])).2

private theorem kept_step (env : Env) (state : PoolManager × FileSystem) (action : Action)
    (kept : Kept env state.1 state.2) (careful : FailsOnly env Refused state action) :
    Kept env (action.step env state).1 (action.step env state).2 := by
  cases action with
  | perform call =>
      rcases ran : (call.attempt env state.1 state.2).1 with err | ⟨⟩
      · obtain ⟨same, files, -⟩ := refused_effect env state.1 state.2 kept call
          (careful call rfl ⟨err, ran⟩) err ran
        rw [Action.step, same]
        exact kept.of_files files
      · exact kept_attempt env state.1 state.2 kept call ran
  | reopen =>
      rw [Action.step]
      split
      · next mgr after opened => exact kept_opened env state.1 mgr state.2 after kept opened
      · next err after failed =>
          apply kept.of_files
          intro disk _
          have files := open_files env state.1.config state.2
          rw [failed] at files
          exact congrFun files disk.path

/-- Runs whose failing calls are refused keep what the pool rests on. -/
theorem kept_run (env : Env) (start : PoolManager × FileSystem) (kept : Kept env start.1 start.2)
    (actions : List Action)
    (careful : Runs.Along (Action.step env) (FailsOnly env Refused) start actions) :
    Kept env (Runs.run (Action.step env) start actions).1
      (Runs.run (Action.step env) start actions).2 := by
  induction actions using List.reverseRecOn with
  | nil => exact kept
  | append_singleton actions action ih =>
      rw [Runs.run_append]
      apply kept_step
      · apply ih
        intro before later reached
        exact careful before later (reached.trans (List.prefix_append actions [action]))
      · exact careful actions action (List.prefix_refl _)

/-- In a run of a new pool whose failing calls are all refused before the tables change, every
disk change that fails leaves no trace; and where every one leaves none, all are stopped before
the tables change. -/
theorem failed_changes_leave_no_trace (env : Env) (config : PoolConfig) (fs created : FileSystem)
    (mgr : PoolManager) (made : PoolManager.create env config fs = (.ok mgr, created))
    (actions : List Action) :
    (Runs.Along (Action.step env) (FailsOnly env Refused) (mgr, created) actions →
      NoTraceThroughout env (mgr, created) actions) ∧
    (NoTraceThroughout env (mgr, created) actions →
      Runs.Along (Action.step env) (FailsOnly env Early) (mgr, created) actions) := by
  constructor
  · intro careful before call reached _ ⟨err, failed⟩
    have kept := kept_run env (mgr, created) (kept_created env config mgr fs created made) before
      fun earlier later prior => careful earlier later
        (prior.trans ((List.prefix_append before [.perform call]).trans reached))
    obtain ⟨same, files, lengths⟩ := refused_effect env _ _ kept call
      (careful before (.perform call) reached call rfl ⟨err, failed⟩) err failed
    rw [Runs.run_append, Action.step, same]
    exact no_trace_of_files env _ _ _ files lengths
  · intro clean before action reached call same fails
    subst same
    obtain ⟨err, failed⟩ := fails
    by_cases commit : call = .commit
    · subst commit
      trivial
    · have left := clean before call reached commit ⟨err, failed⟩
      rw [Runs.run_append, Action.step] at left
      exact early_of_no_trace env _ _ call err failed left

theorem created_faults (env : Env) (config : PoolConfig) (mgr : PoolManager)
    (fs created : FileSystem) (clear : ∀ path, fs.faults path = [])
    (made : PoolManager.create env config fs = (.ok mgr, created)) (path : Path) :
    created.faults path = [] := by
  have formatted : ∀ (entries : List DiskConfigEntry) (disks final : FMap DiskId DiskRuntime)
      (before after : FileSystem), (∀ path, before.faults path = []) →
      openAll env config.nodeId true entries disks before = (.ok final, after) →
      ∀ path, after.faults path = [] := by
    intro entries
    induction entries with
    | nil =>
        intro disks final before after none ok
        cases ok
        exact none
    | cons entry rest ih =>
        intro disks final before after none ok
        rw [openAll, openOrFormatDisk, if_pos rfl] at ok
        split at ok
        · cases ok
        · next handle sb middle done =>
            refine ih _ final middle after ?_ ok
            intro path
            rw [(format_disk_opened env before middle entry config.nodeId handle sb done).2,
              none entry.path, List.drop_nil]
            by_cases here : path = entry.path
            · rw [here, Function.update_self]
            · rw [Function.update_of_ne here, none]
  unfold PoolManager.create at made
  split at made
  · cases made
  split at made
  · cases made
  split at made
  · cases made
  next free =>
    rcases opened : openAll env config.nodeId true config.disks ∅ fs with ⟨err | disks, middle⟩
    · rw [opened] at made
      cases made
    · rw [opened] at made
      dsimp only at made
      have none := formatted config.disks ∅ disks fs middle clear opened
      split at made
      · cases made
      · next written =>
          cases made
          have ok := congrArg Prod.fst written
          obtain ⟨primary, psr, rt, least, built, found, -⟩ :=
            (write_root_ok_iff env { config := config, disks := disks } middle).mp ok
          have faults := write_root_faults env { config := config, disks := disks } middle primary
            psr rt least built found ok
          rw [written, none rt.device.path, List.drop_nil] at faults
          rw [faults]
          by_cases here : path = rt.device.path
          · rw [here, Function.update_self]
          · rw [Function.update_of_ne here, none]

private theorem described_all (env : Env) (rows : List (DiskId × DiskRuntime)) :
    ∀ wire, rows.mapM (fun row => PoolManager.describe env row.2) = .ok wire →
      ∀ row ∈ rows, ∃ d, PoolManager.describe env row.2 = .ok d := by
  induction rows with
  | nil => simp
  | cons first rest ih =>
      intro wire ok row member
      simp only [List.mapM_cons, bind, Except.bind] at ok
      split at ok
      · cases ok
      · next d described =>
          split at ok
          · cases ok
          · next later mapped =>
              cases List.mem_cons.mp member with
              | inl same => exact ⟨d, same ▸ described⟩
              | inr inside => exact ih later mapped row inside

theorem long_path_not_written (env : Env) (mgr : PoolManager) (fs : FileSystem) (id : DiskId)
    (rt : DiskRuntime) (found : mgr.disks.lookup id = some rt)
    (long : diskPathInlineLen < (env.toStringLossy rt.config.path).length) :
    (mgr.writePoolStateRoot env fs).1 ≠ .ok () := by
  intro ok
  obtain ⟨-, psr, -, -, built, -⟩ := (write_root_ok_iff env mgr fs).mp ok
  obtain ⟨d, described⟩ := described_all env _ _ (state_root_ok env mgr psr built).1 (id, rt)
    ((mem_to_sorted mgr.disks id rt).mpr found)
  simp only [PoolManager.describe, if_pos long] at described
  cases described

/-- A disk with such a path is formatted, and only then refused. -/
theorem long_path_fails (env : Env) (mgr : PoolManager) (entry : DiskConfigEntry) (fs : FileSystem)
    (accepted : ¬ mgr.Declines entry)
    (formattable : ¬ TooSmall fs entry ∧ Quiet 4 (fs.faults entry.path))
    (long : diskPathInlineLen < (env.toStringLossy entry.path).length) :
    ∃ err, (Call.attempt env mgr fs (.addDisk entry)).1 = .error err := by
  obtain ⟨handle, sb, done⟩ := format_disk_done env fs entry mgr.config.nodeId formattable
  have found : (mgr.withDisk entry handle sb).disks.lookup entry.id = some
      { config := entry, state := .online, usedBytes := 0, device := handle, superblock := sb } := by
    rw [PoolManager.withDisk, lookup_insert_eq, if_pos rfl]
  have unwritten := long_path_not_written env _
    (formatDisk env fs entry mgr.config.nodeId).2 entry.id _ found long
  rw [Call.attempt, add_disk_formatted env mgr entry fs _ handle sb accepted done]
  rcases wrote : ((mgr.withDisk entry handle sb).writePoolStateRoot env
    (formatDisk env fs entry mgr.config.nodeId).2).1 with err | ⟨⟩
  · exact ⟨err, rfl⟩
  · exact absurd wrote unwritten

/-- A disk that is refused after it was formatted has left its trace. -/
theorem late_failure_leaves_trace (env : Env) (mgr : PoolManager) (fs : FileSystem)
    (entry : DiskConfigEntry) (err : PoolError)
    (failed : (Call.attempt env mgr fs (.addDisk entry)).1 = .error err)
    (accepted : ¬ mgr.Declines entry)
    (formattable : ¬ TooSmall fs entry ∧ Quiet 4 (fs.faults entry.path)) :
    ¬ NoTraceThroughout env (mgr, fs) [.perform (.addDisk entry)] := by
  intro clean
  have trace := clean [] (.addDisk entry) (List.prefix_refl _) nofun ⟨err, failed⟩
  rw [Runs.run_append, Runs.run_nil, Action.step] at trace
  rcases early_of_no_trace env mgr fs _ err failed trace with declined | small | loud
  · exact accepted declined
  · exact formattable.1 small
  · exact loud formattable.2

def longDisk : DiskConfigEntry := ssdEntry 2 (List.replicate 193 0x61) 24576

private theorem roomy_pool_keys : (blankDisks hostEnv 1 roomyConfig.disks ∅).keys = {1} := by
  ext id
  rw [Finmap.mem_keys, Finset.mem_singleton]
  simp [blankDisks, roomyConfig, roomyDisk, ssdEntry, Finmap.notMem_empty]

private theorem roomy_pool_accepts (entry : DiskConfigEntry) (other : entry.id ≠ 1) :
    ¬ ({ config := roomyConfig, disks := blankDisks hostEnv 1 roomyConfig.disks ∅ } :
      PoolManager).Declines entry := by
  rw [PoolManager.Declines, not_or, ← Finmap.mem_keys, roomy_pool_keys]
  exact ⟨fun member => other (Finset.mem_singleton.mp member), by simp [poolStateRootInlineDisks]⟩

private theorem long_disk_long : diskPathInlineLen <
    (hostEnv.toStringLossy longDisk.path).length := by
  change 192 < (List.replicate 193 0x61).length
  rw [List.length_replicate]
  decide

/-- The disk with the long path stays in the configuration of the pool that refused it. -/
theorem long_path_leaves_entry :
    ∃ mgr created, PoolManager.create hostEnv roomyConfig emptyHost = (.ok mgr, created) ∧
      ¬ NoTraceThroughout hostEnv (mgr, created) [.perform (.addDisk longDisk)] := by
  obtain ⟨created, made⟩ := roomy_pool_created
  refine ⟨_, created, made, ?_⟩
  intro clean
  have accepted := roomy_pool_accepts longDisk (by decide)
  have room : ¬ TooSmall created longDisk := by
    rw [TooSmall, device_size_eq]
    change ¬ 24576 < blockSize * 3
    decide
  have quiet : Quiet 4 (created.faults longDisk.path) := by
    rw [created_faults hostEnv roomyConfig _ emptyHost created (fun _ => rfl) made]
    exact quiet_of_all 4 [] (by simp)
  obtain ⟨err, failed⟩ :=
    long_path_fails hostEnv _ longDisk created accepted ⟨room, quiet⟩ long_disk_long
  exact late_failure_leaves_trace hostEnv _ created longDisk err failed accepted ⟨room, quiet⟩ clean

/-- A disk with the id of the pool's disk is refused without a trace. -/
theorem failed_changes_leave_no_trace_duplicate :
    ∃ mgr created, PoolManager.create hostEnv roomyConfig emptyHost = (.ok mgr, created) ∧
      Action.Fails hostEnv (mgr, created) (.perform (.addDisk roomyDisk)) ∧
      NoTraceThroughout hostEnv (mgr, created) [.perform (.addDisk roomyDisk)] := by
  obtain ⟨created, made⟩ := roomy_pool_created
  have declined : ({ config := roomyConfig, disks := blankDisks hostEnv 1 roomyConfig.disks ∅ } :
      PoolManager).Declines roomyDisk := by
    left
    rw [Finmap.mem_iff]
    exact ⟨blankRuntime hostEnv 1 roomyDisk, rfl⟩
  obtain ⟨err, ran⟩ := add_disk_declined hostEnv _ roomyDisk created declined
  refine ⟨_, created, made, ⟨err, ?_⟩, ?_⟩
  · rw [Call.attempt, ran]
    rfl
  · apply (failed_changes_leave_no_trace hostEnv roomyConfig emptyHost created _ made
      [.perform (.addDisk roomyDisk)]).1
    apply (Runs.along_cons_iff (Action.step hostEnv) (FailsOnly hostEnv Refused) _ _ []).mpr
    refine ⟨?_, Runs.along_nil _ _ _⟩
    intro call same _
    cases same
    exact .inl declined

/-- A pool whose state block can be built and written. -/
structure Writable (env : Env) (mgr : PoolManager) (fs : FileSystem) : Prop where
  short : ∀ id rt, mgr.disks.lookup id = some rt →
    (env.toStringLossy rt.config.path).length ≤ diskPathInlineLen
  few : mgr.disks.keys.card ≤ poolStateRootInlineDisks
  primary : ∃ primary rt, mgr.config.primary = some primary ∧
    mgr.disks.lookup primary.id = some rt ∧ rt.device.readOnly = false ∧
      poolStateRootOffset + blockSize ≤ rt.device.capacity
  quiet : ∀ path, fs.faults path = []

private theorem described_short (env : Env) (rows : List (DiskId × DiskRuntime))
    (short : ∀ row ∈ rows, (env.toStringLossy row.2.config.path).length ≤ diskPathInlineLen) :
    ∃ wire, rows.mapM (fun row => PoolManager.describe env row.2) = .ok wire ∧
      wire.length = rows.length := by
  induction rows with
  | nil => exact ⟨[], rfl, rfl⟩
  | cons first rest ih =>
      have fits := Nat.not_lt.mpr (short first List.mem_cons_self)
      obtain ⟨wire, mapped, length⟩ := ih fun row member => short row (List.mem_cons_of_mem _ member)
      have described : ∃ d, PoolManager.describe env first.2 = .ok d := by
        simp only [PoolManager.describe, DiskDescriptorOnDisk.new, if_neg fits, bind, Except.bind]
        exact ⟨_, rfl⟩
      obtain ⟨d, same⟩ := described
      refine ⟨d :: wire, ?_, congrArg Nat.succ length⟩
      simp only [List.mapM_cons, same, mapped, bind, Except.bind]
      rfl

theorem Writable.written {env : Env} {mgr : PoolManager} {fs : FileSystem}
    (ready : Writable env mgr fs) :
    ∃ after, mgr.writePoolStateRoot env fs = (.ok (), after) ∧ Writable env mgr after := by
  obtain ⟨wire, mapped, length⟩ := described_short env (toSorted mgr.disks) fun row member =>
    ready.short row.1 row.2 ((mem_to_sorted mgr.disks row.1 row.2).mp member)
  have count : (toSorted mgr.disks).length = mgr.disks.keys.card := by
    rw [← List.length_map, keys_to_sorted, SortedSet.length_of_finset]
  have built : ∃ psr, mgr.stateRoot env = .ok psr := by
    simp only [PoolManager.stateRoot, mapped, bind, Except.bind, PoolStateRoot.setInlineDisks]
    rw [if_neg (Nat.not_lt.mpr ((length.trans count).trans_le ready.few))]
    exact ⟨_, rfl⟩
  obtain ⟨psr, built⟩ := built
  obtain ⟨primary, rt, least, found, writable, fits⟩ := ready.primary
  have ok : (mgr.writePoolStateRoot env fs).1 = .ok () := by
    apply (write_root_ok_iff env mgr fs).mpr
    refine ⟨primary, psr, rt, least, built, found, writable, fits, ?_⟩
    rw [ready.quiet]
    exact quiet_of_all 2 [] (by simp)
  refine ⟨_, Prod.ext ok rfl, ready.short, ready.few, ready.primary, ?_⟩
  intro path
  rw [write_root_faults env mgr fs primary psr rt least built found ok, ready.quiet, List.drop_nil,
    Function.update_apply]
  split
  · rfl
  · exact ready.quiet path

theorem Writable.commits {env : Env} {mgr : PoolManager} {fs : FileSystem}
    (ready : Writable env mgr fs) :
    ∃ after, Call.commit.perform env mgr fs = some (mgr, after) ∧ Writable env mgr after := by
  obtain ⟨after, written, still⟩ := ready.written
  refine ⟨after, ?_, still⟩
  rw [Call.perform, PoolManager.commit, written]

theorem Writable.removes {env : Env} {mgr : PoolManager} {fs : FileSystem}
    (ready : Writable env mgr fs) (id : DiskId) (known : id ∈ mgr.disks) :
    ∃ after, (Call.removeDisk id).perform env mgr fs = some (mgr.drained id, after) ∧
      Writable env (mgr.drained id) after := by
  have keys : (mgr.drained id).disks.keys = mgr.disks.keys := by
    ext key
    simp only [Finmap.mem_keys, ← Finmap.lookup_isSome, PoolManager.drained, lookup_update]
    split
    · rw [Option.isSome_map]
    · rfl
  have drained : Writable env (mgr.drained id) fs := by
    refine ⟨?_, keys ▸ ready.few, ?_, ready.quiet⟩
    · intro key rt found
      simp only [PoolManager.drained, lookup_update] at found
      split at found
      · obtain ⟨old, present, rfl⟩ := Option.map_eq_some_iff.mp found
        exact ready.short key old present
      · exact ready.short key rt found
    · obtain ⟨primary, rt, least, found, room⟩ := ready.primary
      have there : ∃ now, (mgr.drained id).disks.lookup primary.id = some now ∧
          now.device = rt.device := by
        simp only [PoolManager.drained, lookup_update, found, Option.map_some]
        split
        · exact ⟨_, rfl, rfl⟩
        · exact ⟨_, rfl, rfl⟩
      obtain ⟨now, present, same⟩ := there
      exact ⟨primary, now, least, present, same ▸ room⟩
  obtain ⟨after, written, still⟩ := drained.written
  refine ⟨after, ?_, still⟩
  apply (perform_iff_attempt env mgr _ fs after _).mpr
  simp only [Call.attempt, PoolManager.removeDisk, if_neg (not_not.mpr known)]
  change (((mgr.drained id).writePoolStateRoot env fs).1, mgr.drained id,
    ((mgr.drained id).writePoolStateRoot env fs).2) = _
  rw [written]

/-- A new disk that becomes the primary one. -/
theorem Writable.adds {env : Env} {mgr : PoolManager} {fs : FileSystem}
    (ready : Writable env mgr fs) (entry : DiskConfigEntry) (accepted : ¬ mgr.Declines entry)
    (least : { mgr.config with disks := mgr.config.disks ++ [entry] }.primary = some entry)
    (short : (env.toStringLossy entry.path).length ≤ diskPathInlineLen)
    (room : blockSize * 3 ≤ entry.capacityBytes.toNat)
    (fits : poolStateRootOffset + blockSize ≤ entry.capacityBytes.toNat) :
    ∃ handle sb after, (Call.addDisk entry).perform env mgr fs =
        some (mgr.withDisk entry handle sb, after) ∧
      Writable env (mgr.withDisk entry handle sb) after := by
  have size : deviceSize fs entry = entry.capacityBytes.toNat := by
    rw [device_size_eq, if_neg]
    intro none
    rw [none] at room
    exact absurd room (by decide)
  have formattable : ¬ TooSmall fs entry ∧ Quiet 4 (fs.faults entry.path) := by
    rw [TooSmall, size, ready.quiet]
    exact ⟨Nat.not_lt.mpr room, quiet_of_all 4 [] (by simp)⟩
  obtain ⟨handle, sb, done⟩ := format_disk_done env fs entry mgr.config.nodeId formattable
  obtain ⟨handleEq, faults⟩ := format_disk_opened env fs _ entry mgr.config.nodeId handle sb done
  have grown : Writable env (mgr.withDisk entry handle sb)
      (formatDisk env fs entry mgr.config.nodeId).2 := by
    refine ⟨?_, ?_, ⟨entry, _, least, Finmap.lookup_insert _, ?_, ?_⟩, ?_⟩
    · intro key rt found
      simp only [PoolManager.withDisk, lookup_insert_eq] at found
      split at found
      · cases found
        exact short
      · exact ready.short key rt found
    · have keys : (mgr.withDisk entry handle sb).disks.keys = insert entry.id mgr.disks.keys := by
        ext key
        simp [PoolManager.withDisk, Finmap.mem_keys]
      have bound := (not_or.mp accepted).2
      rw [keys]
      exact (Finset.card_insert_le _ _).trans (Nat.not_lt.mp bound)
    · rw [handleEq]
      rfl
    · rw [handleEq]
      exact fits.trans_eq size.symm
    · intro path
      rw [faults, ready.quiet, List.drop_nil, Function.update_apply]
      split
      · rfl
      · exact ready.quiet path
  obtain ⟨after, written, still⟩ := grown.written
  refine ⟨handle, sb, after, ?_, still⟩
  apply (perform_iff_attempt env mgr _ fs after _).mpr
  rw [Call.attempt, add_disk_formatted env mgr entry fs _ handle sb accepted done, written]
  rfl

def lowerDisk : DiskConfigEntry := ssdEntry 0 (text "/pool/lower") 24576

def roomyCalls : List Call := [.addDisk lowerDisk, .removeDisk 1, .commit]

private theorem roomy_throughout : RoomyThroughout roomyConfig roomyCalls := by
  have first : RoomyPrimary roomyConfig := by
    intro primary least
    rw [List.mem_singleton.mp (primary_mem roomyConfig primary least)]
    decide
  have grown : RoomyPrimary { roomyConfig with disks := roomyConfig.disks ++ [lowerDisk] } := by
    intro primary least
    rcases List.mem_append.mp (primary_mem _ primary least) with old | new
    · rw [List.mem_singleton.mp old]
      decide
    · rw [List.mem_singleton.mp new]
      decide
  exact ⟨first, grown, grown, grown⟩

private theorem roomy_own_files : OwnFiles roomyConfig roomyCalls emptyHost :=
  ⟨⟨by decide, fun _ _ => rfl⟩, fun _ _ => rfl⟩

/-- The pool gets a second disk that becomes the primary one, and the first is drained. -/
theorem roomy_pool_reopens :
    OwnFiles roomyConfig roomyCalls emptyHost ∧ RoomyThroughout roomyConfig roomyCalls ∧
      ∃ created formatted mgr last,
        PoolManager.create hostEnv roomyConfig emptyHost = (.ok created, formatted) ∧
        performAll hostEnv roomyCalls created formatted = some (mgr, last) ∧
        mgr.config.primary = some lowerDisk ∧
        ∃ reopened after, PoolManager.open hostEnv mgr.config last = (.ok reopened, after) ∧
          reopened.status = mgr.status := by
  obtain ⟨formatted, made⟩ := roomy_pool_created
  let pool : PoolManager :=
    { config := roomyConfig, disks := blankDisks hostEnv 1 roomyConfig.disks ∅ }
  have ready : Writable hostEnv pool formatted := by
    have found : pool.disks.lookup roomyDisk.id = some (blankRuntime hostEnv 1 roomyDisk) :=
      Finmap.lookup_insert ∅
    refine ⟨?_, ?_, ⟨roomyDisk, _, rfl, found, rfl, by decide⟩, ?_⟩
    · intro id rt found
      simp only [pool, blankDisks, roomyConfig, List.foldl_cons, List.foldl_nil, lookup_insert_eq,
        Finmap.lookup_empty] at found
      split at found
      · cases found
        decide
      · cases found
    · rw [roomy_pool_keys]
      decide
    · exact created_faults hostEnv roomyConfig _ emptyHost formatted (fun _ => rfl) made
  have accepted := roomy_pool_accepts lowerDisk (by decide)
  obtain ⟨handle, sb, first, added, grown⟩ :=
    ready.adds lowerDisk accepted rfl (by decide) (by decide) (by decide)
  have known : 1 ∈ (pool.withDisk lowerDisk handle sb).disks := by
    simp [pool, PoolManager.withDisk, blankDisks, roomyConfig, roomyDisk, ssdEntry]
  obtain ⟨second, removed, drained⟩ := grown.removes 1 known
  obtain ⟨last, committed, -⟩ := drained.commits
  have performed : performAll hostEnv roomyCalls pool formatted =
      some ((pool.withDisk lowerDisk handle sb).drained 1, last) := by
    simp only [roomyCalls, performAll, added, removed, committed]
  exact ⟨roomy_own_files, roomy_throughout, _, formatted, _, last, made, performed, rfl,
    pool_reopens hostEnv roomyConfig roomyCalls _ _ emptyHost formatted last roomy_own_files
      roomy_throughout made performed⟩

end Mimisbrunnr.Pool
