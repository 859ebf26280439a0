import Mimisbrunnr.Disk.Restart

/-!
# The disk of a new engine

On files that did not exist the format writes the superblocks, the block of the pool
states and an empty log; the rest of the primary disk stays zero.
-/

namespace Mimisbrunnr

set_option autoImplicit false

open Mimisbrunnr.Lib.ByteStore
open Mimisbrunnr.Lib.FiniteMap
open Mimisbrunnr.Lib.Layout
open Mimisbrunnr.Pool
open Mimisbrunnr.Storage
open Mimisbrunnr.Types
open Mimisbrunnr.Wal

namespace Pool

def BlankBehind (entry : DiskConfigEntry) (file : File) : Prop :=
  ZeroBetween file.bytes (poolStateRootOffset + blockSize) (entry.capacityBytes.toNat - blockSize)

private theorem format_disk_blank (env : Env) (fs after : FileSystem) (entry : DiskConfigEntry)
    (nodeId : NodeId) (handle : FileBlockDevice) (sb : Superblock)
    (absent : fs.files entry.path = none)
    (ok : formatDisk env fs entry nodeId = (.ok (handle, sb), after)) :
    BlankBehind entry (after.file entry.path) := by
  obtain ⟨opened, created, -⟩ := open_absent fs entry.path entry.capacityBytes.toNat absent
  unfold formatDisk at ok
  rcases device : fs.openDevice entry.path entry.capacityBytes.toNat with ⟨given, middle⟩
  rw [device] at opened created ok
  dsimp only at opened created ok
  have given : given = handleOf entry := opened
  subst given
  rcases formatted : middle.on (handleOf entry)
    (Superblock.format env.crc (formatOf nodeId entry)) with ⟨_ | blank, last⟩
  · rw [formatted] at ok
    cases ok
  · obtain ⟨d, written, rfl⟩ := FileSystem.on_ok _ _ _ _ _ formatted
    rw [formatted] at ok
    dsimp only at ok
    split at ok
    · cases ok
    · cases ok
      obtain ⟨-, -, -, outside⟩ := Superblock.format_ok env.crc _ blank _ d written
      intro address above below
      have root : poolStateRootOffset = 16384 := rfl
      have block : blockSize = 4096 := rfl
      have here : ((middle.stored (handleOf entry) d).file entry.path).bytes = d.bytes := by
        rw [FileSystem.file_stored]
        simp only [handleOf, if_true]
      rw [here, outside address (by omega) below]
      change (middle.file entry.path).bytes address = 0
      rw [created]

private theorem format_all_blank (env : Env) (nodeId : NodeId) (entries : List DiskConfigEntry)
    (ids : (entries.map DiskConfigEntry.id).Nodup)
    (paths : (entries.map DiskConfigEntry.path).Nodup) :
    ∀ (disks final : FMap DiskId DiskRuntime) (fs after : FileSystem),
      (∀ entry ∈ entries, fs.files entry.path = none) →
      openAll env nodeId true entries disks fs = (.ok final, after) →
      ∀ entry ∈ entries, BlankBehind entry (after.file entry.path) := by
  induction entries with
  | nil => simp
  | cons entry rest ih =>
      intro disks final fs after absent ok
      rw [List.map_cons, List.nodup_cons] at ids paths
      have freshPath : ∀ other ∈ rest, other.path ≠ entry.path := by
        intro other member same
        exact paths.1 (List.mem_map.mpr ⟨other, member, same⟩)
      rw [openAll, openOrFormatDisk, if_pos rfl] at ok
      rcases done : formatDisk env fs entry nodeId with ⟨_ | ⟨handle, sb⟩, middle⟩
      · rw [done] at ok
        cases ok
      · rw [done] at ok
        dsimp only at ok
        have here := absent entry List.mem_cons_self
        have blank := format_disk_blank env fs middle entry nodeId handle sb here done
        obtain ⟨-, -, elsewhere, -⟩ := format_disk_ok env fs middle entry nodeId handle sb here done
        have stillAbsent : ∀ other ∈ rest, middle.files other.path = none := by
          intro other member
          rw [elsewhere other.path (freshPath other member)]
          exact absent other (List.mem_cons_of_mem _ member)
        obtain ⟨-, -, outside⟩ := format_all_ok env nodeId rest ids.2 paths.2 _ final middle after
          stillAbsent ok
        intro other member
        cases List.mem_cons.mp member with
        | inl same =>
            subst same
            rw [FileSystem.file, outside other.path freshPath]
            exact blank
        | inr inside => exact ih ids.2 paths.2 _ final middle after stillAbsent ok other inside

theorem blank_behind_root (env : Env) (mgr : PoolManager) (fs after : FileSystem)
    (ok : mgr.writePoolStateRoot env fs = (.ok (), after)) (entry : DiskConfigEntry)
    (blank : BlankBehind entry (fs.file entry.path)) :
    BlankBehind entry (after.file entry.path) := by
  unfold PoolManager.writePoolStateRoot at ok
  split at ok
  · cases ok
  split at ok
  · cases ok
  next psr _ =>
    split at ok
    · cases ok
    next rt _ =>
      obtain ⟨d, done, rfl⟩ := FileSystem.on_ok _ _ _ _ _ ok
      have plain := DeviceM.map_error_ok _ _ _ _ _ done
      obtain ⟨⟨⟩, middle, written, synced⟩ := DeviceM.bind_ok _ _ _ _ _ plain
      have settled := Device.sync_ok middle d synced
      obtain ⟨-, overwritten⟩ := Device.write_at_ok (fs.device rt.device) middle
        poolStateRootOffset (sealed env.crc PoolStateRoot.body psr) written
      have length := psr.length_block env.crc
      rw [FileSystem.file_stored]
      by_cases here : entry.path = rt.device.path
      · rw [if_pos here, settled, overwritten]
        apply zero_between_congr blank
        intro address above _
        rw [here]
        apply overwrite_outside
        rw [length]
        omega
      · rw [if_neg here]
        exact blank

private theorem create_blank (env : Env) (config : PoolConfig) (mgr : PoolManager)
    (fs after : FileSystem)
    (paths : (config.disks.map DiskConfigEntry.path).Nodup)
    (absent : ∀ entry ∈ config.disks, fs.files entry.path = none)
    (ok : PoolManager.create env config fs = (.ok mgr, after)) :
    ∀ entry ∈ config.disks, BlankBehind entry (after.file entry.path) := by
  unfold PoolManager.create at ok
  split at ok
  · cases ok
  split at ok
  · cases ok
  split at ok
  · cases ok
  next free =>
  have ids := (duplicate_free config.disks [] free).1
  rcases opened : openAll env config.nodeId true config.disks ∅ fs with ⟨_ | disks, formatted⟩
  · rw [opened] at ok
    cases ok
  · rw [opened] at ok
    dsimp only at ok
    have blank := format_all_blank env config.nodeId config.disks ids paths ∅ disks fs formatted
      absent opened
    split at ok
    · cases ok
    next written =>
      cases ok
      intro entry member
      exact blank_behind_root env _ formatted after written entry (blank entry member)

end Pool

private theorem Wal.format_outside (crc : Crc) (d later : Device) (offset size : Nat) (wal : Wal)
    (ok : Wal.format crc d offset size = (.ok wal, later)) (address : Nat)
    (outside : address < offset ∨ offset + size ≤ address) :
    later.bytes address = d.bytes address := by
  unfold Wal.format at ok
  split at ok
  · next valid =>
      dsimp only at ok
      split at ok
      · cases ok
      next first writtenA =>
        split at ok
        · cases ok
        next second writtenB =>
          split at ok
          · cases ok
          next third synced =>
            cases ok
            have reservation := sectors_fit (formatted crc offset size) valid
            have slotA := header_slot_inside (formatted crc offset size) .a
            have slotB := header_slot_inside (formatted crc offset size) .b
            have start : (formatted crc offset size).dataOffset = offset + 2 * blockSize := rfl
            have base : (formatted crc offset size).base = offset := rfl
            have whole : (formatted crc offset size).size = size := rfl
            rw [Device.sync_ok _ _ synced, (Device.write_at_ok _ _ _ _ writtenB).2,
              (Device.write_at_ok _ _ _ _ writtenA).2]
            dsimp only
            have length (h : WalHeader) : (WalHeader.layout.toBytes h).length = blockSize :=
              WalHeader.layout.length_to_bytes h
            rw [overwrite_outside _ _ _ _ (by rw [length]; omega),
              overwrite_outside _ _ _ _ (by rw [length]; omega)]
  · cases ok

namespace MountedEngine

/-- The steps of the format of an engine. -/
structure FormatSteps (env : LifecycleEnv) (config : PoolConfig) (handle : FileBlockDevice)
    (files : FileSystem) (diskId : DiskId) (m : MountedEngine) (sb : Superblock)
    (ringed : Device) : Prop where
  opened : Superblock.open env.crc (files.device handle) = .ok sb
  log : Wal.format env.crc (files.device handle) sb.walOffset.toNat sb.walSize.toNat =
    (.ok m.wal, ringed)
  flipped : sb.commitRoot env.crc (nextRoot sb diskId m.wal.header.nextLsn) ringed =
    (.ok (), m.superblock, m.device)
  files : m.files = files

private theorem format_steps (env : LifecycleEnv) (config : PoolConfig) (handle : FileBlockDevice)
    (files : FileSystem) (diskId : DiskId) (m : MountedEngine)
    (ok : format env config handle files diskId = .ok m) :
    ∃ sb ringed, FormatSteps env config handle files diskId m sb ringed := by
  unfold format at ok
  dsimp only at ok
  split at ok
  · cases ok
  next sb opened =>
    split at ok
    · cases ok
    next wal ringed log =>
      split at ok
      · cases ok
      next committed device flipped =>
        cases ok
        exact ⟨sb, ringed, opened, log, flipped, rfl⟩

/-- A new disk large enough for a zone with the head of its blob. -/
def RoomyZone (config : PoolConfig) : Prop :=
  ∀ primary, config.primary = some primary →
    blobStart + 8 ≤ primary.capacityBytes.toNat - blockSize

/-- An engine on new files starts without a commit, with an empty log. -/
structure Started (env : LifecycleEnv) (m : MountedEngine) : Prop where
  disk : Uncommitted env m
  wal : m.wal = Wal.formatted env.crc fmtWalOffset.toNat fmtWalSize.toNat
  ring : Wal.Ring env.crc m.wal m.device []
  engine : m.engine = Engine.new m.config.nodeId
  side : m.side = SideTables.new
  handle : ∃ primary, m.config.primary = some primary ∧ m.handle = handleOf primary

private theorem format_side (env : LifecycleEnv) (config : PoolConfig) (handle : FileBlockDevice)
    (files : FileSystem) (diskId : DiskId) (m : MountedEngine)
    (ok : format env config handle files diskId = .ok m) : m.side = SideTables.new := by
  unfold format at ok
  dsimp only at ok
  split at ok
  · cases ok
  split at ok
  · cases ok
  split at ok
  · cases ok
  cases ok
  rfl

theorem create_started (env : LifecycleEnv) (config : PoolConfig) (fs : FileSystem)
    (m : MountedEngine) (paths : (config.disks.map DiskConfigEntry.path).Nodup)
    (absent : ∀ entry ∈ config.disks, fs.files entry.path = none) (roomy : RoomyZone config)
    (ok : create env config fs = .ok m) : Started env m := by
  have block : blockSize = 4096 := rfl
  have start : blobStart = 4259840 := rfl
  have zone : zoneStart = 1114112 := rfl
  have wal_first : fmtWalOffset.toNat = 65536 := rfl
  have wal_end : fmtWalOffset.toNat + fmtWalSize.toNat = 1114112 := rfl
  have root : poolStateRootOffset = 16384 := rfl
  obtain ⟨sameConfig, engine, -, writable⟩ := create_facts env config fs m ok
  unfold create at ok
  split at ok
  · cases ok
  next pool formatted created =>
    have roomyPrimary : RoomyPrimary config := by
      intro primary least
      have enough := roomy primary least
      right
      omega
    obtain ⟨poolConfig, consistent, published, -⟩ :=
      create_ok env.pool config pool fs formatted paths absent roomyPrimary created
    have blank := create_blank env.pool config pool fs formatted paths absent created
    obtain ⟨primary, psr, least, built, inside, states⟩ := published
    rw [poolConfig] at least
    have member := primary_mem config primary least
    split at ok
    · cases ok
    next primaryId rt running =>
      obtain ⟨other, found⟩ := consistent.known primary (by rw [poolConfig]; exact member)
      obtain ⟨listed, sameId, device⟩ := consistent.runtime primary.id other found
      rw [poolConfig] at listed
      have ids := consistent.ids
      rw [poolConfig] at ids
      have entry : other.config = primary := List.inj_on_of_nodup_map ids listed member sameId
      rw [primaryRuntime, least] at running
      dsimp only at running
      rw [found] at running
      cases running
      rw [device, entry] at ok
      obtain ⟨-, -, -, -, handle⟩ := format_facts env config _ _ _ m ok
      obtain ⟨sb, ringed, steps⟩ := format_steps env config _ formatted primary.id m ok
      have onDisk := consistent.formatted primary (by rw [poolConfig]; exact member)
      have length := onDisk.length
      have opened := open_formatted env.pool pool.config.nodeId primary _ onDisk
        (formatted.device (handleOf primary)) rfl (by rw [length]; rfl)
      rw [poolConfig] at opened
      have same : blankSuperblock env.pool config.nodeId primary = sb :=
        Except.ok.inj (opened.symm.trans steps.opened)
      subst same
      have log := steps.log
      have walOffset : (blankSuperblock env.pool config.nodeId primary).walOffset = fmtWalOffset :=
        rfl
      have walSize : (blankSuperblock env.pool config.nodeId primary).walSize = fmtWalSize := rfl
      rw [walOffset, walSize] at log
      have enough := roomy primary least
      have bounded := primary.capacityBytes.toNat_lt
      have width : (formatted.device (handleOf primary)).capacity = primary.capacityBytes.toNat :=
        rfl
      obtain ⟨wal, ring⟩ := Wal.format_ok env.crc _ ringed fmtWalOffset.toNat fmtWalSize.toNat m.wal
        (by rw [width]; omega) (by rw [width]; omega) log
      have ringedWidth := (Wal.format_capacity env.crc _ _ _ _ _ log).trans width
      obtain ⟨newSb, stored, sameWidth, outside⟩ := Superblock.commit_root_ok env.crc _ _ _ ringed
        m.device (by rw [ringedWidth]; omega) rfl steps.flipped
      have kept : ∀ address, 2 * blockSize ≤ address →
          address < primary.capacityBytes.toNat - blockSize →
          address < fmtWalOffset.toNat ∨ zoneStart ≤ address →
          m.device.bytes address = (formatted.file primary.path).bytes address := by
        intro address above below apart
        rw [outside address above (by rw [ringedWidth]; exact below),
          Wal.format_outside env.crc _ _ _ _ _ log address (by omega)]
        rfl
      have base : m.wal.base = fmtWalOffset.toNat := by rw [wal]; rfl
      have size : m.wal.size = fmtWalSize.toNat := by rw [wal]; rfl
      refine ⟨?_, wal, ring_behind_root env.crc m.wal ringed m.device ring base size sameWidth
        (by rw [ringedWidth]; omega) (by rw [ringedWidth]; omega) outside, ?_,
        format_side env config _ _ _ m ok, ⟨primary, by rw [sameConfig]; exact least, handle⟩⟩
      · constructor
        · constructor
          · rw [sameConfig]
            exact ids
          · rw [sameConfig]
            exact paths
          · rw [sameConfig, handle, newSb]
            exact ⟨primary, least, rfl, rfl⟩
          · rw [sameConfig, newSb]
            rfl
          · rw [sameConfig, handle, steps.files]
            intro entry inDisks _
            refine ⟨blankSuperblock env.pool config.nodeId entry, ?_, rfl, rfl⟩
            have other := consistent.formatted entry (by rw [poolConfig]; exact inDisks)
            rw [poolConfig] at other
            exact open_formatted env.pool config.nodeId entry _ other _ rfl rfl
          · rw [handle, steps.files, fileDevice]
            change FileBlockDevice.mk primary.path (formatted.file primary.path).length false = _
            rw [length]
            rfl
          · rw [handle, sameWidth]
            exact ringedWidth
          · rw [handle]
            exact enough
          · rw [handle]
            exact bounded
          · rw [newSb]
            exact blank_laid_out env config.nodeId primary _ primary.id _
          · exact stored
          · obtain ⟨described, header, -⟩ := state_root_ok env.pool pool psr built
            refine ⟨psr, header, ?_, ?_⟩
            · rw [Device.read_at_ok _ _ _ (by rw [sameWidth, ringedWidth]; omega)]
              have block_ : read m.device.bytes poolStateRootOffset blockSize =
                  read (formatted.file primary.path).bytes poolStateRootOffset blockSize := by
                apply read_congr
                intro address above below
                exact kept address (by omega) (by omega) (by omega)
              rw [block_, states]
              rfl
            · intro disks
              have rowLookup : ∀ row ∈ toSorted pool.disks, pool.disks.lookup row.1 = some row.2 :=
                fun row inside => (mem_to_sorted pool.disks row.1 row.2).mp inside
              have distinct : ((toSorted pool.disks).map Prod.fst).Nodup :=
                (increasing_to_sorted pool.disks).imp fun below => ne_of_lt below
              obtain ⟨final, applied, -⟩ := apply_described env.pool (toSorted pool.disks)
                (fun row inside => (consistent.runtime row.1 row.2 (rowLookup row inside)).2.1) distinct
                psr.inlineIter disks described
              exact ⟨final, applied⟩
          · exact writable
        · intro address above below
          rw [kept address (by omega) (by omega) (Or.inr above)]
          exact blank primary member address (by omega) (by omega)
      · rw [engine, sameConfig]

end MountedEngine

end Mimisbrunnr
