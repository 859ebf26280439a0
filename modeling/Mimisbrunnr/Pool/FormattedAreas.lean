import Mathlib.Order.CompletePartialOrder
import Mathlib.Order.Interval.Set.Disjoint
import Mathlib.Order.Interval.Set.LinearOrder
import Mimisbrunnr.Pool.Overlap

/-!
# The areas of a formatted disk

Formatting records where the zones of a disk lie, and the superblock copies and
the pool state block have places of their own. The blob zone is recorded up to
the end of the configured capacity, where the last superblock copy is.
-/

namespace Mimisbrunnr.Pool

set_option autoImplicit false

open Mimisbrunnr.Lib.FiniteMap
open Mimisbrunnr.Storage

structure Area where
  offset : Nat
  length : Nat
deriving DecidableEq, Repr

def Area.bytes (area : Area) : Set Nat := Set.Ico area.offset (area.offset + area.length)

def zoneArea (zone : ZoneExtent) : Area := ⟨zone.offset.toNat, zone.length.toNat⟩

/-- The superblock copies and the pool state block of a device, and what its superblock records. -/
def formattedAreas (capacity : Nat) (sb : Superblock) : List Area :=
  (Superblock.copyOffsets capacity).map (fun offset => ⟨offset, blockSize⟩) ++
    [⟨poolStateRootOffset, blockSize⟩, ⟨sb.walOffset.toNat, sb.walSize.toNat⟩,
      zoneArea sb.indexZone, zoneArea sb.metadataZone, zoneArea sb.blobZone]

structure AreasApart (capacity : Nat) (areas : List Area) : Prop where
  disjoint : areas.Pairwise fun left right => Disjoint left.bytes right.bytes
  within : ∀ area ∈ areas, area.bytes ⊆ Set.Ico 0 capacity

theorem disjoint_iff (left right : Area) :
    Disjoint left.bytes right.bytes ↔
      min (left.offset + left.length) (right.offset + right.length) ≤
        max left.offset right.offset :=
  Set.Ico_disjoint_Ico

theorem within_iff (area : Area) (capacity : Nat) :
    area.bytes ⊆ Set.Ico 0 capacity ↔ area.length = 0 ∨ area.offset + area.length ≤ capacity := by
  by_cases empty : area.length = 0
  · rw [Area.bytes, empty, Nat.add_zero, Set.Ico_self]
    exact iff_of_true (Set.empty_subset _) (Or.inl rfl)
  · rw [Area.bytes, Set.Ico_subset_Ico_iff (by omega)]
    omega

private theorem blob_zone_length (capacity : UInt64) :
    (saturatingSub64 capacity fmtBlobZoneOffset).toNat =
      capacity.toNat - fmtBlobZoneOffset.toNat := by
  rw [saturatingSub64]
  split
  · next below => exact UInt64.toNat_sub_of_le _ _ below
  · next above =>
      rw [UInt64.le_iff_toNat_le] at above
      rw [UInt64.toNat_zero]
      omega

private theorem blank_areas (env : Env) (nodeId : NodeId) (entry : DiskConfigEntry)
    (capacity : Nat) :
    formattedAreas capacity
        (Superblock.newBlank env.crc (formatOf nodeId entry) (UInt64.ofNat capacity)) =
      [⟨0, 4096⟩, ⟨4096, 4096⟩, ⟨capacity - 4096, 4096⟩, ⟨16384, 4096⟩, ⟨65536, 1048576⟩,
        ⟨1114112, 33554432⟩, ⟨34668544, 4194304⟩,
        ⟨38862848, entry.capacityBytes.toNat - 38862848⟩] := by
  have length := blob_zone_length entry.capacityBytes
  have offset : fmtBlobZoneOffset.toNat = 38862848 := rfl
  rw [offset] at length
  simp only [formattedAreas, Superblock.newBlank, formatOf, zoneArea, length]
  rfl

/-- The areas are apart just when the last copy is behind the end of all zones. -/
theorem blank_areas_apart_iff (env : Env) (nodeId : NodeId) (entry : DiskConfigEntry)
    (capacity : Nat) (room : blockSize * 3 ≤ capacity) :
    AreasApart capacity (formattedAreas capacity
        (Superblock.newBlank env.crc (formatOf nodeId entry) (UInt64.ofNat capacity))) ↔
      max fmtBlobZoneOffset.toNat entry.capacityBytes.toNat + blockSize ≤ capacity := by
  have offset : fmtBlobZoneOffset.toNat = 38862848 := rfl
  have block : blockSize = 4096 := rfl
  rw [blank_areas, offset]
  rw [block] at room ⊢
  constructor
  · intro apart
    have within := apart.within ⟨34668544, 4194304⟩ (by simp)
    rw [within_iff] at within
    have copy := (List.pairwise_cons.mp (List.pairwise_cons.mp (List.pairwise_cons.mp
      apart.disjoint).2).2).1
    have metadata := copy ⟨34668544, 4194304⟩ (by simp)
    have blob := copy ⟨38862848, entry.capacityBytes.toNat - 38862848⟩ (by simp)
    rw [disjoint_iff] at metadata blob
    dsimp only at within metadata blob
    clear copy
    omega
  · intro far
    constructor
    · simp only [List.pairwise_cons, List.mem_cons, forall_eq_or_imp, disjoint_iff]
      simp
      omega
    · simp only [List.mem_cons, forall_eq_or_imp, within_iff]
      simp
      omega

def openedCapacity (length : Nat) (entry : DiskConfigEntry) : Nat :=
  if entry.capacityBytes.toNat = 0 then length else entry.capacityBytes.toNat

theorem open_device_length (fs : FileSystem) (entry : DiskConfigEntry) (path : Path) :
    (fs.openDevice entry.path entry.capacityBytes.toNat).1 =
        { path := entry.path
          capacity := openedCapacity (fs.file entry.path).length entry
          readOnly := false } ∧
      ((fs.openDevice entry.path entry.capacityBytes.toNat).2.file path).length =
        if entry.path = path then max (fs.file path).length entry.capacityBytes.toNat
        else (fs.file path).length := by
  unfold FileSystem.openDevice openedCapacity
  by_cases zero : entry.capacityBytes.toNat = 0
  · simp only [zero, if_true, FileSystem.file_set_file, Nat.max_zero]
    refine ⟨trivial, ?_⟩
    split
    · next same =>
        rw [same]
        exact (ite_self _).symm
    · next different => rw [if_neg (Ne.symm different)]
  · simp only [zero, if_false, FileSystem.file_set_file]
    refine ⟨trivial, ?_⟩
    split
    · next same => rw [if_pos same.symm, same]
    · next different => rw [if_neg (Ne.symm different)]

/-- A disk that was formatted: its device, and the superblock that was read back. -/
structure FormattedDisk (env : Env) (nodeId : NodeId) (entry : DiskConfigEntry) (length : Nat)
    (handle : FileBlockDevice) (sb : Superblock) : Prop where
  capacity : handle.capacity = openedCapacity length entry
  room : blockSize * 3 ≤ handle.capacity
  blank : sb = Superblock.newBlank env.crc (formatOf nodeId entry) (UInt64.ofNat handle.capacity)

/-- The steps of formatting a disk: the file is opened, and holds the superblock afterwards. -/
theorem format_disk_stored (env : Env) (fs after : FileSystem) (entry : DiskConfigEntry)
    (nodeId : NodeId) (handle : FileBlockDevice) (sb : Superblock)
    (ok : formatDisk env fs entry nodeId = (.ok (handle, sb), after)) :
    ∃ middle d, fs.openDevice entry.path entry.capacityBytes.toNat = (handle, middle) ∧
      Superblock.format env.crc (formatOf nodeId entry) (middle.device handle) = (.ok sb, d) ∧
      after = middle.stored handle d ∧ Superblock.Stored env.crc sb (after.device handle) := by
  unfold formatDisk at ok
  rcases device : fs.openDevice entry.path entry.capacityBytes.toNat with ⟨given, middle⟩
  rw [device] at ok
  dsimp only at ok
  rcases formatted : middle.on given (Superblock.format env.crc (formatOf nodeId entry)) with
    ⟨_ | blank, last⟩
  · rw [formatted] at ok
    cases ok
  · obtain ⟨d, written, rfl⟩ := FileSystem.on_ok _ _ _ _ _ formatted
    rw [formatted] at ok
    dsimp only at ok
    obtain ⟨-, stored, capacity, -⟩ := Superblock.format_ok env.crc _ blank _ d written
    have width : d.capacity = given.capacity := capacity
    have here : ((middle.stored given d).device given).bytes = d.bytes := by
      rw [FileSystem.device, FileSystem.file_stored, if_pos rfl]
    have again : Superblock.Stored env.crc blank ((middle.stored given d).device given) := by
      refine ⟨?_, stored.magic, stored.root, ?_⟩
      · change blockSize * 3 ≤ given.capacity
        rw [← width]
        exact stored.room
      · intro offset member
        have copy := stored.copies offset (by rw [width]; exact member)
        rw [Device.readAt] at copy ⊢
        rw [here]
        rw [width] at copy
        exact copy
    rw [Superblock.open_stored env.crc blank _ again] at ok
    cases ok
    exact ⟨middle, d, rfl, written, rfl, again⟩

theorem format_disk_formatted (env : Env) (fs after : FileSystem) (entry : DiskConfigEntry)
    (nodeId : NodeId) (handle : FileBlockDevice) (sb : Superblock)
    (ok : formatDisk env fs entry nodeId = (.ok (handle, sb), after)) :
    FormattedDisk env nodeId entry (fs.file entry.path).length handle sb ∧
      ∀ path, (after.file path).length =
        if entry.path = path then max (fs.file path).length entry.capacityBytes.toNat
        else (fs.file path).length := by
  have opened := open_device_length fs entry
  obtain ⟨middle, d, device, written, rfl, again⟩ :=
    format_disk_stored env fs after entry nodeId handle sb ok
  rw [device] at opened
  dsimp only at opened
  obtain ⟨same, -, -, -⟩ := Superblock.format_ok env.crc _ sb _ d written
  have opens : handle.capacity = openedCapacity (fs.file entry.path).length entry := by
    rw [(opened entry.path).1]
  refine ⟨⟨opens, again.room, same⟩, ?_⟩
  intro path
  rw [← (opened path).2, FileSystem.file_stored]
  split
  · next listed => rw [listed]
  · rfl

theorem formatted_disk_apart_iff (env : Env) (nodeId : NodeId) (entry : DiskConfigEntry)
    (length : Nat) (handle : FileBlockDevice) (sb : Superblock)
    (formatted : FormattedDisk env nodeId entry length handle sb) :
    AreasApart handle.capacity (formattedAreas handle.capacity sb) ↔
      entry.capacityBytes = 0 ∧ fmtBlobZoneOffset.toNat + blockSize ≤ length := by
  have block : blockSize = 4096 := rfl
  have capacity := formatted.capacity
  rw [formatted.blank, blank_areas_apart_iff env nodeId entry _ formatted.room, capacity,
    openedCapacity, ← UInt64.toNat_inj, UInt64.toNat_zero, block]
  split
  · next zero =>
      rw [zero, Nat.max_zero]
      exact (and_iff_right rfl).symm
  · next some_capacity => omega

/-- The length of a file after the disks of some entries were opened. -/
def lengthAfter (path : Path) (entries : List DiskConfigEntry) (length : Nat) : Nat :=
  entries.foldl
    (fun length entry =>
      if entry.path = path then max length entry.capacityBytes.toNat else length)
    length

theorem open_all_keeps (env : Env) (nodeId : NodeId) (entries : List DiskConfigEntry) :
    ∀ (disks final : FMap DiskId DiskRuntime) (fs after : FileSystem) (id : DiskId),
      openAll env nodeId true entries disks fs = (.ok final, after) →
      id ∉ entries.map DiskConfigEntry.id → final.lookup id = disks.lookup id := by
  induction entries with
  | nil =>
      intro disks final fs after id ok _
      cases ok
      rfl
  | cons entry rest ih =>
      intro disks final fs after id ok missed
      rw [List.map_cons, List.mem_cons, not_or] at missed
      rw [openAll, openOrFormatDisk, if_pos rfl] at ok
      rcases done : formatDisk env fs entry nodeId with ⟨_ | ⟨handle, sb⟩, middle⟩
      · rw [done] at ok
        cases ok
      · rw [done] at ok
        dsimp only at ok
        rw [ih _ final middle after id ok missed.2, lookup_insert_eq, if_neg missed.1]

private theorem open_all_formatted (env : Env) (nodeId : NodeId) (before : List DiskConfigEntry)
    (entry : DiskConfigEntry) (rest : List DiskConfigEntry)
    (ids : ((before ++ entry :: rest).map DiskConfigEntry.id).Nodup) :
    ∀ (disks final : FMap DiskId DiskRuntime) (fs after : FileSystem),
      openAll env nodeId true (before ++ entry :: rest) disks fs = (.ok final, after) →
      ∃ rt, final.lookup entry.id = some rt ∧
        FormattedDisk env nodeId entry (lengthAfter entry.path before (fs.file entry.path).length)
          rt.device rt.superblock := by
  induction before with
  | nil =>
      intro disks final fs after ok
      rw [List.nil_append] at ids ok
      rw [List.map_cons, List.nodup_cons] at ids
      rw [openAll, openOrFormatDisk, if_pos rfl] at ok
      rcases done : formatDisk env fs entry nodeId with ⟨_ | ⟨handle, sb⟩, middle⟩
      · rw [done] at ok
        cases ok
      · rw [done] at ok
        dsimp only at ok
        have formatted := (format_disk_formatted env fs middle entry nodeId handle sb done).1
        have here := open_all_keeps env nodeId rest _ final middle after entry.id ok ids.1
        rw [lookup_insert_eq, if_pos rfl] at here
        exact ⟨_, here, formatted⟩
  | cons first before ih =>
      intro disks final fs after ok
      rw [List.cons_append, List.map_cons, List.nodup_cons] at ids
      rw [List.cons_append, openAll, openOrFormatDisk, if_pos rfl] at ok
      rcases done : formatDisk env fs first nodeId with ⟨_ | ⟨handle, sb⟩, middle⟩
      · rw [done] at ok
        cases ok
      · rw [done] at ok
        dsimp only at ok
        have length := (format_disk_formatted env fs middle first nodeId handle sb done).2 entry.path
        obtain ⟨rt, found, formatted⟩ := ih ids.2 _ final middle after ok
        refine ⟨rt, found, ?_⟩
        rw [length] at formatted
        exact formatted

/-- The disks of a pool that was created have their areas apart just where no capacity was
configured and the file is longer than all zones. -/
theorem created_areas_apart_iff (env : Env) (config : PoolConfig) (mgr : PoolManager)
    (fs after : FileSystem) (ok : PoolManager.create env config fs = (.ok mgr, after))
    (before rest : List DiskConfigEntry) (entry : DiskConfigEntry)
    (listed : config.disks = before ++ entry :: rest) :
    ∃ rt, mgr.disks.lookup entry.id = some rt ∧
      (AreasApart rt.device.capacity (formattedAreas rt.device.capacity rt.superblock) ↔
        entry.capacityBytes = 0 ∧ fmtBlobZoneOffset.toNat + blockSize ≤
          lengthAfter entry.path before (fs.file entry.path).length) := by
  unfold PoolManager.create at ok
  split at ok
  · cases ok
  split at ok
  · cases ok
  split at ok
  · cases ok
  next free =>
    have ids := (duplicate_free config.disks [] free).1
    rcases opened : openAll env config.nodeId true config.disks ∅ fs with ⟨_ | disks, formatted⟩
    · rw [opened] at ok
      cases ok
    · rw [opened] at ok
      dsimp only at ok
      split at ok
      · cases ok
      · cases ok
        rw [listed] at ids opened
        obtain ⟨rt, found, disk⟩ :=
          open_all_formatted env config.nodeId before entry rest ids ∅ disks fs formatted opened
        exact ⟨rt, found, formatted_disk_apart_iff env _ entry _ _ _ disk⟩

private theorem added_areas_apart_iff (env : Env) (mgr added : PoolManager)
    (entry : DiskConfigEntry)
    (id : DiskId) (fs after : FileSystem)
    (ok : PoolManager.addDisk env mgr entry fs = (.ok id, added, after)) :
    ∃ rt, added.disks.lookup id = some rt ∧
      (AreasApart rt.device.capacity (formattedAreas rt.device.capacity rt.superblock) ↔
        entry.capacityBytes = 0 ∧
          fmtBlobZoneOffset.toNat + blockSize ≤ (fs.file entry.path).length) := by
  unfold PoolManager.addDisk at ok
  split at ok
  · cases ok
  split at ok
  · cases ok
  rw [openOrFormatDisk, if_pos rfl] at ok
  rcases done : formatDisk env fs entry mgr.config.nodeId with ⟨_ | ⟨handle, sb⟩, middle⟩
  · rw [done] at ok
    cases ok
  · rw [done] at ok
    dsimp only at ok
    have formatted := (format_disk_formatted env fs middle entry _ handle sb done).1
    split at ok
    · cases ok
    · cases ok
      refine ⟨_, by rw [lookup_insert_eq, if_pos rfl], ?_⟩
      exact formatted_disk_apart_iff env _ entry _ _ _ formatted

/-- Formatting leaves the areas of a disk apart just where no capacity is configured and the file
has room for the last copy behind all zones. -/
theorem formatted_areas_apart_iff (env : Env) :
    (∀ (config : PoolConfig) (mgr : PoolManager) (fs after : FileSystem)
      (before rest : List DiskConfigEntry) (entry : DiskConfigEntry),
      PoolManager.create env config fs = (.ok mgr, after) →
        config.disks = before ++ entry :: rest →
          ∃ rt, mgr.disks.lookup entry.id = some rt ∧
            (AreasApart rt.device.capacity (formattedAreas rt.device.capacity rt.superblock) ↔
              entry.capacityBytes = 0 ∧ fmtBlobZoneOffset.toNat + blockSize ≤
                lengthAfter entry.path before (fs.file entry.path).length)) ∧
    ∀ (mgr added : PoolManager) (entry : DiskConfigEntry) (id : DiskId) (fs after : FileSystem),
      PoolManager.addDisk env mgr entry fs = (.ok id, added, after) →
        ∃ rt, added.disks.lookup id = some rt ∧
          (AreasApart rt.device.capacity (formattedAreas rt.device.capacity rt.superblock) ↔
            entry.capacityBytes = 0 ∧
              fmtBlobZoneOffset.toNat + blockSize ≤ (fs.file entry.path).length) := by
  constructor
  · intro config mgr fs after before rest entry ok listed
    exact created_areas_apart_iff env config mgr fs after ok before rest entry listed
  · intro mgr added entry id fs after ok
    exact added_areas_apart_iff env mgr added entry id fs after ok

def wideDisk : DiskConfigEntry := ssdEntry 1 (text "/pool/disk") 1073741824

def wideConfig : PoolConfig := { nodeId := 1, disks := [wideDisk] }

theorem wide_pool_created :
    ∃ mgr created, PoolManager.create hostEnv wideConfig emptyHost = (.ok mgr, created) := by
  obtain ⟨created, made⟩ := lone_pool_created hostEnv 1 wideDisk (by decide) (by decide) (by decide)
  exact ⟨_, created, made⟩

theorem wide_areas_not_apart :
    ∃ mgr created rt, PoolManager.create hostEnv wideConfig emptyHost = (.ok mgr, created) ∧
      mgr.disks.lookup 1 = some rt ∧
        ¬ AreasApart rt.device.capacity (formattedAreas rt.device.capacity rt.superblock) := by
  obtain ⟨mgr, created, made⟩ := wide_pool_created
  obtain ⟨rt, found, apart⟩ :=
    created_areas_apart_iff hostEnv wideConfig mgr emptyHost created made [] [] wideDisk rfl
  refine ⟨mgr, created, rt, made, found, ?_⟩
  intro disjoint
  exact absurd (apart.mp disjoint).1 (by decide)

theorem formatted_areas_apart_iff_wide :
    ∃ mgr created rt, PoolManager.create hostEnv wideConfig emptyHost = (.ok mgr, created) ∧
      mgr.disks.lookup 1 = some rt ∧
        (AreasApart rt.device.capacity (formattedAreas rt.device.capacity rt.superblock) ↔
          wideDisk.capacityBytes = 0 ∧ fmtBlobZoneOffset.toNat + blockSize ≤ 0) := by
  obtain ⟨mgr, created, made⟩ := wide_pool_created
  obtain ⟨rt, found, apart⟩ :=
    (formatted_areas_apart_iff hostEnv).1 wideConfig mgr emptyHost created [] [] wideDisk made rfl
  exact ⟨mgr, created, rt, made, found, apart⟩

end Mimisbrunnr.Pool
