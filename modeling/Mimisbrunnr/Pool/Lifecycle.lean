import Mimisbrunnr.Pool.Manager

/-!
# Reopening a pool

Every disk of a running pool is formatted for its entry, and the primary disk
holds the pool state block of the current states. Opening the pool then finds
the same disks in the same states. The pool state block lies on the last
superblock copy of a disk that is only a little larger than the block's end:
a disk that ends with it loses the copy for good, one that has less than
another block behind it keeps a mixture of both.
-/

namespace Mimisbrunnr.Pool

set_option autoImplicit false

open Mimisbrunnr.Lib.ByteStore
open Mimisbrunnr.Lib.FiniteMap
open Mimisbrunnr.Lib.Layout
open Mimisbrunnr.Lib.MachineOrder
open Mimisbrunnr.Storage
open Mimisbrunnr.Types

def blankSuperblock (env : Env) (nodeId : NodeId) (entry : DiskConfigEntry) : Superblock :=
  Superblock.newBlank env.crc (formatOf nodeId entry) entry.capacityBytes

def handleOf (entry : DiskConfigEntry) : FileBlockDevice :=
  { path := entry.path, capacity := entry.capacityBytes.toNat, readOnly := false }

/-- The file of a disk: as long as configured, with its superblock in the first two blocks
and in the last one either the superblock or nothing that could be taken for one. -/
structure Formatted (env : Env) (nodeId : NodeId) (entry : DiskConfigEntry) (file : File) :
    Prop where
  length : file.length = entry.capacityBytes.toNat
  room : blockSize * 3 ≤ file.length
  first : read file.bytes 0 blockSize = sealed env.crc Superblock.body
    (blankSuperblock env nodeId entry)
  second : read file.bytes blockSize blockSize = sealed env.crc Superblock.body
    (blankSuperblock env nodeId entry)
  last : read file.bytes (file.length - blockSize) blockSize = sealed env.crc Superblock.body
      (blankSuperblock env nodeId entry) ∨
    Superblock.candidate env.crc (read file.bytes (file.length - blockSize) blockSize) = none

theorem open_absent (fs : FileSystem) (path : Path) (capacity : Nat)
    (absent : fs.files path = none) :
    (fs.openDevice path capacity).1 = { path := path, capacity := capacity, readOnly := false } ∧
      (fs.openDevice path capacity).2.file path = { bytes := fun _ => 0, length := capacity } ∧
      ∀ other, other ≠ path → (fs.openDevice path capacity).2.files other = fs.files other := by
  have empty : fs.file path = { bytes := fun _ => 0, length := 0 } := by
    rw [FileSystem.file, absent]
    rfl
  unfold FileSystem.openDevice
  by_cases zero : capacity = 0
  · simp only [zero, if_true, empty]
    refine ⟨trivial, by simp, ?_⟩
    intro other different
    simp [FileSystem.setFile, different]
  · simp only [zero, if_false, empty]
    refine ⟨trivial, by simp, ?_⟩
    intro other different
    simp [FileSystem.setFile, different]

theorem read_of_read_at (d : Device) (offset length : Nat) (bytes : List UInt8)
    (ok : d.readAt offset length = .ok bytes) :
    read d.bytes offset length = bytes ∧ offset + length ≤ d.capacity := by
  unfold Device.readAt at ok
  split at ok
  · cases ok
  · next inside =>
      cases ok
      exact ⟨rfl, Nat.le_of_not_lt inside⟩

/-- The copies of a stored superblock, by place. -/
theorem stored_reads (crc : Crc) (sb : Superblock) (d : Device)
    (stored : Superblock.Stored crc sb d) :
    read d.bytes 0 blockSize = sealed crc Superblock.body sb ∧
      read d.bytes blockSize blockSize = sealed crc Superblock.body sb ∧
      read d.bytes (d.capacity - blockSize) blockSize = sealed crc Superblock.body sb := by
  have copy (offset : Nat) (member : offset ∈ Superblock.copyOffsets d.capacity) :=
    (read_of_read_at d offset blockSize _ (stored.copies offset member)).1
  exact ⟨copy 0 (by simp [Superblock.copyOffsets]), copy blockSize (by simp [Superblock.copyOffsets]),
    copy _ (by simp [Superblock.copyOffsets])⟩

theorem format_disk_ok (env : Env) (fs after : FileSystem) (entry : DiskConfigEntry)
    (nodeId : NodeId) (handle : FileBlockDevice) (sb : Superblock)
    (absent : fs.files entry.path = none)
    (ok : formatDisk env fs entry nodeId = (.ok (handle, sb), after)) :
    handle = handleOf entry ∧ Formatted env nodeId entry (after.file entry.path) ∧
      (∀ other, other ≠ entry.path → after.files other = fs.files other) ∧
      read (after.file entry.path).bytes (entry.capacityBytes.toNat - blockSize) blockSize =
        sealed env.crc Superblock.body (blankSuperblock env nodeId entry) := by
  obtain ⟨opened, created, elsewhere⟩ :=
    open_absent fs entry.path entry.capacityBytes.toNat absent
  unfold formatDisk at ok
  rcases device : fs.openDevice entry.path entry.capacityBytes.toNat with ⟨given, middle⟩
  rw [device] at opened created elsewhere ok
  dsimp only at opened created elsewhere ok
  have given : given = handleOf entry := opened
  subst given
  rcases formatted : middle.on (handleOf entry)
    (Superblock.format env.crc (formatOf nodeId entry)) with ⟨_ | blank, last⟩
  · rw [formatted] at ok
    cases ok
  · obtain ⟨d, written, rfl⟩ := FileSystem.on_ok _ _ _ _ _ formatted
    rw [formatted] at ok
    dsimp only at ok
    split at ok
    · cases ok
    · cases ok
      obtain ⟨same, stored, capacity, -⟩ := Superblock.format_ok env.crc _ blank _ d written
      have width : (middle.device (handleOf entry)).capacity = entry.capacityBytes.toNat := rfl
      rw [width, UInt64.ofNat_toNat] at same
      obtain ⟨first, second, third⟩ := stored_reads env.crc blank d stored
      have room := stored.room
      rw [capacity, width] at third room
      rw [same] at first second third
      have file : (middle.stored (handleOf entry) d).file entry.path =
          { bytes := d.bytes, length := entry.capacityBytes.toNat } := by
        rw [FileSystem.file_stored]
        simp only [handleOf, if_true, created]
      refine ⟨rfl, ?_, ?_, ?_⟩
      · rw [file]
        exact ⟨rfl, room, first, second, .inl third⟩
      · intro other different
        rw [← elsewhere other different]
        simp [FileSystem.stored, handleOf, different]
      · rw [file]
        exact third

theorem newer_same (found : UInt64 × UInt64 × Superblock) :
    Superblock.newer (some found) (some found) = some found := by
  simp [Superblock.newer]

/-- Opening a formatted disk finds its superblock, also if the last copy is lost. -/
theorem open_formatted (env : Env) (nodeId : NodeId) (entry : DiskConfigEntry) (file : File)
    (formatted : Formatted env nodeId entry file) (d : Device) (bytes : d.bytes = file.bytes)
    (capacity : d.capacity = file.length) :
    Superblock.open env.crc d = .ok (blankSuperblock env nodeId entry) := by
  have root : (blankSuperblock env nodeId entry).activeRootPointer.verifyCrc env.crc = true := by
    rw [blankSuperblock, Superblock.active_new_blank]
    exact RootPointer.verify_recompute env.crc RootPointer.zero
  have offered := Superblock.candidate_sealed env.crc (blankSuperblock env nodeId entry) rfl root
  have room := formatted.room
  have copy (offset : Nat) (inside : offset + blockSize ≤ file.length) :
      Superblock.copyAt env.crc d offset =
        Superblock.candidate env.crc (read file.bytes offset blockSize) := by
    rw [Superblock.copyAt, Device.read_at_ok d offset blockSize (by rw [capacity]; exact inside),
      bytes]
  have first := copy 0 (by omega)
  have second := copy blockSize (by omega)
  have third := copy (file.length - blockSize) (by omega)
  rw [formatted.first, offered] at first
  rw [formatted.second, offered] at second
  have start := newer_same ((blankSuperblock env nodeId entry).activeRootPointer.seq,
    (blankSuperblock env nodeId entry).activeRootPointer.lsn, blankSuperblock env nodeId entry)
  rw [Superblock.open, capacity, if_neg (Nat.not_lt.mpr room), Superblock.copyOffsets,
    List.foldl_cons, List.foldl_cons, List.foldl_cons, List.foldl_nil, first, second]
  rcases formatted.last with kept | lost
  · rw [kept, offered] at third
    rw [third]
    simp [Superblock.newer]
  · rw [lost] at third
    rw [third]
    simp [Superblock.newer]

private theorem open_disk_formatted (env : Env) (fs : FileSystem) (entry : DiskConfigEntry)
    (nodeId : NodeId) (formatted : Formatted env nodeId entry (fs.file entry.path)) :
    ∃ after, openDisk env fs entry nodeId =
        (.ok (handleOf entry, blankSuperblock env nodeId entry), after) ∧
      after.file = fs.file := by
  have handle : (fs.openDevice entry.path 0).1 = handleOf entry := by
    rw [FileSystem.openDevice, if_pos rfl, handleOf, formatted.length]
  have same : (fs.openDevice entry.path 0).2.file = fs.file := by
    funext path
    rw [FileSystem.openDevice, if_pos rfl, FileSystem.file_set_file]
    split
    · next here => rw [here]
    · rfl
  rcases opened : fs.openDevice entry.path 0 with ⟨given, after⟩
  rw [opened] at handle same
  dsimp only at handle same
  subst handle
  have found := open_formatted env nodeId entry (fs.file entry.path) formatted
    (after.device (handleOf entry)) (by rw [FileSystem.device, same]; rfl)
    (by rw [formatted.length]; rfl)
  refine ⟨after, ?_, same⟩
  simp only [openDisk, opened, found]
  rw [if_neg fun differs => differs rfl, if_neg fun differs => differs rfl]

def Opened (entry : DiskConfigEntry) (rt : DiskRuntime) : Prop :=
  rt.config = entry ∧ rt.device = handleOf entry ∧ rt.state = .online ∧ rt.usedBytes = 0

/-- The disks that a loop over some entries adds. -/
structure OpenedAll (entries : List DiskConfigEntry) (before after : FMap DiskId DiskRuntime) :
    Prop where
  added : ∀ entry ∈ entries, ∃ rt, after.lookup entry.id = some rt ∧ Opened entry rt
  kept : ∀ id, (∀ entry ∈ entries, entry.id ≠ id) → after.lookup id = before.lookup id

theorem opened_all_cons (entry : DiskConfigEntry) (rest : List DiskConfigEntry)
    (fresh : ∀ other ∈ rest, other.id ≠ entry.id) (before after : FMap DiskId DiskRuntime)
    (sb : Superblock)
    (later : OpenedAll rest
      (before.insert entry.id
        { config := entry, state := .online, usedBytes := 0, device := handleOf entry,
          superblock := sb }) after) :
    OpenedAll (entry :: rest) before after := by
  constructor
  · intro other member
    cases List.mem_cons.mp member with
    | inl same =>
        subst same
        have here := later.kept other.id fresh
        rw [lookup_insert_eq, if_pos rfl] at here
        exact ⟨_, here, rfl, rfl, rfl, rfl⟩
    | inr inside => exact later.added other inside
  · intro id missed
    have different : id ≠ entry.id := (missed entry List.mem_cons_self).symm
    rw [later.kept id fun other member => missed other (List.mem_cons_of_mem _ member),
      lookup_insert_eq, if_neg different]

theorem format_all_ok (env : Env) (nodeId : NodeId) (entries : List DiskConfigEntry)
    (ids : (entries.map DiskConfigEntry.id).Nodup)
    (paths : (entries.map DiskConfigEntry.path).Nodup) :
    ∀ (disks final : FMap DiskId DiskRuntime) (fs after : FileSystem),
      (∀ entry ∈ entries, fs.files entry.path = none) →
      openAll env nodeId true entries disks fs = (.ok final, after) →
      OpenedAll entries disks final ∧
        (∀ entry ∈ entries, Formatted env nodeId entry (after.file entry.path)) ∧
        ∀ other, (∀ entry ∈ entries, entry.path ≠ other) → after.files other = fs.files other := by
  induction entries with
  | nil =>
      intro disks final fs after _ ok
      cases ok
      exact ⟨⟨by simp, fun _ _ => rfl⟩, by simp, fun _ _ => rfl⟩
  | cons entry rest ih =>
      intro disks final fs after absent ok
      rw [List.map_cons, List.nodup_cons] at ids paths
      have freshId : ∀ other ∈ rest, other.id ≠ entry.id := by
        intro other member same
        exact ids.1 (List.mem_map.mpr ⟨other, member, same⟩)
      have freshPath : ∀ other ∈ rest, other.path ≠ entry.path := by
        intro other member same
        exact paths.1 (List.mem_map.mpr ⟨other, member, same⟩)
      rw [openAll, openOrFormatDisk, if_pos rfl] at ok
      rcases done : formatDisk env fs entry nodeId with ⟨_ | ⟨handle, sb⟩, middle⟩
      · rw [done] at ok
        cases ok
      · rw [done] at ok
        dsimp only at ok
        obtain ⟨rfl, formatted, elsewhere, -⟩ :=
          format_disk_ok env fs middle entry nodeId handle sb (absent entry List.mem_cons_self) done
        have stillAbsent : ∀ other ∈ rest, middle.files other.path = none := by
          intro other member
          rw [elsewhere other.path (freshPath other member)]
          exact absent other (List.mem_cons_of_mem _ member)
        obtain ⟨opened, all, outside⟩ := ih ids.2 paths.2 _ final middle after stillAbsent ok
        refine ⟨opened_all_cons entry rest freshId disks final sb opened, ?_, ?_⟩
        · intro other member
          cases List.mem_cons.mp member with
          | inl same =>
              subst same
              rw [FileSystem.file, outside other.path freshPath]
              exact formatted
          | inr inside => exact all other inside
        · intro other missed
          rw [outside other fun entry member => missed entry (List.mem_cons_of_mem _ member)]
          exact elsewhere other (missed entry List.mem_cons_self).symm

private theorem reopen_all (env : Env) (nodeId : NodeId) (entries : List DiskConfigEntry)
    (ids : (entries.map DiskConfigEntry.id).Nodup) :
    ∀ (disks : FMap DiskId DiskRuntime) (fs : FileSystem),
      (∀ entry ∈ entries, Formatted env nodeId entry (fs.file entry.path)) →
      ∃ final after, openAll env nodeId false entries disks fs = (.ok final, after) ∧
        OpenedAll entries disks final ∧ after.file = fs.file := by
  induction entries with
  | nil =>
      intro disks fs _
      exact ⟨disks, fs, rfl, ⟨by simp, fun _ _ => rfl⟩, rfl⟩
  | cons entry rest ih =>
      intro disks fs formatted
      rw [List.map_cons, List.nodup_cons] at ids
      have freshId : ∀ other ∈ rest, other.id ≠ entry.id := by
        intro other member same
        exact ids.1 (List.mem_map.mpr ⟨other, member, same⟩)
      obtain ⟨middle, opened, same⟩ :=
        open_disk_formatted env fs entry nodeId (formatted entry List.mem_cons_self)
      obtain ⟨final, after, done, all, unchanged⟩ := ih ids.2
        (disks.insert entry.id
          { config := entry, state := .online, usedBytes := 0, device := handleOf entry,
            superblock := blankSuperblock env nodeId entry }) middle (by
          intro other member
          rw [same]
          exact formatted other (List.mem_cons_of_mem _ member))
      refine ⟨final, after, ?_, opened_all_cons entry rest freshId disks final _ all,
        unchanged.trans same⟩
      rw [openAll, openOrFormatDisk, if_neg (by simp), opened]
      exact done

private theorem describe_ok (env : Env) (rt : DiskRuntime) (d : DiskDescriptorOnDisk)
    (ok : PoolManager.describe env rt = .ok d) :
    d.diskId = rt.config.id ∧ d.state = rt.state.toU8 ∧ d.usedBytes = rt.usedBytes := by
  unfold PoolManager.describe at ok
  dsimp only at ok
  split at ok
  · cases ok
  · next short =>
      simp only [DiskDescriptorOnDisk.new, if_neg short, bind, Except.bind] at ok
      cases ok
      exact ⟨rfl, rfl, rfl⟩

/-- Applying the descriptors of some disks sets the states of those disks. -/
theorem apply_described (env : Env) (rows : List (DiskId × DiskRuntime))
    (own : ∀ row ∈ rows, row.2.config.id = row.1) (distinct : (rows.map Prod.fst).Nodup) :
    ∀ (wire : List DiskDescriptorOnDisk) (disks : FMap DiskId DiskRuntime),
      rows.mapM (fun row => PoolManager.describe env row.2) = .ok wire →
      ∃ final, PoolManager.applyDescriptors wire disks = .ok final ∧
        (∀ row ∈ rows, final.lookup row.1 = (disks.lookup row.1).map fun rt =>
          { rt with state := row.2.state, usedBytes := row.2.usedBytes }) ∧
        ∀ id, (∀ row ∈ rows, row.1 ≠ id) → final.lookup id = disks.lookup id := by
  induction rows with
  | nil =>
      intro wire disks ok
      cases ok
      exact ⟨disks, rfl, by simp, fun _ _ => rfl⟩
  | cons row rest ih =>
      intro wire disks ok
      rw [List.map_cons, List.nodup_cons] at distinct
      have fresh : ∀ other ∈ rest, other.1 ≠ row.1 := by
        intro other member same
        exact distinct.1 (List.mem_map.mpr ⟨other, member, same⟩)
      simp only [List.mapM_cons, bind, Except.bind] at ok
      split at ok
      · cases ok
      · next d described =>
          split at ok
          · cases ok
          · next later mapped =>
              cases ok
              obtain ⟨diskId, state, used⟩ := describe_ok env row.2 d described
              rw [own row List.mem_cons_self] at diskId
              have typed : d.stateTyped = .ok row.2.state := by
                rw [DiskDescriptorOnDisk.stateTyped, state, DiskState.from_to_u8]
              obtain ⟨final, applied, changed, kept⟩ :=
                ih (fun other member => own other (List.mem_cons_of_mem _ member)) distinct.2 later
                  (update disks d.diskId fun rt =>
                    { rt with state := row.2.state, usedBytes := d.usedBytes }) mapped
              refine ⟨final, ?_, ?_, ?_⟩
              · simp only [PoolManager.applyDescriptors, typed, bind, Except.bind]
                exact applied
              · intro other member
                cases List.mem_cons.mp member with
                | inl same =>
                    subst same
                    rw [kept other.1 fresh, diskId, used, lookup_update, if_pos rfl]
                | inr inside =>
                    rw [changed other inside, diskId, lookup_update,
                      if_neg (fresh other inside)]
              · intro id missed
                rw [kept id fun other member => missed other (List.mem_cons_of_mem _ member),
                  diskId, lookup_update, if_neg (missed row List.mem_cons_self).symm]

/-- What the manager has in memory, and the disks formatted for it. -/
structure Consistent (env : Env) (mgr : PoolManager) (fs : FileSystem) : Prop where
  ids : (mgr.config.disks.map DiskConfigEntry.id).Nodup
  paths : (mgr.config.disks.map DiskConfigEntry.path).Nodup
  known : ∀ entry ∈ mgr.config.disks, ∃ rt, mgr.disks.lookup entry.id = some rt
  runtime : ∀ id rt, mgr.disks.lookup id = some rt →
    rt.config ∈ mgr.config.disks ∧ rt.config.id = id ∧ rt.device = handleOf rt.config
  formatted : ∀ entry ∈ mgr.config.disks,
    Formatted env mgr.config.nodeId entry (fs.file entry.path)

/-- The primary disk holds the block of the current states. -/
def Published (env : Env) (mgr : PoolManager) (fs : FileSystem) : Prop :=
  ∃ primary psr, mgr.config.primary = some primary ∧ mgr.stateRoot env = .ok psr ∧
    poolStateRootOffset + blockSize ≤ primary.capacityBytes.toNat ∧
    read (fs.file primary.path).bytes poolStateRootOffset blockSize =
      sealed env.crc PoolStateRoot.body psr

theorem primary_mem (config : PoolConfig) (entry : DiskConfigEntry)
    (primary : config.primary = some entry) : entry ∈ config.disks :=
  List.argmin_mem (Option.mem_def.mpr primary)

theorem state_root_ok (env : Env) (mgr : PoolManager) (psr : PoolStateRoot)
    (ok : mgr.stateRoot env = .ok psr) :
    (toSorted mgr.disks).mapM (fun row => PoolManager.describe env row.2) = .ok psr.inlineIter ∧
      psr.header = PoolStateRoot.newBlank.header ∧ psr.diskCount.toNat ≤ 12 := by
  unfold PoolManager.stateRoot at ok
  simp only [bind, Except.bind] at ok
  split at ok
  · cases ok
  · next wire mapped =>
      obtain ⟨iterated, header⟩ := PoolStateRoot.inline_iter_set _ psr wire ok
      rw [iterated]
      refine ⟨mapped, header, ?_⟩
      unfold PoolStateRoot.setInlineDisks at ok
      split at ok
      · cases ok
      · next few =>
          cases ok
          have bound : wire.length ≤ 12 := Nat.le_of_not_lt few
          rw [UInt32.toNat_ofNat', Nat.mod_eq_of_lt (by omega)]
          exact bound

theorem magic_of_bytes (bytes : List UInt8) (length : bytes.length = blockSize) :
    (bodyOf Superblock.body bytes).magicFull.toList = (bytes.drop 32).take 16 := by
  change ((((((bytes.take 4092).take 112).drop 32).take 16) ++ List.replicate 16 0).take 16) =
    (bytes.drop 32).take 16
  have inner : ((((bytes.take 4092).take 112).drop 32).take 16) = (bytes.drop 32).take 16 := by
    rw [List.take_take, List.drop_take, List.take_take]
    rfl
  have full : ((bytes.drop 32).take 16).length = 16 := by
    simp [length, blockSize]
  rw [inner, List.take_left' full]

theorem state_root_no_candidate (crc : Crc) (psr : PoolStateRoot)
    (few : psr.diskCount.toNat ≤ 12) :
    Superblock.candidate crc (sealed crc PoolStateRoot.body psr) = none := by
  have length := psr.length_block crc
  have differs : (bodyOf Superblock.body (sealed crc PoolStateRoot.body psr)).magicFull ≠
      superblockMagicFull := by
    intro same
    have bytes := magic_of_bytes _ length
    rw [same] at bytes
    have start : sealed crc PoolStateRoot.body psr = BlockHeader.layout.toBytes psr.header ++
        (UInt8.ofNat (psr.diskCount.toNat % 256) :: leBytes 3 (psr.diskCount.toNat / 256) ++
          (Pod.u32.prod ((DiskDescriptorOnDisk.layout.row 12).prod (Pod.array 980))).toBytes
            (psr.clusterNodeCount, psr.inlineDisks, psr.reserved)) ++
          Pod.u32.toBytes (crc (PoolStateRoot.body.toBytes psr)) := rfl
    have header : (BlockHeader.layout.toBytes psr.header).length = 32 :=
      BlockHeader.layout.length_to_bytes psr.header
    rw [start, List.append_assoc, List.drop_left' header] at bytes
    have heads := congrArg List.head? bytes
    have byte : (0x4d : UInt8) = UInt8.ofNat (psr.diskCount.toNat % 256) := by
      simpa [superblockMagicFull] using heads
    have number := congrArg UInt8.toNat byte
    rw [UInt8.toNat_ofNat', Nat.mod_mod, Nat.mod_eq_of_lt (by omega)] at number
    have : psr.diskCount.toNat = 77 := number.symm
    omega
  rw [Superblock.candidate]
  exact if_pos differs

/-- The disk ends with the pool state block or has room for the last superblock copy
behind it. -/
def Roomy (entry : DiskConfigEntry) : Prop :=
  entry.capacityBytes.toNat = poolStateRootOffset + blockSize ∨
    poolStateRootOffset + 2 * blockSize ≤ entry.capacityBytes.toNat

instance (entry : DiskConfigEntry) : Decidable (Roomy entry) :=
  inferInstanceAs (Decidable (_ ∨ _))

/-- Writing the block keeps a roomy disk formatted. -/
theorem formatted_overwritten (env : Env) (nodeId : NodeId) (entry : DiskConfigEntry)
    (file : File) (formatted : Formatted env nodeId entry file) (roomy : Roomy entry)
    (psr : PoolStateRoot) (few : psr.diskCount.toNat ≤ 12) :
    Formatted env nodeId entry
      { file with
        bytes := overwrite file.bytes poolStateRootOffset
          (sealed env.crc PoolStateRoot.body psr) } := by
  have length := psr.length_block env.crc
  have apart (offset : Nat) (far : Apart poolStateRootOffset blockSize offset blockSize) :
      read (overwrite file.bytes poolStateRootOffset (sealed env.crc PoolStateRoot.body psr))
        offset blockSize = read file.bytes offset blockSize :=
    read_overwrite_apart _ _ _ _ _ (by rw [length]; exact far)
  refine ⟨formatted.length, formatted.room, ?_, ?_, ?_⟩
  · rw [apart 0 (by decide)]
    exact formatted.first
  · rw [apart blockSize (by decide)]
    exact formatted.second
  · rcases roomy with exact_ | more
    · -- the block takes the place of the last copy
      right
      have here : file.length - blockSize = poolStateRootOffset := by
        rw [formatted.length, exact_]
        rfl
      dsimp only
      rw [here]
      have back := read_overwrite file.bytes poolStateRootOffset
        (sealed env.crc PoolStateRoot.body psr)
      rw [length] at back
      rw [back]
      exact state_root_no_candidate env.crc psr few
    · have far : Apart poolStateRootOffset blockSize (file.length - blockSize) blockSize := by
        rw [formatted.length]
        left
        omega
      dsimp only
      rw [apart _ far]
      exact formatted.last

theorem write_state_root_ok (env : Env) (mgr : PoolManager) (fs after : FileSystem)
    (consistent : Consistent env mgr fs)
    (roomy : ∀ primary, mgr.config.primary = some primary → Roomy primary)
    (ok : mgr.writePoolStateRoot env fs = (.ok (), after)) :
    Consistent env mgr after ∧ Published env mgr after ∧
      ∀ other, (∀ entry ∈ mgr.config.disks, entry.path ≠ other) →
        after.files other = fs.files other := by
  unfold PoolManager.writePoolStateRoot at ok
  rcases least : mgr.config.primary with _ | primary
  · rw [least] at ok
    cases ok
  · rw [least] at ok
    dsimp only at ok
    rcases built : mgr.stateRoot env with _ | psr
    · rw [built] at ok
      cases ok
    · rw [built] at ok
      dsimp only at ok
      have member := primary_mem mgr.config primary least
      obtain ⟨rt, found⟩ := consistent.known primary member
      rw [found] at ok
      dsimp only at ok
      obtain ⟨inside, sameId, handle⟩ := consistent.runtime primary.id rt found
      have config : rt.config = primary :=
        List.inj_on_of_nodup_map consistent.ids inside member sameId
      rw [handle, config] at ok
      obtain ⟨d, done, rfl⟩ := FileSystem.on_ok _ _ _ _ _ ok
      have plain := DeviceM.map_error_ok _ _ _ _ _ done
      obtain ⟨⟨⟩, middle, written, synced⟩ := DeviceM.bind_ok _ _ _ _ _ plain
      have settled := Device.sync_ok middle d synced
      obtain ⟨room, overwritten⟩ := Device.write_at_ok (fs.device (handleOf primary)) middle
        poolStateRootOffset (sealed env.crc PoolStateRoot.body psr) written
      have length := psr.length_block env.crc
      rw [length] at room
      have bytes : d.bytes = overwrite (fs.file primary.path).bytes poolStateRootOffset
          (sealed env.crc PoolStateRoot.body psr) := by
        rw [settled, overwritten]
        rfl
      have files (path : Path) : (fs.stored (handleOf primary) d).file path =
          if path = primary.path then
            { fs.file primary.path with
              bytes := overwrite (fs.file primary.path).bytes poolStateRootOffset
                (sealed env.crc PoolStateRoot.body psr) }
          else fs.file path := by
        rw [FileSystem.file_stored, bytes]
        rfl
      refine ⟨?_, ?_, ?_⟩
      · refine ⟨consistent.ids, consistent.paths, consistent.known, consistent.runtime, ?_⟩
        intro entry listed
        rw [files]
        by_cases same : entry.path = primary.path
        · have entrySame : entry = primary :=
            List.inj_on_of_nodup_map consistent.paths listed member same
          rw [if_pos same, entrySame]
          exact formatted_overwritten env _ primary _ (consistent.formatted primary member)
            (roomy primary least) psr (state_root_ok env mgr psr built).2.2
        · rw [if_neg same]
          exact consistent.formatted entry listed
      · refine ⟨primary, psr, least, built, room, ?_⟩
        rw [files, if_pos rfl]
        have back := read_overwrite (fs.file primary.path).bytes poolStateRootOffset
          (sealed env.crc PoolStateRoot.body psr)
        rw [length] at back
        exact back
      · intro other missed
        have different : other ≠ (handleOf primary).path := (missed primary member).symm
        simp [FileSystem.stored, different]

def DiskRuntime.view (rt : DiskRuntime) : DiskConfigEntry × DiskState × UInt64 :=
  (rt.config, rt.state, rt.usedBytes)

theorem to_sorted_map_vals (disks : FMap DiskId DiskRuntime) :
    toSorted (mapVals DiskRuntime.view disks) =
      (toSorted disks).map fun row => (row.1, row.2.view) := by
  have keys : (mapVals DiskRuntime.view disks).keys = disks.keys := by
    ext id
    rw [Finmap.mem_keys, Finmap.mem_keys, Finmap.mem_iff, Finmap.mem_iff]
    simp only [lookup_map_vals, Option.map_eq_some_iff]
    constructor
    · intro ⟨_, rt, found, _⟩
      exact ⟨rt, found⟩
    · intro ⟨rt, found⟩
      exact ⟨rt.view, rt, found, rfl⟩
  rw [toSorted, toSorted, keys, List.map_filterMap]
  apply List.filterMap_congr
  intro id _
  rw [lookup_map_vals]
  cases disks.lookup id with
  | none => rfl
  | some rt => rfl

/-- The status as a function of what it shows. -/
def statusOf (nodeId : NodeId)
    (rows : List (DiskId × DiskConfigEntry × DiskState × UInt64)) : PoolStatus :=
  { nodeId := nodeId
    diskCount := UInt32.ofNat rows.length
    totalCapacity := rows.foldl (fun total row => saturatingAdd64 total row.2.1.capacityBytes) 0
    totalUsed := rows.foldl (fun total row => saturatingAdd64 total row.2.2.2) 0
    disks := rows.map fun row =>
      (row.1, row.2.2.1, row.2.1.mediaType, row.2.1.tier, row.2.1.capacityBytes, row.2.2.2)
    byTier := rows.foldl
      (fun tiers row =>
        let old := (tiers.lookup row.2.1.tier).getD ⟨0, 0, 0⟩
        tiers.insert row.2.1.tier
          { diskCount := old.diskCount + 1
            capacityBytes := saturatingAdd64 old.capacityBytes row.2.1.capacityBytes
            usedBytes := saturatingAdd64 old.usedBytes row.2.2.2 }) ∅
    faultedDisks := (rows.filter fun row => row.2.2.1 = .faulted).map Prod.fst }

private theorem status_eq (mgr : PoolManager) :
    mgr.status = statusOf mgr.config.nodeId (toSorted (mapVals DiskRuntime.view mgr.disks)) := by
  rw [to_sorted_map_vals]
  simp only [PoolManager.status, statusOf, List.length_map, List.foldl_map, List.map_map,
    List.filter_map, DiskRuntime.view, Function.comp_def]
  rfl

private theorem status_congr (first second : PoolManager)
    (node : first.config.nodeId = second.config.nodeId)
    (same : ∀ id, (first.disks.lookup id).map DiskRuntime.view =
      (second.disks.lookup id).map DiskRuntime.view) : first.status = second.status := by
  have views : mapVals DiskRuntime.view first.disks = mapVals DiskRuntime.view second.disks := by
    apply Finmap.ext_lookup
    intro id
    rw [lookup_map_vals, lookup_map_vals, same]
  rw [status_eq, status_eq, node, views]

private theorem open_published (env : Env) (mgr : PoolManager) (fs : FileSystem)
    (consistent : Consistent env mgr fs) (published : Published env mgr fs) :
    ∃ reopened after, PoolManager.open env mgr.config fs = (.ok reopened, after) ∧
      reopened.config = mgr.config ∧ reopened.status = mgr.status := by
  obtain ⟨primary, psr, least, built, room, block⟩ := published
  have member := primary_mem mgr.config primary least
  have some : mgr.config.disks ≠ [] := List.ne_nil_of_mem member
  obtain ⟨opened, after, done, all, same⟩ := reopen_all env mgr.config.nodeId mgr.config.disks
    consistent.ids ∅ fs consistent.formatted
  obtain ⟨rt, found, -, device, -, -⟩ := all.added primary member
  obtain ⟨described, header, -⟩ := state_root_ok env mgr psr built
  have readBack : PoolStateRoot.read env.crc (after.device rt.device) poolStateRootOffset =
      .ok psr := by
    apply PoolStateRoot.read_stored env.crc psr _ _ header
    rw [device, Device.read_at_ok _ _ _ room]
    have bytes : (after.device (handleOf primary)).bytes = (fs.file primary.path).bytes := by
      rw [FileSystem.device, same]
      rfl
    rw [bytes, block]
  have rowLookup : ∀ row ∈ toSorted mgr.disks, mgr.disks.lookup row.1 = .some row.2 := by
    intro row inside
    exact (mem_to_sorted mgr.disks row.1 row.2).mp inside
  have own : ∀ row ∈ toSorted mgr.disks, row.2.config.id = row.1 := by
    intro row inside
    exact (consistent.runtime row.1 row.2 (rowLookup row inside)).2.1
  have distinct : ((toSorted mgr.disks).map Prod.fst).Nodup :=
    (increasing_to_sorted mgr.disks).imp fun below => ne_of_lt below
  obtain ⟨final, applied, changed, kept⟩ :=
    apply_described env (toSorted mgr.disks) own distinct psr.inlineIter opened described
  refine ⟨{ config := mgr.config, disks := final }, after, ?_, rfl, ?_⟩
  · rw [PoolManager.open, if_neg some, done]
    simp only [least, found, readBack, applied]
  · apply status_congr
    · rfl
    · intro id
      rcases here : mgr.disks.lookup id with _ | old
      · have unknown : ∀ entry ∈ mgr.config.disks, entry.id ≠ id := by
          intro entry listed same
          obtain ⟨other, present⟩ := consistent.known entry listed
          rw [same, here] at present
          cases present
        have missing : ∀ row ∈ toSorted mgr.disks, row.1 ≠ id := by
          intro row inside same
          have present := rowLookup row inside
          rw [same, here] at present
          cases present
        rw [kept id missing, all.kept id unknown]
        rfl
      · obtain ⟨listed, sameId, -⟩ := consistent.runtime id old here
        obtain ⟨fresh, present, config, -, -, -⟩ := all.added old.config listed
        have row : (id, old) ∈ toSorted mgr.disks := (mem_to_sorted mgr.disks id old).mpr here
        rw [sameId] at present
        rw [changed (id, old) row, present]
        simp [DiskRuntime.view, config]

def RoomyPrimary (config : PoolConfig) : Prop :=
  ∀ primary, config.primary = some primary → Roomy primary

/-- Whenever the pool state block is written, the disk it goes to is roomy. -/
def RoomyThroughout (config : PoolConfig) : List Call → Prop
  | [] => RoomyPrimary config
  | .addDisk entry :: rest =>
      RoomyPrimary config ∧
        RoomyThroughout { config with disks := config.disks ++ [entry] } rest
  | .removeDisk _ :: rest => RoomyPrimary config ∧ RoomyThroughout config rest
  | .commit :: rest => RoomyPrimary config ∧ RoomyThroughout config rest

theorem roomy_now (config : PoolConfig) (calls : List Call)
    (roomy : RoomyThroughout config calls) : RoomyPrimary config := by
  cases calls with
  | nil => exact roomy
  | cons call rest =>
      cases call with
      | addDisk entry => exact roomy.1
      | removeDisk id => exact roomy.1
      | commit => exact roomy.1

def addedPaths (calls : List Call) : List Path :=
  calls.filterMap fun
    | .addDisk entry => some entry.path
    | _ => none

/-- The disks still to come have files of their own, which do not exist yet. -/
structure Awaits (config : PoolConfig) (calls : List Call) (fs : FileSystem) : Prop where
  distinct : (config.disks.map DiskConfigEntry.path ++ addedPaths calls).Nodup
  absent : ∀ path ∈ addedPaths calls, fs.files path = none

/-- Every disk has a file of its own, which does not exist before. -/
structure OwnFiles (config : PoolConfig) (calls : List Call) (fs : FileSystem) : Prop
    extends Awaits config calls fs where
  missing : ∀ entry ∈ config.disks, fs.files entry.path = none

theorem duplicate_free (entries : List DiskConfigEntry) :
    ∀ seen : List DiskId, PoolManager.firstDuplicate entries seen = none →
      (entries.map DiskConfigEntry.id).Nodup ∧ ∀ entry ∈ entries, entry.id ∉ seen := by
  induction entries with
  | nil =>
      intro seen _
      exact ⟨List.nodup_nil, by simp⟩
  | cons entry rest ih =>
      intro seen none
      unfold PoolManager.firstDuplicate at none
      split at none
      · cases none
      · next unseen =>
          obtain ⟨distinct, others⟩ := ih _ none
          constructor
          · rw [List.map_cons, List.nodup_cons]
            refine ⟨?_, distinct⟩
            intro member
            obtain ⟨other, inside, same⟩ := List.mem_map.mp member
            exact others other inside (by rw [same]; exact List.mem_cons_self)
          · intro other member
            cases List.mem_cons.mp member with
            | inl same =>
                rw [same]
                exact unseen
            | inr inside =>
                intro listed
                exact others other inside (List.mem_cons_of_mem _ listed)

/-- The runtimes of disks that were just opened. -/
theorem consistent_of_opened (env : Env) (config : PoolConfig)
    (disks : FMap DiskId DiskRuntime) (fs : FileSystem)
    (ids : (config.disks.map DiskConfigEntry.id).Nodup)
    (paths : (config.disks.map DiskConfigEntry.path).Nodup)
    (all : OpenedAll config.disks ∅ disks)
    (formatted : ∀ entry ∈ config.disks,
      Formatted env config.nodeId entry (fs.file entry.path)) :
    Consistent env { config := config, disks := disks } fs := by
  refine ⟨ids, paths, ?_, ?_, formatted⟩
  · intro entry member
    obtain ⟨rt, found, -⟩ := all.added entry member
    exact ⟨rt, found⟩
  · intro id rt found
    by_cases listed : ∃ entry ∈ config.disks, entry.id = id
    · obtain ⟨entry, member, rfl⟩ := listed
      obtain ⟨other, present, same, device, -⟩ := all.added entry member
      rw [found] at present
      cases present
      rw [device, same]
      exact ⟨member, rfl, rfl⟩
    · have unlisted : ∀ entry ∈ config.disks, entry.id ≠ id := by
        intro entry member same
        exact listed ⟨entry, member, same⟩
      rw [all.kept id unlisted] at found
      simp at found

theorem create_ok (env : Env) (config : PoolConfig) (mgr : PoolManager) (fs after : FileSystem)
    (paths : (config.disks.map DiskConfigEntry.path).Nodup)
    (absent : ∀ entry ∈ config.disks, fs.files entry.path = none)
    (roomy : RoomyPrimary config)
    (ok : PoolManager.create env config fs = (.ok mgr, after)) :
    mgr.config = config ∧ Consistent env mgr after ∧ Published env mgr after ∧
      ∀ other, (∀ entry ∈ config.disks, entry.path ≠ other) →
        after.files other = fs.files other := by
  unfold PoolManager.create at ok
  split at ok
  · cases ok
  split at ok
  · cases ok
  split at ok
  · cases ok
  next free =>
    have ids := (duplicate_free config.disks [] free).1
    rcases opened : openAll env config.nodeId true config.disks ∅ fs with ⟨_ | disks, formatted⟩
    · rw [opened] at ok
      cases ok
    · rw [opened] at ok
      dsimp only at ok
      obtain ⟨all, every, outside⟩ := format_all_ok env config.nodeId config.disks ids paths ∅ disks
        fs formatted absent opened
      have consistent := consistent_of_opened env config disks formatted ids paths all every
      rcases written : ({ config := config, disks := disks } : PoolManager).writePoolStateRoot env
        formatted with ⟨_ | ⟨⟩, last⟩
      · rw [written] at ok
        cases ok
      · rw [written] at ok
        cases ok
        obtain ⟨stays, published, frame⟩ :=
          write_state_root_ok env _ formatted after consistent roomy written
        refine ⟨rfl, stays, published, ?_⟩
        intro other missed
        rw [frame other missed, outside other missed]

private theorem consistent_added (env : Env) (mgr : PoolManager) (fs formatted : FileSystem)
    (consistent : Consistent env mgr fs) (entry : DiskConfigEntry) (sb : Superblock)
    (freshId : entry.id ∉ mgr.disks)
    (freshPath : ∀ other ∈ mgr.config.disks, other.path ≠ entry.path)
    (here : Formatted env mgr.config.nodeId entry (formatted.file entry.path))
    (elsewhere : ∀ other, other ≠ entry.path → formatted.files other = fs.files other) :
    Consistent env
      { config := { mgr.config with disks := mgr.config.disks ++ [entry] }
        disks := mgr.disks.insert entry.id
          { config := entry, state := .online, usedBytes := 0, device := handleOf entry,
            superblock := sb } } formatted := by
  have freshEntry : ∀ other ∈ mgr.config.disks, other.id ≠ entry.id := by
    intro other member same
    obtain ⟨rt, found⟩ := consistent.known other member
    rw [same] at found
    exact freshId (Finmap.mem_of_lookup_eq_some found)
  refine ⟨?_, ?_, ?_, ?_, ?_⟩
  · rw [List.map_append, List.nodup_append]
    refine ⟨consistent.ids, List.nodup_singleton _, ?_⟩
    intro id member last single same
    obtain ⟨other, inside, rfl⟩ := List.mem_map.mp member
    rw [List.mem_singleton.mp single] at same
    exact freshEntry other inside same
  · rw [List.map_append, List.nodup_append]
    refine ⟨consistent.paths, List.nodup_singleton _, ?_⟩
    intro path member last single same
    obtain ⟨other, inside, rfl⟩ := List.mem_map.mp member
    rw [List.mem_singleton.mp single] at same
    exact freshPath other inside same
  · intro other member
    dsimp only
    rw [lookup_insert_eq]
    cases List.mem_append.mp member with
    | inl old =>
        rw [if_neg (freshEntry other old)]
        exact consistent.known other old
    | inr new =>
        rw [List.mem_singleton.mp new, if_pos rfl]
        exact ⟨_, rfl⟩
  · intro id rt found
    dsimp only at found
    rw [lookup_insert_eq] at found
    split at found
    · next same =>
        cases found
        exact ⟨List.mem_append_right _ (List.mem_singleton.mpr rfl), same.symm, rfl⟩
    · obtain ⟨member, sameId, device⟩ := consistent.runtime id rt found
      exact ⟨List.mem_append_left _ member, sameId, device⟩
  · intro other member
    cases List.mem_append.mp member with
    | inl old =>
        have same : formatted.file other.path = fs.file other.path := by
          rw [FileSystem.file, elsewhere other.path (freshPath other old)]
          rfl
        rw [same]
        exact consistent.formatted other old
    | inr new =>
        rw [List.mem_singleton.mp new]
        exact here

private theorem add_disk_ok (env : Env) (mgr added : PoolManager) (entry : DiskConfigEntry)
    (id : DiskId)
    (fs after : FileSystem) (consistent : Consistent env mgr fs)
    (absent : fs.files entry.path = none)
    (freshPath : ∀ other ∈ mgr.config.disks, other.path ≠ entry.path)
    (roomy : RoomyPrimary { mgr.config with disks := mgr.config.disks ++ [entry] })
    (ok : mgr.addDisk env entry fs = (.ok id, added, after)) :
    added.config = { mgr.config with disks := mgr.config.disks ++ [entry] } ∧
      Consistent env added after ∧ Published env added after ∧
      ∀ other, (∀ disk ∈ added.config.disks, disk.path ≠ other) →
        after.files other = fs.files other := by
  unfold PoolManager.addDisk at ok
  split at ok
  · cases ok
  next freshId =>
    split at ok
    · cases ok
    rw [openOrFormatDisk, if_pos rfl] at ok
    rcases done : formatDisk env fs entry mgr.config.nodeId with ⟨_ | ⟨handle, sb⟩, formatted⟩
    · rw [done] at ok
      cases ok
    · rw [done] at ok
      dsimp only at ok
      obtain ⟨rfl, here, elsewhere, -⟩ :=
        format_disk_ok env fs formatted entry mgr.config.nodeId handle sb absent done
      have grown := consistent_added env mgr fs formatted consistent entry sb freshId freshPath here
        elsewhere
      split at ok
      · cases ok
      · next written =>
          cases ok
          obtain ⟨stays, published, frame⟩ :=
            write_state_root_ok env _ formatted after grown roomy written
          refine ⟨rfl, stays, published, ?_⟩
          intro other missed
          rw [frame other missed]
          exact elsewhere other
            (missed entry (List.mem_append_right _ (List.mem_singleton.mpr rfl))).symm

private theorem remove_disk_ok (env : Env) (mgr drained : PoolManager) (id : DiskId)
    (fs after : FileSystem) (consistent : Consistent env mgr fs) (roomy : RoomyPrimary mgr.config)
    (ok : mgr.removeDisk env id fs = (.ok (), drained, after)) :
    drained.config = mgr.config ∧ Consistent env drained after ∧ Published env drained after ∧
      ∀ other, (∀ disk ∈ drained.config.disks, disk.path ≠ other) →
        after.files other = fs.files other := by
  unfold PoolManager.removeDisk at ok
  split at ok
  · cases ok
  dsimp only at ok
  rw [Prod.mk.injEq, Prod.mk.injEq] at ok
  obtain ⟨result, rfl, last⟩ := ok
  have kept : Consistent env
      { mgr with disks := update mgr.disks id fun rt => { rt with state := .draining } } fs := by
    refine ⟨consistent.ids, consistent.paths, ?_, ?_, consistent.formatted⟩
    · intro entry member
      obtain ⟨rt, found⟩ := consistent.known entry member
      dsimp only
      rw [lookup_update, found]
      split
      · exact ⟨_, rfl⟩
      · exact ⟨_, rfl⟩
    · intro other rt found
      dsimp only at found
      rw [lookup_update] at found
      split at found
      · obtain ⟨old, present, rfl⟩ := Option.map_eq_some_iff.mp found
        exact consistent.runtime other old present
      · exact consistent.runtime other rt found
  have written : PoolManager.writePoolStateRoot env
      { mgr with disks := update mgr.disks id fun rt => { rt with state := .draining } } fs =
        (.ok (), after) := Prod.ext result last
  obtain ⟨stays, published, frame⟩ := write_state_root_ok env _ fs after kept roomy written
  exact ⟨rfl, stays, published, frame⟩

theorem awaits_kept (config : PoolConfig) (calls : List Call) (fs after : FileSystem)
    (awaits : Awaits config calls fs)
    (frame : ∀ other, (∀ disk ∈ config.disks, disk.path ≠ other) →
      after.files other = fs.files other) : Awaits config calls after := by
  refine ⟨awaits.distinct, ?_⟩
  intro path member
  rw [frame path]
  · exact awaits.absent path member
  · intro disk listed same
    exact (List.nodup_append.mp awaits.distinct).2.2 disk.path
      (List.mem_map.mpr ⟨disk, listed, rfl⟩) path member same

/-- One call: the pool stays one that can be opened again, and the files of the disks to
come stay absent. -/
theorem perform_ok (env : Env) (call : Call) (rest : List Call) (mgr next : PoolManager)
    (fs after : FileSystem) (consistent : Consistent env mgr fs)
    (awaits : Awaits mgr.config (call :: rest) fs)
    (roomy : RoomyThroughout mgr.config (call :: rest))
    (ok : call.perform env mgr fs = some (next, after)) :
    Consistent env next after ∧ Published env next after ∧
      Awaits next.config rest after ∧ RoomyThroughout next.config rest := by
  cases call with
  | addDisk entry =>
      simp only [Call.perform] at ok
      split at ok
      · next id added last done =>
          cases ok
          have regroup : (mgr.config.disks ++ [entry]).map DiskConfigEntry.path ++ addedPaths rest =
              mgr.config.disks.map DiskConfigEntry.path ++ addedPaths (.addDisk entry :: rest) := by
            rw [List.map_append, List.append_assoc]
            rfl
          have later : (mgr.config.disks.map DiskConfigEntry.path ++
              addedPaths (.addDisk entry :: rest)).Nodup := awaits.distinct
          have freshPath : ∀ other ∈ mgr.config.disks, other.path ≠ entry.path := by
            intro other member
            exact (List.nodup_append.mp later).2.2 other.path
              (List.mem_map.mpr ⟨other, member, rfl⟩) entry.path List.mem_cons_self
          obtain ⟨config, stays, published, frame⟩ := add_disk_ok env mgr next entry id fs after
            consistent (awaits.absent entry.path List.mem_cons_self) freshPath
            (roomy_now _ rest roomy.2) done
          have comes : Awaits next.config rest fs := by
            rw [config]
            refine ⟨by rw [regroup]; exact later, ?_⟩
            intro path member
            exact awaits.absent path (List.mem_cons_of_mem _ member)
          refine ⟨stays, published, awaits_kept next.config rest fs after comes frame, ?_⟩
          rw [config]
          exact roomy.2
      · cases ok
  | removeDisk id =>
      simp only [Call.perform] at ok
      split at ok
      · next drained last done =>
          cases ok
          obtain ⟨config, stays, published, frame⟩ :=
            remove_disk_ok env mgr next id fs after consistent roomy.1 done
          have comes : Awaits next.config rest fs := by
            rw [config]
            exact ⟨awaits.distinct, awaits.absent⟩
          refine ⟨stays, published, awaits_kept next.config rest fs after comes frame, ?_⟩
          rw [config]
          exact roomy.2
      · cases ok
  | commit =>
      simp only [Call.perform] at ok
      split at ok
      · next last done =>
          cases ok
          obtain ⟨stays, published, frame⟩ :=
            write_state_root_ok env mgr fs after consistent roomy.1 done
          exact ⟨stays, published,
            awaits_kept mgr.config rest fs after ⟨awaits.distinct, awaits.absent⟩ frame, roomy.2⟩
      · cases ok

private theorem perform_all_ok (env : Env) (calls : List Call) :
    ∀ (mgr last : PoolManager) (fs after : FileSystem), Consistent env mgr fs →
      Published env mgr fs → Awaits mgr.config calls fs → RoomyThroughout mgr.config calls →
      performAll env calls mgr fs = some (last, after) →
      Consistent env last after ∧ Published env last after := by
  induction calls with
  | nil =>
      intro mgr last fs after consistent published _ _ ok
      cases ok
      exact ⟨consistent, published⟩
  | cons call rest ih =>
      intro mgr last fs after consistent _ awaits roomy ok
      rw [performAll] at ok
      split at ok
      · next next middle done =>
          obtain ⟨stays, published, comes, still⟩ :=
            perform_ok env call rest mgr next fs middle consistent awaits roomy done
          exact ih next last middle after stays published comes still ok
      · cases ok

/-- A pool that was created and changed without an error, its state block always written to
a roomy disk, is opened again with the same status. -/
theorem pool_reopens (env : Env) (config : PoolConfig) (calls : List Call)
    (created mgr : PoolManager) (fs formatted last : FileSystem)
    (own : OwnFiles config calls fs) (roomy : RoomyThroughout config calls)
    (made : PoolManager.create env config fs = (.ok created, formatted))
    (performed : performAll env calls created formatted = some (mgr, last)) :
    ∃ reopened after, PoolManager.open env mgr.config last = (.ok reopened, after) ∧
      reopened.status = mgr.status := by
  have paths := (List.nodup_append.mp own.distinct).1
  obtain ⟨same, consistent, published, frame⟩ := create_ok env config created fs formatted paths
    own.missing (roomy_now config calls roomy) made
  have awaits : Awaits created.config calls formatted := by
    rw [same]
    exact awaits_kept config calls fs formatted own.toAwaits frame
  obtain ⟨stays, stillPublished⟩ := perform_all_ok env calls created mgr formatted last consistent
    published awaits (by rw [same]; exact roomy) performed
  obtain ⟨reopened, after, opened, -, status⟩ := open_published env mgr last stays stillPublished
  exact ⟨reopened, after, opened, status⟩

end Mimisbrunnr.Pool
