import Mimisbrunnr.Disk.DiskRuns
import Mimisbrunnr.Disk.FreshZone
import Mimisbrunnr.Disk.Storability

/-!
# Restarting behind a crash

An engine that never committed has on its disk the superblock and the zeros of the
format and, in its log, what was appended since. Whatever happens within the log
area, the pool opens, the zone loads as an empty one, and the engine that comes up
is what the entries of the log make of an empty engine.
-/

namespace Mimisbrunnr

set_option autoImplicit false

open Mimisbrunnr.Lib.ByteStore
open Mimisbrunnr.Lib.FiniteMap
open Mimisbrunnr.Lib.Layout
open Mimisbrunnr.Pool
open Mimisbrunnr.Storage
open Mimisbrunnr.Types
open Mimisbrunnr.Wal

namespace Pool

/-- The superblock on the file of a disk is the one of the disk. -/
def OwnSuperblock (env : Env) (nodeId : NodeId) (fs : FileSystem) (entry : DiskConfigEntry) : Prop :=
  ∃ sb, Superblock.open env.crc (fs.device (fileDevice fs entry.path)) = .ok sb ∧
    sb.nodeId = nodeId ∧ sb.diskId = entry.id

theorem own_superblock_congr {env : Env} {nodeId : NodeId} {fs after : FileSystem}
    {entry : DiskConfigEntry} (same : after.file entry.path = fs.file entry.path)
    (own : OwnSuperblock env nodeId fs entry) : OwnSuperblock env nodeId after entry := by
  obtain ⟨sb, opened, node, disk⟩ := own
  have place : fileDevice after entry.path = fileDevice fs entry.path := by
    unfold fileDevice
    rw [same]
  refine ⟨sb, ?_, node, disk⟩
  rw [← opened, place]
  apply open_superblock_congr
  · exact congrArg File.bytes same
  · rfl

private theorem open_disk_own (env : Env) (fs : FileSystem) (entry : DiskConfigEntry)
    (nodeId : NodeId)
    (own : OwnSuperblock env nodeId fs entry) :
    ∃ sb after, openDisk env fs entry nodeId = (.ok (fileDevice fs entry.path, sb), after) ∧
      SameFiles fs after := by
  obtain ⟨sb, opened, node, disk⟩ := own
  obtain ⟨handle, same⟩ := open_device_found fs entry.path
  refine ⟨sb, (fs.openDevice entry.path 0).2, ?_, same⟩
  unfold openDisk
  dsimp only
  rw [handle, same_files_device same, opened]
  dsimp only
  rw [if_neg fun differs => differs node, if_neg fun differs => differs disk]

private theorem open_all_own (env : Env) (nodeId : NodeId) (entries : List DiskConfigEntry) :
    ∀ (disks : FMap DiskId DiskRuntime) (fs : FileSystem),
      (∀ entry ∈ entries, OwnSuperblock env nodeId fs entry) →
      ∃ final after, openAll env nodeId false entries disks fs = (.ok final, after) := by
  induction entries with
  | nil => exact fun disks fs _ => ⟨disks, fs, rfl⟩
  | cons entry rest ih =>
      intro disks fs own
      obtain ⟨sb, middle, opened, same⟩ := open_disk_own env fs entry nodeId
        (own entry List.mem_cons_self)
      rw [openAll, openOrFormatDisk, if_neg (by simp), opened]
      apply ih
      intro other member
      exact own_superblock_congr (same.files _) (own other (List.mem_cons_of_mem _ member))

/-- The pool opens when every disk is its own and the primary one holds a block of states. -/
theorem open_succeeds (env : Env) (config : PoolConfig) (fs : FileSystem)
    (primary : DiskConfigEntry) (psr : PoolStateRoot)
    (ids : (config.disks.map DiskConfigEntry.id).Nodup)
    (own : ∀ entry ∈ config.disks, OwnSuperblock env config.nodeId fs entry)
    (least : config.primary = some primary)
    (root : PoolStateRoot.read env.crc (fs.device (fileDevice fs primary.path))
      poolStateRootOffset = .ok psr)
    (states : ∀ disks, ∃ applied, PoolManager.applyDescriptors psr.inlineIter disks = .ok applied) :
    ∃ pool after, PoolManager.open env config fs = (.ok pool, after) := by
  have member := primary_mem config primary least
  obtain ⟨disks, after, opened⟩ := open_all_own env config.nodeId config.disks ∅ fs own
  obtain ⟨same, all, -⟩ := open_all_found env config.nodeId config.disks ids ∅ disks fs after opened
  obtain ⟨-, rt, found, device⟩ := all primary member
  obtain ⟨applied, described⟩ := states disks
  refine ⟨{ config := config, disks := applied }, after, ?_⟩
  rw [PoolManager.open, if_neg (List.ne_nil_of_mem member), opened]
  dsimp only
  rw [least]
  dsimp only
  rw [found]
  dsimp only
  rw [device, same_files_device same, root]
  dsimp only
  rw [described]

end Pool

/-- Entries that record the operations. -/
def Records (codec : WalCodec) (entries : List WalEntry) (ops : List OpKind) : Prop :=
  List.Forall₂
    (fun entry op => entry.header.opKind = (projectOp op).kind.toU8 ∧
      codec.encode (projectOp op) = .ok entry.payload) entries ops

private theorem project_op_no_checkpoint (op : OpKind) : (projectOp op).kind ≠ .checkpoint := by
  cases op <;> exact nofun

namespace MountedEngine

/-- Entries numbered without gaps and all behind the last applied one give what the operations
give. -/
theorem replay_entries_core (env : LifecycleEnv) (entries : List WalEntry) (ops : List OpKind)
    (records : Records env.codec entries ops) :
    ∀ (e : Engine) (first : Nat), e.lastAppliedLsn < first →
      (∀ index entry, entries[index]? = some entry → entry.header.lsn.toNat = first + index) →
      ∃ replayed, replayEntries env (entries.map .ok) e = .ok replayed ∧
        replayed.core = ops.foldl (Core.replay (e.setting env.toEnv)) e.core ∧
        replayed.setting env.toEnv = e.setting env.toEnv ∧
        replayed.lastAppliedLsn < first + ops.length ∧ Engine.Refiled e replayed := by
  induction records with
  | nil =>
      intro e first behind _
      exact ⟨e, rfl, rfl, rfl, behind, Engine.refiled_refl e⟩
  | @cons entry op entries ops recorded _ ih =>
      intro e first behind numbered
      have number : entry.header.lsn.toNat = first := numbered 0 entry rfl
      have kind := WalOpKind.from_to_u8 (projectOp op).kind
      rw [← recorded.1] at kind
      have decoded := env.codec.decode_encode (projectOp op) entry.payload recorded.2
      let next : Engine :=
        { e.replayOp env.toEnv (projectOp op) with
          lastAppliedLsn := max e.lastAppliedLsn entry.header.lsn.toNat }
      have once : e.replayWalOp env.toEnv env.codec (projectOp op).kind entry.payload
          entry.header.lsn.toNat = (.ok (), next) := by
        unfold Engine.replayWalOp
        rw [if_neg (by omega), decoded]
      have core : next.core = e.core.replay (e.setting env.toEnv) op :=
        Engine.core_replay env.toEnv e op
      have setting : next.setting env.toEnv = e.setting env.toEnv :=
        Engine.setting_replay env.toEnv e op
      have refiled : Engine.Refiled e next :=
        have effect := Engine.refiled_replay env.toEnv e (projectOp op)
        ⟨effect.node, effect.keyed, effect.located, effect.subscriptions⟩
      have applied : next.lastAppliedLsn < first + 1 := by
        have value : next.lastAppliedLsn = max e.lastAppliedLsn entry.header.lsn.toNat := rfl
        omega
      obtain ⟨replayed, done, coreAll, settingAll, appliedAll, refiledAll⟩ := ih next (first + 1)
        applied (by
          intro index later found
          have here := numbered (index + 1) later found
          omega)
      refine ⟨replayed, ?_, ?_, settingAll.trans setting, ?_, refiled.trans refiledAll⟩
      · rw [List.map_cons, replayEntries, kind]
        dsimp only
        rw [if_neg (project_op_no_checkpoint op), once]
        exact done
      · rw [coreAll, setting, core, List.foldl_cons]
      · rw [List.length_cons]
        omega

/-- Nothing has changed but the log area. -/
def OnlyLog (before after : Device) : Prop :=
  after.capacity = before.capacity ∧
    ∀ address, address < fmtWalOffset.toNat ∨ zoneStart ≤ address →
      after.bytes address = before.bytes address

theorem only_log_of_outside (wal : Wal) (before after : Device)
    (base : wal.base = fmtWalOffset.toNat) (size : wal.size = fmtWalSize.toNat)
    (kept : wal.KeepsOutside before after) : OnlyLog before after := by
  refine ⟨kept.1, ?_⟩
  intro address outside
  have ends : fmtWalOffset.toNat + fmtWalSize.toNat = zoneStart := rfl
  apply kept.2
  rw [base, size]
  omega

theorem only_log_read {before after : Device} (only : OnlyLog before after) (offset length : Nat)
    (apart : offset + length ≤ fmtWalOffset.toNat ∨ zoneStart ≤ offset) :
    after.readAt offset length = before.readAt offset length := by
  have same : read after.bytes offset length = read before.bytes offset length := by
    apply read_congr
    intro address above below
    exact only.2 address (by omega)
  rw [Device.readAt, Device.readAt, only.1, same]

/-- A writable engine whose superblock is on its disk, and whose pool can be opened. -/
structure Resident (env : LifecycleEnv) (m : MountedEngine) : Prop where
  ids : (m.config.disks.map DiskConfigEntry.id).Nodup
  paths : (m.config.disks.map DiskConfigEntry.path).Nodup
  primary : ∃ primary, m.config.primary = some primary ∧ m.handle.path = primary.path ∧
    m.superblock.diskId = primary.id
  node : m.superblock.nodeId = m.config.nodeId
  others : ∀ entry ∈ m.config.disks, entry.path ≠ m.handle.path →
    OwnSuperblock env.pool m.config.nodeId m.files entry
  whole : fileDevice m.files m.handle.path = m.handle
  capacity : m.device.capacity = m.handle.capacity
  room : blobStart + 8 ≤ m.handle.capacity - blockSize
  bounded : m.handle.capacity < 2 ^ 64
  laid : LaidOut m.superblock
  stored : Superblock.Stored env.crc m.superblock m.device
  states : ∃ psr : PoolStateRoot, psr.header = PoolStateRoot.newBlank.header ∧
    m.device.readAt poolStateRootOffset blockSize =
      .ok (sealed env.crc PoolStateRoot.body psr) ∧
    ∀ disks, ∃ applied, PoolManager.applyDescriptors psr.inlineIter disks = .ok applied
  writable : m.readOnly = false

theorem stored_only_log {crc : Crc} {sb : Superblock} {before after : Device}
    (stored : Superblock.Stored crc sb before) (only : OnlyLog before after)
    (room : blobStart + 8 ≤ before.capacity - blockSize) : Superblock.Stored crc sb after := by
  have block : blockSize = 4096 := rfl
  have start : blobStart = 4259840 := rfl
  have zone : zoneStart = 1114112 := rfl
  have wal : fmtWalOffset.toNat = 65536 := rfl
  refine ⟨by rw [only.1]; exact stored.room, stored.magic, stored.root, ?_⟩
  intro offset member
  rw [only.1] at member
  have copy := stored.copies offset member
  rw [← copy]
  apply only_log_read only
  simp only [Superblock.copyOffsets, List.mem_cons, List.not_mem_nil, or_false] at member
  omega

/-- Opening a pool that can be opened mounts the engine on the file of the primary disk. -/
theorem open_eq_mount (env : LifecycleEnv) (fuel : Nat) (config : PoolConfig) (fs : FileSystem)
    (primary : DiskConfigEntry) (ids : (config.disks.map DiskConfigEntry.id).Nodup)
    (least : config.primary = some primary)
    (opens : ∃ pool after, PoolManager.open env.pool config fs = (.ok pool, after)) :
    ∃ after, SameFiles fs after ∧
      «open» env fuel config fs = mount env fuel config (fileDevice fs primary.path) after := by
  obtain ⟨pool, after, opened⟩ := opens
  obtain ⟨same, -, disks⟩ := open_ok env.pool config pool fs after ids opened
  obtain ⟨rt, found, device⟩ := disks primary (primary_mem config primary least)
  refine ⟨after, same, ?_⟩
  rw [«open», opened]
  dsimp only
  rw [primaryRuntime, least]
  dsimp only
  rw [found]
  dsimp only
  rw [device]

section

variable {env : LifecycleEnv} {m : MountedEngine} {left : Device}

theorem Resident.file (resident : Resident env m) :
    (m.files.stored m.handle left).file m.handle.path =
      { bytes := left.bytes, length := m.handle.capacity } := by
  have length := congrArg FileBlockDevice.capacity resident.whole
  rw [FileSystem.file_stored, if_pos rfl]
  exact congrArg (File.mk left.bytes) length

theorem Resident.handle (resident : Resident env m) :
    fileDevice (m.files.stored m.handle left) m.handle.path = m.handle := by
  rw [fileDevice, resident.file]
  exact congrArg (fun given : FileBlockDevice =>
    { m.handle with readOnly := given.readOnly }) resident.whole

theorem Resident.device (resident : Resident env m) (only : OnlyLog m.device left) :
    ((m.files.stored m.handle left).device m.handle).bytes = left.bytes ∧
      ((m.files.stored m.handle left).device m.handle).capacity = left.capacity := by
  rw [FileSystem.device, resident.file]
  exact ⟨rfl, resident.capacity.symm.trans only.1.symm⟩

theorem Resident.opens (resident : Resident env m) (only : OnlyLog m.device left) :
    ∃ pool after, PoolManager.open env.pool m.config (m.files.stored m.handle left) =
      (.ok pool, after) := by
  obtain ⟨primary, least, path, disk⟩ := resident.primary
  obtain ⟨psr, header, block, states⟩ := resident.states
  obtain ⟨bytes, capacity⟩ := resident.device only
  have room := resident.room
  rw [← resident.capacity] at room
  have stored := stored_only_log resident.stored only room
  apply open_succeeds env.pool m.config _ primary psr resident.ids _ least _ states
  · intro entry member
    by_cases here : entry.path = m.handle.path
    · have same : entry = primary := List.inj_on_of_nodup_map resident.paths member
        (primary_mem m.config primary least) (here.trans path)
      subst same
      refine ⟨m.superblock, ?_, resident.node, disk⟩
      rw [← path, resident.handle, open_superblock_congr env.pool.crc left _ bytes capacity]
      exact Superblock.open_stored env.crc m.superblock left stored
    · apply own_superblock_congr _ (resident.others entry member here)
      rw [FileSystem.file_stored, if_neg here]
  · rw [← path, resident.handle, read_root_congr env.pool.crc left _ bytes capacity]
    apply PoolStateRoot.read_stored env.crc psr left poolStateRootOffset header
    rw [only_log_read only poolStateRootOffset blockSize (by decide)]
    exact block

/-- Only the log of the disk has changed. -/
theorem Resident.kept {after : MountedEngine} (resident : Resident env m)
    (config : after.config = m.config) (handle : after.handle = m.handle)
    (superblock : after.superblock = m.superblock) (writable : after.readOnly = false)
    (others : ∀ path, path ≠ m.handle.path → after.files.file path = m.files.file path)
    (length : (after.files.file m.handle.path).length = (m.files.file m.handle.path).length)
    (only : OnlyLog m.device after.device) : Resident env after := by
  have room := resident.room
  rw [← resident.capacity] at room
  obtain ⟨psr, header, block, states⟩ := resident.states
  constructor
  · rw [config]
    exact resident.ids
  · rw [config]
    exact resident.paths
  · rw [config, handle, superblock]
    exact resident.primary
  · rw [superblock, config]
    exact resident.node
  · rw [config, handle]
    intro entry member elsewhere
    exact own_superblock_congr (others entry.path elsewhere) (resident.others entry member elsewhere)
  · rw [handle, fileDevice, length]
    exact resident.whole
  · rw [handle, only.1]
    exact resident.capacity
  · rw [handle]
    exact resident.room
  · rw [handle]
    exact resident.bounded
  · rw [superblock]
    exact resident.laid
  · rw [superblock]
    exact stored_only_log resident.stored only room
  · refine ⟨psr, header, ?_, states⟩
    rw [only_log_read only poolStateRootOffset blockSize (by decide)]
    exact block
  · exact writable

end

/-- The objects of a saved engine, and the last entry of the log that is in them. -/
structure Saved where
  setting : Setting
  core : Core
  lsn : Nat

def Saved.replayed (saved : Saved) (ops : List OpKind) : Core :=
  ops.foldl (Core.replay saved.setting) saved.core

/-- A disk without a commit. -/
def Saved.new (env : LifecycleEnv) (nodeId : NodeId) : Saved :=
  { setting := (Engine.new nodeId).setting env.toEnv
    core := (Engine.new nodeId).core
    lsn := 0 }

structure LoadedAs (env : LifecycleEnv) (nodeId : NodeId) (saved : Saved) (e : Engine) : Prop where
  core : e.core = saved.core
  setting : e.setting env.toEnv = saved.setting
  applied : e.lastAppliedLsn ≤ saved.lsn
  filed : e.Filed nodeId

/-- Behind every superblock of the layout the zone of the disk loads as the saved engine. -/
def ZoneLoads (env : LifecycleEnv) (fuel : Nat) (nodeId : NodeId) (d : Device) (saved : Saved) :
    Prop :=
  ∀ config handle files sb wal, config.nodeId = nodeId → LaidOut sb →
    AgreesOn zoneStart fmtIndexZoneSize.toNat d (files.device handle) →
    ∃ side blobs engine,
      (blank config handle files sb wal).loadIndexState env.toZoneEnv fuel =
        some (.ok (), { blank config handle files sb wal with side, blobs, engine }) ∧
      LoadedAs env nodeId saved engine

section

variable {env : LifecycleEnv} {m : MountedEngine} {left : Device}

theorem ZoneLoads.congr {fuel : Nat} {nodeId : NodeId} {d : Device} {saved : Saved}
    (loads : ZoneLoads env fuel nodeId d saved)
    (agrees : AgreesOn zoneStart fmtIndexZoneSize.toNat d left) :
    ZoneLoads env fuel nodeId left saved :=
  fun config handle files sb wal node laid here =>
    loads config handle files sb wal node laid (agrees_trans agrees here)

theorem only_log_agrees {d : Device} (only : OnlyLog d left) :
    AgreesOn zoneStart fmtIndexZoneSize.toNat d left :=
  ⟨only.1, fun address above _ => only.2 address (Or.inr above)⟩

theorem zone_loads_zeros (fuel : Nat) (nodeId : NodeId) (d : Device)
    (zero : ZeroBetween d.bytes zoneStart (blobStart + 8)) (room : blobStart + 8 ≤ d.capacity) :
    ZoneLoads env fuel nodeId d (Saved.new env nodeId) := by
  intro config handle files sb wal node laid agrees
  have inside : blobStart + 8 ≤ zoneStart + fmtIndexZoneSize.toNat := by decide
  have zeros : ZeroBetween (files.device handle).bytes zoneStart (blobStart + 8) := by
    apply zero_between_congr zero
    intro address above below
    exact agrees.inside address above (by omega)
  have wide : handle.capacity = d.capacity := agrees.capacity
  refine ⟨_, _, _, load_index_state_zeros env fuel config handle files sb wal laid zeros
    (by omega), ?_⟩
  subst node
  exact ⟨rfl, rfl, Nat.le_refl 0, Engine.filed_new config.nodeId⟩

/-- What is opened on a disk: the log is found as it was left, and its entries are replayed on
what the zone loads as. -/
structure Restarted (env : LifecycleEnv) (m : MountedEngine) (left : Device) (wal : Wal)
    (saved : Saved) (ops : List OpKind) (opened : MountedEngine) : Prop where
  disk : Resident env opened
  config : opened.config = m.config
  wal : opened.wal = wal
  device : opened.device = (m.files.stored m.handle left).device m.handle
  bytes : opened.device.bytes = left.bytes
  capacity : opened.device.capacity = left.capacity
  setting : opened.engine.setting env.toEnv = saved.setting
  core : opened.engine.core = saved.replayed ops
  applied : opened.engine.lastAppliedLsn ≤ saved.lsn + ops.length
  filed : opened.engine.Filed m.config.nodeId

theorem Resident.restart (resident : Resident env m) (fuel : Nat) (only : OnlyLog m.device left)
    (saved : Saved) (loads : ZoneLoads env fuel m.config.nodeId m.device saved)
    (wal : Wal) (entries : List WalEntry) (ops : List OpKind)
    (ring : Wal.Ring env.crc wal left entries) (base : wal.base = fmtWalOffset.toNat)
    (size : wal.size = fmtWalSize.toNat) (writable : wal.readOnly = false)
    (next : wal.header.nextLsn.toNat = saved.lsn + entries.length + 1)
    (records : Records env.codec entries ops) :
    ∃ opened, «open» env fuel m.config (m.files.stored m.handle left) = some (.ok opened) ∧
      Restarted env m left wal saved ops opened := by
  obtain ⟨primary, least, path, -⟩ := resident.primary
  obtain ⟨after, same, mounts⟩ := open_eq_mount env fuel m.config _ primary resident.ids least
    (resident.opens only)
  rw [← path, resident.handle] at mounts
  obtain ⟨bytes, capacity⟩ := resident.device only
  have device := same_files_device same m.handle
  rw [← device] at bytes capacity
  have room := resident.room
  rw [← resident.capacity] at room
  have rooted : Superblock.open env.crc (after.device m.handle) = .ok m.superblock := by
    rw [open_superblock_congr env.crc left _ bytes capacity]
    exact Superblock.open_stored env.crc m.superblock left
      (stored_only_log resident.stored only room)
  have ringHere := Wal.ring_bytes env.crc wal left (after.device m.handle) entries ring capacity
    bytes
  have ringed := Wal.open_ring env.crc wal _ entries ringHere writable
  rw [base, size, ← resident.laid.walOffset, ← resident.laid.walSize] at ringed
  have agrees : AgreesOn zoneStart fmtIndexZoneSize.toNat m.device (after.device m.handle) := by
    apply agrees_trans (only_log_agrees only)
    refine ⟨capacity, fun address _ _ => ?_⟩
    rw [bytes]
  obtain ⟨side, blobs, engine, loaded, as⟩ := loads m.config m.handle after m.superblock wal rfl
    resident.laid agrees
  -- the entries are numbered behind the last one that the zone contains
  have numbered : ∀ index entry, entries[index]? = some entry →
      entry.header.lsn.toNat = saved.lsn + 1 + index := by
    intro index entry found
    have number := ring.log.numbered index entry found
    omega
  have start : Engine.saturatingSucc engine.lastAppliedLsn ≤ saved.lsn + 1 :=
    Nat.le_trans (Nat.min_le_left _ _) (Nat.succ_le_succ as.applied)
  have all : (entries.filter fun entry =>
      Engine.saturatingSucc engine.lastAppliedLsn ≤ entry.header.lsn.toNat) = entries := by
    apply List.filter_eq_self.mpr
    intro entry member
    obtain ⟨index, found⟩ := List.mem_iff_getElem?.mp member
    have number := numbered index entry found
    simp only [decide_eq_true_eq]
    omega
  have listed : wal.iterFrom env.crc (after.device m.handle)
      (Engine.saturatingSucc engine.lastAppliedLsn) = entries.map .ok := by
    rw [Wal.iter_from_log env.crc wal _ entries ringHere.log, all]
  obtain ⟨replayed, done, core, setting, applied, refiled⟩ :=
    replay_entries_core env entries ops records engine (saved.lsn + 1)
      (Nat.lt_succ_of_le as.applied) numbered
  let mounted : MountedEngine :=
    { blank m.config m.handle after m.superblock wal with side, blobs, engine }
  have replay : mounted.replayWal env = .ok { mounted with engine := replayed } := by
    change (replayEntries env (wal.iterFrom env.crc (after.device m.handle)
      (Engine.saturatingSucc engine.lastAppliedLsn)) engine).map _ = _
    rw [listed, done]
    rfl
  have opened : «open» env fuel m.config (m.files.stored m.handle left) =
      some (.ok { mounted with engine := replayed }) := by
    rw [mounts]
    unfold mount
    dsimp only
    rw [rooted]
    dsimp only
    rw [ringed]
    dsimp only
    rw [loaded]
    dsimp only
    rw [replay]
  refine ⟨_, opened, ?_, rfl, rfl, device, bytes, capacity, setting.trans as.setting, ?_, ?_,
    as.filed.refiled refiled⟩
  · apply resident.kept
    · rfl
    · rfl
    · rfl
    · rfl
    · intro other elsewhere
      change after.file other = _
      rw [same.files, FileSystem.file_stored, if_neg elsewhere]
    · change (after.file m.handle.path).length = _
      rw [same.files, resident.file]
      exact (congrArg FileBlockDevice.capacity resident.whole).symm
    · refine ⟨capacity.trans only.1, ?_⟩
      intro address outside
      change (after.device m.handle).bytes address = _
      rw [bytes]
      exact only.2 address outside
  · change replayed.core = _
    rw [core, as.core, as.setting, Saved.replayed]
  · change replayed.lastAppliedLsn ≤ _
    omega

end

/-- An engine whose disk holds, besides its log, only what the format has put there. -/
structure Uncommitted (env : LifecycleEnv) (m : MountedEngine) : Prop extends Resident env m where
  zero : ZeroBetween m.device.bytes zoneStart (blobStart + 8)

end MountedEngine

end Mimisbrunnr
