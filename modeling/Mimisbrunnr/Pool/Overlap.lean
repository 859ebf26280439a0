import Mimisbrunnr.Pool.Lifecycle

/-!
# Pools without errors, and a state block on a superblock copy

On files whose writes do not fail a pool is created whenever its disks have room.
On a primary disk that ends less than a block behind the pool state block, the
last superblock copy is the end of that block and the end of the old copy. The
paths in the descriptors are free text, and the checksum is linear: with the
paths below, the mixture is a superblock of another node, newer than the true
one.
-/

namespace Mimisbrunnr.Pool

set_option autoImplicit false

open Mimisbrunnr.Lib.ByteStore
open Mimisbrunnr.Lib.FiniteMap
open Mimisbrunnr.Lib.Layout
open Mimisbrunnr.Lib.MachineOrder
open Mimisbrunnr.Storage
open Mimisbrunnr.Types

def Sound (fs : FileSystem) (path : Path) : Prop := ∀ fault ∈ fs.faults path, fault = none

theorem sound_device (fs : FileSystem) (handle : FileBlockDevice)
    (writable : handle.readOnly = false) (sound : Sound fs handle.path) :
    (fs.device handle).Healthy := ⟨writable, sound⟩

private theorem format_disk_sound (env : Env) (fs : FileSystem) (entry : DiskConfigEntry)
    (nodeId : NodeId) (absent : fs.files entry.path = none) (sound : Sound fs entry.path)
    (room : blockSize * 3 ≤ entry.capacityBytes.toNat) :
    ∃ after, formatDisk env fs entry nodeId =
        (.ok (handleOf entry, blankSuperblock env nodeId entry), after) ∧
      Sound after entry.path ∧ ∀ other, other ≠ entry.path → after.faults other = fs.faults other := by
  obtain ⟨opened, created, elsewhere⟩ :=
    open_absent fs entry.path entry.capacityBytes.toNat absent
  have faults : (fs.openDevice entry.path entry.capacityBytes.toNat).2.faults = fs.faults := by
    unfold FileSystem.openDevice
    split
    · rfl
    · rfl
  rcases device : fs.openDevice entry.path entry.capacityBytes.toNat with ⟨given, middle⟩
  rw [device] at opened created elsewhere faults
  dsimp only at opened created elsewhere faults
  have handle : given = handleOf entry := opened
  subst handle
  have healthy : (middle.device (handleOf entry)).Healthy := by
    apply sound_device _ _ rfl
    rw [Sound, faults]
    exact sound
  obtain ⟨d, formatted, still⟩ := Superblock.format_healthy env.crc (formatOf nodeId entry)
    (middle.device (handleOf entry)) healthy room
  have blank : Superblock.newBlank env.crc (formatOf nodeId entry)
      (UInt64.ofNat (middle.device (handleOf entry)).capacity) =
        blankSuperblock env nodeId entry := by
    have width : (middle.device (handleOf entry)).capacity = entry.capacityBytes.toNat := rfl
    rw [width, UInt64.ofNat_toNat]
    rfl
  rw [blank] at formatted
  obtain ⟨-, stored, capacity, -⟩ := Superblock.format_ok env.crc _ _ _ d formatted
  have wrote : middle.on (handleOf entry) (Superblock.format env.crc (formatOf nodeId entry)) =
      (.ok (blankSuperblock env nodeId entry), middle.stored (handleOf entry) d) := by
    rw [FileSystem.on, formatted]
  have same : (middle.stored (handleOf entry) d).device (handleOf entry) =
      { d with readOnly := false } := by
    rw [FileSystem.device, FileSystem.file_stored, if_pos rfl]
    simp only [FileSystem.stored, Function.update_self, capacity]
    rfl
  have found : Superblock.open env.crc ((middle.stored (handleOf entry) d).device (handleOf entry)) =
      .ok (blankSuperblock env nodeId entry) := by
    rw [same]
    exact Superblock.open_stored env.crc _ _ ⟨stored.room, stored.magic, stored.root, stored.copies⟩
  refine ⟨middle.stored (handleOf entry) d, ?_, ?_, ?_⟩
  · simp only [formatDisk, device, wrote, found]
  · intro fault member
    rw [FileSystem.stored] at member
    simp only [handleOf, Function.update_self] at member
    exact still.sound fault member
  · intro other different
    rw [← faults]
    have elsewhere : other ≠ (handleOf entry).path := different
    simp [FileSystem.stored, elsewhere]

def blankRuntime (env : Env) (nodeId : NodeId) (entry : DiskConfigEntry) : DiskRuntime :=
  { config := entry
    state := .online
    usedBytes := 0
    device := handleOf entry
    superblock := blankSuperblock env nodeId entry }

def blankDisks (env : Env) (nodeId : NodeId) (entries : List DiskConfigEntry)
    (disks : FMap DiskId DiskRuntime) : FMap DiskId DiskRuntime :=
  entries.foldl (fun disks entry => disks.insert entry.id (blankRuntime env nodeId entry)) disks

/-- The last block of a disk that was formatted is its superblock. -/
def LastCopy (env : Env) (nodeId : NodeId) (entry : DiskConfigEntry) (file : File) : Prop :=
  read file.bytes (entry.capacityBytes.toNat - blockSize) blockSize =
    sealed env.crc Superblock.body (blankSuperblock env nodeId entry)

private theorem format_all_sound (env : Env) (nodeId : NodeId) (entries : List DiskConfigEntry)
    (paths : (entries.map DiskConfigEntry.path).Nodup)
    (room : ∀ entry ∈ entries, blockSize * 3 ≤ entry.capacityBytes.toNat) :
    ∀ (disks : FMap DiskId DiskRuntime) (fs : FileSystem),
      (∀ entry ∈ entries, fs.files entry.path = none ∧ Sound fs entry.path) →
      ∃ after, openAll env nodeId true entries disks fs =
          (.ok (blankDisks env nodeId entries disks), after) ∧
        (∀ entry ∈ entries, Formatted env nodeId entry (after.file entry.path) ∧
          LastCopy env nodeId entry (after.file entry.path) ∧ Sound after entry.path) ∧
        ∀ other, (∀ entry ∈ entries, entry.path ≠ other) →
          after.files other = fs.files other ∧ after.faults other = fs.faults other := by
  induction entries with
  | nil =>
      intro disks fs _
      exact ⟨fs, rfl, by simp, fun _ _ => ⟨rfl, rfl⟩⟩
  | cons entry rest ih =>
      intro disks fs fine
      rw [List.map_cons, List.nodup_cons] at paths
      have freshPath : ∀ other ∈ rest, other.path ≠ entry.path := by
        intro other member same
        exact paths.1 (List.mem_map.mpr ⟨other, member, same⟩)
      obtain ⟨absent, sound⟩ := fine entry List.mem_cons_self
      obtain ⟨middle, done, still, faults⟩ :=
        format_disk_sound env fs entry nodeId absent sound (room entry List.mem_cons_self)
      obtain ⟨-, formatted, files, last⟩ :=
        format_disk_ok env fs middle entry nodeId _ _ absent done
      obtain ⟨after, all, every, outside⟩ := ih paths.2
        (fun other member => room other (List.mem_cons_of_mem _ member))
        (disks.insert entry.id (blankRuntime env nodeId entry)) middle (by
          intro other member
          obtain ⟨none, fineOther⟩ := fine other (List.mem_cons_of_mem _ member)
          have different := freshPath other member
          rw [files other.path different, Sound, faults other.path different]
          exact ⟨none, fineOther⟩)
      refine ⟨after, ?_, ?_, ?_⟩
      · rw [openAll, openOrFormatDisk, if_pos rfl, done]
        exact all
      · intro other member
        cases List.mem_cons.mp member with
        | inl same =>
            subst same
            obtain ⟨sameFile, sameFaults⟩ := outside other.path freshPath
            have kept : after.file other.path = middle.file other.path := by
              rw [FileSystem.file, sameFile]
              rfl
            rw [kept, Sound, sameFaults]
            exact ⟨formatted, last, still⟩
        | inr inside => exact every other inside
      · intro other missed
        obtain ⟨sameFile, sameFaults⟩ :=
          outside other fun entry member => missed entry (List.mem_cons_of_mem _ member)
        have different : other ≠ entry.path := (missed entry List.mem_cons_self).symm
        rw [sameFile, sameFaults, files other different, faults other different]
        exact ⟨rfl, rfl⟩

private theorem write_state_root_healthy (crc : Crc) (psr : PoolStateRoot) (d : Device)
    (healthy : d.Healthy) (fits : poolStateRootOffset + blockSize ≤ d.capacity) :
    ∃ after, (DeviceM.mapError PoolError.storage do
        psr.write crc poolStateRootOffset
        DeviceM.sync) d = (.ok (), after) ∧
      after.bytes = overwrite d.bytes poolStateRootOffset (sealed crc PoolStateRoot.body psr) := by
  have written := Device.write_at_healthy d poolStateRootOffset (sealed crc PoolStateRoot.body psr)
    healthy (by rw [psr.length_block]; exact fits)
  have still := Device.healthy_after d
    (overwrite d.bytes poolStateRootOffset (sealed crc PoolStateRoot.body psr)) healthy
  have synced := Device.sync_healthy _ still
  change DeviceM.writeAt poolStateRootOffset _ _ = _ at written
  refine ⟨{ d with
    bytes := overwrite d.bytes poolStateRootOffset (sealed crc PoolStateRoot.body psr)
    faults := d.faults.tail.tail }, ?_, rfl⟩
  simp only [DeviceM.mapError, bind, PoolStateRoot.write, written, DeviceM.sync, synced]

/-- A new pool on files without errors, and the bytes on its primary disk. -/
theorem create_sound (env : Env) (config : PoolConfig) (fs : FileSystem)
    (primary : DiskConfigEntry) (psr : PoolStateRoot) (rt : DiskRuntime)
    (few : config.disks.length ≤ poolStateRootInlineDisks)
    (free : PoolManager.firstDuplicate config.disks [] = none)
    (paths : (config.disks.map DiskConfigEntry.path).Nodup)
    (room : ∀ entry ∈ config.disks, blockSize * 3 ≤ entry.capacityBytes.toNat)
    (fine : ∀ entry ∈ config.disks, fs.files entry.path = none ∧ Sound fs entry.path)
    (least : config.primary = some primary)
    (fits : poolStateRootOffset + blockSize ≤ primary.capacityBytes.toNat)
    (present : (blankDisks env config.nodeId config.disks ∅).lookup primary.id = some rt)
    (device : rt.device = handleOf primary)
    (built : PoolManager.stateRoot env
      { config := config, disks := blankDisks env config.nodeId config.disks ∅ } = .ok psr) :
    ∃ formatted after : FileSystem, PoolManager.create env config fs =
        (.ok { config := config, disks := blankDisks env config.nodeId config.disks ∅ }, after) ∧
      (∀ entry ∈ config.disks, Formatted env config.nodeId entry (formatted.file entry.path) ∧
        LastCopy env config.nodeId entry (formatted.file entry.path)) ∧
      ∀ path, after.file path =
        if path = primary.path then
          { formatted.file primary.path with
            bytes := overwrite (formatted.file primary.path).bytes poolStateRootOffset
              (sealed env.crc PoolStateRoot.body psr) }
        else formatted.file path := by
  have member := primary_mem config primary least
  obtain ⟨formatted, opened, every, -⟩ :=
    format_all_sound env config.nodeId config.disks paths room ∅ fs fine
  have healthy : (formatted.device (handleOf primary)).Healthy :=
    sound_device _ _ rfl (every primary member).2.2
  obtain ⟨d, wrote, bytes⟩ := write_state_root_healthy env.crc psr _ healthy fits
  refine ⟨formatted, formatted.stored (handleOf primary) d, ?_,
    fun entry listed => ⟨(every entry listed).1, (every entry listed).2.1⟩, ?_⟩
  · rw [PoolManager.create, if_neg (List.ne_nil_of_mem member), if_neg (Nat.not_lt.mpr few), free]
    simp only [opened, PoolManager.writePoolStateRoot, least, built, present, device,
      FileSystem.on, wrote]
  · intro path
    rw [FileSystem.file_stored, bytes]
    rfl

def blankDescriptor (env : Env) (entry : DiskConfigEntry) : DiskDescriptorOnDisk :=
  { DiskDescriptorOnDisk.default with
    diskId := entry.id
    mediaType := entry.mediaType.toU8
    tier := entry.tier.toU8
    state := DiskState.online.toU8
    pathLen := UInt8.ofNat (env.toStringLossy entry.path).length
    capacityBytes := entry.capacityBytes
    path := (Pod.array 192).ofBytes (env.toStringLossy entry.path) }

theorem describe_blank (env : Env) (nodeId : NodeId) (entry : DiskConfigEntry)
    (short : (env.toStringLossy entry.path).length ≤ diskPathInlineLen) :
    PoolManager.describe env (blankRuntime env nodeId entry) =
      .ok (blankDescriptor env entry) := by
  have fits : ¬ diskPathInlineLen < (env.toStringLossy entry.path).length := Nat.not_lt.mpr short
  unfold PoolManager.describe
  dsimp only [blankRuntime]
  split
  · next long => exact absurd long fits
  · simp only [DiskDescriptorOnDisk.new, if_neg fits, bind, Except.bind]
    rfl

/-- The state block of a new pool whose disks are listed in the order of their ids. -/
theorem state_root_blank (env : Env) (config : PoolConfig)
    (increasing : (config.disks.map DiskConfigEntry.id).Pairwise (· < ·)) :
    PoolManager.stateRoot env
        { config := config, disks := blankDisks env config.nodeId config.disks ∅ } = (do
      let wire ← config.disks.mapM fun entry =>
        PoolManager.describe env (blankRuntime env config.nodeId entry)
      { PoolStateRoot.newBlank with clusterNodeCount := 1 }.setInlineDisks wire) := by
  have disks : blankDisks env config.nodeId config.disks ∅ =
      ofEntries (config.disks.map fun entry =>
        (entry.id, blankRuntime env config.nodeId entry)) := by
    rw [ofEntries, List.foldl_map]
    rfl
  have rows := to_sorted_of_entries (config.disks.map fun entry =>
    (entry.id, blankRuntime env config.nodeId entry)) (by
      rw [List.map_map]
      exact increasing)
  rw [PoolManager.stateRoot, disks, rows, List.mapM_map]
  rfl

def bitStep (crc : Nat) : Nat := crc / 2 ^^^ crc % 2 * 0x82f63b78

def byteStep (crc : Nat) (byte : UInt8) : Nat :=
  bitStep (bitStep (bitStep (bitStep (bitStep (bitStep (bitStep (bitStep
    (crc ^^^ byte.toNat))))))))

private theorem bit_step_eq (crc : UInt32) :
    (if crc &&& 1 = 1 then crc >>> 1 ^^^ 0x82f63b78 else crc >>> 1).toNat =
      bitStep crc.toNat := by
  have low : (crc &&& 1).toNat = crc.toNat % 2 := by
    simp [UInt32.toNat_and, Nat.and_one_is_mod]
  have half : (crc >>> 1).toNat = crc.toNat / 2 := by
    simp [UInt32.toNat_shiftRight, Nat.shiftRight_one]
  rw [bitStep]
  by_cases odd : crc &&& 1 = 1
  · have one : crc.toNat % 2 = 1 := by
      rw [← low, odd]
      rfl
    rw [if_pos odd, UInt32.toNat_xor, half, one]
    rfl
  · have zero : crc.toNat % 2 = 0 := by
      have other : crc.toNat % 2 ≠ 1 := by
        intro one
        apply odd
        apply UInt32.toNat_inj.mp
        rw [low, one]
        rfl
      omega
    rw [if_neg odd, half, zero, Nat.zero_mul, Nat.xor_zero]

private theorem byte_step_eq (crc : UInt32) (byte : UInt8) :
    (crc32cByte crc byte).toNat = byteStep crc.toNat byte := by
  rw [crc32cByte]
  have eight : List.range 8 = [0, 1, 2, 3, 4, 5, 6, 7] := rfl
  rw [eight]
  simp only [List.foldl_cons, List.foldl_nil, bit_step_eq, UInt32.toNat_xor,
    UInt8.toNat_toUInt32, byteStep]

def crcByNumbers : Crc := fun bytes =>
  UInt32.ofNat (bytes.foldl byteStep 0xffffffff ^^^ 0xffffffff)

private theorem crc_by_numbers : crc32c = crcByNumbers := by
  funext bytes
  have folded : ∀ crc : UInt32, (bytes.foldl crc32cByte crc).toNat =
      bytes.foldl byteStep crc.toNat := by
    induction bytes with
    | nil =>
        intro crc
        rfl
    | cons byte rest ih =>
        intro crc
        rw [List.foldl_cons, List.foldl_cons, ih, byte_step_eq]
  apply UInt32.toNat_inj.mp
  rw [crc32c, crcByNumbers, UInt32.toNat_xor, folded, UInt32.toNat_ofNat']
  have start : (0xffffffff : UInt32).toNat = 0xffffffff := rfl
  have small : bytes.foldl byteStep 0xffffffff < 2 ^ 32 := by
    rw [← start, ← folded]
    exact UInt32.toNat_lt _
  rw [start]
  exact (Nat.mod_eq_of_lt (Nat.xor_lt_two_pow small (by decide))).symm

/-- The same with the functions of `Nat` themselves, which the kernel takes without a detour. -/
def bitStepNat (crc : Nat) : Nat :=
  Nat.xor (Nat.div crc (nat_lit 2)) (Nat.mul (Nat.mod crc (nat_lit 2)) (nat_lit 0x82f63b78))

def byteStepNat (crc : Nat) (byte : UInt8) : Nat :=
  bitStepNat (bitStepNat (bitStepNat (bitStepNat (bitStepNat (bitStepNat (bitStepNat (bitStepNat
    (Nat.xor crc byte.toNat))))))))

def crcByNat : Crc := fun bytes =>
  UInt32.ofNat (Nat.xor (bytes.foldl byteStepNat 0xffffffff) 0xffffffff)

private theorem crc_by_nat : crc32c = crcByNat := crc_by_numbers.trans rfl

def text (chars : String) : Path := chars.toList.map fun char => UInt8.ofNat char.toNat

def emptyHost : FileSystem := { files := fun _ => none, faults := fun _ => [] }

def hostEnv : Env := { crc := crc32c, toStringLossy := id }

def ssdEntry (id : DiskId) (path : Path) (capacityBytes : UInt64) : DiskConfigEntry :=
  { id := id
    path := path
    mediaType := .ssd
    tier := .hot
    capacityBytes := capacityBytes }

def firstDisk : DiskConfigEntry :=
  ssdEntry 1 (text "/pool/first-DHM@EKBAB@" ++ List.replicate 154 0x78 ++ text "MIMISBRUNNR")
    20728

def secondDisk : DiskConfigEntry :=
  ssdEntry 2 (text "/pool/second-" ++ List.replicate 179 0x79) 12288

def thirdDisk : DiskConfigEntry :=
  ssdEntry 3 (text "/pool/third-" ++ List.replicate 128 0x7a ++ text "CBLH@AAB@A@@") 12288

def overlapConfig : PoolConfig := { nodeId := 1, disks := [firstDisk, secondDisk, thirdDisk] }

def overlapRoot : PoolStateRoot :=
  { PoolStateRoot.newBlank with
    clusterNodeCount := 1
    diskCount := 3
    inlineDisks :=
      ⟨(overlapConfig.disks.map (blankDescriptor hostEnv) ++
        List.replicate 12 DiskDescriptorOnDisk.default).take 12, by simp⟩ }

private theorem overlap_built : PoolManager.stateRoot hostEnv
    { config := overlapConfig, disks := blankDisks hostEnv 1 overlapConfig.disks ∅ } =
      .ok overlapRoot := by
  have blank := state_root_blank hostEnv overlapConfig (by decide)
  refine blank.trans ?_
  have first := describe_blank hostEnv 1 firstDisk (by decide +kernel)
  have second := describe_blank hostEnv 1 secondDisk (by decide +kernel)
  have third := describe_blank hostEnv 1 thirdDisk (by decide +kernel)
  simp only [overlapConfig, List.mapM_cons, List.mapM_nil, first, second, third, bind, Except.bind, pure,
    Except.pure]
  rfl

/-- The end of the pool state block and the end of the superblock. -/
def overlapCopy : List UInt8 :=
  (sealed crc32c PoolStateRoot.body overlapRoot).drop 248 ++
    (sealed crc32c Superblock.body (blankSuperblock hostEnv 1 firstDisk)).drop 3848

theorem overlap_candidate :
    (Superblock.candidate crc32c overlapCopy).map (fun found => (found.1, found.2.2.nodeId)) =
      some (7310238762924994607, 0) := by
  rw [overlapCopy, blankSuperblock, hostEnv, crc_by_nat]
  decide +kernel

/-- A device whose first two copies are a blank superblock and whose last one is the copy
above opens with the latter. -/
theorem open_overlap (d : Device) (capacity : d.capacity = 20728)
    (first : read d.bytes 0 blockSize =
      sealed crc32c Superblock.body (blankSuperblock hostEnv 1 firstDisk))
    (second : read d.bytes blockSize blockSize =
      sealed crc32c Superblock.body (blankSuperblock hostEnv 1 firstDisk))
    (last : read d.bytes 16632 blockSize = overlapCopy) :
    ∃ sb, Superblock.open crc32c d = .ok sb ∧ sb.nodeId = 0 := by
  have root : (blankSuperblock hostEnv 1 firstDisk).activeRootPointer =
      RootPointer.zero.recomputeCrc crc32c := by
    rw [blankSuperblock, Superblock.active_new_blank]
    rfl
  have offered := Superblock.candidate_sealed crc32c (blankSuperblock hostEnv 1 firstDisk) rfl (by
    rw [root]
    exact RootPointer.verify_recompute crc32c RootPointer.zero)
  have copy (offset : Nat) (inside : offset + blockSize ≤ 20728) :
      Superblock.copyAt crc32c d offset =
        Superblock.candidate crc32c (read d.bytes offset blockSize) := by
    rw [Superblock.copyAt, Device.read_at_ok d offset blockSize (by rw [capacity]; exact inside)]
  have firstCopy := copy 0 (by decide)
  have secondCopy := copy blockSize (by decide)
  have lastCopy := copy 16632 (by decide)
  rw [first, offered] at firstCopy
  rw [second, offered] at secondCopy
  rw [last] at lastCopy
  obtain ⟨⟨seq, lsn, sb⟩, found, shown⟩ := Option.map_eq_some_iff.mp overlap_candidate
  rw [Prod.mk.injEq] at shown
  obtain ⟨newest, node⟩ := shown
  rw [found] at lastCopy
  have blankSeq : (blankSuperblock hostEnv 1 firstDisk).activeRootPointer.seq = 0 := by
    rw [root]
    rfl
  have greater : (0 : UInt64) < seq := by
    dsimp only at newest
    rw [newest]
    decide
  refine ⟨sb, ?_, node⟩
  rw [Superblock.open, capacity, if_neg (by decide), Superblock.copyOffsets]
  have place : 20728 - blockSize = 16632 := rfl
  rw [place, List.foldl_cons, List.foldl_cons, List.foldl_cons, List.foldl_nil, firstCopy,
    secondCopy, lastCopy]
  simp [Superblock.newer, blankSeq, greater]

theorem overlap_last_copy (file : File) (copy : LastCopy hostEnv 1 firstDisk file) :
    read (overwrite file.bytes poolStateRootOffset
      (sealed crc32c PoolStateRoot.body overlapRoot)) 16632 blockSize = overlapCopy := by
  have block := overlapRoot.length_block crc32c
  have across := read_overwrite_across file.bytes poolStateRootOffset
    (sealed crc32c PoolStateRoot.body overlapRoot) 16632 blockSize (by decide)
    (by rw [block]; decide) (by rw [block]; decide)
  have tail := read_part file.bytes 16632 blockSize 3848 248 (by decide)
  have last : read file.bytes 16632 blockSize =
      sealed crc32c Superblock.body (blankSuperblock hostEnv 1 firstDisk) := copy
  have short : ((sealed crc32c Superblock.body (blankSuperblock hostEnv 1 firstDisk)).drop
      3848).length ≤ 248 := by
    rw [List.length_drop, Superblock.length_copy]
    decide
  rw [last, List.take_of_length_le short] at tail
  have behind : read file.bytes (poolStateRootOffset + blockSize)
      (16632 + blockSize - (poolStateRootOffset + blockSize)) =
        (sealed crc32c Superblock.body (blankSuperblock hostEnv 1 firstDisk)).drop 3848 := tail
  rw [across, block, behind]
  rfl

/-- The file of the first disk after the pool state block was written to it. -/
theorem open_first_disk (fs : FileSystem) (file : File)
    (fresh : Formatted hostEnv 1 firstDisk file) (copy : LastCopy hostEnv 1 firstDisk file)
    (here : fs.file firstDisk.path =
      { file with
        bytes := overwrite file.bytes poolStateRootOffset
          (sealed crc32c PoolStateRoot.body overlapRoot) }) :
    ∃ last, openDisk hostEnv fs firstDisk 1 = (.error (.nodeIdMismatch 1 1 0), last) := by
  have block := overlapRoot.length_block crc32c
  have apart (offset : Nat) (far : Apart poolStateRootOffset blockSize offset blockSize) :
      read (overwrite file.bytes poolStateRootOffset
        (sealed crc32c PoolStateRoot.body overlapRoot)) offset blockSize =
          read file.bytes offset blockSize :=
    read_overwrite_apart _ _ _ _ _ (by rw [block]; exact far)
  have length : file.length = 20728 := fresh.length
  have handle : (fs.openDevice firstDisk.path 0).1.capacity = 20728 := by
    rw [FileSystem.openDevice, if_pos rfl, here]
    exact length
  have bytes : ((fs.openDevice firstDisk.path 0).2.device (fs.openDevice firstDisk.path 0).1).bytes =
      overwrite file.bytes poolStateRootOffset (sealed crc32c PoolStateRoot.body overlapRoot) := by
    rw [FileSystem.openDevice, if_pos rfl, FileSystem.device, FileSystem.file_set_file, if_pos rfl,
      here]
  obtain ⟨sb, opened, node⟩ := open_overlap
    ((fs.openDevice firstDisk.path 0).2.device (fs.openDevice firstDisk.path 0).1) handle
    (by rw [bytes, apart 0 (by decide)]; exact fresh.first)
    (by rw [bytes, apart blockSize (by decide)]; exact fresh.second)
    (by rw [bytes]; exact overlap_last_copy file copy)
  refine ⟨(fs.openDevice firstDisk.path 0).2, ?_⟩
  have found : Superblock.open hostEnv.crc
      ((fs.openDevice firstDisk.path 0).2.device (fs.openDevice firstDisk.path 0).1) = .ok sb :=
    opened
  simp only [openDisk, found]
  rw [node, if_pos (by decide)]
  rfl

private theorem overlap_own_files : OwnFiles overlapConfig [] emptyHost :=
  ⟨⟨by decide +kernel, fun _ _ => rfl⟩, fun _ _ => rfl⟩

/-- The pool is created, and opening it finds a disk of another node. -/
theorem overlapping_copy_not_opened :
    OwnFiles overlapConfig [] emptyHost ∧
      ∃ mgr created last, PoolManager.create hostEnv overlapConfig emptyHost = (.ok mgr, created) ∧
        performAll hostEnv [] mgr created = some (mgr, created) ∧
        PoolManager.open hostEnv mgr.config created = (.error (.nodeIdMismatch 1 1 0), last) := by
  refine ⟨overlap_own_files, ?_⟩
  have member : firstDisk ∈ overlapConfig.disks := List.mem_cons_self
  obtain ⟨formatted, created, made, every, files⟩ :=
    create_sound hostEnv overlapConfig emptyHost firstDisk overlapRoot
      (blankRuntime hostEnv 1 firstDisk) (by decide) (by decide +kernel) (by decide +kernel)
      (by decide +kernel) (fun _ _ => ⟨rfl, fun _ none => nomatch none⟩) (by decide +kernel)
      (by decide) (by rfl) rfl overlap_built
  obtain ⟨fresh, copy⟩ := every firstDisk member
  have here := files firstDisk.path
  rw [if_pos rfl] at here
  obtain ⟨last, refused⟩ := open_first_disk created _ fresh copy here
  refine ⟨_, created, last, made, rfl, ?_⟩
  have all : openAll hostEnv overlapConfig.nodeId false overlapConfig.disks ∅ created =
      (.error (.nodeIdMismatch 1 1 0), last) := by
    simp only [overlapConfig, openAll, openOrFormatDisk, Bool.false_eq_true, if_false, refused]
  rw [PoolManager.open, if_neg (List.ne_nil_of_mem member)]
  simp only [all]

/-- The pool of one new disk. -/
theorem lone_pool_created (env : Env) (nodeId : NodeId) (disk : DiskConfigEntry)
    (short : (env.toStringLossy disk.path).length ≤ diskPathInlineLen)
    (room : blockSize * 3 ≤ disk.capacityBytes.toNat)
    (fits : poolStateRootOffset + blockSize ≤ disk.capacityBytes.toNat) :
    ∃ created, PoolManager.create env { nodeId := nodeId, disks := [disk] } emptyHost =
      (.ok { config := { nodeId := nodeId, disks := [disk] },
             disks := blankDisks env nodeId [disk] ∅ }, created) := by
  have built : PoolManager.stateRoot env
      { config := { nodeId := nodeId, disks := [disk] }, disks := blankDisks env nodeId [disk] ∅ } =
        { PoolStateRoot.newBlank with clusterNodeCount := 1 }.setInlineDisks
          [blankDescriptor env disk] := by
    refine (state_root_blank env { nodeId := nodeId, disks := [disk] } (by simp)).trans ?_
    simp only [List.mapM_cons, List.mapM_nil, describe_blank env nodeId disk short, bind,
      Except.bind, pure, Except.pure]
  have present : (blankDisks env nodeId [disk] ∅).lookup disk.id =
      some (blankRuntime env nodeId disk) := Finmap.lookup_insert _
  have one : 1 ≤ poolStateRootInlineDisks := by decide
  obtain ⟨formatted, created, made, -⟩ :=
    create_sound env { nodeId := nodeId, disks := [disk] } emptyHost disk _
      (blankRuntime env nodeId disk) one rfl (by simp) (by simpa using room)
      (fun _ _ => ⟨rfl, fun _ none => nomatch none⟩) rfl fits present rfl (built.trans rfl)
  exact ⟨created, made⟩

def roomyDisk : DiskConfigEntry := ssdEntry 1 (text "/pool/disk") 24576

def roomyConfig : PoolConfig := { nodeId := 1, disks := [roomyDisk] }

theorem roomy_pool_created :
    ∃ created, PoolManager.create hostEnv roomyConfig emptyHost =
      (.ok { config := roomyConfig, disks := blankDisks hostEnv 1 roomyConfig.disks ∅ }, created) :=
  lone_pool_created hostEnv 1 roomyDisk (by decide) (by decide) (by decide)

end Mimisbrunnr.Pool
