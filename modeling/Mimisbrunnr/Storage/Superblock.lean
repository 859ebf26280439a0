import Mimisbrunnr.Storage.RootPointer
import Mimisbrunnr.Types.Disk

/-!
# The superblock

Three copies, in the first two blocks and the last one of the device. Each holds
two root pointers, of which one is active. A commit writes the new root into the
other slot of all copies; opening takes the copy with the newest active root
whose checksums are right.
-/

namespace Mimisbrunnr.Storage

set_option autoImplicit false

open Mimisbrunnr.Lib.ByteStore
open Mimisbrunnr.Lib.Layout
open Mimisbrunnr.Types

structure ZoneExtent where
  offset : UInt64
  length : UInt64
  flags : UInt32
  pad : UInt32
deriving DecidableEq, Repr

def ZoneExtent.layout : Pod ZoneExtent :=
  (Pod.u64.prod <| Pod.u64.prod <| Pod.u32.prod Pod.u32).map
    (fun (offset, length, flags, pad) => { offset, length, flags, pad })
    (fun zone => (zone.offset, zone.length, zone.flags, zone.pad))
    (fun _ => rfl)

/-- The text `MIMISBRUNNR` and zeros. -/
def superblockMagicFull : List.Vector UInt8 16 :=
  ⟨[0x4d, 0x49, 0x4d, 0x49, 0x53, 0x42, 0x52, 0x55, 0x4e, 0x4e, 0x52, 0, 0, 0, 0, 0], rfl⟩

/-- The fields before the checksum. -/
structure Superblock where
  header : BlockHeader
  magicFull : List.Vector UInt8 16
  fsUuid : List.Vector UInt8 16
  nodeId : UInt16
  diskId : UInt16
  mediaType : UInt8
  tier : UInt8
  pad0 : List.Vector UInt8 2
  deviceCapacity : UInt64
  blockSizeLog2 : UInt8
  pad1 : List.Vector UInt8 7
  creationTimestampNs : Int64
  lastMountTimestampNs : Int64
  mountCount : UInt64
  rootA : RootPointer
  rootB : RootPointer
  activeRoot : UInt8
  pad2 : List.Vector UInt8 7
  walOffset : UInt64
  walSize : UInt64
  bucketSizeLog2 : UInt8
  copygcReservePct : UInt8
  btreeNodeSizeLog2 : UInt8
  pad3 : List.Vector UInt8 5
  bootstrapBuckets : UInt32
  pad4 : List.Vector UInt8 4
  zoneMapOffset : UInt64
  indexZone : ZoneExtent
  metadataZone : ZoneExtent
  blobZone : ZoneExtent
  encryptionKeyid : List.Vector UInt8 16
  fsFormatVersion : UInt32
  fsMinOnDisk : UInt32
  compatFeatures : UInt64
  roCompatFeatures : UInt64
  incompatFeatures : UInt64
  downgradeLogRef : BlockRef
  defaultChunkingThreshold : UInt64
  defaultChunking : List.Vector UInt8 16
  reserved : List.Vector UInt8 2956

namespace Superblock

abbrev Identity :=
  BlockHeader × List.Vector UInt8 16 × List.Vector UInt8 16 × UInt16 × UInt16 × UInt8 × UInt8 ×
    List.Vector UInt8 2 × UInt64 × UInt8 × List.Vector UInt8 7 × Int64 × Int64 × UInt64

def identityLayout : Pod Identity :=
  BlockHeader.layout.prod <| (Pod.array 16).prod <| (Pod.array 16).prod <| Pod.u16.prod <|
    Pod.u16.prod <| Pod.u8.prod <| Pod.u8.prod <| (Pod.array 2).prod <| Pod.u64.prod <|
    Pod.u8.prod <| (Pod.array 7).prod <| Pod.i64.prod <| Pod.i64.prod Pod.u64

abbrev Roots := RootPointer × RootPointer × UInt8 × List.Vector UInt8 7

def rootsLayout : Pod Roots :=
  RootPointer.layout.prod <| RootPointer.layout.prod <| Pod.u8.prod (Pod.array 7)

abbrev Geometry :=
  UInt64 × UInt64 × UInt8 × UInt8 × UInt8 × List.Vector UInt8 5 × UInt32 × List.Vector UInt8 4 ×
    UInt64 × ZoneExtent × ZoneExtent × ZoneExtent

def geometryLayout : Pod Geometry :=
  Pod.u64.prod <| Pod.u64.prod <| Pod.u8.prod <| Pod.u8.prod <| Pod.u8.prod <|
    (Pod.array 5).prod <| Pod.u32.prod <| (Pod.array 4).prod <| Pod.u64.prod <|
    ZoneExtent.layout.prod <| ZoneExtent.layout.prod ZoneExtent.layout

abbrev Features :=
  List.Vector UInt8 16 × UInt32 × UInt32 × UInt64 × UInt64 × UInt64 × BlockRef × UInt64 ×
    List.Vector UInt8 16 × List.Vector UInt8 2956

def featuresLayout : Pod Features :=
  (Pod.array 16).prod <| Pod.u32.prod <| Pod.u32.prod <| Pod.u64.prod <| Pod.u64.prod <|
    Pod.u64.prod <| BlockRef.layout.prod <| Pod.u64.prod <| (Pod.array 16).prod (Pod.array 2956)

def identity (sb : Superblock) : Identity :=
  (sb.header, sb.magicFull, sb.fsUuid, sb.nodeId, sb.diskId, sb.mediaType, sb.tier, sb.pad0,
    sb.deviceCapacity, sb.blockSizeLog2, sb.pad1, sb.creationTimestampNs, sb.lastMountTimestampNs,
    sb.mountCount)

def roots (sb : Superblock) : Roots := (sb.rootA, sb.rootB, sb.activeRoot, sb.pad2)

def geometry (sb : Superblock) : Geometry :=
  (sb.walOffset, sb.walSize, sb.bucketSizeLog2, sb.copygcReservePct, sb.btreeNodeSizeLog2, sb.pad3,
    sb.bootstrapBuckets, sb.pad4, sb.zoneMapOffset, sb.indexZone, sb.metadataZone, sb.blobZone)

def features (sb : Superblock) : Features :=
  (sb.encryptionKeyid, sb.fsFormatVersion, sb.fsMinOnDisk, sb.compatFeatures, sb.roCompatFeatures,
    sb.incompatFeatures, sb.downgradeLogRef, sb.defaultChunkingThreshold, sb.defaultChunking,
    sb.reserved)

def ofParts : Identity → Roots → Geometry → Features → Superblock
  | (header, magicFull, fsUuid, nodeId, diskId, mediaType, tier, pad0, deviceCapacity,
      blockSizeLog2, pad1, creationTimestampNs, lastMountTimestampNs, mountCount),
    (rootA, rootB, activeRoot, pad2),
    (walOffset, walSize, bucketSizeLog2, copygcReservePct, btreeNodeSizeLog2, pad3,
      bootstrapBuckets, pad4, zoneMapOffset, indexZone, metadataZone, blobZone),
    (encryptionKeyid, fsFormatVersion, fsMinOnDisk, compatFeatures, roCompatFeatures,
      incompatFeatures, downgradeLogRef, defaultChunkingThreshold, defaultChunking, reserved) =>
      { header, magicFull, fsUuid, nodeId, diskId, mediaType, tier, pad0, deviceCapacity,
        blockSizeLog2, pad1, creationTimestampNs, lastMountTimestampNs, mountCount, rootA, rootB,
        activeRoot, pad2, walOffset, walSize, bucketSizeLog2, copygcReservePct, btreeNodeSizeLog2,
        pad3, bootstrapBuckets, pad4, zoneMapOffset, indexZone, metadataZone, blobZone,
        encryptionKeyid, fsFormatVersion, fsMinOnDisk, compatFeatures, roCompatFeatures,
        incompatFeatures, downgradeLogRef, defaultChunkingThreshold, defaultChunking, reserved }

def body : Pod Superblock :=
  (identityLayout.prod <| rootsLayout.prod <| geometryLayout.prod featuresLayout).map
    (fun (identity, roots, geometry, features) => ofParts identity roots geometry features)
    (fun sb => (sb.identity, sb.roots, sb.geometry, sb.features))
    (fun _ => rfl)

private theorem body_size : body.size = 4092 := rfl

/-- The arguments of `format`. -/
structure Format where
  fsUuid : List.Vector UInt8 16
  nodeId : UInt16
  diskId : UInt16
  mediaType : MediaType
  tier : StorageTier
  bucketSizeLog2 : UInt8
  btreeNodeSizeLog2 : UInt8
  bootstrapBuckets : UInt32
  walOffset : UInt64
  walSize : UInt64
  indexZone : ZoneExtent
  metadataZone : ZoneExtent
  blobZone : ZoneExtent
  formatVersion : UInt16

def newBlank (crc : Crc) (args : Format) (deviceCapacity : UInt64) : Superblock :=
  { header := BlockHeader.new .superblock args.formatVersion (UInt32.ofNat (blockSize - 32 - 4))
    magicFull := superblockMagicFull
    fsUuid := args.fsUuid
    nodeId := args.nodeId
    diskId := args.diskId
    mediaType := args.mediaType.toU8
    tier := args.tier.toU8
    pad0 := List.Vector.replicate 2 0
    deviceCapacity := deviceCapacity
    blockSizeLog2 := 12
    pad1 := List.Vector.replicate 7 0
    creationTimestampNs := 0
    lastMountTimestampNs := 0
    mountCount := 0
    rootA := RootPointer.zero.recomputeCrc crc
    rootB := RootPointer.zero.recomputeCrc crc
    activeRoot := 0
    pad2 := List.Vector.replicate 7 0
    walOffset := args.walOffset
    walSize := args.walSize
    bucketSizeLog2 := args.bucketSizeLog2
    copygcReservePct := 8
    btreeNodeSizeLog2 := args.btreeNodeSizeLog2
    pad3 := List.Vector.replicate 5 0
    bootstrapBuckets := args.bootstrapBuckets
    pad4 := List.Vector.replicate 4 0
    zoneMapOffset := 0
    indexZone := args.indexZone
    metadataZone := args.metadataZone
    blobZone := args.blobZone
    encryptionKeyid := List.Vector.replicate 16 0
    fsFormatVersion := args.formatVersion.toUInt32
    fsMinOnDisk := args.formatVersion.toUInt32
    compatFeatures := 0
    roCompatFeatures := 0
    incompatFeatures := 0
    downgradeLogRef := BlockRef.zero
    defaultChunkingThreshold := 0
    defaultChunking := List.Vector.replicate 16 0
    reserved := List.Vector.replicate 2956 0 }

def activeRootPointer (sb : Superblock) : RootPointer :=
  if sb.activeRoot = 0 then sb.rootA else sb.rootB

def inactiveRootPointer (sb : Superblock) : RootPointer :=
  if sb.activeRoot = 0 then sb.rootB else sb.rootA

/-- The new root in the other slot, which becomes the active one. -/
def withRoot (crc : Crc) (sb : Superblock) (new : RootPointer) : Superblock :=
  if sb.activeRoot = 0 then { sb with rootB := new.recomputeCrc crc, activeRoot := 1 }
  else { sb with rootA := new.recomputeCrc crc, activeRoot := 0 }

def copyOffsets (capacity : Nat) : List Nat := [0, blockSize, capacity - blockSize]

def writeCopies (bytes : List UInt8) : List Nat → DeviceM StorageError Unit
  | [] => pure ()
  | offset :: rest => do
      DeviceM.writeAt offset bytes
      writeCopies bytes rest

def writeAll (crc : Crc) (sb : Superblock) : DeviceM StorageError Unit := fun d =>
  (do
    writeCopies (sealed crc body sb) (copyOffsets d.capacity)
    DeviceM.sync : DeviceM StorageError Unit) d

def format (crc : Crc) (args : Format) : DeviceM StorageError Superblock := fun d =>
  if d.capacity < blockSize * 3 then
    (.error (.deviceTooSmall (blockSize * 3) d.capacity), d)
  else
    (do
      let sb := newBlank crc args (UInt64.ofNat d.capacity)
      sb.writeAll crc
      pure sb : DeviceM StorageError Superblock) d

/-- The superblock in memory changes before the copies are written. -/
def commitRoot (crc : Crc) (sb : Superblock) (new : RootPointer) (d : Device) :
    Except StorageError Unit × Superblock × Device :=
  let committed := sb.withRoot crc new
  let written := committed.writeAll crc d
  (written.1, committed, written.2)

/-- What a copy offers: the key of its root and the superblock to use. With a
broken active root the other one is made active. -/
def candidate (crc : Crc) (bytes : List UInt8) : Option (UInt64 × UInt64 × Superblock) :=
  let sb := bodyOf body bytes
  if sb.magicFull ≠ superblockMagicFull then none
  else if (brokenSeal crc body bytes).isSome then none
  else if sb.activeRootPointer.verifyCrc crc then
    some (sb.activeRootPointer.seq, sb.activeRootPointer.lsn, sb)
  else if sb.inactiveRootPointer.verifyCrc crc then
    some (sb.inactiveRootPointer.seq, sb.inactiveRootPointer.lsn,
      { sb with activeRoot := sb.activeRoot ^^^ 1 })
  else none

/-- The newer of two, the first on a tie. -/
def newer (best : Option (UInt64 × UInt64 × Superblock))
    (next : Option (UInt64 × UInt64 × Superblock)) : Option (UInt64 × UInt64 × Superblock) :=
  match best, next with
  | best, none => best
  | none, next => next
  | some best, some next =>
      if best.1 < next.1 ∨ best.1 = next.1 ∧ best.2.1 < next.2.1 then some next else some best

def copyAt (crc : Crc) (d : Device) (offset : Nat) : Option (UInt64 × UInt64 × Superblock) :=
  match d.readAt offset blockSize with
  | .error _ => none
  | .ok bytes => candidate crc bytes

def «open» (crc : Crc) (d : Device) : Except StorageError Superblock :=
  if d.capacity < blockSize * 3 then .error (.deviceTooSmall (blockSize * 3) d.capacity)
  else
    match (copyOffsets d.capacity).foldl (fun best offset => newer best (copyAt crc d offset)) none
        with
    | some found => .ok found.2.2
    | none => .error .noValidSuperblock

/-- All copies on the device are those of a superblock that can be opened. -/
structure Stored (crc : Crc) (sb : Superblock) (d : Device) : Prop where
  room : blockSize * 3 ≤ d.capacity
  magic : sb.magicFull = superblockMagicFull
  root : sb.activeRootPointer.verifyCrc crc = true
  copies : ∀ offset ∈ copyOffsets d.capacity, d.readAt offset blockSize = .ok (sealed crc body sb)

theorem candidate_sealed (crc : Crc) (sb : Superblock) (magic : sb.magicFull = superblockMagicFull)
    (root : sb.activeRootPointer.verifyCrc crc = true) :
    candidate crc (sealed crc body sb) =
      some (sb.activeRootPointer.seq, sb.activeRootPointer.lsn, sb) := by
  rw [candidate, body_of_sealed, broken_seal_sealed]
  rw [if_neg (by simp [magic]), if_neg (by simp), if_pos root]

theorem open_stored (crc : Crc) (sb : Superblock) (d : Device) (stored : Stored crc sb d) :
    Superblock.open crc d = .ok sb := by
  have copy (offset : Nat) (member : offset ∈ copyOffsets d.capacity) :
      copyAt crc d offset = some (sb.activeRootPointer.seq, sb.activeRootPointer.lsn, sb) := by
    rw [copyAt, stored.copies offset member]
    exact candidate_sealed crc sb stored.magic stored.root
  have first := copy 0 List.mem_cons_self
  have second := copy blockSize (List.mem_cons_of_mem _ List.mem_cons_self)
  have third := copy (d.capacity - blockSize)
    (List.mem_cons_of_mem _ (List.mem_cons_of_mem _ List.mem_cons_self))
  rw [Superblock.open, if_neg (Nat.not_lt.mpr stored.room), copyOffsets, List.foldl_cons,
    List.foldl_cons, List.foldl_cons, List.foldl_nil, first, second, third]
  simp [newer]

theorem active_with_root (crc : Crc) (sb : Superblock) (new : RootPointer) :
    (sb.withRoot crc new).activeRootPointer = new.recomputeCrc crc := by
  unfold withRoot
  split
  · rfl
  · rfl

/-- What the writes of the copies have done. -/
theorem write_copies_ok (bytes : List UInt8) (length : bytes.length = blockSize)
    (offsets : List Nat) (apart : offsets.Pairwise fun a b => Apart a blockSize b blockSize) :
    ∀ d after, writeCopies bytes offsets d = (.ok (), after) →
      after.capacity = d.capacity ∧
        (∀ address, (∀ offset ∈ offsets, address < offset ∨ offset + blockSize ≤ address) →
          after.bytes address = d.bytes address) ∧
        ∀ offset ∈ offsets, after.readAt offset blockSize = .ok bytes := by
  induction offsets with
  | nil =>
      intro d after ok
      obtain ⟨-, unchanged⟩ := DeviceM.pure_ok _ _ _ _ ok
      subst unchanged
      exact ⟨rfl, fun _ _ => rfl, by simp⟩
  | cons offset rest ih =>
      intro d after ok
      rw [List.pairwise_cons] at apart
      obtain ⟨⟨⟩, middle, written, ok⟩ := DeviceM.bind_ok _ _ _ _ _ ok
      obtain ⟨capacity, outside, copies⟩ := ih apart.2 middle after ok
      have changes := changes_within_write _ _ _ _ written
      have stored := read_of_write _ _ _ _ written
      rw [length] at changes stored
      refine ⟨capacity.trans changes.capacity, ?_, ?_⟩
      · intro address missed
        rw [outside address fun other member => missed other (List.mem_cons_of_mem _ member)]
        exact changes.outside address (missed offset List.mem_cons_self)
      · intro other member
        cases List.mem_cons.mp member with
        | inr later => exact copies other later
        | inl same =>
            subst same
            have kept : AgreesOn other blockSize middle after := by
              refine ⟨capacity, ?_⟩
              intro address above below
              apply outside
              intro copy listed
              have far := apart.1 copy listed
              unfold Apart at far
              omega
            rw [read_at_agrees kept (Nat.le_refl _) (Nat.le_refl _),
              Device.read_at_ok _ _ _ stored.2, stored.1]

theorem copies_apart (capacity : Nat) (room : blockSize * 3 ≤ capacity) :
    (copyOffsets capacity).Pairwise fun a b => Apart a blockSize b blockSize := by
  simp only [copyOffsets, List.pairwise_cons, List.mem_cons, List.not_mem_nil, or_false,
    forall_eq_or_imp, forall_eq, List.Pairwise.nil, and_true, false_implies, implies_true, Apart]
  simp only [blockSize] at room ⊢
  omega

@[simp] theorem length_copy (crc : Crc) (sb : Superblock) : (sealed crc body sb).length = blockSize := by
  rw [length_sealed, body_size]
  rfl

/-- What writing the copies has done when it succeeds, and that it has written nothing else. -/
theorem write_all_ok (crc : Crc) (sb : Superblock) (d after : Device)
    (room : blockSize * 3 ≤ d.capacity) (magic : sb.magicFull = superblockMagicFull)
    (root : sb.activeRootPointer.verifyCrc crc = true)
    (ok : sb.writeAll crc d = (.ok (), after)) :
    Stored crc sb after ∧ after.capacity = d.capacity ∧
      ∀ address, 2 * blockSize ≤ address → address < d.capacity - blockSize →
        after.bytes address = d.bytes address := by
  obtain ⟨⟨⟩, middle, copies, synced⟩ := DeviceM.bind_ok _ _ _ _ _ ok
  have settled := Device.sync_ok middle after synced
  obtain ⟨capacity, outside, here⟩ := write_copies_ok _ (length_copy crc sb) _
    (copies_apart d.capacity room) d middle copies
  have sameBytes : after.bytes = middle.bytes := by rw [settled]
  have sameCapacity : after.capacity = middle.capacity := by rw [settled]
  refine ⟨⟨?_, magic, root, ?_⟩, sameCapacity.trans capacity, ?_⟩
  · rw [sameCapacity, capacity]
    exact room
  · intro offset member
    rw [sameCapacity, capacity] at member
    have found := here offset member
    rw [Device.readAt] at found ⊢
    rw [sameCapacity, sameBytes]
    exact found
  · intro address above below
    rw [sameBytes]
    apply outside
    intro offset member
    simp only [copyOffsets, List.mem_cons, List.not_mem_nil, or_false] at member
    simp only [blockSize] at above below member ⊢
    omega

theorem magic_with_root (crc : Crc) (sb : Superblock) (new : RootPointer) :
    (sb.withRoot crc new).magicFull = sb.magicFull := by
  unfold withRoot
  split
  · rfl
  · rfl

theorem commit_root_ok (crc : Crc) (sb committed : Superblock) (new : RootPointer)
    (d after : Device) (room : blockSize * 3 ≤ d.capacity)
    (magic : sb.magicFull = superblockMagicFull)
    (ok : sb.commitRoot crc new d = (.ok (), committed, after)) :
    committed = sb.withRoot crc new ∧ Stored crc committed after ∧
      after.capacity = d.capacity ∧
      ∀ address, 2 * blockSize ≤ address → address < d.capacity - blockSize →
        after.bytes address = d.bytes address := by
  have same : committed = sb.withRoot crc new := (congrArg (fun result => result.2.1) ok).symm
  have acknowledged : ((sb.withRoot crc new).writeAll crc d).1 = .ok () := congrArg Prod.fst ok
  have device : ((sb.withRoot crc new).writeAll crc d).2 = after :=
    congrArg (fun result => result.2.2) ok
  have written : (sb.withRoot crc new).writeAll crc d = (.ok (), after) :=
    Prod.ext acknowledged device
  subst same
  refine ⟨rfl, write_all_ok crc _ d after room ?_ ?_ written⟩
  · rw [magic_with_root]
    exact magic
  · rw [active_with_root]
    exact RootPointer.verify_recompute crc new

theorem active_new_blank (crc : Crc) (args : Format) (capacity : UInt64) :
    (newBlank crc args capacity).activeRootPointer = RootPointer.zero.recomputeCrc crc := by
  unfold newBlank activeRootPointer
  rw [if_pos rfl]

theorem format_ok (crc : Crc) (args : Format) (sb : Superblock) (d after : Device)
    (ok : format crc args d = (.ok sb, after)) :
    sb = newBlank crc args (UInt64.ofNat d.capacity) ∧ Stored crc sb after ∧
      after.capacity = d.capacity ∧
      ∀ address, 2 * blockSize ≤ address → address < d.capacity - blockSize →
        after.bytes address = d.bytes address := by
  unfold format at ok
  split at ok
  · cases ok
  · next room =>
      obtain ⟨⟨⟩, middle, written, done⟩ := DeviceM.bind_ok _ _ _ _ _ ok
      obtain ⟨same, unchanged⟩ := DeviceM.pure_ok _ _ _ _ done
      subst same unchanged
      refine ⟨rfl, write_all_ok crc _ d middle (Nat.le_of_not_lt room) rfl ?_ written⟩
      rw [active_new_blank]
      exact RootPointer.verify_recompute crc RootPointer.zero

theorem write_copies_healthy (bytes : List UInt8) (offsets : List Nat) :
    ∀ d : Device, d.Healthy → (∀ offset ∈ offsets, offset + bytes.length ≤ d.capacity) →
      ∃ after, writeCopies bytes offsets d = (.ok (), after) ∧ after.Healthy := by
  induction offsets with
  | nil =>
      intro d healthy _
      exact ⟨d, rfl, healthy⟩
  | cons offset rest ih =>
      intro d healthy inside
      have written := Device.write_at_healthy d offset bytes healthy
        (inside offset List.mem_cons_self)
      have next := Device.healthy_after d (overwrite d.bytes offset bytes) healthy
      obtain ⟨after, ok, healthy⟩ := ih _ next fun other member =>
        inside other (List.mem_cons_of_mem _ member)
      refine ⟨after, ?_, healthy⟩
      change DeviceM.writeAt offset bytes d = _ at written
      simp only [writeCopies, bind, written]
      exact ok

theorem write_all_healthy (crc : Crc) (sb : Superblock) (d : Device) (healthy : d.Healthy)
    (room : blockSize * 3 ≤ d.capacity) :
    ∃ after, sb.writeAll crc d = (.ok (), after) ∧ after.Healthy := by
  obtain ⟨middle, written, still⟩ := write_copies_healthy (sealed crc body sb)
    (copyOffsets d.capacity) d healthy (by
      intro offset member
      rw [length_copy]
      simp only [copyOffsets, List.mem_cons, List.not_mem_nil, or_false] at member
      simp only [blockSize] at room member ⊢
      omega)
  refine ⟨_, ?_, Device.healthy_after middle middle.bytes still⟩
  have synced := Device.sync_healthy middle still
  simp only [writeAll, bind, written]
  exact synced

theorem format_healthy (crc : Crc) (args : Format) (d : Device) (healthy : d.Healthy)
    (room : blockSize * 3 ≤ d.capacity) :
    ∃ after, format crc args d = (.ok (newBlank crc args (UInt64.ofNat d.capacity)), after) ∧
      after.Healthy := by
  obtain ⟨after, written, still⟩ := write_all_healthy crc
    (newBlank crc args (UInt64.ofNat d.capacity)) d healthy room
  refine ⟨after, ?_, still⟩
  simp only [format, if_neg (Nat.not_lt.mpr room), bind, written]
  rfl

theorem commit_root_healthy (crc : Crc) (sb : Superblock) (new : RootPointer) (d : Device)
    (healthy : d.Healthy) (room : blockSize * 3 ≤ d.capacity) :
    ∃ after, sb.commitRoot crc new d = (.ok (), sb.withRoot crc new, after) ∧ after.Healthy := by
  obtain ⟨after, written, still⟩ := write_all_healthy crc (sb.withRoot crc new) d healthy room
  refine ⟨after, ?_, still⟩
  simp only [commitRoot, written]

end Superblock

end Mimisbrunnr.Storage
