import Mimisbrunnr.Storage.RootPointer
import Mimisbrunnr.Types.Disk

/-!
# The pool state block

One block holds the descriptors of up to twelve disks, each of 256 bytes, with
a checksum behind them. Unused slots are zeros.
-/

namespace Mimisbrunnr.Pool

set_option autoImplicit false

open Mimisbrunnr.Lib.ByteStore
open Mimisbrunnr.Lib.Layout
open Mimisbrunnr.Storage
open Mimisbrunnr.Types

inductive PoolError where
  | storage (err : StorageError)
  | diskPathTooLong (len max : Nat)
  | invalidMediaType (raw : UInt8)
  | invalidStorageTier (raw : UInt8)
  | invalidDiskState (raw : UInt8)
  | emptyPool
  | diskNotFound (id : UInt16)
  | duplicateDiskId (id : UInt16)
  | diskOverflowUnsupported (count max : Nat)
  | nodeIdMismatch (disk pool diskSays : UInt16)
  | diskIdMismatch (expected actual : UInt16)
  | crcMismatch (expected actual : UInt32)
  | invalidBlockKind (kind : UInt16)
  | invalidPayload (message : String)
deriving DecidableEq, Repr

def diskPathInlineLen : Nat := 192

structure DiskDescriptorOnDisk where
  diskId : UInt16
  mediaType : UInt8
  tier : UInt8
  state : UInt8
  pad0 : UInt8
  pathLen : UInt8
  pad1 : UInt8
  capacityBytes : UInt64
  usedBytes : UInt64
  bucketCount : UInt32
  firstUsableBucket : UInt32
  bucketsRoot : BlockRef
  freespaceRoot : BlockRef
  path : List.Vector UInt8 192

namespace DiskDescriptorOnDisk

def layout : Pod DiskDescriptorOnDisk :=
  (Pod.u16.prod <| Pod.u8.prod <| Pod.u8.prod <| Pod.u8.prod <| Pod.u8.prod <| Pod.u8.prod <|
    Pod.u8.prod <| Pod.u64.prod <| Pod.u64.prod <| Pod.u32.prod <| Pod.u32.prod <|
    BlockRef.layout.prod <| BlockRef.layout.prod (Pod.array 192)).map
    (fun (diskId, mediaType, tier, state, pad0, pathLen, pad1, capacityBytes, usedBytes,
        bucketCount, firstUsableBucket, bucketsRoot, freespaceRoot, path) =>
      { diskId, mediaType, tier, state, pad0, pathLen, pad1, capacityBytes, usedBytes,
        bucketCount, firstUsableBucket, bucketsRoot, freespaceRoot, path })
    (fun d => (d.diskId, d.mediaType, d.tier, d.state, d.pad0, d.pathLen, d.pad1,
      d.capacityBytes, d.usedBytes, d.bucketCount, d.firstUsableBucket, d.bucketsRoot,
      d.freespaceRoot, d.path))
    (fun _ => rfl)

theorem layout_size : layout.size = 256 := rfl

/-- A descriptor of zeros. -/
def default : DiskDescriptorOnDisk :=
  { diskId := 0
    mediaType := 0
    tier := 0
    state := 0
    pad0 := 0
    pathLen := 0
    pad1 := 0
    capacityBytes := 0
    usedBytes := 0
    bucketCount := 0
    firstUsableBucket := 0
    bucketsRoot := BlockRef.zero
    freespaceRoot := BlockRef.zero
    path := List.Vector.replicate 192 0 }

def new (diskId : UInt16) (mediaType : MediaType) (tier : StorageTier) (state : DiskState)
    (capacityBytes : UInt64) (path : List UInt8) : Except PoolError DiskDescriptorOnDisk :=
  if diskPathInlineLen < path.length then
    .error (.diskPathTooLong path.length diskPathInlineLen)
  else
    .ok
      { default with
        diskId := diskId
        mediaType := mediaType.toU8
        tier := tier.toU8
        state := state.toU8
        pathLen := UInt8.ofNat path.length
        capacityBytes := capacityBytes
        path := (Pod.array 192).ofBytes path }

def stateTyped (d : DiskDescriptorOnDisk) : Except PoolError DiskState :=
  match DiskState.fromU8 d.state with
  | some state => .ok state
  | none => .error (.invalidDiskState d.state)

end DiskDescriptorOnDisk

def poolStateRootInlineDisks : Nat := 12

/-- The fields before the checksum. -/
structure PoolStateRoot where
  header : BlockHeader
  diskCount : UInt32
  clusterNodeCount : UInt32
  inlineDisks : List.Vector DiskDescriptorOnDisk 12
  reserved : List.Vector UInt8 980

namespace PoolStateRoot

def body : Pod PoolStateRoot :=
  (BlockHeader.layout.prod <| Pod.u32.prod <| Pod.u32.prod <|
    (DiskDescriptorOnDisk.layout.row 12).prod (Pod.array 980)).map
    (fun (header, diskCount, clusterNodeCount, inlineDisks, reserved) =>
      { header, diskCount, clusterNodeCount, inlineDisks, reserved })
    (fun psr => (psr.header, psr.diskCount, psr.clusterNodeCount, psr.inlineDisks, psr.reserved))
    (fun _ => rfl)

private theorem body_size : body.size = 4092 := rfl

@[simp] theorem length_block (psr : PoolStateRoot) (crc : Crc) :
    (sealed crc body psr).length = blockSize := by
  rw [length_sealed, body_size]
  rfl

def newBlank : PoolStateRoot :=
  { header := BlockHeader.new .poolStateRoot 1 (UInt32.ofNat (blockSize - 32 - 4))
    diskCount := 0
    clusterNodeCount := 0
    inlineDisks := List.Vector.replicate 12 DiskDescriptorOnDisk.default
    reserved := List.Vector.replicate 980 0 }

def inlineDiskCount (psr : PoolStateRoot) : Nat :=
  min psr.diskCount.toNat poolStateRootInlineDisks

/-- The given descriptors and behind them empty slots. -/
def setInlineDisks (psr : PoolStateRoot) (disks : List DiskDescriptorOnDisk) :
    Except PoolError PoolStateRoot :=
  if poolStateRootInlineDisks < disks.length then
    .error (.diskOverflowUnsupported disks.length poolStateRootInlineDisks)
  else
    .ok
      { psr with
        inlineDisks :=
          ⟨(disks ++ List.replicate 12 DiskDescriptorOnDisk.default).take 12, by simp⟩
        diskCount := UInt32.ofNat disks.length }

def inlineIter (psr : PoolStateRoot) : List DiskDescriptorOnDisk :=
  psr.inlineDisks.toList.take psr.inlineDiskCount

def validateHeader (psr : PoolStateRoot) : Except PoolError Unit :=
  if psr.header.magic ≠ blockMagic then
    .error (.invalidPayload
      ("bad block preamble magic: " ++ toString (psr.header.magic.toList.map UInt8.toNat)))
  else if psr.header.kind ≠ BlockKind.toU16 .poolStateRoot then
    .error (.invalidBlockKind psr.header.kind)
  else .ok ()

def write (crc : Crc) (psr : PoolStateRoot) (offset : Nat) : DeviceM StorageError Unit :=
  DeviceM.writeAt offset (sealed crc body psr)

def read (crc : Crc) (d : Device) (offset : Nat) : Except PoolError PoolStateRoot := do
  let bytes ← (d.readAt offset blockSize).mapError PoolError.storage
  let psr := bodyOf body bytes
  psr.validateHeader
  match brokenSeal crc body bytes with
  | some (expected, actual) => .error (.crcMismatch expected actual)
  | none => .ok psr

theorem inline_iter_set (psr after : PoolStateRoot) (disks : List DiskDescriptorOnDisk)
    (ok : psr.setInlineDisks disks = .ok after) :
    after.inlineIter = disks ∧ after.header = psr.header := by
  unfold setInlineDisks at ok
  split at ok
  · cases ok
  · next few =>
      cases ok
      have bound : disks.length ≤ 12 := Nat.le_of_not_lt few
      have count : (UInt32.ofNat disks.length).toNat = disks.length := by
        rw [UInt32.toNat_ofNat']
        exact Nat.mod_eq_of_lt (by omega)
      refine ⟨?_, rfl⟩
      rw [inlineIter, inlineDiskCount]
      simp only [List.Vector.toList_mk, count, poolStateRootInlineDisks, Nat.min_eq_left bound]
      rw [List.take_take, Nat.min_eq_left bound, List.take_left]

theorem read_stored (crc : Crc) (psr : PoolStateRoot) (d : Device) (offset : Nat)
    (header : psr.header = newBlank.header)
    (stored : d.readAt offset blockSize = .ok (sealed crc body psr)) :
    read crc d offset = .ok psr := by
  have valid : psr.validateHeader = .ok () := by
    rw [validateHeader, header]
    rfl
  simp only [read, stored, Except.mapError, bind, Except.bind, body_of_sealed, valid,
    broken_seal_sealed]

end PoolStateRoot

end Mimisbrunnr.Pool
