import Mimisbrunnr.Storage.Device

/-!
# References to blocks and root pointers

A block reference names a block of 4 KiB by its number; the reference of zeros
names no block. A root pointer names the roots of all trees and carries its own
checksum.
-/

namespace Mimisbrunnr.Storage

set_option autoImplicit false

open Mimisbrunnr.Lib.Layout

structure BlockRef where
  diskId : UInt16
  pad : UInt16
  blockNo : UInt32
  generation : UInt64
deriving DecidableEq, Repr

namespace BlockRef

def layout : Pod BlockRef :=
  (Pod.u16.prod <| Pod.u16.prod <| Pod.u32.prod Pod.u64).map
    (fun (diskId, pad, blockNo, generation) => { diskId, pad, blockNo, generation })
    (fun ref => (ref.diskId, ref.pad, ref.blockNo, ref.generation))
    (fun _ => rfl)

def zero : BlockRef := { diskId := 0, pad := 0, blockNo := 0, generation := 0 }

def at_ (byteOffset : Nat) : BlockRef :=
  { diskId := 0, pad := 0, blockNo := UInt32.ofNat (byteOffset / blockSize), generation := 1 }

def offset (ref : BlockRef) : Nat := ref.blockNo.toNat * blockSize

theorem at_ne_zero (byteOffset : Nat) : at_ byteOffset ≠ zero := by
  intro same
  have generations := congrArg BlockRef.generation same
  exact absurd generations (by simp [at_, zero])

theorem offset_at (byteOffset : Nat) (aligned : blockSize ∣ byteOffset)
    (small : byteOffset < 2 ^ 32 * blockSize) : (at_ byteOffset).offset = byteOffset := by
  obtain ⟨blocks, rfl⟩ := aligned
  have few : blocks < 2 ^ 32 := by
    simp only [blockSize] at small
    omega
  have number : (at_ (blockSize * blocks)).blockNo.toNat = blocks := by
    rw [at_, UInt32.toNat_ofNat', Nat.mul_div_cancel_left _ (by decide)]
    exact Nat.mod_eq_of_lt few
  rw [offset, number, Nat.mul_comm]

theorem block_no_at_ne_zero (byteOffset : Nat) (aligned : blockSize ∣ byteOffset)
    (small : byteOffset < 2 ^ 32 * blockSize) (positive : 0 < byteOffset) :
    (at_ byteOffset).blockNo ≠ 0 := by
  intro none
  have found := offset_at byteOffset aligned small
  rw [offset, none] at found
  simp only [UInt32.toNat_zero, Nat.zero_mul] at found
  omega

end BlockRef

structure RootPointer where
  seq : UInt64
  lsn : UInt64
  objectTableRoot : BlockRef
  objectHistoryRoot : BlockRef
  locationTableRoot : BlockRef
  locationHistoryRoot : BlockRef
  forwardIndexRoot : BlockRef
  tagIndexRoot : BlockRef
  kvIndexRoot : BlockRef
  rangeIndexRoot : BlockRef
  chunkIndexRoot : BlockRef
  valueSpillRoot : BlockRef
  backpointerRoot : BlockRef
  ontologyRoot : BlockRef
  subscriptionsRoot : BlockRef
  poolStateRoot : BlockRef
  snapshotChainRoot : BlockRef
  reconcileWorkRoot : BlockRef
  reconcileHighPrioRoot : BlockRef
  reconcileWorkPhysRoot : BlockRef
  reconcileHighPrioPhysRoot : BlockRef
  reconcilePendingRoot : BlockRef
  reconcileScanRoot : BlockRef
  disksOverflowRoot : BlockRef
  placementRulesRoot : BlockRef
  clusterPeersRoot : BlockRef
  flags : UInt32
  crc : UInt32
deriving DecidableEq

namespace RootPointer

abbrev Body := UInt64 × UInt64 × List.Vector BlockRef 24 × UInt32

def bodyLayout : Pod Body :=
  Pod.u64.prod <| Pod.u64.prod <| (BlockRef.layout.row 24).prod Pod.u32

def refs (root : RootPointer) : List.Vector BlockRef 24 :=
  ⟨[root.objectTableRoot, root.objectHistoryRoot, root.locationTableRoot,
    root.locationHistoryRoot, root.forwardIndexRoot, root.tagIndexRoot, root.kvIndexRoot,
    root.rangeIndexRoot, root.chunkIndexRoot, root.valueSpillRoot, root.backpointerRoot,
    root.ontologyRoot, root.subscriptionsRoot, root.poolStateRoot, root.snapshotChainRoot,
    root.reconcileWorkRoot, root.reconcileHighPrioRoot, root.reconcileWorkPhysRoot,
    root.reconcileHighPrioPhysRoot, root.reconcilePendingRoot, root.reconcileScanRoot,
    root.disksOverflowRoot, root.placementRulesRoot, root.clusterPeersRoot], rfl⟩

def body (root : RootPointer) : Body := (root.seq, root.lsn, root.refs, root.flags)

def ofBody (body : Body) (crc : UInt32) : RootPointer :=
  let ref (index : Fin 24) : BlockRef := body.2.2.1.get index
  { seq := body.1
    lsn := body.2.1
    objectTableRoot := ref 0
    objectHistoryRoot := ref 1
    locationTableRoot := ref 2
    locationHistoryRoot := ref 3
    forwardIndexRoot := ref 4
    tagIndexRoot := ref 5
    kvIndexRoot := ref 6
    rangeIndexRoot := ref 7
    chunkIndexRoot := ref 8
    valueSpillRoot := ref 9
    backpointerRoot := ref 10
    ontologyRoot := ref 11
    subscriptionsRoot := ref 12
    poolStateRoot := ref 13
    snapshotChainRoot := ref 14
    reconcileWorkRoot := ref 15
    reconcileHighPrioRoot := ref 16
    reconcileWorkPhysRoot := ref 17
    reconcileHighPrioPhysRoot := ref 18
    reconcilePendingRoot := ref 19
    reconcileScanRoot := ref 20
    disksOverflowRoot := ref 21
    placementRulesRoot := ref 22
    clusterPeersRoot := ref 23
    flags := body.2.2.2
    crc := crc }

def layout : Pod RootPointer :=
  (bodyLayout.prod Pod.u32).map (fun (body, crc) => ofBody body crc)
    (fun root => (root.body, root.crc)) (fun _ => rfl)

theorem layout_size : layout.size = 408 := rfl

def crcOffset : Nat := 404

/-- The pointer of a blank superblock. -/
def zero : RootPointer :=
  { seq := 0
    lsn := 0
    objectTableRoot := BlockRef.zero
    objectHistoryRoot := BlockRef.zero
    locationTableRoot := BlockRef.zero
    locationHistoryRoot := BlockRef.zero
    forwardIndexRoot := BlockRef.zero
    tagIndexRoot := BlockRef.zero
    kvIndexRoot := BlockRef.zero
    rangeIndexRoot := BlockRef.zero
    chunkIndexRoot := BlockRef.zero
    valueSpillRoot := BlockRef.zero
    backpointerRoot := BlockRef.zero
    ontologyRoot := BlockRef.zero
    subscriptionsRoot := BlockRef.zero
    poolStateRoot := BlockRef.zero
    snapshotChainRoot := BlockRef.zero
    reconcileWorkRoot := BlockRef.zero
    reconcileHighPrioRoot := BlockRef.zero
    reconcileWorkPhysRoot := BlockRef.zero
    reconcileHighPrioPhysRoot := BlockRef.zero
    reconcilePendingRoot := BlockRef.zero
    reconcileScanRoot := BlockRef.zero
    disksOverflowRoot := BlockRef.zero
    placementRulesRoot := BlockRef.zero
    clusterPeersRoot := BlockRef.zero
    flags := 0
    crc := 0 }

def computeCrc (crc : Crc) (root : RootPointer) : UInt32 :=
  crc ((layout.toBytes root).take crcOffset)

def recomputeCrc (crc : Crc) (root : RootPointer) : RootPointer :=
  { root with crc := root.computeCrc crc }

def verifyCrc (crc : Crc) (root : RootPointer) : Bool := root.crc = root.computeCrc crc

theorem compute_crc_slot (crc : Crc) (root : RootPointer) (slot : UInt32) :
    computeCrc crc { root with crc := slot } = root.computeCrc crc := by
  have whole (root : RootPointer) :
      (layout.toBytes root).take crcOffset = bodyLayout.toBytes root.body :=
    Pod.take_prod bodyLayout Pod.u32 (root.body, root.crc)
  rw [computeCrc, computeCrc, whole, whole]
  rfl

theorem verify_recompute (crc : Crc) (root : RootPointer) :
    (root.recomputeCrc crc).verifyCrc crc = true := by
  have same := compute_crc_slot crc root (root.computeCrc crc)
  exact decide_eq_true same.symm

end RootPointer

end Mimisbrunnr.Storage
