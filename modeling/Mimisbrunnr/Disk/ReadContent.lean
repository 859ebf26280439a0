import Mimisbrunnr.Disk.Lifecycle

/-!
# What is loaded from a device

Loading uses the device only to read, so two devices that give the same bytes give the
same engine.
-/

namespace Mimisbrunnr

set_option autoImplicit false

open Mimisbrunnr.Index
open Mimisbrunnr.Lib
open Mimisbrunnr.Lib.FiniteMap
open Mimisbrunnr.Meta
open Mimisbrunnr.Ontology
open Mimisbrunnr.Storage
open Mimisbrunnr.Types
open Mimisbrunnr.Wal
open Mimisbrunnr.Watch

variable {d e : Device} (same : e.readAt = d.readAt)

include same

section

variable {κ ν : Type} (crc : Crc) (codec : RunCodec κ ν)

private theorem read_runs_content (offset payloadEnd count : Nat) :
    ∀ cursor, readRuns crc codec e offset payloadEnd count cursor =
      readRuns crc codec d offset payloadEnd count cursor := by
  induction count with
  | zero => exact fun _ => rfl
  | succ count ih =>
      intro cursor
      simp only [readRuns, same, ih]

theorem load_table_content [LinearOrder κ] (kind : BtreeKind) (offset : Nat) :
    loadTable crc codec kind e offset = loadTable crc codec kind d offset := by
  simp only [loadTable, isBlank, readWith, same, read_runs_content same]

end

private theorem read_leaf_content {α : Type} (shape : LeafShape α) (offset : Nat) :
    Leaf.read shape e offset = Leaf.read shape d offset := by
  simp only [Leaf.read, same]

theorem read_bitmap_page_content (crc : Crc) (offset : Nat) :
    TagBitmapPage.read crc e offset = TagBitmapPage.read crc d offset := by
  simp only [TagBitmapPage.read, same]

private theorem read_kv_entries_content (env : KvRegionEnv) (entries : List KvBucketEntry) :
    ∀ found, readKvEntries env e entries found = readKvEntries env d entries found := by
  induction entries with
  | nil => exact fun _ => rfl
  | cons entry rest ih =>
      intro found
      simp only [readKvEntries, read_bitmap_page_content same, ih]

private theorem read_kv_buckets_content (env : KvRegionEnv) (directory : KvDirectoryBlock)
    (indices : List Nat) :
    ∀ seen found, readKvBuckets env e directory indices seen found =
      readKvBuckets env d directory indices seen found := by
  induction indices with
  | nil => exact fun _ _ => rfl
  | cons index rest ih =>
      intro seen found
      simp only [readKvBuckets, KvBucketBlock.read, same, read_kv_entries_content same, ih]

private theorem load_kv_content (env : KvRegionEnv) (offset : Nat) :
    KvIndex.loadFromRegion env e offset = KvIndex.loadFromRegion env d offset := by
  simp only [KvIndex.loadFromRegion, isBlank, KvDirectoryBlock.read, same,
    read_kv_buckets_content same]

private theorem read_overflow_content (allowance : Nat) :
    ∀ current, readOverflowRegions e allowance current =
      readOverflowRegions d allowance current := by
  induction allowance with
  | zero => exact fun _ => rfl
  | succ allowance ih =>
      intro current
      simp only [readOverflowRegions, readOverflowRegion, same, ih]

private theorem forward_entries_content (leaves : List (ForwardIndexKey × List UInt8)) :
    ∀ entries, ForwardIndex.fromLeafEntries e leaves entries =
      ForwardIndex.fromLeafEntries d leaves entries := by
  induction leaves with
  | nil => exact fun _ => rfl
  | cons leaf rest ih =>
      intro entries
      obtain ⟨key, value⟩ := leaf
      simp only [ForwardIndex.fromLeafEntries, readLeaf, readOverflowChain,
        read_overflow_content same, ih]

private theorem load_forward_content (env : ForwardRegionEnv) (offset : Nat) :
    ForwardIndex.loadFromRegion env e offset = ForwardIndex.loadFromRegion env d offset := by
  simp only [ForwardIndex.loadFromRegion, load_table_content same, forward_entries_content same]

private theorem read_chunks_content (crc : Crc) (fuel : Nat) :
    ∀ head, readChunks crc e fuel head = readChunks crc d fuel head := by
  induction fuel with
  | zero => exact fun _ => rfl
  | succ fuel ih =>
      intro head
      simp only [readChunks, read_bitmap_page_content same, ih]

private theorem tag_entries_content (env : TagRegionEnv) (fuel : Nat)
    (leaves : List (TagIndexKey × TagIndexValue)) :
    ∀ stores, TagIndex.fromLeafEntries env e fuel leaves stores =
      TagIndex.fromLeafEntries env d fuel leaves stores := by
  induction leaves with
  | nil => exact fun _ => rfl
  | cons leaf rest ih =>
      intro stores
      obtain ⟨key, value⟩ := leaf
      simp only [TagIndex.fromLeafEntries, readBitmapChain, read_chunks_content same, ih]

private theorem load_tag_content (env : TagRegionEnv) (fuel offset : Nat) :
    TagIndex.loadFromRegion env fuel e offset = TagIndex.loadFromRegion env fuel d offset := by
  simp only [TagIndex.loadFromRegion, load_table_content same, tag_entries_content same]

namespace MountedEngine

theorem region_loads_content (env : ZoneEnv) (fuel zoneOffset : Nat) (root : RootPointer)
    (nodeId : UInt16) : regionLoads env fuel e zoneOffset root nodeId =
      regionLoads env fuel d zoneOffset root nodeId := by
  simp only [regionLoads, ChunkIndex.loadFromRegion, RangeIndex.loadFromRegion, loadObjectTable,
    loadLocationTable, OntologyState.loadFromRegion, SubscriptionEngine.loadFromRegion,
    SubscriptionEngine.storedRecords, BackpointerTable.loadFromRegion,
    BucketAllocTable.loadFromRegion, FreespaceLru.loadFromRegion, load_table_content same,
    read_leaf_content same, load_kv_content same, load_forward_content same, load_tag_content same]

theorem read_index_blob_content (env : ZoneEnv) (sb : Superblock) :
    readIndexBlob env e sb = readIndexBlob env d sb := by
  simp only [readIndexBlob, same]

theorem scan_content (crc : Crc) (wal : Wal) (start count : Nat) :
    ∀ cursor, wal.scan crc e start count cursor = wal.scan crc d start count cursor := by
  induction count with
  | zero => exact fun _ => rfl
  | succ count ih =>
      intro cursor
      simp only [Wal.scan, same, ih]

theorem wal_open_content (crc : Crc) (offset size : Nat) :
    Wal.open crc e offset size = Wal.open crc d offset size := by
  simp only [Wal.open, same]

end MountedEngine

end Mimisbrunnr
