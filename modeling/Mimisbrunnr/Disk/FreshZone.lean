import Mimisbrunnr.Disk.Mounting

/-!
# A zone that was never written

A region is probed before it is read: where the probe holds only zeros the region
stands for an empty table. An index zone of zeros gives an engine without objects,
whatever the fuel.
-/

namespace Mimisbrunnr

set_option autoImplicit false

open Mimisbrunnr.Index
open Mimisbrunnr.Lib.ByteStore
open Mimisbrunnr.Lib.FiniteMap
open Mimisbrunnr.Lib.Layout
open Mimisbrunnr.Meta
open Mimisbrunnr.Ontology
open Mimisbrunnr.Pool
open Mimisbrunnr.Storage
open Mimisbrunnr.Types
open Mimisbrunnr.Wal
open Mimisbrunnr.Watch

def ZeroBetween (bytes : Bytes) (start stop : Nat) : Prop :=
  ∀ address, start ≤ address → address < stop → bytes address = 0

theorem zero_between_congr {before after : Bytes} {start stop : Nat}
    (zero : ZeroBetween before start stop)
    (same : ∀ address, start ≤ address → address < stop → after address = before address) :
    ZeroBetween after start stop := by
  intro address above below
  rw [same address above below]
  exact zero address above below

section

variable {d : Device} {offset : Nat}

private theorem read_zeros {stop : Nat} (zero : ZeroBetween d.bytes offset stop) (length : Nat)
    (inside : offset + length ≤ stop) : read d.bytes offset length = List.replicate length 0 := by
  apply List.ext_getElem?
  intro index
  by_cases below : index < length
  · rw [get_read d.bytes offset length index below, List.getElem?_replicate, if_pos below]
    exact congrArg some (zero _ (Nat.le_add_right _ _) (by omega))
  · rw [List.getElem?_eq_none (by rw [length_read]; omega),
      List.getElem?_eq_none (by rw [List.length_replicate]; omega)]

theorem probe_zeros (zero : ZeroBetween d.bytes offset (offset + 8))
    (inside : offset + 8 ≤ d.capacity) : d.readAt offset 8 = .ok (List.replicate 8 0) := by
  rw [Device.read_at_ok d offset 8 inside, read_zeros zero 8 (Nat.le_refl _)]

theorem is_blank_zeros (zero : ZeroBetween d.bytes offset (offset + 8))
    (inside : offset + 8 ≤ d.capacity) : isBlank d offset = .ok true := by
  rw [isBlank, probe_zeros zero inside]
  rfl

private theorem load_table_zeros {κ ν : Type} [LinearOrder κ] (crc : Crc) (codec : RunCodec κ ν)
    (kind : BtreeKind) (zero : ZeroBetween d.bytes offset (offset + 8))
    (inside : offset + 8 ≤ d.capacity) : loadTable crc codec kind d offset = .ok [] := by
  rw [loadTable, is_blank_zeros zero inside]
  rfl

theorem leaf_zeros {α : Type} (shape : LeafShape α)
    (zero : ZeroBetween d.bytes offset (offset + 8)) (inside : offset + 8 ≤ d.capacity) :
    Leaf.read shape d offset = .ok (Leaf.new shape) := by
  rw [Leaf.read, probe_zeros zero inside]
  rfl

private theorem no_slots {α : Type} (count : Nat) :
    (List.replicate count (none : Option α)).filterMap id = [] := by
  rw [List.filterMap_replicate_of_none rfl]

private theorem object_table_zeros (zero : ZeroBetween d.bytes offset (offset + 8))
    (inside : offset + 8 ≤ d.capacity) : loadObjectTable d offset = .ok ∅ := by
  rw [loadObjectTable, leaf_zeros objectLeaf zero inside]
  change Except.ok (ofEntries (((List.replicate _ none).filterMap id).map _)) = _
  rw [no_slots]
  rfl

private theorem location_table_zeros (nodeId : UInt16)
    (zero : ZeroBetween d.bytes offset (offset + 8))
    (inside : offset + 8 ≤ d.capacity) : loadLocationTable d offset nodeId = .ok ∅ := by
  rw [loadLocationTable, leaf_zeros locationLeaf zero inside]
  change Except.ok (ofEntries (slotEntries nodeId (List.replicate _ none))) = _
  have none_ : slotEntries nodeId (List.replicate locationLeaf.records none) = [] := by
    rw [slotEntries, List.filterMap_eq_nil_iff]
    intro entry member
    obtain ⟨slot, below, here⟩ := List.mem_iff_getElem.mp member
    rw [List.getElem_mapIdx, List.getElem_replicate] at here
    rw [← here]
    rfl
  rw [none_]
  rfl

end

namespace MountedEngine

private theorem load_in_turn_same
    (loads : List (MountedEngine → Option (Except EngineError MountedEngine)))
    (m : MountedEngine) (same : ∀ load ∈ loads, load m = some (.ok m)) :
    loadInTurn loads m = some (.ok (), m) := by
  induction loads with
  | nil => rfl
  | cons load rest ih =>
      rw [List.forall_mem_cons] at same
      rw [loadInTurn, same.1]
      exact ih same.2

private theorem load_region_empty {α ε : Type} (ref : BlockRef) (fallback : α)
    (load : Nat → Option (Except ε α)) (wrap : ε → EngineError) (set : α → MountedEngine)
    (empty : load ref.offset = some (.ok fallback)) :
    loadRegion ref fallback load wrap set = some (.ok (set fallback)) := by
  unfold loadRegion
  split
  · rfl
  · rw [empty]
    rfl

/-- The trees that a root names. -/
def treeRefs (root : RootPointer) : List BlockRef :=
  [root.chunkIndexRoot, root.kvIndexRoot, root.forwardIndexRoot, root.tagIndexRoot,
    root.rangeIndexRoot, root.objectTableRoot, root.locationTableRoot, root.ontologyRoot,
    root.subscriptionsRoot, root.backpointerRoot]

private theorem trees_before_blob (sb : Superblock) (laid : LaidOut sb) :
    ∀ ref ∈ treeRefs sb.activeRootPointer, zoneStart ≤ ref.offset ∧ ref.offset + 8 ≤ blobStart := by
  obtain ⟨diskId, seeded⟩ := laid.seeded
  have placed (offset : Nat) (aligned : offset % blockSize = 0)
      (before : offset + 8 ≤ legacyCborBlobOffset) :
      zoneStart ≤ (rootRefFor diskId fmtIndexZoneOffset.toNat offset).offset ∧
        (rootRefFor diskId fmtIndexZoneOffset.toNat offset).offset + 8 ≤ blobStart := by
    have here : (rootRefFor diskId fmtIndexZoneOffset.toNat offset).offset = zoneStart + offset := by
      apply root_ref_offset
      · rw [zone_start_eq]
        simp only [zoneStart, blockSize] at aligned ⊢
        omega
      · rw [zone_start_eq]
        simp only [zoneStart, blockSize, legacyCborBlobOffset] at before ⊢
        omega
    rw [here, blobStart]
    omega
  rw [← seeded]
  simp only [treeRefs, seedRootPointer, List.forall_mem_cons, List.not_mem_nil, false_implies,
    implies_true, and_true]
  refine ⟨?_, ?_, ?_, ?_, ?_, ?_, ?_, ?_, ?_, ?_⟩
  all_goals exact placed _ (by decide) (by decide)

section

variable (env : LifecycleEnv) (fuel : Nat) (config : PoolConfig) (handle : FileBlockDevice)
  (files : FileSystem) (sb : Superblock) (wal : Wal) (d : Device)

theorem region_loads_zeros (laid : LaidOut sb)
    (zero : ZeroBetween d.bytes zoneStart (blobStart + 8)) (room : blobStart + 8 ≤ d.capacity) :
    ∀ load ∈ regionLoads env.toZoneEnv fuel d zoneStart sb.activeRootPointer config.nodeId,
      load (blank config handle files sb wal) = some (.ok (blank config handle files sb wal)) := by
  have probe (offset : Nat) (above : zoneStart ≤ offset) (below : offset + 8 ≤ blobStart) :
      ZeroBetween d.bytes offset (offset + 8) ∧ offset + 8 ≤ d.capacity :=
    ⟨fun address least most => zero address (by omega) (by omega), by omega⟩
  have refs := trees_before_blob sb laid
  simp only [treeRefs, List.forall_mem_cons, List.not_mem_nil, false_implies, implies_true,
    and_true] at refs
  obtain ⟨chunk, kv, forward, tag, range, object, location, ontology, subscriptions, backpointer⟩ :=
    refs
  simp only [regionLoads, List.forall_mem_cons, List.not_mem_nil, false_implies, implies_true,
    and_true]
  refine ⟨?_, ?_, ?_, ?_, ?_, ?_, ?_, ?_, ?_, ?_, ?_, ?_⟩
  · obtain ⟨here, inside⟩ := probe _ chunk.1 chunk.2
    apply load_region_empty
    rw [ChunkIndex.loadFromRegion, load_table_zeros _ _ _ here inside]
    rfl
  · obtain ⟨here, inside⟩ := probe _ kv.1 kv.2
    apply load_region_empty
    rw [KvIndex.loadFromRegion, is_blank_zeros here inside]
    rfl
  · obtain ⟨here, inside⟩ := probe _ forward.1 forward.2
    apply load_region_empty
    rw [ForwardIndex.loadFromRegion, load_table_zeros _ _ _ here inside]
    rfl
  · obtain ⟨here, inside⟩ := probe _ tag.1 tag.2
    apply load_region_empty
    rw [TagIndex.loadFromRegion, load_table_zeros _ _ _ here inside]
    rfl
  · obtain ⟨here, inside⟩ := probe _ range.1 range.2
    apply load_region_empty
    rw [RangeIndex.loadFromRegion, load_table_zeros _ _ _ here inside]
    rfl
  · obtain ⟨here, inside⟩ := probe _ object.1 object.2
    apply load_region_empty
    rw [object_table_zeros here inside]
  · obtain ⟨here, inside⟩ := probe _ location.1 location.2
    apply load_region_empty
    rw [location_table_zeros _ here inside]
  · obtain ⟨here, inside⟩ := probe _ ontology.1 ontology.2
    apply load_region_empty
    rw [OntologyState.loadFromRegion, load_table_zeros _ _ _ here inside]
    rfl
  · obtain ⟨here, inside⟩ := probe _ subscriptions.1 subscriptions.2
    apply load_region_empty
    rw [SubscriptionEngine.loadFromRegion, SubscriptionEngine.storedRecords,
      load_table_zeros _ _ _ here inside]
    rfl
  · obtain ⟨here, inside⟩ := probe _ backpointer.1 backpointer.2
    apply load_region_empty
    rw [BackpointerTable.loadFromRegion, load_table_zeros _ _ _ here inside]
    rfl
  -- the two regions that no root names
  · obtain ⟨here, inside⟩ := probe (zoneStart + bucketAllocRegionOffset) (by decide) (by decide)
    rw [BucketAllocTable.loadFromRegion, load_table_zeros _ _ _ here inside]
    rfl
  · obtain ⟨here, inside⟩ := probe (zoneStart + freespaceLruRegionOffset) (by decide) (by decide)
    rw [FreespaceLru.loadFromRegion, load_table_zeros _ _ _ here inside]
    rfl

private theorem index_blob_zeros (laid : LaidOut sb)
    (zero : ZeroBetween d.bytes blobStart (blobStart + 8)) (room : blobStart + 8 ≤ d.capacity) :
    readIndexBlob env.toZoneEnv d sb = .ok none := by
  have long : ¬ sb.indexZone.length.toNat < legacyCborBlobOffset + 8 := by
    rw [laid.zoneLength]
    decide
  have header : d.readAt (sb.indexZone.offset.toNat + legacyCborBlobOffset) 8 =
      .ok (List.replicate 8 0) := by
    rw [laid.zoneOffset]
    exact probe_zeros zero room
  unfold readIndexBlob
  dsimp only
  rw [if_neg long, header]
  rfl

theorem load_index_state_zeros (laid : LaidOut sb)
    (zero : ZeroBetween (files.device handle).bytes zoneStart (blobStart + 8))
    (room : blobStart + 8 ≤ handle.capacity) :
    (blank config handle files sb wal).loadIndexState env.toZoneEnv fuel =
      some (.ok (), blank config handle files sb wal) := by
  have start : zoneStart ≤ blobStart := by decide
  have offset : (blank config handle files sb wal).zoneOffset = zoneStart := by
    change sb.indexZone.offset.toNat = zoneStart
    rw [laid.zoneOffset]
    rfl
  have regions : loadAllRegions env.toZoneEnv fuel (blank config handle files sb wal)
      (blank config handle files sb wal).device (blank config handle files sb wal).zoneOffset
      (blank config handle files sb wal).superblock.activeRootPointer
      (blank config handle files sb wal).engine.nodeId =
        some (.ok (), blank config handle files sb wal) := by
    rw [offset]
    exact load_in_turn_same _ _
      (region_loads_zeros env fuel config handle files sb wal (files.device handle) laid zero room)
  have blob : readIndexBlob env.toZoneEnv (blank config handle files sb wal).device
      (blank config handle files sb wal).superblock = .ok none :=
    index_blob_zeros env sb (files.device handle) laid
      (fun address above below => zero address (by omega) below) room
  rw [loadIndexState, regions]
  dsimp only
  rw [loadBlob, blob]

end

end MountedEngine

end Mimisbrunnr
