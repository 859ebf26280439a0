import Mimisbrunnr.Disk.Lifecycle
import Mimisbrunnr.Storage.Confinement

/-!
# What a save leaves in the zone

The regions are written one after another and the blob behind them, all of it
behind the start of the zone. Nothing that is written after the object table
reaches its region, and nothing is written after the blob.
-/

namespace Mimisbrunnr

set_option autoImplicit false

open Mimisbrunnr.Index
open Mimisbrunnr.Lib.ByteStore
open Mimisbrunnr.Lib.FiniteMap
open Mimisbrunnr.Lib.Layout
open Mimisbrunnr.Meta
open Mimisbrunnr.Ontology
open Mimisbrunnr.Pool
open Mimisbrunnr.Storage
open Mimisbrunnr.Types
open Mimisbrunnr.Watch

section

variable {limit : Nat}

private theorem confines_kv_pages (env : KvRegionEnv) (offset globalDepth : Nat)
    (above : limit ≤ offset)
    (entries : List ((TagId × UInt64) × Finset Nat)) :
    ∀ slot buckets, Confines limit (writeKvPages env offset globalDepth slot entries buckets) := by
  induction entries with
  | nil =>
      intro slot buckets
      exact confines_pure buckets
  | cons entry rest ih =>
      intro slot buckets
      apply confines_bind (confines_lift _)
      intro page
      apply confines_bind (confines_map_error (confines_map_error (confines_write _ _ ?_) _) _)
      · intro _
        apply confines_bind (confines_lift _)
        intro bucket
        exact ih _ _
      · omega

private theorem confines_kv_buckets (env : KvRegionEnv) (offset : Nat) (above : limit ≤ offset)
    (buckets : List KvBucketBlock) :
    ∀ slot, Confines limit (writeKvBuckets env offset slot buckets) := by
  induction buckets with
  | nil =>
      intro slot
      exact confines_pure ()
  | cons bucket rest ih =>
      intro slot
      apply confines_bind (confines_map_error (confines_map_error (confines_write _ _ ?_) _) _)
      · intro _
        exact ih _
      · omega

private theorem confines_kv_flush (env : KvRegionEnv) (index : KvIndex) (offset : Nat)
    (above : limit ≤ offset) : Confines limit (index.flushToRegion env offset) := by
  unfold KvIndex.flushToRegion
  dsimp only
  split
  · exact confines_lift _
  · split
    · exact confines_lift _
    · apply confines_bind (confines_kv_pages env offset _ above _ _ _)
      intro buckets
      apply confines_bind (confines_kv_buckets env offset above buckets 1)
      intro _
      apply confines_bind (confines_lift _)
      intro blank
      exact confines_map_error (confines_map_error (confines_write _ _ above) _) _

private theorem confines_overflow_regions (area : Nat) (above : limit ≤ area)
    (pieces : List (List PackedAssertion)) :
    ∀ slot, Confines limit (writeOverflowRegions area slot pieces) := by
  induction pieces with
  | nil =>
      intro slot
      exact confines_pure _
  | cons piece rest ih =>
      intro slot
      apply confines_bind (ih _)
      intro next
      apply confines_bind (confines_map_error (confines_write _ _ ?_) _)
      · intro _
        exact confines_pure _
      · omega

private theorem confines_leaf (area cap slot : Nat) (above : limit ≤ area)
    (packed : List PackedAssertion) : Confines limit (writeLeaf area cap slot packed) := by
  unfold writeLeaf
  split
  · exact confines_lift _
  · split
    · exact confines_pure _
    · apply confines_bind
      · unfold writeOverflowChain
        dsimp only
        split
        · exact confines_lift _
        · apply confines_bind (confines_overflow_regions area above _ _)
          intro head
          exact confines_pure _
      · intro (head, next)
        exact confines_pure _

private theorem confines_leaves (hash : ValueHash) (area cap : Nat) (above : limit ≤ area)
    (objects : List (UInt64 × List (Assertion × TagOrigin))) :
    ∀ slot, Confines limit (writeLeaves hash area cap slot objects) := by
  induction objects with
  | nil =>
      intro slot
      exact confines_pure _
  | cons object rest ih =>
      intro slot
      apply confines_bind (confines_leaf area cap slot above _)
      intro (tail, next)
      apply confines_bind (ih _)
      intro (leaves, last)
      exact confines_pure _

private theorem confines_forward_flush (env : ForwardRegionEnv) (index : ForwardIndex)
    (dirOffset area cap : Nat) (above : limit ≤ dirOffset) (behind : limit ≤ area) :
    Confines limit (index.flushToRegion env dirOffset area cap) := by
  apply confines_bind (confines_leaves env.hash area cap behind _ 0)
  intro (leaves, slots)
  apply confines_bind (confines_map_error (confines_flush_table _ _ _ _ _ above) _)
  intro _
  exact confines_pure _

private theorem confines_chunks (crc : Crc) (area : Nat) (above : limit ≤ area)
    (pieces : List (List UInt8)) : ∀ slot, Confines limit (writeChunks crc area slot pieces) := by
  induction pieces with
  | nil =>
      intro slot
      exact confines_pure _
  | cons piece rest ih =>
      intro slot
      apply confines_bind (ih _)
      intro next
      apply confines_bind (confines_map_error (confines_map_error (confines_write _ _ ?_) _) _)
      · intro _
        exact confines_pure _
      · omega

private theorem confines_stores (crc : Crc) (roaring : Roaring) (area cap : Nat)
    (above : limit ≤ area)
    (stores : List (TagId × TagStore)) :
    ∀ slot, Confines limit (writeStores crc roaring area cap slot stores) := by
  induction stores with
  | nil =>
      intro slot
      exact confines_pure _
  | cons entry rest ih =>
      intro slot
      unfold writeStores
      dsimp only
      split
      · exact confines_lift _
      · apply confines_bind
        · unfold writeBitmapChain
          dsimp only
          split
          · exact confines_lift _
          · apply confines_bind (confines_chunks crc area above _ _)
            intro head
            exact confines_pure _
        · intro (root, next)
          apply confines_bind (ih _)
          intro (leaves, last)
          exact confines_pure _

private theorem confines_tag_flush (env : TagRegionEnv) (index : TagIndex)
    (dirOffset area cap : Nat)
    (above : limit ≤ dirOffset) (behind : limit ≤ area) :
    Confines limit (index.flushToRegion env dirOffset area cap) := by
  apply confines_bind (confines_lift _)
  intro _
  apply confines_bind (confines_stores env.crc env.roaring area cap behind _ 0)
  intro (leaves, slots)
  apply confines_bind (confines_map_error (confines_flush_table _ _ _ _ _ above) _)
  intro _
  exact confines_pure _

private theorem confines_leaf_flush {α : Type} (shape : LeafShape α) (entries : List (UInt64 × α))
    (offset : Nat) (above : limit ≤ offset) :
    Confines limit (do
      let leaf ← DeviceM.lift (fillLeaf entries (Leaf.new shape))
      leaf.write offset : DeviceM MetaError Unit) := by
  apply confines_bind (confines_lift _)
  intro leaf
  exact confines_map_error (confines_write _ _ above) _

private theorem confines_subscriptions_flush (env : SubscriptionRegionEnv) (s : SubscriptionEngine)
    (offset : Nat) (above : limit ≤ offset) : Confines limit (s.flushToRegion env offset) := by
  apply confines_bind (confines_lift _)
  intro entries
  exact confines_map_error (confines_flush_table _ _ _ _ _ above) _

end

/-- A superblock with the zones where formatting puts them and the trees at their places. -/
structure LaidOut (sb : Superblock) : Prop where
  magic : sb.magicFull = superblockMagicFull
  walOffset : sb.walOffset = fmtWalOffset
  walSize : sb.walSize = fmtWalSize
  zoneOffset : sb.indexZone.offset = fmtIndexZoneOffset
  zoneLength : sb.indexZone.length = fmtIndexZoneSize
  seeded : ∃ diskId,
    seedRootPointer sb.activeRootPointer diskId fmtIndexZoneOffset.toNat = sb.activeRootPointer

def zoneStart : Nat := 1088 * 1024

def objectTableStart : Nat := zoneStart + objectTableRegionOffset

def blobStart : Nat := zoneStart + legacyCborBlobOffset

theorem zone_start_eq : fmtIndexZoneOffset.toNat = zoneStart := rfl

theorem root_ref_offset (diskId : UInt16) (start offset : Nat) (aligned : blockSize ∣ start + offset)
    (small : start + offset < 2 ^ 32 * blockSize) :
    (rootRefFor diskId start offset).offset = start + offset := by
  exact BlockRef.offset_at (start + offset) aligned small

/-- Where the trees of the active root are. -/
structure TreesPlaced (root : RootPointer) : Prop where
  chunkIndex : zoneStart ≤ root.chunkIndexRoot.offset
  kvIndex : zoneStart ≤ root.kvIndexRoot.offset
  forwardIndex : zoneStart ≤ root.forwardIndexRoot.offset
  tagIndex : zoneStart ≤ root.tagIndexRoot.offset
  rangeIndex : zoneStart ≤ root.rangeIndexRoot.offset
  objectTable : root.objectTableRoot.offset = objectTableStart
  objectTableSome : isZero root.objectTableRoot = false
  locationTable : objectTableStart + regionSize ≤ root.locationTableRoot.offset
  ontology : objectTableStart + regionSize ≤ root.ontologyRoot.offset
  subscriptions : objectTableStart + regionSize ≤ root.subscriptionsRoot.offset
  backpointer : objectTableStart + regionSize ≤ root.backpointerRoot.offset

theorem trees_placed (sb : Superblock) (laid : LaidOut sb) : TreesPlaced sb.activeRootPointer := by
  obtain ⟨diskId, seeded⟩ := laid.seeded
  have placed (offset : Nat) (aligned : offset % blockSize = 0) (small : offset < 2 ^ 24) :
      (rootRefFor diskId fmtIndexZoneOffset.toNat offset).offset = zoneStart + offset := by
    apply root_ref_offset
    · rw [zone_start_eq]
      simp only [zoneStart, blockSize] at aligned ⊢
      omega
    · rw [zone_start_eq]
      simp only [zoneStart, blockSize]
      omega
  rw [← seeded]
  simp only [seedRootPointer]
  constructor
  · rw [placed _ (by decide) (by decide)]
    exact Nat.le_add_right _ _
  · rw [placed _ (by decide) (by decide)]
    exact Nat.le_add_right _ _
  · rw [placed _ (by decide) (by decide)]
    exact Nat.le_add_right _ _
  · rw [placed _ (by decide) (by decide)]
    exact Nat.le_add_right _ _
  · rw [placed _ (by decide) (by decide)]
    exact Nat.le_add_right _ _
  · exact placed _ (by decide) (by decide)
  · exact Bool.and_false _
  · rw [placed _ (by decide) (by decide)]
    decide
  · rw [placed _ (by decide) (by decide)]
    decide
  · rw [placed _ (by decide) (by decide)]
    decide
  · rw [placed _ (by decide) (by decide)]
    decide

namespace MountedEngine

/-- What a save has left on the device. -/
structure SavedZone (env : ZoneEnv) (m : MountedEngine) (d after : Device) (payload : List UInt8) :
    Prop where
  built : ∃ blob, m.buildIndexBlob env = .ok blob ∧ env.blobCbor.encode blob = .ok payload
  confined : Confined zoneStart d after
  objects : ∃ before stored, before.capacity = d.capacity ∧
    flushObjectTable m.engine.objectTable objectTableStart before = (.ok (), stored) ∧
      AgreesOn objectTableStart regionSize stored after
  short : payload.length + 8 ≤ fmtIndexZoneSize.toNat - legacyCborBlobOffset
  inside : blobStart + (8 + payload.length) ≤ d.capacity
  blob : read after.bytes blobStart (8 + payload.length) = framed payload

@[simp] theorem length_framed (payload : List UInt8) : (framed payload).length = 8 + payload.length := by
  rw [framed, List.length_append, List.length_append, Pod.length_to_bytes, Pod.length_to_bytes]
  have size : Pod.u32.size = 4 := rfl
  rw [size]
  omega

private theorem save_regions_ok (env : ZoneEnv) (m : MountedEngine) (laid : LaidOut m.superblock)
    (d after : Device) (ok : m.saveRegions env d = (.ok (), after)) :
    Confined zoneStart d after ∧
      ∃ before stored, before.capacity = d.capacity ∧
        flushObjectTable m.engine.objectTable objectTableStart before = (.ok (), stored) ∧
          AgreesOn objectTableStart regionSize stored after := by
  have places := trees_placed m.superblock laid
  have start : m.zoneOffset = zoneStart := by rw [zoneOffset, laid.zoneOffset, zone_start_eq]
  have late : zoneStart ≤ objectTableStart + regionSize := by decide
  obtain ⟨⟨⟩, first, chunk, ok⟩ := DeviceM.bind_ok _ _ _ _ _ ok
  obtain ⟨⟨⟩, second, kv, ok⟩ := DeviceM.bind_ok _ _ _ _ _ ok
  obtain ⟨regions, third, forward, ok⟩ := DeviceM.bind_ok _ _ _ _ _ ok
  obtain ⟨pages, fourth, tag, ok⟩ := DeviceM.bind_ok _ _ _ _ _ ok
  obtain ⟨⟨⟩, before, range, ok⟩ := DeviceM.bind_ok _ _ _ _ _ ok
  obtain ⟨⟨⟩, stored, objects, rest⟩ := DeviceM.bind_ok _ _ _ _ _ ok
  have chunkConfined : Confined zoneStart d first := by
    apply Confines.after _ chunk
    exact confines_map_error
      (confines_map_error (confines_flush_table _ _ _ _ _ places.chunkIndex) _) _
  have kvConfined : Confined zoneStart first second := by
    apply Confines.after _ kv
    exact confines_map_error (confines_kv_flush _ _ _ places.kvIndex) _
  have forwardConfined : Confined zoneStart second third := by
    apply Confines.after _ forward
    apply confines_map_error
    apply confines_forward_flush _ _ _ _ _ places.forwardIndex
    rw [start]
    exact Nat.le_add_right _ _
  have tagConfined : Confined zoneStart third fourth := by
    apply Confines.after _ tag
    apply confines_map_error
    apply confines_tag_flush _ _ _ _ _ places.tagIndex
    rw [start]
    exact Nat.le_add_right _ _
  have rangeConfined : Confined zoneStart fourth before := by
    apply Confines.after _ range
    exact confines_map_error
      (confines_map_error (confines_flush_table _ _ _ _ _ places.rangeIndex) _) _
  have objectConfined : Confined zoneStart before stored := by
    apply Confines.after _ objects
    apply confines_map_error
    apply confines_leaf_flush
    rw [places.objectTable]
    exact Nat.le_add_right _ _
  have restConfined : Confined (objectTableStart + regionSize) stored after := by
    apply Confines.after _ rest
    apply confines_bind
    · exact confines_map_error (confines_leaf_flush _ _ _ places.locationTable) _
    intro _
    apply confines_bind
    · exact confines_map_error
        (confines_map_error (confines_flush_table _ _ _ _ _ places.ontology) _) _
    intro _
    apply confines_bind
    · exact confines_map_error (confines_subscriptions_flush _ _ _ places.subscriptions) _
    intro _
    apply confines_bind
    · exact confines_map_error
        (confines_map_error (confines_flush_table _ _ _ _ _ places.backpointer) _) _
    intro _
    rw [start]
    apply confines_bind
    · exact confines_map_error (confines_flush_table _ _ _ _ _ (by decide)) _
    intro _
    exact confines_map_error (confines_flush_table _ _ _ _ _ (by decide)) _
  have early := confined_trans (confined_trans (confined_trans (confined_trans chunkConfined
    kvConfined) forwardConfined) tagConfined) rangeConfined
  have lateConfined : Confined zoneStart stored after := by
    refine ⟨restConfined.capacity, ?_⟩
    intro address outside
    apply restConfined.kept
    omega
  refine ⟨confined_trans (confined_trans early objectConfined) lateConfined, before, stored,
    early.capacity, ?_, confined_agrees restConfined (Nat.le_refl _)⟩
  have flushed := DeviceM.map_error_ok _ _ _ _ _ objects
  rw [places.objectTable] at flushed
  exact flushed

theorem save_blob_ok (env : ZoneEnv) (m : MountedEngine) (laid : LaidOut m.superblock)
    (d after : Device) (ok : m.saveBlob env d = (.ok (), after)) :
    ∃ blob payload, m.buildIndexBlob env = .ok blob ∧ env.blobCbor.encode blob = .ok payload ∧
      payload.length + 8 ≤ fmtIndexZoneSize.toNat - legacyCborBlobOffset ∧
      blobStart + (8 + payload.length) ≤ d.capacity ∧
      read after.bytes blobStart (8 + payload.length) = framed payload := by
  have start : m.zoneOffset + legacyCborBlobOffset = blobStart := by
    rw [zoneOffset, laid.zoneOffset, zone_start_eq, blobStart]
  have length : m.zoneLength = fmtIndexZoneSize.toNat := by rw [zoneLength, laid.zoneLength]
  obtain ⟨blob, _, lifted, ok⟩ := DeviceM.bind_ok _ _ _ _ _ ok
  obtain ⟨built, same⟩ := DeviceM.lift_ok _ _ _ _ lifted
  subst same
  obtain ⟨payload, _, lifted, ok⟩ := DeviceM.bind_ok _ _ _ _ _ ok
  obtain ⟨encoded, same⟩ := DeviceM.lift_ok _ _ _ _ lifted
  subst same
  rw [start, length] at ok
  split at ok
  · cases ok
  · next room =>
      obtain ⟨⟨⟩, middle, wrote, synced⟩ := DeviceM.bind_ok _ _ _ _ _ ok
      have written := DeviceM.map_error_ok _ _ _ _ _ wrote
      have settled := Device.sync_ok middle after (DeviceM.map_error_ok _ _ _ _ _ synced)
      obtain ⟨here, inside⟩ := read_of_write _ _ _ _ written
      rw [length_framed] at here inside
      refine ⟨blob, payload, built, ?_, by omega, ?_, ?_⟩
      · cases coded : env.blobCbor.encode blob with
        | ok bytes =>
            rw [coded] at encoded
            cases encoded
            rfl
        | error text =>
            rw [coded] at encoded
            cases encoded
      · have capacity := (changes_within_write _ _ _ _ written).capacity
        omega
      · rw [settled]
        exact here

private theorem confines_save_blob (env : ZoneEnv) (m : MountedEngine)
    (laid : LaidOut m.superblock) :
    Confines blobStart (m.saveBlob env) := by
  have start : m.zoneOffset + legacyCborBlobOffset = blobStart := by
    rw [zoneOffset, laid.zoneOffset, zone_start_eq, blobStart]
  apply confines_bind (confines_lift _)
  intro blob
  apply confines_bind (confines_lift _)
  intro payload
  rw [start]
  split
  · exact confines_lift _
  · apply confines_bind (confines_map_error (confines_write _ _ (Nat.le_refl _)) _)
    intro _
    exact confines_map_error confines_sync _

theorem save_zone_ok (env : ZoneEnv) (m : MountedEngine) (laid : LaidOut m.superblock)
    (d after : Device) (ok : m.saveZone env d = (.ok (), after)) :
    ∃ payload, SavedZone env m d after payload := by
  unfold saveZone at ok
  split at ok
  · cases ok
  obtain ⟨⟨⟩, middle, regions, blobbed⟩ := DeviceM.bind_ok _ _ _ _ _ ok
  obtain ⟨confined, before, stored, capacity, flushed, agrees⟩ :=
    save_regions_ok env m laid d middle regions
  obtain ⟨blob, payload, built, encoded, short, inside, here⟩ :=
    save_blob_ok env m laid middle after blobbed
  have last := (confines_save_blob env m laid).after blobbed
  have zone : zoneStart ≤ blobStart := Nat.le_add_right _ _
  have table : objectTableStart + regionSize ≤ blobStart := by decide
  have lastConfined : Confined zoneStart middle after := by
    refine ⟨last.capacity, ?_⟩
    intro address outside
    apply last.kept
    omega
  refine ⟨payload, ⟨blob, built, encoded⟩, confined_trans confined lastConfined,
    ⟨before, stored, capacity, flushed, ?_⟩, short, ?_, here⟩
  · exact agrees_trans agrees (confined_agrees last table)
  · rw [← confined.capacity]
    exact inside

end MountedEngine

end Mimisbrunnr
