import Mimisbrunnr.Disk.Mounting
import Mimisbrunnr.Index.ForwardRegionRoundTrip
import Mimisbrunnr.Storage.Areas
import Mimisbrunnr.Watch.RegionRoundTrip

/-!
# The areas of the zone

Every region, and the two areas behind the start of the blob, have bytes of their
own as long as the blob ends before the area of the tag bitmaps.
-/

namespace Mimisbrunnr

set_option autoImplicit false

open Mimisbrunnr.Index
open Mimisbrunnr.Lib.ByteStore
open Mimisbrunnr.Lib.FiniteMap
open Mimisbrunnr.Lib.Layout
open Mimisbrunnr.Meta
open Mimisbrunnr.Ontology
open Mimisbrunnr.Pool
open Mimisbrunnr.Storage
open Mimisbrunnr.Types
open Mimisbrunnr.Watch

/-- A tree that is there, at its place in the zone. -/
structure TreeAt (ref : BlockRef) (place : Nat) : Prop where
  offset : ref.offset = zoneStart + place
  present : isZero ref = false

structure TreesAt (root : RootPointer) : Prop where
  chunkIndex : TreeAt root.chunkIndexRoot chunkIndexRegionOffset
  kvIndex : TreeAt root.kvIndexRoot kvIndexRegionOffset
  forwardIndex : TreeAt root.forwardIndexRoot forwardIndexRegionOffset
  tagIndex : TreeAt root.tagIndexRoot tagIndexRegionOffset
  rangeIndex : TreeAt root.rangeIndexRoot rangeIndexRegionOffset
  objectTable : TreeAt root.objectTableRoot objectTableRegionOffset
  locationTable : TreeAt root.locationTableRoot locationTableRegionOffset
  ontology : TreeAt root.ontologyRoot ontologyRegionOffset
  subscriptions : TreeAt root.subscriptionsRoot subscriptionsRegionOffset
  backpointer : TreeAt root.backpointerRoot backpointerTableRegionOffset

theorem trees_at (sb : Superblock) (laid : LaidOut sb) : TreesAt sb.activeRootPointer := by
  obtain ⟨diskId, seeded⟩ := laid.seeded
  have placed (place : Nat) (aligned : place % blockSize = 0) (small : place < 2 ^ 24) :
      TreeAt (rootRefFor diskId fmtIndexZoneOffset.toNat place) place := by
    refine ⟨?_, Bool.and_false _⟩
    apply root_ref_offset
    · rw [zone_start_eq]
      simp only [zoneStart, blockSize] at aligned ⊢
      omega
    · rw [zone_start_eq]
      simp only [zoneStart, blockSize]
      omega
  rw [← seeded]
  exact ⟨placed _ (by decide) (by decide), placed _ (by decide) (by decide),
    placed _ (by decide) (by decide), placed _ (by decide) (by decide),
    placed _ (by decide) (by decide), placed _ (by decide) (by decide),
    placed _ (by decide) (by decide), placed _ (by decide) (by decide),
    placed _ (by decide) (by decide), placed _ (by decide) (by decide)⟩

def blobRoom : Nat := tagBitmapAreaOffset - legacyCborBlobOffset

/-- The areas of the zone in the order in which a save writes them. -/
def zoneAreas : List Storage.Area :=
  [ (zoneStart + chunkIndexRegionOffset, regionSize),
    (zoneStart + kvIndexRegionOffset, regionSize),
    (zoneStart + forwardOverflowAreaOffset, forwardOverflowAreaRegions * regionSize),
    (zoneStart + forwardIndexRegionOffset, regionSize),
    (zoneStart + tagBitmapAreaOffset, tagBitmapAreaPages * blockSize),
    (zoneStart + tagIndexRegionOffset, regionSize),
    (zoneStart + rangeIndexRegionOffset, regionSize),
    (zoneStart + objectTableRegionOffset, regionSize),
    (zoneStart + locationTableRegionOffset, regionSize),
    (zoneStart + ontologyRegionOffset, regionSize),
    (zoneStart + subscriptionsRegionOffset, regionSize),
    (zoneStart + backpointerTableRegionOffset, regionSize),
    (zoneStart + bucketAllocRegionOffset, regionSize),
    (zoneStart + freespaceLruRegionOffset, regionSize),
    (blobStart, blobRoom) ]

theorem zone_areas_apart : InTurnApart zoneAreas := by decide

theorem zone_areas_inside : ∀ area ∈ zoneAreas,
    zoneStart ≤ area.1 ∧ area.1 + area.2 ≤ zoneStart + fmtIndexZoneSize.toNat := by decide

/-- All tags have 32 bits. -/
structure Engine.NarrowTags (e : Engine) : Prop where
  kv : ∀ entry ∈ e.indices.kv.sortedEntries, entry.1.1 < 2 ^ 32
  forward : ∀ object ∈ toSorted e.indices.forward.entries, ∀ entry ∈ object.2,
    assertionTag entry.1 < 2 ^ 32
  tag : ∀ tag store, e.indices.tag.stores.lookup tag = some store → tag < 2 ^ 32
  range : ∀ tag key set, e.indices.range.map.sets.lookup (tag, key) = some set → tag < 2 ^ 32

namespace MountedEngine

/-- Tags of 32 bits, objects under their own identifiers and of one node, and subscriptions under
theirs. -/
structure Storable (m : MountedEngine) : Prop where
  tags : m.engine.NarrowTags
  keyed : ∀ key record, m.engine.objectTable.lookup key = some record → record.id = key
  apart : ∀ left right, left ∈ m.engine.objectTable → right ∈ m.engine.objectTable →
    left.toNat % 2 ^ 48 = right.toNat % 2 ^ 48 → left = right
  own : ∀ oid ∈ m.engine.locationTable, (ObjectId.fromU64 oid).nodeId = m.engine.nodeId
  subscriptions : m.engine.subscriptions.Keyed

/-- The blob that would be saved now ends before the area of the tag bitmaps. -/
def BlobBelowPages (env : ZoneEnv) (m : MountedEngine) : Prop :=
  ∀ blob payload, m.buildIndexBlob env = .ok blob → env.blobCbor.encode blob = .ok payload →
    8 + payload.length ≤ blobRoom

end MountedEngine

end Mimisbrunnr
