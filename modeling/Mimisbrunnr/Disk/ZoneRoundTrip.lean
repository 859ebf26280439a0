import Mimisbrunnr.Disk.NewZone
import Mimisbrunnr.Index.KvRegionRoundTrip
import Mimisbrunnr.Index.TagRegionRoundTrip
import Mimisbrunnr.Meta.TableRoundTrip

/-!
# The whole zone read back

What a save has written is what a load finds, in every region: no later writer of
the save reaches the area of an earlier one.
-/

namespace Mimisbrunnr

set_option autoImplicit false

open Mimisbrunnr.Index
open Mimisbrunnr.Lib.ByteStore
open Mimisbrunnr.Lib.FiniteMap
open Mimisbrunnr.Lib.Layout
open Mimisbrunnr.Meta
open Mimisbrunnr.Ontology
open Mimisbrunnr.Pool
open Mimisbrunnr.Storage
open Mimisbrunnr.Types
open Mimisbrunnr.Watch

namespace MountedEngine

/-- A device that holds the zone of an engine. -/
structure ZoneHolds (env : ZoneEnv) (m : MountedEngine) (e : Device) : Prop where
  chunkIndex : ChunkIndex.loadFromRegion env.chunk e (zoneStart + chunkIndexRegionOffset) =
    .ok m.side.chunkIndex
  kv : KvIndex.loadFromRegion env.kv e (zoneStart + kvIndexRegionOffset) =
    .ok m.engine.indices.kv
  forward : ForwardIndex.loadFromRegion env.forward e (zoneStart + forwardIndexRegionOffset) =
    .ok m.engine.indices.forward.stored
  tag : ∀ fuel, tagBitmapAreaPages < fuel →
    TagIndex.loadFromRegion env.tag fuel e (zoneStart + tagIndexRegionOffset) =
      some (.ok m.engine.indices.tag)
  range : RangeIndex.loadFromRegion env.range e (zoneStart + rangeIndexRegionOffset) =
    .ok m.engine.indices.range
  objectTable : loadObjectTable e (zoneStart + objectTableRegionOffset) =
    .ok (mapVals storedRecord m.engine.objectTable)
  locationTable : loadLocationTable e (zoneStart + locationTableRegionOffset) m.engine.nodeId =
    .ok (mapVals locationImage m.engine.locationTable)
  ontology : OntologyState.loadFromRegion env.ontology e (zoneStart + ontologyRegionOffset) =
    m.engine.ontology.toImage.intoState env.ontology.topo
  subscriptions : ∃ loaded, SubscriptionEngine.loadFromRegion env.subscriptions e
      (zoneStart + subscriptionsRegionOffset) = .ok loaded ∧
    loaded.subscriptions = m.engine.subscriptions.subscriptions
  backpointer : BackpointerTable.loadFromRegion env.backpointers e
    (zoneStart + backpointerTableRegionOffset) = .ok m.side.backpointerTable
  bucketAlloc : BucketAllocTable.loadFromRegion env.buckets e
    (zoneStart + bucketAllocRegionOffset) = .ok m.side.bucketAlloc
  freespaceLru : FreespaceLru.loadFromRegion env.freespace e
    (zoneStart + freespaceLruRegionOffset) = .ok m.side.freespaceLru
  blob : ∃ blob, m.buildIndexBlob env = .ok blob ∧
    ∀ sb, LaidOut sb → readIndexBlob env e sb = .ok (some blob)

/-- The devices behind the writers of a save. -/
structure ZoneDevices where
  chunkIndex : Device
  kv : Device
  overflow : Device
  forward : Device
  pages : Device
  tag : Device
  range : Device
  objectTable : Device
  locationTable : Device
  ontology : Device
  subscriptions : Device
  backpointer : Device
  bucketAlloc : Device
  freespaceLru : Device
  blob : Device

def ZoneDevices.steps (w : ZoneDevices) : List (Storage.Area × Device) :=
  zoneAreas.zip [w.chunkIndex, w.kv, w.overflow, w.forward, w.pages, w.tag, w.range,
    w.objectTable, w.locationTable, w.ontology, w.subscriptions, w.backpointer, w.bucketAlloc,
    w.freespaceLru, w.blob]

/-- What each writer leaves behind is read back wherever its area is the same. -/
structure ZoneWrites (env : ZoneEnv) (m : MountedEngine) (w : ZoneDevices) : Prop where
  chunkIndex : ∀ e, AgreesOn (zoneStart + chunkIndexRegionOffset) regionSize w.chunkIndex e →
    ChunkIndex.loadFromRegion env.chunk e (zoneStart + chunkIndexRegionOffset) =
      .ok m.side.chunkIndex
  kv : ∀ e, AgreesOn (zoneStart + kvIndexRegionOffset) regionSize w.kv e →
    KvIndex.loadFromRegion env.kv e (zoneStart + kvIndexRegionOffset) = .ok m.engine.indices.kv
  forward : ∀ e, AgreesOn (zoneStart + forwardOverflowAreaOffset)
      (forwardOverflowAreaRegions * regionSize) w.overflow e →
    AgreesOn (zoneStart + forwardIndexRegionOffset) regionSize w.forward e →
    ForwardIndex.loadFromRegion env.forward e (zoneStart + forwardIndexRegionOffset) =
      .ok m.engine.indices.forward.stored
  tag : ∀ e, AgreesOn (zoneStart + tagBitmapAreaOffset) (tagBitmapAreaPages * blockSize)
      w.pages e →
    AgreesOn (zoneStart + tagIndexRegionOffset) regionSize w.tag e →
    ∀ fuel, tagBitmapAreaPages < fuel →
      TagIndex.loadFromRegion env.tag fuel e (zoneStart + tagIndexRegionOffset) =
        some (.ok m.engine.indices.tag)
  range : ∀ e, AgreesOn (zoneStart + rangeIndexRegionOffset) regionSize w.range e →
    RangeIndex.loadFromRegion env.range e (zoneStart + rangeIndexRegionOffset) =
      .ok m.engine.indices.range
  objectTable : ∀ e, AgreesOn (zoneStart + objectTableRegionOffset) regionSize w.objectTable e →
    loadObjectTable e (zoneStart + objectTableRegionOffset) =
      .ok (mapVals storedRecord m.engine.objectTable)
  locationTable : ∀ e,
    AgreesOn (zoneStart + locationTableRegionOffset) regionSize w.locationTable e →
    loadLocationTable e (zoneStart + locationTableRegionOffset) m.engine.nodeId =
      .ok (mapVals locationImage m.engine.locationTable)
  ontology : ∀ e, AgreesOn (zoneStart + ontologyRegionOffset) regionSize w.ontology e →
    OntologyState.loadFromRegion env.ontology e (zoneStart + ontologyRegionOffset) =
      m.engine.ontology.toImage.intoState env.ontology.topo
  subscriptions : ∀ e,
    AgreesOn (zoneStart + subscriptionsRegionOffset) regionSize w.subscriptions e →
    ∃ loaded, SubscriptionEngine.loadFromRegion env.subscriptions e
        (zoneStart + subscriptionsRegionOffset) = .ok loaded ∧
      loaded.subscriptions = m.engine.subscriptions.subscriptions
  backpointer : ∀ e,
    AgreesOn (zoneStart + backpointerTableRegionOffset) regionSize w.backpointer e →
    BackpointerTable.loadFromRegion env.backpointers e (zoneStart + backpointerTableRegionOffset) =
      .ok m.side.backpointerTable
  bucketAlloc : ∀ e, AgreesOn (zoneStart + bucketAllocRegionOffset) regionSize w.bucketAlloc e →
    BucketAllocTable.loadFromRegion env.buckets e (zoneStart + bucketAllocRegionOffset) =
      .ok m.side.bucketAlloc
  freespaceLru : ∀ e,
    AgreesOn (zoneStart + freespaceLruRegionOffset) regionSize w.freespaceLru e →
    FreespaceLru.loadFromRegion env.freespace e (zoneStart + freespaceLruRegionOffset) =
      .ok m.side.freespaceLru

private theorem save_regions_writes (env : ZoneEnv) (m : MountedEngine)
    (laid : LaidOut m.superblock)
    (storable : m.Storable) (d after last : Device)
    (ok : m.saveRegions env d = (.ok (), after))
    (blob : ChangesWithin blobStart blobRoom after last) :
    ∃ w : ZoneDevices, w.blob = last ∧ WrittenInTurn d w.steps ∧ ZoneWrites env m w := by
  have places := trees_at m.superblock laid
  have start : m.zoneOffset = zoneStart := by rw [zoneOffset, laid.zoneOffset, zone_start_eq]
  obtain ⟨⟨⟩, first, chunk, ok⟩ := DeviceM.bind_ok _ _ _ _ _ ok
  obtain ⟨⟨⟩, second, kv, ok⟩ := DeviceM.bind_ok _ _ _ _ _ ok
  obtain ⟨regions, third, forward, ok⟩ := DeviceM.bind_ok _ _ _ _ _ ok
  obtain ⟨pages, fourth, tag, ok⟩ := DeviceM.bind_ok _ _ _ _ _ ok
  obtain ⟨⟨⟩, fifth, range, ok⟩ := DeviceM.bind_ok _ _ _ _ _ ok
  obtain ⟨⟨⟩, sixth, objects, ok⟩ := DeviceM.bind_ok _ _ _ _ _ ok
  obtain ⟨⟨⟩, seventh, locations, ok⟩ := DeviceM.bind_ok _ _ _ _ _ ok
  obtain ⟨⟨⟩, eighth, ontology, ok⟩ := DeviceM.bind_ok _ _ _ _ _ ok
  obtain ⟨⟨⟩, ninth, subscriptions, ok⟩ := DeviceM.bind_ok _ _ _ _ _ ok
  obtain ⟨⟨⟩, tenth, backpointer, ok⟩ := DeviceM.bind_ok _ _ _ _ _ ok
  obtain ⟨⟨⟩, eleventh, buckets, freespace⟩ := DeviceM.bind_ok _ _ _ _ _ ok
  rw [places.chunkIndex.offset] at chunk
  rw [places.kvIndex.offset] at kv
  rw [places.forwardIndex.offset, start] at forward
  rw [places.tagIndex.offset, start] at tag
  rw [places.rangeIndex.offset] at range
  rw [places.objectTable.offset] at objects
  rw [places.locationTable.offset] at locations
  rw [places.ontology.offset] at ontology
  rw [places.subscriptions.offset] at subscriptions
  rw [places.backpointer.offset] at backpointer
  rw [start] at buckets freespace
  obtain ⟨chunkChanges, chunkBack⟩ := chunk_index_read_back env.chunk _ _ d first
    (DeviceM.map_error_ok _ _ _ _ _ chunk)
  obtain ⟨kvChanges, kvBack⟩ := kv_index_read_back env.kv _ _ storable.tags.kv (by decide)
    (by decide) first second (DeviceM.map_error_ok _ _ _ _ _ kv)
  obtain ⟨regionsInside, -, overflow, overflowChanges, forwardChanges, forwardBack⟩ :=
    forward_index_read_back env.forward _ storable.tags.forward _ _ _ regions (by decide) (by decide)
      second third (DeviceM.map_error_ok _ _ _ _ _ forward)
  obtain ⟨pagesInside, filled, pageChanges, tagChanges, -, tagBack⟩ :=
    tag_index_read_back env.tag _ storable.tags.tag _ _ _ pages (by decide) (by decide)
      third fourth (DeviceM.map_error_ok _ _ _ _ _ tag)
  obtain ⟨rangeChanges, rangeBack⟩ := range_index_read_back env.range _ storable.tags.range _
    fourth fifth (DeviceM.map_error_ok _ _ _ _ _ range)
  have objectsFlushed := DeviceM.map_error_ok _ _ _ _ _ objects
  obtain ⟨objectChanges, objectBack⟩ := object_table_read_back _ storable.keyed storable.apart _
    fifth sixth objectsFlushed
  have locationsFlushed := DeviceM.map_error_ok _ _ _ _ _ locations
  have locationBack := location_table_read_back _ _ storable.own _ sixth seventh locationsFlushed
  obtain ⟨locationChanges, -⟩ := location_table_loads _ _ m.engine.nodeId sixth seventh
    locationsFlushed
  obtain ⟨ontologyChanges, ontologyBack⟩ := OntologyState.flushed_ontology env.ontology _ _
    seventh eighth (DeviceM.map_error_ok _ _ _ _ _ ontology)
  have subscriptionsFlushed := DeviceM.map_error_ok _ _ _ _ _ subscriptions
  obtain ⟨subscriptionChanges, -⟩ := SubscriptionEngine.flushed_records env.subscriptions _
    storable.subscriptions _ eighth ninth subscriptionsFlushed
  obtain ⟨backpointerChanges, backpointerBack⟩ := backpointer_table_read_back env.backpointers _ _
    ninth tenth (DeviceM.map_error_ok _ _ _ _ _ backpointer)
  obtain ⟨bucketChanges, bucketBack⟩ := bucket_alloc_read_back env.buckets _ _ _ tenth eleventh
    (DeviceM.map_error_ok _ _ _ _ _ buckets)
  obtain ⟨freespaceChanges, freespaceBack⟩ := freespace_lru_read_back env.freespace _ _ eleventh
    after (DeviceM.map_error_ok _ _ _ _ _ freespace)
  -- only the pages and overflow regions that are needed are written
  have regionsWidth := Nat.mul_le_mul_right regionSize regionsInside
  have pagesWidth := Nat.mul_le_mul_right blockSize pagesInside
  refine ⟨⟨first, second, overflow, third, filled, fourth, fifth, sixth, seventh, eighth, ninth,
    tenth, eleventh, after, last⟩, rfl, ?_, ?_⟩
  · exact ⟨chunkChanges, kvChanges,
      changes_within_mono overflowChanges (Nat.le_refl _) (Nat.add_le_add_left regionsWidth _),
      forwardChanges,
      changes_within_mono pageChanges (Nat.le_refl _) (Nat.add_le_add_left pagesWidth _),
      tagChanges, rangeChanges, objectChanges, locationChanges, ontologyChanges,
      subscriptionChanges, backpointerChanges, bucketChanges, freespaceChanges, blob, trivial⟩
  · constructor
    · exact chunkBack
    · exact kvBack
    · intro e area directory
      exact forwardBack e
        (agrees_mono area (Nat.le_refl _) (Nat.add_le_add_left regionsWidth _)) directory
    · intro e area directory fuel enough
      exact tagBack e (agrees_mono area (Nat.le_refl _) (Nat.add_le_add_left pagesWidth _))
        directory fuel enough
    · exact rangeBack
    · exact objectBack
    · exact locationBack
    · exact ontologyBack
    · intro e agrees
      exact SubscriptionEngine.flushed_subscriptions env.subscriptions _ storable.subscriptions _
        eighth ninth subscriptionsFlushed e agrees
    · exact backpointerBack
    · exact bucketBack
    · exact freespaceBack

theorem zone_agrees (w : ZoneDevices) (d e : Device) (written : WrittenInTurn d w.steps)
    (agrees : AgreesOn zoneStart fmtIndexZoneSize.toNat w.blob e) :
    ∀ step ∈ w.steps, AgreesOn step.1.1 step.1.2 step.2 e := by
  intro step member
  have areas : w.steps.map Prod.fst = zoneAreas := rfl
  have kept := area_in_turn w.steps (by rw [areas]; exact zone_areas_apart) d written step member
  have inside := zone_areas_inside step.1 (by rw [← areas]; exact List.mem_map_of_mem member)
  exact agrees_trans kept (agrees_mono agrees inside.1 inside.2)

private theorem save_blob_changes (env : ZoneEnv) (m : MountedEngine) (laid : LaidOut m.superblock)
    (below : m.BlobBelowPages env) (d after : Device) (ok : m.saveBlob env d = (.ok (), after)) :
    ChangesWithin blobStart blobRoom d after := by
  have start : m.zoneOffset + legacyCborBlobOffset = blobStart := by
    rw [zoneOffset, laid.zoneOffset, zone_start_eq, blobStart]
  obtain ⟨blob, payload, built, encoded, -⟩ := save_blob_ok env m laid d after ok
  have room := below blob payload built encoded
  unfold saveBlob at ok
  rw [built] at ok
  obtain ⟨_, _, lifted, ok⟩ := DeviceM.bind_ok _ _ _ _ _ ok
  obtain ⟨same, rfl⟩ := DeviceM.lift_ok _ _ _ _ lifted
  cases same
  rw [encoded] at ok
  obtain ⟨_, _, lifted, ok⟩ := DeviceM.bind_ok _ _ _ _ _ ok
  obtain ⟨same, rfl⟩ := DeviceM.lift_ok _ _ _ _ lifted
  cases same
  rw [start] at ok
  split at ok
  · cases ok
  · obtain ⟨⟨⟩, middle, wrote, synced⟩ := DeviceM.bind_ok _ _ _ _ _ ok
    have changes := changes_within_write _ _ _ _ (DeviceM.map_error_ok _ _ _ _ _ wrote)
    rw [length_framed] at changes
    have widened := changes_within_mono changes (Nat.le_refl _) (Nat.add_le_add_left room _)
    rw [Device.sync_ok middle after (DeviceM.map_error_ok _ _ _ _ _ synced)]
    exact ⟨widened.capacity, widened.outside⟩

private theorem save_zone_holds (env : ZoneEnv) (m : MountedEngine) (laid : LaidOut m.superblock)
    (storable : m.Storable) (below : m.BlobBelowPages env) (d after : Device)
    (ok : m.saveZone env d = (.ok (), after)) (e : Device)
    (agrees : AgreesOn zoneStart fmtIndexZoneSize.toNat after e) : ZoneHolds env m e := by
  unfold saveZone at ok
  split at ok
  · cases ok
  obtain ⟨⟨⟩, middle, regions, blobbed⟩ := DeviceM.bind_ok _ _ _ _ _ ok
  obtain ⟨blob, payload, built, encoded, short, inside, here⟩ :=
    save_blob_ok env m laid middle after blobbed
  have blobChanges := save_blob_changes env m laid below middle after blobbed
  obtain ⟨w, last, written, writes⟩ :=
    save_regions_writes env m laid storable d middle after regions blobChanges
  rw [← last] at agrees
  have kept := zone_agrees w d e written agrees
  rw [last] at agrees
  simp only [ZoneDevices.steps, zoneAreas, List.zip_cons_cons, List.zip_nil_right,
    List.forall_mem_cons, List.not_mem_nil, false_implies, implies_true, and_true] at kept
  obtain ⟨chunk, kv, overflow, forward, pages, tag, range, objects, locations, ontology,
    subscriptions, backpointer, buckets, freespace, -⟩ := kept
  have room := below blob payload built encoded
  have low : zoneStart ≤ blobStart := Nat.le_add_right _ _
  have high : blobStart + blobRoom ≤ zoneStart + fmtIndexZoneSize.toNat := by decide
  have stored : read e.bytes blobStart (8 + payload.length) = framed payload := by
    rw [← here]
    exact read_agrees (agrees_mono agrees low (by omega))
  have capacity := agrees.capacity.trans blobChanges.capacity
  exact ⟨writes.chunkIndex e chunk, writes.kv e kv, writes.forward e overflow forward,
    writes.tag e pages tag, writes.range e range, writes.objectTable e objects,
    writes.locationTable e locations, writes.ontology e ontology,
    writes.subscriptions e subscriptions, writes.backpointer e backpointer,
    writes.bucketAlloc e buckets, writes.freespaceLru e freespace, blob, built,
    fun sb laidHere => read_index_blob_ok env e sb laidHere payload blob short
      (by rw [capacity]; exact inside) stored (env.blobCbor.decode_encode blob payload encoded)⟩

/-- An engine with the regions of another, as the device keeps them. -/
def withZone (base m : MountedEngine) (ontology : OntologyState)
    (subscriptions : SubscriptionEngine) : MountedEngine :=
  { base with
    side :=
      { chunkIndex := m.side.chunkIndex
        backpointerTable := m.side.backpointerTable
        bucketAlloc := m.side.bucketAlloc
        freespaceLru := m.side.freespaceLru
        pathContexts := base.side.pathContexts }
    engine :=
      { base.engine with
        indices := { m.engine.indices with forward := m.engine.indices.forward.stored }
        objectTable := mapVals storedRecord m.engine.objectTable
        locationTable := mapVals locationImage m.engine.locationTable
        ontology := ontology
        subscriptions := subscriptions } }

/-- Loads that put what they find into whatever engine they are given. -/
theorem load_in_turn_sets
    (loads : List (MountedEngine → Option (Except EngineError MountedEngine)))
    (sets : List (MountedEngine → MountedEngine))
    (each : List.Forall₂ (fun load set => ∀ m, load m = some (.ok (set m))) loads sets) :
    ∀ m, loadInTurn loads m = some (.ok (), sets.foldl (fun m set => set m) m) := by
  induction each with
  | nil => exact fun _ => rfl
  | cons here _ ih =>
      intro m
      rw [loadInTurn, here m]
      exact ih _

private theorem load_tree {α ε : Type} (ref : BlockRef) (place : Nat) (tree : TreeAt ref place)
    (fallback value : α) (load : Nat → Option (Except ε α)) (wrap : ε → EngineError)
    (set : MountedEngine → α → MountedEngine)
    (loaded : load (zoneStart + place) = some (.ok value)) (m : MountedEngine) :
    loadRegion ref fallback load wrap (set m) = some (.ok (set m value)) := by
  rw [loadRegion, tree.present, tree.offset, loaded]
  rfl

private theorem load_all_holds (env : ZoneEnv) (m base : MountedEngine) (fuel : Nat)
    (enough : tagBitmapAreaPages < fuel) (root : RootPointer) (places : TreesAt root)
    (holds : ZoneHolds env m base.device) (ontology : OntologyState)
    (image : m.engine.ontology.toImage.intoState env.ontology.topo = .ok ontology)
    (subscriptions : SubscriptionEngine)
    (subscribed : SubscriptionEngine.loadFromRegion env.subscriptions base.device
      (zoneStart + subscriptionsRegionOffset) = .ok subscriptions) :
    loadAllRegions env fuel base base.device zoneStart root m.engine.nodeId =
      some (.ok (), withZone base m ontology subscriptions) := by
  apply load_in_turn_sets (regionLoads env fuel base.device zoneStart root m.engine.nodeId)
    [ fun b => { b with side := { b.side with chunkIndex := m.side.chunkIndex } },
      fun b => b.withIndices fun indices => { indices with kv := m.engine.indices.kv },
      fun b => b.withIndices fun indices =>
        { indices with forward := m.engine.indices.forward.stored },
      fun b => b.withIndices fun indices => { indices with tag := m.engine.indices.tag },
      fun b => b.withIndices fun indices => { indices with range := m.engine.indices.range },
      fun b => { b with
        engine := { b.engine with objectTable := mapVals storedRecord m.engine.objectTable } },
      fun b => { b with
        engine := { b.engine with locationTable := mapVals locationImage m.engine.locationTable } },
      fun b => { b with engine := { b.engine with ontology } },
      fun b => { b with engine := { b.engine with subscriptions } },
      fun b => { b with side := { b.side with backpointerTable := m.side.backpointerTable } },
      fun b => { b with side := { b.side with bucketAlloc := m.side.bucketAlloc } },
      fun b => { b with side := { b.side with freespaceLru := m.side.freespaceLru } } ]
  refine .cons ?_ (.cons ?_ (.cons ?_ (.cons ?_ (.cons ?_ (.cons ?_ (.cons ?_ (.cons ?_ (.cons ?_
    (.cons ?_ (.cons ?_ (.cons ?_ .nil)))))))))))
  · exact load_tree _ _ places.chunkIndex _ _ _ _ _ (congrArg some holds.chunkIndex)
  · exact load_tree _ _ places.kvIndex _ _ _ _ _ (congrArg some holds.kv)
  · exact load_tree _ _ places.forwardIndex _ _ _ _ _ (congrArg some holds.forward)
  · exact load_tree _ _ places.tagIndex _ _ _ _ _ (holds.tag fuel enough)
  · exact load_tree _ _ places.rangeIndex _ _ _ _ _ (congrArg some holds.range)
  · exact load_tree _ _ places.objectTable _ _ _ _ _ (congrArg some holds.objectTable)
  · exact load_tree _ _ places.locationTable _ _ _ _ _ (congrArg some holds.locationTable)
  · exact load_tree _ _ places.ontology _ _ _ _ _ (congrArg some (holds.ontology.trans image))
  · exact load_tree _ _ places.subscriptions _ _ _ _ _ (congrArg some subscribed)
  · exact load_tree _ _ places.backpointer _ _ _ _ _ (congrArg some holds.backpointer)
  · intro b
    rw [holds.bucketAlloc]
    rfl
  · intro b
    rw [holds.freespaceLru]
    rfl

/-- The engine that is loaded over `base` from the zone of another. Attributes have lost their
values in the forward index, records and locations are cut to their slots. -/
def restoredEngine (base saved : Engine) (ontology : OntologyState)
    (subscriptions : SubscriptionEngine) : Engine :=
  let counted := caughtUp
    { base with
      indices := { saved.indices with forward := saved.indices.forward.stored }
      objectTable := mapVals storedRecord saved.objectTable
      locationTable := mapVals locationImage saved.locationTable
      ontology := ontology
      subscriptions := subscriptions
      oplog := saved.oplog }
    saved.nextOidLocal
  { counted with lastAppliedLsn := max counted.lastAppliedLsn saved.lastAppliedLsn }

/-- What the blob of an engine decodes to. -/
theorem built_blob (env : ZoneEnv) (m : MountedEngine) (blob : IndexBlob)
    (built : m.buildIndexBlob env = .ok blob) :
    env.pathContextsCbor.decode blob.pathContextsBytes = .ok m.side.pathContexts ∧
      env.oplogCbor.decode blob.oplogBytes = .ok m.engine.oplog ∧
      blob.nextOidLocal = m.engine.nextOidLocal ∧
      blob.lastAppliedLsn = m.engine.lastAppliedLsn ∧ blob.blobs = m.blobs := by
  unfold buildIndexBlob at built
  cases paths : env.pathContextsCbor.encode m.side.pathContexts with
  | error text =>
      rw [paths] at built
      cases built
  | ok pathBytes =>
      rw [paths] at built
      cases log : env.oplogCbor.encode m.engine.oplog with
      | error text =>
          rw [log] at built
          cases built
      | ok logBytes =>
          rw [log] at built
          cases built
          exact ⟨env.pathContextsCbor.decode_encode _ _ paths,
            env.oplogCbor.decode_encode _ _ log, rfl, rfl, rfl⟩

private theorem load_holds (env : ZoneEnv) (m base : MountedEngine) (fuel : Nat)
    (enough : tagBitmapAreaPages < fuel) (laid : LaidOut base.superblock)
    (node : base.engine.nodeId = m.engine.nodeId) (holds : ZoneHolds env m base.device)
    (ontology : OntologyState)
    (image : m.engine.ontology.toImage.intoState env.ontology.topo = .ok ontology) :
    ∃ subscriptions, subscriptions.subscriptions = m.engine.subscriptions.subscriptions ∧
      base.loadIndexState env fuel = some (.ok (),
        { base with
          side := m.side
          blobs := m.blobs
          engine := restoredEngine base.engine m.engine ontology subscriptions }) := by
  obtain ⟨subscriptions, subscribed, same⟩ := holds.subscriptions
  obtain ⟨blob, built, read⟩ := holds.blob
  obtain ⟨paths, log, counter, applied, blobs⟩ := built_blob env m blob built
  have start : base.zoneOffset = zoneStart := by
    rw [zoneOffset, laid.zoneOffset, zone_start_eq]
  refine ⟨subscriptions, same, ?_⟩
  rw [loadIndexState, start, node, load_all_holds env m base fuel enough _
    (trees_at base.superblock laid) holds ontology image subscriptions subscribed]
  have found : readIndexBlob env (withZone base m ontology subscriptions).device
      (withZone base m ontology subscriptions).superblock = .ok (some blob) :=
    read base.superblock laid
  simp only [loadBlob, found, applyIndexBlob, restored, paths, log, counter, applied, blobs]
  rfl

/-- A zone that was saved is loaded again as a whole: over any engine whose disk has the bytes of
the zone, the load succeeds and gives every index, table and blob that was saved, as long as the
blob ends before the area of the tag bitmaps. -/
theorem saved_zone_loads (env : ZoneEnv) (m base : MountedEngine) (laid : LaidOut m.superblock)
    (storable : m.Storable) (below : m.BlobBelowPages env) (d after : Device)
    (ok : m.saveZone env d = (.ok (), after)) (laidHere : LaidOut base.superblock)
    (node : base.engine.nodeId = m.engine.nodeId)
    (agrees : AgreesOn zoneStart fmtIndexZoneSize.toNat after base.device)
    (ontology : OntologyState)
    (image : m.engine.ontology.toImage.intoState env.ontology.topo = .ok ontology) (fuel : Nat)
    (enough : tagBitmapAreaPages < fuel) :
    ∃ subscriptions, subscriptions.subscriptions = m.engine.subscriptions.subscriptions ∧
      base.loadIndexState env fuel = some (.ok (),
        { base with
          side := m.side
          blobs := m.blobs
          engine := restoredEngine base.engine m.engine ontology subscriptions }) :=
  load_holds env m base fuel enough laidHere node
    (save_zone_holds env m laid storable below d after ok base.device agrees) ontology image

def roomyDevice : Device :=
  { bytes := fun _ => 0
    capacity := 2 ^ 26
    readOnly := false
    faults := [] }

theorem one_object_storable (m : MountedEngine) (engine : m.engine = oneObject) : m.Storable := by
  have filed : oneObject.Filed 1 :=
    (Engine.filed_new 1).refiled (Engine.refiled_apply newZoneEnv.toEnv (Engine.new 1)
      .createObject none)
  have counted : oneObject.core.Counted 1 := by
    have stepped : oneObject.core =
        (Engine.new 1).core.step ((Engine.new 1).setting newZoneEnv.toEnv) .createObject :=
      Engine.core_apply newZoneEnv.toEnv (Engine.new 1) .createObject none
    rw [stepped]
    have counted : (Engine.new 1).core.Counted ((Engine.new 1).setting newZoneEnv.toEnv).nodeId :=
      Core.counted_new 1
    exact counted.step .createObject (by decide)
  rw [← engine] at filed counted
  exact storable_of_filed filed counted (Engine.new_narrow_tags m.engine (by rw [engine]; rfl))

/-- The zone of an engine with one object, on a disk of 64 MiB. -/
theorem one_object_zone_loads : ∃ (m : MountedEngine) (after : Device),
    m.engine = oneObject ∧
    m.saveZone newZoneEnv.toZoneEnv roomyDevice = (.ok (), after) ∧
    ∃ subscriptions, subscriptions.subscriptions = ∅ ∧
      ({ m with device := after, engine := Engine.new 1 } : MountedEngine).loadIndexState
          newZoneEnv.toZoneEnv 1025 =
        some (.ok (),
          { m with
            device := after
            engine := restoredEngine (Engine.new 1) oneObject OntologyState.new subscriptions }) := by
  obtain ⟨made, created, -, blobs, -⟩ := wide_engine_created newZoneEnv rfl
  have started := create_started newZoneEnv wideConfig emptyHost made (by decide) (fun _ _ => rfl)
    wide_roomy created
  obtain ⟨m, engine, side, blobs, laid⟩ : ∃ m : MountedEngine, m.engine = oneObject ∧
      m.side = SideTables.new ∧ m.blobs = ∅ ∧ LaidOut m.superblock :=
    ⟨{ made with side := SideTables.new, engine := oneObject }, rfl, rfl, blobs, started.disk.laid⟩
  have built : m.buildIndexBlob newZoneEnv.toZoneEnv = .ok oneBlob :=
    one_blob_built m oneObject.clock engine side blobs
  obtain ⟨⟨⟩, after, saved, -⟩ := completes_object_zone laid
    (one_object_only m oneObject.clock engine side) one_blob_short built
    roomyDevice ⟨rfl, fun _ member => by cases member⟩ (by decide)
  refine ⟨m, after, engine, saved, ?_⟩
  obtain ⟨subscriptions, same, loaded⟩ := saved_zone_loads newZoneEnv.toZoneEnv m
    { m with device := after, engine := Engine.new 1 } laid (one_object_storable m engine)
    (objects_below one_blob_short built) roomyDevice after saved laid (by rw [engine]; rfl)
    (agrees_refl _ _ _) OntologyState.new (by rw [engine]; rfl) 1025 (by decide)
  rw [engine] at same
  refine ⟨subscriptions, same, loaded.trans ?_⟩
  rw [engine]

end MountedEngine

end Mimisbrunnr
