import Mimisbrunnr.Disk.SavedZone
import Mimisbrunnr.Wal.Tracking

/-!
# What an opening finds

An opening that succeeds has loaded the object table from its region and has
taken the blob from behind the regions. With an empty log nothing is replayed.
-/

namespace Mimisbrunnr

set_option autoImplicit false

open Mimisbrunnr.Index
open Mimisbrunnr.Lib.ByteStore
open Mimisbrunnr.Lib.FiniteMap
open Mimisbrunnr.Lib.Layout
open Mimisbrunnr.Meta
open Mimisbrunnr.Ontology
open Mimisbrunnr.Pool
open Mimisbrunnr.Storage
open Mimisbrunnr.Types
open Mimisbrunnr.Watch

namespace MountedEngine

theorem load_region_ok {α ε : Type} (ref : BlockRef) (fallback : α)
    (load : Nat → Option (Except ε α)) (wrap : ε → EngineError) (set : α → MountedEngine)
    (next : MountedEngine) (ok : loadRegion ref fallback load wrap set = some (.ok next)) :
    ∃ value, next = set value ∧ (isZero ref = false → load ref.offset = some (.ok value)) := by
  unfold loadRegion at ok
  split at ok
  · next zero =>
      cases ok
      refine ⟨fallback, rfl, ?_⟩
      intro some_tree
      rw [zero] at some_tree
      cases some_tree
  · cases loaded : load ref.offset with
    | none =>
        rw [loaded] at ok
        cases ok
    | some result =>
        rw [loaded] at ok
        cases result with
        | error err => cases ok
        | ok value =>
            cases ok
            exact ⟨value, rfl, fun _ => rfl⟩

theorem load_in_turn_keeps {β : Type} (view : MountedEngine → β)
    (loads : List (MountedEngine → Option (Except EngineError MountedEngine)))
    (keeps : ∀ load ∈ loads, ∀ m next, load m = some (.ok next) → view next = view m) :
    ∀ m loaded, loadInTurn loads m = some (.ok (), loaded) → view loaded = view m := by
  induction loads with
  | nil =>
      intro m loaded ok
      cases ok
      rfl
  | cons load rest ih =>
      intro m loaded ok
      rw [loadInTurn] at ok
      split at ok
      · cases ok
      · cases ok
      · next next here =>
          rw [ih (fun other member => keeps other (List.mem_cons_of_mem _ member)) next loaded ok]
          exact keeps load List.mem_cons_self m next here

private theorem load_in_turn_append
    (before after : List (MountedEngine → Option (Except EngineError MountedEngine))) :
    ∀ m loaded, loadInTurn (before ++ after) m = some (.ok (), loaded) →
      ∃ middle, loadInTurn before m = some (.ok (), middle) ∧
        loadInTurn after middle = some (.ok (), loaded) := by
  induction before with
  | nil =>
      intro m loaded ok
      exact ⟨m, rfl, ok⟩
  | cons load rest ih =>
      intro m loaded ok
      rw [List.cons_append, loadInTurn] at ok
      split at ok
      · cases ok
      · cases ok
      · next next here =>
          obtain ⟨middle, first, second⟩ := ih next loaded ok
          refine ⟨middle, ?_, second⟩
          rw [loadInTurn, here]
          exact first

/-- The engine without what the regions hold. -/
def unloaded (m : MountedEngine) : MountedEngine :=
  { m with
    side := SideTables.new
    engine :=
      { m.engine with
        indices := Indices.new
        objectTable := ∅
        locationTable := ∅
        ontology := OntologyState.new
        subscriptions := SubscriptionEngine.new } }

private theorem load_keeps_unloaded {α ε : Type} (ref : BlockRef) (fallback : α)
    (load : Nat → Option (Except ε α)) (wrap : ε → EngineError)
    (set : MountedEngine → α → MountedEngine)
    (keeps : ∀ m value, (set m value).unloaded = m.unloaded) (m next : MountedEngine)
    (ok : loadRegion ref fallback load wrap (set m) = some (.ok next)) :
    next.unloaded = m.unloaded := by
  obtain ⟨value, same, -⟩ := load_region_ok _ _ _ _ _ _ ok
  rw [same]
  exact keeps m value

section

variable (env : ZoneEnv) (fuel : Nat) (d : Device) (start : Nat) (root : RootPointer)
  (nodeId : UInt16)

theorem region_loads_keep :
    ∀ load ∈ regionLoads env fuel d start root nodeId, ∀ m next, load m = some (.ok next) →
      next.unloaded = m.unloaded := by
  simp only [regionLoads, List.forall_mem_cons, List.not_mem_nil, false_implies, implies_true,
    and_true]
  refine ⟨?_, ?_, ?_, ?_, ?_, ?_, ?_, ?_, ?_, ?_, ?_, ?_⟩
  -- the trees, and then the two regions that are always loaded
  any_goals exact load_keeps_unloaded _ _ _ _ _ fun _ _ => rfl
  · intro m next ok
    cases loaded : BucketAllocTable.loadFromRegion env.buckets d (start + bucketAllocRegionOffset)
    · rw [loaded] at ok
      cases ok
    · rw [loaded] at ok
      cases ok
      rfl
  · intro m next ok
    cases loaded : FreespaceLru.loadFromRegion env.freespace d (start + freespaceLruRegionOffset)
    · rw [loaded] at ok
      cases ok
    · rw [loaded] at ok
      cases ok
      rfl

theorem later_loads_keep :
    ∀ load ∈ (regionLoads env fuel d start root nodeId).drop 6, ∀ m next,
      load m = some (.ok next) → next.engine.objectTable = m.engine.objectTable := by
  have tree {α ε : Type} (ref : BlockRef) (fallback : α) (load : Nat → Option (Except ε α))
      (wrap : ε → EngineError) (set : MountedEngine → α → MountedEngine)
      (keeps : ∀ m value, (set m value).engine.objectTable = m.engine.objectTable)
      (m next : MountedEngine) (ok : loadRegion ref fallback load wrap (set m) = some (.ok next)) :
      next.engine.objectTable = m.engine.objectTable := by
    obtain ⟨value, same, -⟩ := load_region_ok _ _ _ _ _ _ ok
    rw [same]
    exact keeps m value
  simp only [regionLoads, List.drop_succ_cons, List.drop_zero, List.forall_mem_cons,
    List.not_mem_nil, false_implies, implies_true, and_true]
  refine ⟨?_, ?_, ?_, ?_, ?_, ?_⟩
  any_goals exact tree _ _ _ _ _ fun _ _ => rfl
  · intro m next ok
    cases loaded : BucketAllocTable.loadFromRegion env.buckets d (start + bucketAllocRegionOffset)
    · rw [loaded] at ok
      cases ok
    · rw [loaded] at ok
      cases ok
      rfl
  · intro m next ok
    cases loaded : FreespaceLru.loadFromRegion env.freespace d (start + freespaceLruRegionOffset)
    · rw [loaded] at ok
      cases ok
    · rw [loaded] at ok
      cases ok
      rfl

/-- What the regions give the engine, of which only the object table matters to what follows. -/
theorem load_all_regions_ok (placed : TreesPlaced root) (m loaded : MountedEngine)
    (ok : loadAllRegions env fuel m d start root nodeId = some (.ok (), loaded)) :
    loaded.unloaded = m.unloaded ∧
      loadObjectTable d objectTableStart = .ok loaded.engine.objectTable := by
  have split : regionLoads env fuel d start root nodeId =
      (regionLoads env fuel d start root nodeId).take 5 ++
        (fun m => loadRegion root.objectTableRoot ∅ (fun at_ => some (loadObjectTable d at_))
          .metadata fun objectTable => { m with engine := { m.engine with objectTable } }) ::
          (regionLoads env fuel d start root nodeId).drop 6 := rfl
  constructor
  · exact load_in_turn_keeps unloaded _ (region_loads_keep env fuel d start root nodeId) m loaded ok
  · rw [loadAllRegions, split] at ok
    obtain ⟨middle, -, later⟩ := load_in_turn_append _ _ _ _ ok
    rw [loadInTurn] at later
    split at later
    · cases later
    · cases later
    · next next here =>
        obtain ⟨table, same, found⟩ := load_region_ok _ _ _ _ _ _ here
        have kept := load_in_turn_keeps (fun m => m.engine.objectTable) _
          (later_loads_keep env fuel d start root nodeId) next loaded later
        have read := Option.some.inj (found placed.objectTableSome)
        rw [placed.objectTable] at read
        rw [read, kept, same]

end

theorem read_index_blob_ok (env : ZoneEnv) (d : Device) (sb : Superblock) (laid : LaidOut sb)
    (payload : List UInt8) (blob : IndexBlob)
    (short : payload.length + 8 ≤ fmtIndexZoneSize.toNat - legacyCborBlobOffset)
    (inside : blobStart + (8 + payload.length) ≤ d.capacity)
    (stored : read d.bytes blobStart (8 + payload.length) = framed payload)
    (decoded : env.blobCbor.decode payload = .ok blob) :
    readIndexBlob env d sb = .ok (some blob) := by
  have start : sb.indexZone.offset.toNat + legacyCborBlobOffset = blobStart := by
    rw [laid.zoneOffset, zone_start_eq, blobStart]
  have few : payload.length < 2 ^ 32 := by
    have room : fmtIndexZoneSize.toNat < 2 ^ 32 := by decide
    omega
  have magic : (Pod.u32.toBytes indexBlobMagic).length = 4 := Pod.u32.length_to_bytes _
  have number : (Pod.u32.toBytes (UInt32.ofNat payload.length)).length = 4 :=
    Pod.u32.length_to_bytes _
  have grouped : framed payload =
      (Pod.u32.toBytes indexBlobMagic ++ Pod.u32.toBytes (UInt32.ofNat payload.length)) ++
        payload := (List.append_assoc _ _ _).symm
  rw [read_add, grouped] at stored
  obtain ⟨header, body⟩ := List.append_inj stored (by
    rw [length_read, List.length_append, magic, number])
  have room : ¬ sb.indexZone.length.toNat < legacyCborBlobOffset + 8 := by
    rw [laid.zoneLength]
    decide
  have fits : ¬ sb.indexZone.length.toNat - legacyCborBlobOffset < payload.length + 8 := by
    rw [laid.zoneLength]
    omega
  have length : (Pod.u32.ofBytes (Pod.u32.toBytes (UInt32.ofNat payload.length))).toNat =
      payload.length := by
    rw [Pod.u32.of_to_bytes, UInt32.toNat_ofNat']
    exact Nat.mod_eq_of_lt few
  have first : d.readAt blobStart 8 =
      .ok (Pod.u32.toBytes indexBlobMagic ++ Pod.u32.toBytes (UInt32.ofNat payload.length)) := by
    rw [Device.read_at_ok _ _ _ (by omega), header]
  have second : d.readAt (blobStart + 8) payload.length = .ok payload := by
    rw [Device.read_at_ok _ _ _ (by omega), body]
  rw [readIndexBlob, if_neg room, start]
  simp only [first, bind, Except.bind, Except.mapError]
  rw [List.take_left' magic, Pod.u32.of_to_bytes, if_neg (by simp), List.drop_left' magic, length,
    if_neg fits, second]
  simp only [decoded]

/-- The objects, their counter, the node and the transform of an engine. -/
structure SameObjects (left right : Engine) : Prop where
  table : left.objectTable = right.objectTable
  counter : left.nextOidLocal = right.nextOidLocal
  node : left.nodeId = right.nodeId
  transform : left.transform = right.transform

theorem SameObjects.caught_up {left right : Engine} (same : SameObjects left right)
    (nextOidLocal : Nat) :
    SameObjects (caughtUp left nextOidLocal) (caughtUp right nextOidLocal) := by
  cases left
  cases right
  obtain ⟨table, counter, node, transform⟩ := same
  dsimp only at table counter node transform
  subst table counter node transform
  unfold caughtUp
  split
  · exact ⟨rfl, rfl, rfl, rfl⟩
  · exact ⟨rfl, rfl, rfl, rfl⟩

/-- What loading gives an engine. -/
structure LoadedFrom (blob : IndexBlob) (m loaded : MountedEngine) : Prop where
  objects : ∃ table, loadObjectTable m.device objectTableStart = .ok table ∧
    SameObjects loaded.engine (caughtUp { m.engine with objectTable := table } blob.nextOidLocal)
  blobs : loaded.blobs = blob.blobs
  wal : loaded.wal = m.wal
  device : loaded.device = m.device
  readOnly : loaded.readOnly = m.readOnly
  superblock : loaded.superblock = m.superblock
  config : loaded.config = m.config
  handle : loaded.handle = m.handle
  files : loaded.files = m.files

private theorem apply_index_blob_objects (env : ZoneEnv) (m : MountedEngine) (blob : IndexBlob) :
    SameObjects (applyIndexBlob env m blob).engine (caughtUp m.engine blob.nextOidLocal) := by
  have same : SameObjects
      { m.engine with oplog := restored env.oplogCbor blob.oplogBytes m.engine.oplog } m.engine :=
    ⟨rfl, rfl, rfl, rfl⟩
  have counted := same.caught_up blob.nextOidLocal
  exact ⟨counted.table, counted.counter, counted.node, counted.transform⟩

private theorem load_index_state_ok (env : ZoneEnv) (fuel : Nat) (m loaded : MountedEngine)
    (blob : IndexBlob) (laid : LaidOut m.superblock)
    (blobbed : readIndexBlob env m.device m.superblock = .ok (some blob))
    (ok : m.loadIndexState env fuel = some (.ok (), loaded)) : LoadedFrom blob m loaded := by
  unfold loadIndexState at ok
  split at ok
  · cases ok
  · cases ok
  · next regions here =>
      obtain ⟨same, table⟩ :=
        load_all_regions_ok env fuel _ _ _ _ (trees_placed _ laid) m regions here
      have kept {β : Type} (view : MountedEngine → β) :
          view regions.unloaded = view m.unloaded := congrArg view same
      have device : regions.device = m.device := kept fun m => m.device
      have superblock : regions.superblock = m.superblock := kept fun m => m.superblock
      rw [loadBlob, device, superblock, blobbed] at ok
      cases ok
      refine ⟨⟨_, table, ?_⟩, rfl, kept fun m => m.wal, rfl, kept fun m => m.readOnly, rfl,
        kept fun m => m.config, kept fun m => m.handle, kept fun m => m.files⟩
      have applied := apply_index_blob_objects env { regions with blobs := blob.blobs } blob
      have loaded : SameObjects regions.engine
          { m.engine with objectTable := regions.engine.objectTable } :=
        ⟨rfl, kept fun m => m.engine.nextOidLocal, kept fun m => m.engine.nodeId,
          kept fun m => m.engine.transform⟩
      have counted := loaded.caught_up blob.nextOidLocal
      exact ⟨applied.table.trans counted.table, applied.counter.trans counted.counter,
        applied.node.trans counted.node, applied.transform.trans counted.transform⟩

theorem replay_nothing (env : LifecycleEnv) (m : MountedEngine)
    (empty : ∀ start, m.wal.iterFrom env.crc m.device start = []) : m.replayWal env = .ok m := by
  rw [replayWal, empty]
  rfl

theorem mount_ok (env : LifecycleEnv) (fuel : Nat) (config : PoolConfig)
    (handle : FileBlockDevice) (files : FileSystem) (sb : Superblock) (wal : Wal)
    (blob : IndexBlob) (opened : MountedEngine)
    (rooted : Superblock.open env.crc (files.device handle) = .ok sb) (laid : LaidOut sb)
    (ringed : Wal.open env.crc (files.device handle) sb.walOffset.toNat sb.walSize.toNat = .ok wal)
    (empty : ∀ start, wal.iterFrom env.crc (files.device handle) start = [])
    (blobbed : readIndexBlob env.toZoneEnv (files.device handle) sb = .ok (some blob))
    (ok : mount env fuel config handle files = some (.ok opened)) :
    LoadedFrom blob (blank config handle files sb wal) opened := by
  simp only [mount, rooted, ringed] at ok
  split at ok
  · cases ok
  · cases ok
  · next loaded here =>
      have found := load_index_state_ok env.toZoneEnv fuel _ loaded blob laid blobbed here
      have nothing : ∀ start, loaded.wal.iterFrom env.crc loaded.device start = [] := by
        intro start
        rw [found.wal, found.device]
        exact empty start
      rw [replay_nothing env loaded nothing] at ok
      cases ok
      exact found

end MountedEngine

end Mimisbrunnr
