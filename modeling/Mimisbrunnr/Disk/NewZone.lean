import Mimisbrunnr.Disk.CrashRecovery
import Mimisbrunnr.Disk.Storability
import Mimisbrunnr.Storage.Completion

/-!
# The zone of an engine with objects only

An engine that holds object records and nothing else is saved on every sound disk
of the size, if the records have slots and the codings of its ontology and of its
blob have room.
-/

namespace Mimisbrunnr

set_option autoImplicit false

open Mimisbrunnr.Index
open Mimisbrunnr.Lib.FiniteMap
open Mimisbrunnr.Lib.Layout
open Mimisbrunnr.Meta
open Mimisbrunnr.Ontology
open Mimisbrunnr.Pool
open Mimisbrunnr.Storage
open Mimisbrunnr.Types
open Mimisbrunnr.Watch

section

variable {limit : Nat}

private theorem completes_new_kv (env : KvRegionEnv) (offset : Nat)
    (inside : offset + regionSize ≤ limit) :
    Completes limit (KvIndex.new.flushToRegion env offset) fun _ => True := by
  have none : KvIndex.new.sortedEntries = [] := by
    rw [KvIndex.sortedEntries]
    exact @to_sorted_of_entries _ _ kvOrder [] List.Pairwise.nil
  have region : regionSize = 262144 := rfl
  have block : blockSize = 4096 := rfl
  have bucketSize : KvBucketBlock.body.size = 4092 := rfl
  have directorySize : KvDirectoryBlock.body.size = 4092 := rfl
  unfold KvIndex.flushToRegion
  rw [none]
  apply completes_bind (fun buckets => buckets = [.new 0])
  · exact completes_pure _ rfl
  · rintro _ rfl
    apply completes_bind fun _ => True
    · apply completes_bind fun _ => True
      · apply completes_map_error
        apply completes_map_error
        apply completes_write
        rw [length_sealed]
        omega
      · exact fun _ _ => completes_pure _ trivial
    · intro _ _
      apply completes_bind fun _ => True
      · exact completes_lift _ _ rfl trivial
      · intro _ _
        apply completes_map_error
        apply completes_map_error
        apply completes_write
        rw [length_sealed]
        omega

theorem fill_within {α : Type} {shape : LeafShape α} (entries : List (UInt64 × α))
    (within : ∀ entry ∈ entries, entry.1.toNat % 2 ^ 48 < shape.records) :
    ∀ leaf : Leaf shape, ∃ filled, fillLeaf entries leaf = .ok filled := by
  induction entries with
  | nil => exact fun leaf => ⟨leaf, rfl⟩
  | cons entry rest ih =>
      intro leaf
      obtain ⟨first, others⟩ := List.forall_mem_cons.mp within
      obtain ⟨next, placed⟩ : ∃ next, leaf.set (localNumber entry.1) entry.2 = .ok next := by
        rw [← local_number_to_nat] at first
        rw [Leaf.set, radix_path_of_leaf _ _ shape.some_slot shape.few_slots, if_pos first]
        exact ⟨_, rfl⟩
      obtain ⟨filled, placedRest⟩ := ih others next
      refine ⟨filled, ?_⟩
      simp only [fillLeaf, bind, Except.bind, placed]
      exact placedRest

private theorem completes_leaf {α : Type} (shape : LeafShape α) (entries : List (UInt64 × α))
    (within : ∀ entry ∈ entries, entry.1.toNat % 2 ^ 48 < shape.records) (offset : Nat)
    (inside : offset + regionSize ≤ limit) :
    Completes limit (do
      let leaf ← DeviceM.lift (fillLeaf entries (Leaf.new shape))
      leaf.write offset : DeviceM MetaError Unit) fun _ => True := by
  apply completes_bind fun _ => True
  · obtain ⟨filled, placed⟩ := fill_within entries within (Leaf.new shape)
    exact completes_lift _ _ placed trivial
  · intro leaf _
    apply completes_map_error
    apply completes_write
    rw [leaf.length_serialise]
    exact inside

end

namespace MountedEngine

/-- The blob of the engine can be encoded and ends before the area of the tag bitmaps. -/
def BlobEncodes (env : ZoneEnv) (m : MountedEngine) : Prop :=
  ∃ blob payload, m.buildIndexBlob env = .ok blob ∧ env.blobCbor.encode blob = .ok payload ∧
    8 + payload.length ≤ blobRoom

private theorem completes_blob (env : ZoneEnv) (m : MountedEngine) (laid : LaidOut m.superblock)
    (encodes : m.BlobEncodes env) :
    Completes (zoneStart + fmtIndexZoneSize.toNat) (m.saveBlob env) fun _ => True := by
  obtain ⟨blob, payload, built, encoded, short⟩ := encodes
  have start : m.zoneOffset + legacyCborBlobOffset = blobStart := by
    rw [zoneOffset, laid.zoneOffset, zone_start_eq, blobStart]
  have length : m.zoneLength = fmtIndexZoneSize.toNat := by rw [zoneLength, laid.zoneLength]
  have room : blobStart + blobRoom ≤ zoneStart + fmtIndexZoneSize.toNat := by decide
  have wide : blobRoom ≤ fmtIndexZoneSize.toNat - legacyCborBlobOffset := by decide
  apply completes_bind _ (completes_lift _ _ built rfl)
  rintro _ rfl
  apply completes_bind _ (completes_lift _ payload (by rw [encoded]; rfl) rfl)
  rintro _ rfl
  rw [if_neg (by rw [length]; omega)]
  apply completes_bind
  · apply completes_map_error
    apply completes_write
    rw [start, length_framed]
    omega
  · exact fun _ _ => completes_map_error completes_sync _

/-- The engine holds object records, each with a slot of the leaf, and nothing else. -/
structure RecordsOnly (m : MountedEngine) : Prop where
  indices : m.engine.indices = .new
  records : ∀ entry ∈ toSorted m.engine.objectTable,
    entry.1.toNat % 2 ^ 48 < objectLeaf.records
  locations : m.engine.locationTable = ∅
  ontology : m.engine.ontology = .new
  subscriptions : m.engine.subscriptions.subscriptions = ∅
  side : m.side = .new

private theorem completes_record_regions (env : ZoneEnv) (m : MountedEngine)
    (laid : LaidOut m.superblock)
    (only : m.RecordsOnly)
    (image : ∃ payload, env.ontologyCbor.encode [(0, OntologyState.new.toImage)] = .ok payload ∧
      blockSize + SortedRunHeader.layout.size + payload.length ≤ regionSize) :
    Completes (zoneStart + fmtIndexZoneSize.toNat) (m.saveRegions env) fun _ => True := by
  have places := trees_at m.superblock laid
  have start : m.zoneOffset = zoneStart := by rw [zoneOffset, laid.zoneOffset, zone_start_eq]
  have table {κ ν : Type} (codec : RunCodec κ ν) (kind : BtreeKind) (offset : Nat)
      (inside : offset + regionSize ≤ zoneStart + fmtIndexZoneSize.toNat) :
      Completes (zoneStart + fmtIndexZoneSize.toNat) (flushTable env.crc codec kind [] offset)
        fun _ => True :=
    completes_flush_table env.crc codec kind [] (fun some_entry => absurd rfl some_entry) offset
      inside
  unfold saveRegions
  dsimp only
  rw [only.indices, only.locations, only.ontology, only.side, start, places.chunkIndex.offset,
    places.kvIndex.offset, places.forwardIndex.offset, places.tagIndex.offset,
    places.rangeIndex.offset, places.objectTable.offset, places.locationTable.offset,
    places.ontology.offset, places.subscriptions.offset, places.backpointer.offset]
  have none {κ ν : Type} [LinearOrder κ] : toSorted (∅ : FMap κ ν) = [] :=
    to_sorted_of_entries [] List.Pairwise.nil
  apply completes_bind fun _ => True
  · apply completes_map_error
    apply completes_map_error
    rw [show toSorted SideTables.new.chunkIndex = [] from none]
    exact table _ _ _ (by decide)
  intro _ _
  apply completes_bind fun _ => True
  · exact completes_map_error (completes_new_kv _ _ (by decide)) _
  intro _ _
  apply completes_bind fun _ => True
  · apply completes_map_error
    unfold ForwardIndex.flushToRegion
    rw [show toSorted Indices.new.forward.entries = [] from none]
    apply completes_bind (fun written => written = ([], 0))
    · exact completes_pure _ rfl
    rintro _ rfl
    apply completes_bind _ (completes_map_error (table _ _ _ (by decide)) _)
    exact fun _ _ => completes_pure _ trivial
  intro _ _
  apply completes_bind fun _ => True
  · apply completes_map_error
    unfold TagIndex.flushToRegion
    dsimp only
    rw [show toSorted Indices.new.tag.stores = [] from none]
    apply completes_bind (fun _ => True) (completes_lift _ () rfl trivial)
    intro _ _
    apply completes_bind (fun written => written = ([], 0))
    · exact completes_pure _ rfl
    rintro _ rfl
    apply completes_bind _ (completes_map_error (table _ _ _ (by decide)) _)
    exact fun _ _ => completes_pure _ trivial
  intro _ _
  apply completes_bind fun _ => True
  · apply completes_map_error
    apply completes_map_error
    rw [show Indices.new.range.sortedEntries = [] from
      @to_sorted_of_entries _ _ rangeOrder [] List.Pairwise.nil]
    exact table _ _ _ (by decide)
  intro _ _
  apply completes_bind fun _ => True
  · apply completes_map_error
    exact completes_leaf _ _ only.records _ (by decide)
  intro _ _
  apply completes_bind fun _ => True
  · apply completes_map_error
    unfold flushLocationTable
    rw [none]
    exact completes_leaf _ _ (fun entry member => absurd member List.not_mem_nil) _ (by decide)
  intro _ _
  apply completes_bind fun _ => True
  · apply completes_map_error
    apply completes_map_error
    apply completes_flush_table env.crc _ _ _ _ _ (by decide)
    intro _
    obtain ⟨payload, encoded, short⟩ := image
    refine ⟨payload, ?_, short⟩
    change (env.ontologyCbor.encode [(0, OntologyState.new.toImage)]).mapError _ = _
    rw [encoded]
    rfl
  intro _ _
  apply completes_bind fun _ => True
  · apply completes_map_error
    have records : m.engine.subscriptions.snapshotRecords env.subscriptions.roaring = [] := by
      rw [SubscriptionEngine.snapshotRecords, only.subscriptions, none]
      rfl
    unfold SubscriptionEngine.flushToRegion
    rw [records]
    apply completes_bind (fun entries => entries = [])
    · exact completes_lift _ _ rfl rfl
    rintro _ rfl
    exact completes_map_error (table _ _ _ (by decide)) _
  intro _ _
  apply completes_bind fun _ => True
  · apply completes_map_error
    apply completes_map_error
    rw [show toSorted SideTables.new.backpointerTable = [] from none]
    exact table _ _ _ (by decide)
  intro _ _
  apply completes_bind fun _ => True
  · apply completes_map_error
    unfold BucketAllocTable.flushToRegion
    rw [BucketAllocTable.keyed, show toSorted SideTables.new.bucketAlloc = [] from none]
    exact table _ _ _ (by decide)
  intro _ _
  apply completes_map_error
  unfold FreespaceLru.flushToRegion
  rw [show toSorted SideTables.new.freespaceLru = [] from none]
  exact table _ _ _ (by decide)

/-- An engine with objects only is saved on a sound disk. -/
theorem completes_record_zone (env : ZoneEnv) (m : MountedEngine) (laid : LaidOut m.superblock)
    (only : m.RecordsOnly)
    (image : ∃ payload, env.ontologyCbor.encode [(0, OntologyState.new.toImage)] = .ok payload ∧
      blockSize + SortedRunHeader.layout.size + payload.length ≤ regionSize)
    (encodes : m.BlobEncodes env) :
    Completes (zoneStart + fmtIndexZoneSize.toNat) (m.saveZone env) fun _ => True := by
  have length : m.zoneLength = fmtIndexZoneSize.toNat := by rw [zoneLength, laid.zoneLength]
  unfold saveZone
  rw [length, if_neg (by decide)]
  apply completes_bind _ (completes_record_regions env m laid only image)
  exact fun _ _ => completes_blob env m laid encodes

/-- A coding of one value, which is told from the others by a test. -/
def onlyCbor {α : Type} (value : α) (bytes : List UInt8) (test : α → Bool)
    (only : ∀ other, test other = true → other = value) : Cbor α where
  encode other := if test other then .ok bytes else .error "unknown value"
  decode read := if read = bytes then .ok value else .error "unknown bytes"
  decode_encode other coded encoded := by
    split at encoded
    · next same =>
        cases encoded
        rw [if_pos rfl, only other same]
    · cases encoded

private theorem only_encodes {α : Type} (value : α) (bytes : List UInt8) (test : α → Bool)
    (only : ∀ other, test other = true → other = value) (passes : test value = true) :
    (onlyCbor value bytes test only).encode value = .ok bytes :=
  if_pos passes

def exactlyCbor {α : Type} [DecidableEq α] (value : α) (bytes : List UInt8) : Cbor α :=
  onlyCbor value bytes (fun other => decide (other = value)) fun _ same => of_decide_eq_true same

theorem exactly_encodes {α : Type} [DecidableEq α] (value : α) (bytes : List UInt8) :
    (exactlyCbor value bytes).encode value = .ok bytes :=
  if_pos (decide_eq_true rfl)

deriving instance DecidableEq for OntologyImage, IndexBlob

def oneObject : Engine := ((Engine.new 1).createObject none).2

def newPathBytes : List UInt8 :=
  [0xa1, 0x6b, 0x70, 0x72, 0x6f, 0x6a, 0x65, 0x63, 0x74, 0x69, 0x6f, 0x6e, 0x73, 0xa0]

def cborByte (b : UInt8) : List UInt8 := if b < 24 then [b] else [0x18, b]

/-- The head of an array of at least 24 elements. -/
def cborLong (length : Nat) : List UInt8 :=
  if length < 256 then [0x98, UInt8.ofNat length]
  else [0x99, UInt8.ofNat (length / 256), UInt8.ofNat length]

/-- The CBOR map of an operation log with few entries. -/
def logImage (entries : List (List UInt8)) : List UInt8 :=
  [0xa2, 0x67, 0x65, 0x6e, 0x74, 0x72, 0x69, 0x65, 0x73, 0x80 + UInt8.ofNat entries.length] ++
    entries.flatten ++ [0x67, 0x6d, 0x61, 0x78, 0x5f, 0x6c, 0x65, 0x6e, 0x19, 0x10, 0x00]

/-- An entry of the log, with the clock at a small number. -/
def entryImage (logical : UInt8) (operation : List UInt8) : List UInt8 :=
  [0xa3, 0x69, 0x74, 0x69, 0x6d, 0x65, 0x73, 0x74, 0x61, 0x6d, 0x70, 0xa3, 0x6b, 0x70, 0x68, 0x79,
    0x73, 0x69, 0x63, 0x61, 0x6c, 0x5f, 0x6e, 0x73, 0x00, 0x67, 0x6c, 0x6f, 0x67, 0x69, 0x63, 0x61,
    0x6c, logical, 0x67, 0x6e, 0x6f, 0x64, 0x65, 0x5f, 0x69, 0x64, 0x01, 0x63, 0x6c, 0x73, 0x6e,
    0x00, 0x62, 0x6f, 0x70, 0xa1] ++ operation

def createdEntry : List UInt8 :=
  entryImage 1
    [0x6c, 0x43, 0x72, 0x65, 0x61, 0x74, 0x65, 0x4f, 0x62, 0x6a, 0x65, 0x63, 0x74, 0xa1, 0x63, 0x6f,
      0x69, 0x64, 0x1b, 0x00, 0x01, 0x00, 0x00, 0x00, 0x00, 0x00, 0x01]

/-- The CBOR of the blob of an engine of node 1 with one object. -/
def blobImage (logBytes blobs : List UInt8) : List UInt8 :=
  [0xa6, 0x73, 0x70, 0x61, 0x74, 0x68, 0x5f, 0x63, 0x6f, 0x6e, 0x74, 0x65, 0x78, 0x74, 0x73, 0x5f,
    0x62, 0x79, 0x74, 0x65, 0x73, 0x8e] ++
    (newPathBytes.flatMap cborByte ++
      [0x6b, 0x6f, 0x70, 0x6c, 0x6f, 0x67, 0x5f, 0x62, 0x79, 0x74, 0x65, 0x73] ++
    (cborLong logBytes.length ++ logBytes.flatMap cborByte ++
      [0x6e, 0x6e, 0x65, 0x78, 0x74, 0x5f, 0x6f, 0x69, 0x64, 0x5f, 0x6c, 0x6f, 0x63, 0x61, 0x6c, 0x02,
        0x6b, 0x6e, 0x65, 0x78, 0x74, 0x5f, 0x74, 0x61, 0x67, 0x5f, 0x69, 0x64, 0x01, 0x70, 0x6c, 0x61,
        0x73, 0x74, 0x5f, 0x61, 0x70, 0x70, 0x6c, 0x69, 0x65, 0x64, 0x5f, 0x6c, 0x73, 0x6e, 0x00, 0x65,
        0x62, 0x6c, 0x6f, 0x62, 0x73] ++ blobs))

/-- What is saved of an engine with objects beside its tables. -/
def objectsBlob (logBytes : List UInt8) (e : Engine) (blobs : FMap Nat (List UInt8)) : IndexBlob :=
  { pathContextsBytes := newPathBytes
    oplogBytes := logBytes
    nextOidLocal := e.nextOidLocal
    nextTagId := indexBlobNextTagId e
    lastAppliedLsn := e.lastAppliedLsn
    blobs := blobs }

def oneLogBytes : List UInt8 := logImage [createdEntry]

def oneBlob : IndexBlob := objectsBlob oneLogBytes oneObject ∅

def oneBlobBytes : List UInt8 := blobImage oneLogBytes [0xa0]

/-- The CBOR of the entries of an ontology that is empty. -/
def newOntologyBytes : List UInt8 :=
  [0x81, 0x82, 0x00, 0xa5, 0x6e, 0x66, 0x6f, 0x72, 0x6d, 0x61, 0x74, 0x5f, 0x76, 0x65, 0x72, 0x73,
    0x69, 0x6f, 0x6e, 0x01, 0x64, 0x74, 0x61, 0x67, 0x73, 0x80, 0x63, 0x64, 0x61, 0x67, 0xa2, 0x64,
    0x74, 0x61, 0x67, 0x73, 0x80, 0x65, 0x65, 0x64, 0x67, 0x65, 0x73, 0x80, 0x69, 0x72, 0x65, 0x6c,
    0x61, 0x74, 0x69, 0x6f, 0x6e, 0x73, 0x80, 0x67, 0x6d, 0x6f, 0x64, 0x75, 0x6c, 0x65, 0x73, 0x80]

def readBytes : List UInt8 → List UInt8
  | [] => []
  | b :: rest =>
      if b < 24 then b :: readBytes rest
      else
        match rest with
        | [] => []
        | c :: rest => c :: readBytes rest

private theorem read_bytes_back (bytes : List UInt8) : readBytes
    (bytes.flatMap cborByte) = bytes := by
  induction bytes with
  | nil => rfl
  | cons b rest again =>
      rw [List.flatMap_cons, cborByte]
      split
      · next low =>
          change readBytes (b :: rest.flatMap cborByte) = b :: rest
          unfold readBytes
          rw [if_pos low, again]
      · change readBytes (0x18 :: b :: rest.flatMap cborByte) = b :: rest
        simp only [readBytes, if_neg (by decide : ¬ (0x18 : UInt8) < 24), again]

private theorem cbor_bytes_length (bytes : List UInt8) :
    (bytes.flatMap cborByte).length ≤ 2 * bytes.length := by
  induction bytes with
  | nil => exact Nat.le_refl 0
  | cons b rest short =>
      have one : (cborByte b).length ≤ 2 := by
        unfold cborByte
        split <;> simp
      rw [List.flatMap_cons, List.length_append, List.length_cons]
      omega

def checkpointHead : List UInt8 :=
  [0xa2, 0x68, 0x6e, 0x65, 0x77, 0x5f, 0x72, 0x6f, 0x6f, 0x74, 0x99, 0x01, 0x98]

def checkpointTail : List UInt8 :=
  [0x72, 0x67, 0x63, 0x5f, 0x72, 0x65, 0x73, 0x65, 0x72, 0x76, 0x65, 0x5f, 0x62, 0x75, 0x63, 0x6b,
    0x65, 0x74, 0x73, 0x00]

/-- The CBOR of the checkpoints that reserve no buckets. -/
def checkpointCode : Cbor Checkpoint where
  encode checkpoint :=
    if checkpoint.gcReserveBuckets = 0 ∧ checkpoint.newRoot.length = 408 then
      .ok (checkpointHead ++ (checkpoint.newRoot.flatMap cborByte ++ checkpointTail))
    else .error "unknown value"
  decode bytes :=
    let body := bytes.drop checkpointHead.length
    .ok
      { newRoot := readBytes (body.take (body.length - checkpointTail.length))
        gcReserveBuckets := 0 }
  decode_encode checkpoint bytes encoded := by
    split at encoded
    · next whole =>
        cases encoded
        simp only [List.drop_left, List.length_append, Nat.add_sub_cancel, List.take_left,
          read_bytes_back, ← whole.1]
    · cases encoded

theorem checkpoint_encodes (root : List UInt8) (whole : root.length = 408) :
    checkpointCode.encode { newRoot := root, gcReserveBuckets := 0 } =
      .ok (checkpointHead ++ (root.flatMap cborByte ++ checkpointTail)) :=
  if_pos ⟨rfl, whole⟩

theorem checkpoint_short (root : List UInt8) (whole : root.length = 408) :
    (checkpointHead ++ (root.flatMap cborByte ++ checkpointTail)).length ≤ 849 := by
  have body := cbor_bytes_length root
  have head : checkpointHead.length = 13 := rfl
  have tail : checkpointTail.length = 20 := rfl
  rw [List.length_append, List.length_append]
  omega

theorem only_new_paths (other : Unix.PathContextManager)
    (same : decide (other.projections.keys = ∅) = true) : other = .new := by
  cases other with
  | mk projections =>
      have empty : projections = ∅ := by
        apply Finmap.ext_lookup
        intro key
        rw [Finmap.lookup_empty]
        apply Finmap.lookup_eq_none.mpr
        intro member
        have listed := Finmap.mem_keys.mpr member
        rw [of_decide_eq_true same] at listed
        cases listed
      rw [empty]
      rfl

/-- An environment that can save an engine with this log and this blob. -/
def objectsEnv (base : LifecycleEnv) (log : OpLog) (logBytes : List UInt8) (blob : IndexBlob)
    (blobBytes : List UInt8) : LifecycleEnv :=
  { base with
    ontologyCbor := exactlyCbor [(0, OntologyState.new.toImage)] newOntologyBytes
    pathContextsCbor := onlyCbor .new newPathBytes (fun other => decide (other.projections.keys = ∅))
      only_new_paths
    oplogCbor := exactlyCbor log logBytes
    blobCbor := exactlyCbor blob blobBytes
    checkpointCbor := checkpointCode }

section

variable {base : LifecycleEnv} {log : OpLog} {logBytes blobBytes : List UInt8} {blob : IndexBlob}
  {m : MountedEngine}

theorem objects_built (logged : m.engine.oplog = log) (side : m.side = SideTables.new)
    (same : objectsBlob logBytes m.engine m.blobs = blob) :
    m.buildIndexBlob (objectsEnv base log logBytes blob blobBytes).toZoneEnv = .ok blob := by
  have paths : (onlyCbor Unix.PathContextManager.new newPathBytes
      (fun other => decide (other.projections.keys = ∅)) only_new_paths).encode
        SideTables.new.pathContexts = .ok newPathBytes :=
    only_encodes _ _ _ only_new_paths (by decide)
  have bytes : (exactlyCbor log logBytes).encode log = .ok logBytes := exactly_encodes _ _
  unfold buildIndexBlob
  simp only [objectsEnv, side, logged, paths, bytes, ← same]
  rfl

theorem objects_below (short : 8 + blobBytes.length ≤ blobRoom)
    (built : m.buildIndexBlob (objectsEnv base log logBytes blob blobBytes).toZoneEnv = .ok blob) :
    m.BlobBelowPages (objectsEnv base log logBytes blob blobBytes).toZoneEnv := by
  intro other payload again encoded
  rw [built] at again
  cases again
  rw [show (objectsEnv base log logBytes blob blobBytes).blobCbor.encode blob = .ok blobBytes from
    exactly_encodes _ _] at encoded
  cases encoded
  exact short

theorem completes_object_zone (laid : LaidOut m.superblock) (only : m.RecordsOnly)
    (short : 8 + blobBytes.length ≤ blobRoom)
    (built : m.buildIndexBlob (objectsEnv base log logBytes blob blobBytes).toZoneEnv = .ok blob) :
    Completes (zoneStart + fmtIndexZoneSize.toNat)
      (m.saveZone (objectsEnv base log logBytes blob blobBytes).toZoneEnv) fun _ => True := by
  have image : (objectsEnv base log logBytes blob blobBytes).ontologyCbor.encode
      [(0, OntologyState.new.toImage)] = .ok newOntologyBytes := exactly_encodes _ _
  apply completes_record_zone _ m laid only
  · exact ⟨_, image, by decide +kernel⟩
  · exact ⟨_, _, built, exactly_encodes _ _, short⟩

end

def newZoneEnv : LifecycleEnv :=
  objectsEnv (lifecycleSample Engine.sampleCodec) oneObject.oplog oneLogBytes oneBlob oneBlobBytes

theorem one_object_only (m : MountedEngine) (clock : HybridClock)
    (engine : m.engine = { oneObject with clock := clock }) (side : m.side = SideTables.new) :
    m.RecordsOnly := by
  refine ⟨?_, ?_, ?_, ?_, ?_, side⟩
  all_goals rw [engine]
  · rfl
  · change ∀ entry ∈ toSorted oneObject.objectTable, entry.1.toNat % 2 ^ 48 < objectLeaf.records
    decide +kernel
  · rfl
  · rfl
  · rfl

theorem one_blob_built (m : MountedEngine) (clock : HybridClock)
    (engine : m.engine = { oneObject with clock := clock }) (side : m.side = SideTables.new)
    (blobs : m.blobs = ∅) : m.buildIndexBlob newZoneEnv.toZoneEnv = .ok oneBlob := by
  apply objects_built _ side
  · rw [engine, blobs]
    rfl
  · rw [engine]

theorem one_blob_short : 8 + oneBlobBytes.length ≤ blobRoom := by decide +kernel

end MountedEngine

end Mimisbrunnr
