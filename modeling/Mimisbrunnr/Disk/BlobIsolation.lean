import Mimisbrunnr.Disk.ObjectIds

/-!
# Reads of blobs

The bytes of a blob are stored under the local number of its object, whatever the
node of the object is, and a deletion leaves them there. So a read finds what was
last written to the object while no two objects with one local number are written
differently, no object with bytes is deleted, and no object comes to be where
bytes are.
-/

namespace Mimisbrunnr

set_option autoImplicit false

open Mimisbrunnr.Lib
open Mimisbrunnr.Lib.FiniteMap
open Mimisbrunnr.Meta
open Mimisbrunnr.Pool
open Mimisbrunnr.Storage
open Mimisbrunnr.Transform
open Mimisbrunnr.Types
open Mimisbrunnr.Wal

namespace MountedEngine

/-- An engine with the objects that the run has seen and what is last known of their blobs. -/
structure BlobRun where
  engine : MountedEngine
  objects : Finset UInt64
  blobs : FMap UInt64 (List UInt8)

namespace BlobRun

def start (m : MountedEngine) : BlobRun :=
  { engine := m
    objects := ∅
    blobs := ∅ }

/-- What was last written to each object that was not deleted since. -/
def written (blobs : FMap UInt64 (List UInt8)) : DiskCall → FMap UInt64 (List UInt8)
  | .mutate (.writeBlob oid plaintext) _ => blobs.insert oid.toU64 plaintext
  | .mutate (.deleteObject oid) _ => blobs.erase oid.toU64
  | _ => blobs

/-- The run ends at a call that fails. -/
def succeed (env : LifecycleEnv) (m : MountedEngine) : DiskCall → Option MountedEngine
  | .mutate mutation readings =>
      match m.mutate env mutation readings with
      | (.ok (), after) => some after
      | (.error _, _) => none
  | call => m.perform env call

def step (env : LifecycleEnv) (r : BlobRun) (call : DiskCall) : Option BlobRun :=
  (succeed env r.engine call).map fun after =>
    { engine := after
      objects := r.objects ∪ after.engine.objectTable.keys
      blobs := written r.blobs call }

def Reads (r : BlobRun) : Prop :=
  ∀ oid : ObjectId, oid.toU64 ∈ r.objects → r.engine.readBlob oid = r.blobs.lookup oid.toU64

/-- A write or a deletion of an object leaves the reads of others alone. -/
def LeavesOthers (env : LifecycleEnv) (r : BlobRun) (call : DiskCall) : Prop :=
  ∀ (next : BlobRun) (oid : ObjectId) (plaintext : List UInt8) (readings : Readings),
    (call = .mutate (.writeBlob oid plaintext) readings ∨
      call = .mutate (.deleteObject oid) readings) →
    step env r call = some next → ∀ other : ObjectId, other.toU64 ∈ r.objects → other ≠ oid →
      next.engine.readBlob other = r.engine.readBlob other

def Vacant (r : BlobRun) (oid : ObjectId) : Prop :=
  oid.toU64 ∈ r.objects ∨ oid.localSeq ∉ r.engine.blobs

/-- No bytes where an object comes to be or is deleted, none but the same where another object has
the local number of the one that is written, and nothing written over what a commit saves. -/
def Isolated (env : LifecycleEnv) (r : BlobRun) : DiskCall → Prop
  | .mutate .createObject _ =>
      r.Vacant (ObjectId.fromParts r.engine.engine.nodeId r.engine.engine.nextOidLocal)
  | .mutate (.deleteObject oid) _ => oid.localSeq ∉ r.engine.blobs
  | .mutate (.writeBlob oid plaintext) _ =>
      ∀ other : ObjectId, other.toU64 ∈ r.objects → other ≠ oid → other.localSeq = oid.localSeq →
        r.engine.blobs.lookup oid.localSeq = some plaintext
  | .mutate _ _ => True
  | .ensure oid => r.Vacant oid
  | .reopen _ _ =>
      BlobFits env r.engine ∧ NewestAtEnd env r.engine ∧
        (1 < r.engine.engine.nextOidLocal → r.Vacant r.engine.engine.ghost)

/-- The invariant of a run. -/
structure Kept (env : LifecycleEnv) (r : BlobRun) : Prop where
  sound : Sound env r.engine
  transform : r.engine.engine.transform = .passthrough
  recorded : ∀ key ∈ r.engine.engine.objectTable, key ∈ r.objects
  known : ∀ key ∈ r.blobs, key ∈ r.objects
  reads : r.Reads

theorem mutate_succeeds (env : LifecycleEnv) (m after : MountedEngine) (mutation : Mutation)
    (readings : Readings) (ok : succeed env m (.mutate mutation readings) = some after) :
    after = (m.mutate env mutation readings).2 ∧
      after.blobs = m.toDiskEngine.stored env.toEnv mutation ∧
      (∃ op, (m.engine.apply env.toEnv mutation readings.mutation).1 = .ok op) ∧
      ∃ clock, after.engine =
        { (m.engine.apply env.toEnv mutation readings.mutation).2 with clock := clock } := by
  unfold succeed at ok
  dsimp only at ok
  split at ok
  · next mutated here =>
      cases ok
      refine ⟨by rw [here], ?_⟩
      unfold mutate at here
      rw [DiskEngine.apply_durably] at here
      rcases ran : m.toDiskEngine.durably env.toDiskEnv
          (m.engine.apply env.toEnv mutation readings.mutation)
          (fun _ _ => m.toDiskEngine.stored env.toEnv mutation) id readings.append with ⟨_ | op, d⟩
      · rw [ran] at here
        cases here
      · rw [ran] at here
        cases here
        obtain ⟨result, blobs, engine⟩ := DiskEngine.durably_ok _ _ _ _ _ _ _ _ ran
        exact ⟨blobs, ⟨op, result⟩, engine⟩
  · cases ok

/-- A call that leaves the blobs alone and brings objects only where there are none. -/
theorem kept_of_vacant {env : LifecycleEnv} {r : BlobRun} (kept : Kept env r)
    (after : MountedEngine) (sound : Sound env after)
    (transform : after.engine.transform = .passthrough)
    (blobs : after.blobs = r.engine.blobs)
    (vacant : ∀ oid : ObjectId, oid.toU64 ∈ after.engine.objectTable → r.Vacant oid) :
    Kept env
      { engine := after, objects := r.objects ∪ after.engine.objectTable.keys, blobs := r.blobs } := by
  have read (oid : ObjectId) : after.readBlob oid = r.engine.readBlob oid := by
    rw [DiskEngine.readBlob, DiskEngine.readBlob, blobs]
  refine ⟨sound, transform, ?_, ?_, ?_⟩
  · intro key member
    exact Finset.mem_union_right _ (Finmap.mem_keys.mpr member)
  · intro key member
    exact Finset.mem_union_left _ (kept.known key member)
  · intro oid member
    rw [read]
    by_cases seen : oid.toU64 ∈ r.objects
    · exact kept.reads oid seen
    · have present : oid.toU64 ∈ after.engine.objectTable := by
        cases Finset.mem_union.mp member with
        | inl earlier => exact absurd earlier seen
        | inr now => exact Finmap.mem_keys.mp now
      cases vacant oid present with
      | inl earlier => exact absurd earlier seen
      | inr empty =>
          have unknown : oid.toU64 ∉ r.blobs := fun known => seen (kept.known _ known)
          exact (Finmap.lookup_eq_none.mpr empty).trans (Finmap.lookup_eq_none.mpr unknown).symm

theorem mutate_same_objects (env : LifecycleEnv) (m after : MountedEngine) (mutation : Mutation)
    (readings : Readings) (ok : succeed env m (.mutate mutation readings) = some after)
    (other : mutation ≠ .createObject) :
    Engine.SameRecords m.engine after.engine := by
  obtain ⟨-, -, -, clock, engine⟩ := mutate_succeeds env m after mutation readings ok
  have same := Engine.apply_same_records env.toEnv m.engine mutation readings.mutation other
  rw [engine]
  exact ⟨same.member, same.keyed, same.counter, same.node, same.transform⟩

/-- A mutation that writes no bytes and deletes nothing. -/
theorem kept_mutate {env : LifecycleEnv} {r : BlobRun} (kept : Kept env r) (mutation : Mutation)
    (readings : Readings) (after : MountedEngine)
    (ok : succeed env r.engine (.mutate mutation readings) = some after)
    (blobs : after.blobs = r.engine.blobs) (other : mutation ≠ .createObject) :
    Kept env
      { engine := after, objects := r.objects ∪ after.engine.objectTable.keys, blobs := r.blobs } := by
  obtain ⟨moved, -⟩ := mutate_succeeds env r.engine after mutation readings ok
  have same := mutate_same_objects env r.engine after mutation readings ok other
  apply kept_of_vacant kept after _ (same.transform.trans kept.transform) blobs
  · intro oid present
    exact Or.inl (kept.recorded _ ((same.member _).mp present))
  · rw [moved]
    exact mutate_sound env r.engine mutation readings kept.sound

private theorem kept_create {env : LifecycleEnv} {r : BlobRun} (kept : Kept env r)
    (readings : Readings)
    (after : MountedEngine)
    (ok : succeed env r.engine (.mutate .createObject readings) = some after)
    (vacant : r.Vacant (ObjectId.fromParts r.engine.engine.nodeId r.engine.engine.nextOidLocal)) :
    Kept env
      { engine := after, objects := r.objects ∪ after.engine.objectTable.keys, blobs := r.blobs } := by
  obtain ⟨moved, blobs, -, clock, engine⟩ := mutate_succeeds env r.engine after _ readings ok
  apply kept_of_vacant kept after _ _ blobs
  · intro oid present
    rw [engine] at present
    cases Finmap.mem_insert.mp present with
    | inl same =>
        have minted : oid = ObjectId.fromParts r.engine.engine.nodeId
            r.engine.engine.nextOidLocal := congrArg ObjectId.fromU64 same
        rw [minted]
        exact vacant
    | inr earlier => exact Or.inl (kept.recorded _ earlier)
  · rw [moved]
    exact mutate_sound env r.engine _ readings kept.sound
  · rw [engine]
    exact kept.transform

private theorem kept_ensure {env : LifecycleEnv} {r : BlobRun} (kept : Kept env r) (oid : ObjectId)
    (vacant : r.Vacant oid) :
    Kept env
      { engine := r.engine.ensureOidExists oid
        objects := r.objects ∪ (r.engine.ensureOidExists oid).engine.objectTable.keys
        blobs := r.blobs } := by
  apply kept_of_vacant kept (r.engine.ensureOidExists oid) _ kept.transform rfl
  · intro other present
    cases (Engine.mem_replay_create r.engine.engine oid 0 other.toU64).mp present with
    | inl same =>
        rw [show other = oid from congrArg ObjectId.fromU64 same]
        exact vacant
    | inr earlier => exact Or.inl (kept.recorded _ earlier)
  · exact ⟨ensure_mounted env r.engine oid kept.sound.mounted,
      Engine.numbered_replay_create kept.sound.numbered oid 0⟩

private theorem kept_reopen {env : LifecycleEnv} {r : BlobRun} (kept : Kept env r)
    (reading : Option Int64) (fuel : Nat) (opened : MountedEngine)
    (fits : BlobFits env r.engine) (newest : NewestAtEnd env r.engine)
    (vacant : 1 < r.engine.engine.nextOidLocal → r.Vacant r.engine.engine.ghost)
    (ok : r.engine.reopen env reading fuel = some opened) :
    Kept env
      { engine := opened, objects := r.objects ∪ opened.engine.objectTable.keys, blobs := r.blobs } := by
  have reopened := reopen_ok env r.engine opened reading fuel kept.sound.mounted fits newest ok
  have numbered := kept.sound.numbered
  have sound : Sound env opened := by
    refine ⟨reopen_mounted env r.engine opened kept.sound.mounted reopened, ?_⟩
    rw [reopened.config]
    exact (reopened_engine env r.engine opened kept.sound reopened).1
  obtain ⟨before, stored, table, flushed, loaded, same⟩ := reopened.objects
  have back := object_table_kept r.engine.engine.objectTable numbered.keyed _ _ _ flushed table loaded
  apply kept_of_vacant kept opened sound _ reopened.blobs
  · intro oid present
    rw [same.table] at present
    cases (Engine.mem_reloaded numbered back oid.toU64).mp present with
    | inl keeps => exact Or.inl (kept.recorded _ keeps.1)
    | inr last =>
        obtain ⟨counted, identifier⟩ := last
        rw [show oid = r.engine.engine.ghost from congrArg ObjectId.fromU64 identifier]
        exact vacant counted
  · rw [same.transform]
    unfold caughtUp
    split <;> rfl

theorem subject_seen {env : LifecycleEnv} {r : BlobRun} (kept : Kept env r) (mutation : Mutation)
    (oid : ObjectId) (op : OpKind) (reading : Option Int64) (named : mutation.subject = some oid)
    (ok : (r.engine.engine.apply env.toEnv mutation reading).1 = .ok op) :
    oid.toU64 ∈ r.objects := by
  apply kept.recorded
  cases present : r.engine.engine.hasRecord oid with
  | true => exact (Engine.has_record_iff _ oid).mp present
  | false =>
      rw [Engine.apply_missing env.toEnv r.engine.engine mutation reading oid named present] at ok
      cases ok

theorem objects_same {env : LifecycleEnv} {r : BlobRun} (kept : Kept env r)
    (after : MountedEngine) (same : Engine.SameRecords r.engine.engine after.engine) :
    r.objects ∪ after.engine.objectTable.keys = r.objects := by
  apply Finset.union_eq_left.mpr
  intro key member
  exact kept.recorded key ((same.member key).mp (Finmap.mem_keys.mp member))

theorem to_u64_injective {left right : ObjectId} (same : left.toU64 = right.toU64) : left = right :=
  congrArg ObjectId.fromU64 same

private theorem kept_write {env : LifecycleEnv} {r : BlobRun} (kept : Kept env r) (oid : ObjectId)
    (plaintext : List UInt8) (readings : Readings) (after : MountedEngine)
    (ok : succeed env r.engine (.mutate (.writeBlob oid plaintext) readings) = some after)
    (isolated : ∀ other : ObjectId, other.toU64 ∈ r.objects → other ≠ oid →
      other.localSeq = oid.localSeq → r.engine.blobs.lookup oid.localSeq = some plaintext) :
    Kept env
      { engine := after
        objects := r.objects ∪ after.engine.objectTable.keys
        blobs := r.blobs.insert oid.toU64 plaintext } := by
  obtain ⟨moved, blobs, ⟨op, result⟩, -⟩ := mutate_succeeds env r.engine after _ readings ok
  have same := mutate_same_objects env r.engine after _ readings ok nofun
  have seen := subject_seen kept _ oid op readings.mutation rfl result
  rw [objects_same kept after same]
  have bytes : after.blobs = r.engine.blobs.insert oid.localSeq plaintext := by
    rw [blobs, DiskEngine.stored, kept.transform]
    rfl
  refine ⟨?_, same.transform.trans kept.transform, ?_, ?_, ?_⟩
  · rw [moved]
    exact mutate_sound env r.engine _ readings kept.sound
  · intro key member
    exact kept.recorded key ((same.member key).mp member)
  · intro key member
    cases Finmap.mem_insert.mp member with
    | inl here =>
        rw [here]
        exact seen
    | inr earlier => exact kept.known key earlier
  · intro other member
    have read := kept.reads other member
    dsimp only [DiskEngine.readBlob] at read ⊢
    rw [bytes, lookup_insert_eq, lookup_insert_eq]
    by_cases own : other = oid
    · rw [own, if_pos rfl, if_pos rfl]
    · rw [if_neg fun equal => own (to_u64_injective equal)]
      split
      · next number =>
          rw [← read, number]
          exact (isolated other member own number).symm
      · exact read

private theorem kept_delete {env : LifecycleEnv} {r : BlobRun} (kept : Kept env r) (oid : ObjectId)
    (readings : Readings) (after : MountedEngine)
    (ok : succeed env r.engine (.mutate (.deleteObject oid) readings) = some after)
    (empty : oid.localSeq ∉ r.engine.blobs) :
    Kept env
      { engine := after
        objects := r.objects ∪ after.engine.objectTable.keys
        blobs := r.blobs.erase oid.toU64 } := by
  obtain ⟨moved, blobs, -, -⟩ := mutate_succeeds env r.engine after _ readings ok
  have same := mutate_same_objects env r.engine after _ readings ok nofun
  rw [objects_same kept after same]
  refine ⟨?_, same.transform.trans kept.transform, ?_, ?_, ?_⟩
  · rw [moved]
    exact mutate_sound env r.engine _ readings kept.sound
  · intro key member
    exact kept.recorded key ((same.member key).mp member)
  · intro key member
    exact kept.known key (Finmap.mem_erase.mp member).2
  · intro other member
    have read := kept.reads other member
    dsimp only [DiskEngine.readBlob] at read ⊢
    rw [show after.blobs = r.engine.blobs from blobs, lookup_erase_eq]
    by_cases own : other = oid
    · rw [own, if_pos rfl]
      exact Finmap.lookup_eq_none.mpr empty
    · rw [if_neg fun equal => own (to_u64_injective equal)]
      exact read

theorem step_kept (env : LifecycleEnv) (r next : BlobRun) (call : DiskCall) (kept : Kept env r)
    (isolated : Isolated env r call) (ok : step env r call = some next) : Kept env next := by
  obtain ⟨after, succeeded, same⟩ := Option.map_eq_some_iff.mp ok
  subst same
  cases call with
  | ensure oid =>
      cases succeeded
      exact kept_ensure kept oid isolated
  | reopen reading fuel =>
      obtain ⟨fits, newest, vacant⟩ := isolated
      exact kept_reopen kept reading fuel after fits newest vacant succeeded
  | mutate mutation readings =>
      obtain ⟨-, blobs, -⟩ := mutate_succeeds env r.engine after mutation readings succeeded
      cases mutation with
      | createObject => exact kept_create kept readings after succeeded isolated
      | deleteObject oid => exact kept_delete kept oid readings after succeeded isolated
      | writeBlob oid plaintext => exact kept_write kept oid plaintext readings after succeeded isolated
      | addTag oid tag => exact kept_mutate kept _ readings after succeeded blobs nofun
      | removeTag oid tag => exact kept_mutate kept _ readings after succeeded blobs nofun
      | setAttr oid key value => exact kept_mutate kept _ readings after succeeded blobs nofun
      | removeAttr oid key valueHash => exact kept_mutate kept _ readings after succeeded blobs nofun
      | addRelation oid predicate target =>
          exact kept_mutate kept _ readings after succeeded blobs nofun
      | removeRelation oid predicate target =>
          exact kept_mutate kept _ readings after succeeded blobs nofun

private theorem step_leaves_others (env : LifecycleEnv) (r : BlobRun) (call : DiskCall)
    (kept : Kept env r) (isolated : Isolated env r call) : LeavesOthers env r call := by
  intro next oid plaintext readings target ok other member apart
  have later := step_kept env r next call kept isolated ok
  obtain ⟨after, -, same⟩ := Option.map_eq_some_iff.mp ok
  have numbers : other.toU64 ≠ oid.toU64 := fun equal => apart (to_u64_injective equal)
  rw [kept.reads other member, later.reads other (by
    rw [← same]
    exact Finset.mem_union_left _ member), ← same]
  cases target with
  | inl writes =>
      subst writes
      rw [written, lookup_insert_eq, if_neg numbers]
  | inr deletes =>
      subst deletes
      rw [written, lookup_erase_eq, if_neg numbers]

private theorem start_kept (env : LifecycleEnv) (config : PoolConfig) (fs : FileSystem)
    (m : MountedEngine) (bounded : ∀ path, (fs.file path).length < 2 ^ 64)
    (created : create env config fs = .ok m) : Kept env (start m) := by
  obtain ⟨-, engine, -, -⟩ := create_facts env config fs m created
  refine ⟨create_sound env config fs m bounded created, ?_, ?_, ?_, ?_⟩
  · change m.engine.transform = _
    rw [engine]
    rfl
  · intro key member
    change key ∈ m.engine.objectTable at member
    rw [engine] at member
    exact absurd member Finmap.notMem_empty
  · intro key member
    exact absurd member Finmap.notMem_empty
  · intro oid member
    exact absurd member (Finset.notMem_empty _)

/-- A read finds what was last written, and a write or a deletion is seen by its own object only,
in every run whose calls keep the blobs isolated. -/
theorem blob_reads_follow (env : LifecycleEnv) (config : PoolConfig) (fs : FileSystem)
    (m : MountedEngine) (bounded : ∀ path, (fs.file path).length < 2 ^ 64)
    (created : create env config fs = .ok m) (calls : List DiskCall)
    (isolated : PartialRuns.Along (step env) (Isolated env) (start m) calls) :
    PartialRuns.Throughout (step env) Reads (start m) calls ∧
      PartialRuns.Along (step env) (LeavesOthers env) (start m) calls := by
  have initial := start_kept env config fs m bounded created
  constructor
  · apply PartialRuns.throughout_of_condition (step env) (Kept env) Reads (Isolated env) _ _ calls
      (start m) initial isolated
    · exact fun r kept => kept.reads
    · exact fun r call next kept safe ok => step_kept env r next call kept safe ok
  · apply PartialRuns.along_of_condition (step env) (Kept env) (Isolated env) (LeavesOthers env) _
      _ calls (start m) initial isolated
    · exact fun r call kept safe => step_leaves_others env r call kept safe
    · exact fun r call next kept safe ok => step_kept env r next call kept safe ok

def threeBytes : List UInt8 := [1, 2, 3]

/-- The BLAKE3 hash of the bytes. -/
def threeHash : List UInt8 :=
  [0xb1, 0x77, 0xec, 0x1b, 0xf2, 0x6d, 0xfb, 0x3b, 0x70, 0x10, 0xd4, 0x73, 0xe6, 0xd4, 0x47,
    0x13, 0xb2, 0x9b, 0x76, 0x5b, 0x99, 0xc6, 0xe6, 0x0e, 0xcb, 0xfa, 0xe7, 0x42, 0xde, 0x49,
    0x65, 0x43]

/-- The CBOR payload of the write of the bytes to the first object. -/
def writePayload : WalOp × List UInt8 :=
  (.writeBlob 0x0001000000000001 threeHash { diskId := 0, blockNo := 0, generation := 0 } 3,
      [0xa4, 0x63, 0x6f, 0x69, 0x64, 0x1b, 0x00, 0x01, 0x00, 0x00, 0x00, 0x00, 0x00, 0x01, 0x6c,
      0x63, 0x6f, 0x6e, 0x74, 0x65, 0x6e, 0x74, 0x5f, 0x68, 0x61, 0x73, 0x68, 0x98, 0x20, 0x18,
      0xb1, 0x18, 0x77, 0x18, 0xec, 0x18, 0x1b, 0x18, 0xf2, 0x18, 0x6d, 0x18, 0xfb, 0x18, 0x3b,
      0x18, 0x70, 0x10, 0x18, 0xd4, 0x18, 0x73, 0x18, 0xe6, 0x18, 0xd4, 0x18, 0x47, 0x13, 0x18,
      0xb2, 0x18, 0x9b, 0x18, 0x76, 0x18, 0x5b, 0x18, 0x99, 0x18, 0xc6, 0x18, 0xe6, 0x0e, 0x18,
      0xcb, 0x18, 0xfa, 0x18, 0xe7, 0x18, 0x42, 0x18, 0xde, 0x18, 0x49, 0x18, 0x65, 0x18, 0x43,
      0x66, 0x65, 0x78, 0x74, 0x65, 0x6e, 0x74, 0xa3, 0x67, 0x64, 0x69, 0x73, 0x6b, 0x5f, 0x69,
      0x64, 0x00, 0x68, 0x62, 0x6c, 0x6f, 0x63, 0x6b, 0x5f, 0x6e, 0x6f, 0x00, 0x6a, 0x67, 0x65,
      0x6e, 0x65, 0x72, 0x61, 0x74, 0x69, 0x6f, 0x6e, 0x00, 0x64, 0x73, 0x69, 0x7a, 0x65, 0x03])

def writePayloads : List (WalOp × List UInt8) := [writePayload]

def writeEnv : LifecycleEnv :=
  { lifecycleSample (WalCodec.ofTable writePayloads (by decide +kernel)) with
    codecs :=
      { blake3 := fun bytes => if bytes = threeBytes then threeHash else List.replicate 32 0
        zstdEncode := fun _ _ => .error "zstd" } }

/-- The write of the bytes to the first object succeeds. -/
theorem first_write_succeeds (m : MountedEngine) (known : m.engine.hasRecord firstObject = true)
    (plain : m.engine.transform = .passthrough) (writable : m.readOnly = false)
    (healthy : m.device.Healthy)
    (wal : m.wal = Wal.formatted crc32c fmtWalOffset.toNat fmtWalSize.toNat)
    (ring : Wal.Ring crc32c m.wal m.device []) :
    ∃ after, succeed writeEnv m
        (.mutate (.writeBlob firstObject threeBytes) DiskEngine.noReadings) = some after ∧
      after.blobs = m.blobs.insert firstObject.localSeq threeBytes := by
  have taken : ∃ engine, m.engine.apply writeEnv.toEnv (.writeBlob firstObject threeBytes) none =
      (.ok (.writeBlob firstObject threeHash 3), engine) := by
    unfold Engine.apply Engine.logged Engine.writeBlob
    simp only [known, if_true, plain]
    exact ⟨_, rfl⟩
  obtain ⟨engine, taken⟩ := taken
  obtain ⟨clock, after, applied, -, blobs, -⟩ := DiskEngine.apply_healthy writeEnv.toDiskEnv
    m.toDiskEngine (.writeBlob firstObject threeBytes) DiskEngine.noReadings _ engine _ [] writable
    taken (by rfl) ring healthy (by rw [wal]; decide +kernel) (by rw [wal]; decide +kernel)
  refine ⟨{ m with toDiskEngine := after }, ?_, ?_⟩
  · unfold succeed mutate
    simp only [applied]
  · rw [blobs, DiskEngine.stored, plain]
    rfl

def pairEngine (other : ObjectId) : Engine :=
  ((Engine.new 1).replayCreateObject firstObject 0).replayCreateObject other 0

/-- Bytes that are written to one object are read from another. -/
theorem blob_read_elsewhere : ∃ m, create writeEnv wideConfig emptyHost = .ok m ∧
    ¬ PartialRuns.Throughout (step writeEnv) Reads (start m)
      [.ensure firstObject, .ensure (ObjectId.fromParts 2 1),
        .mutate (.writeBlob firstObject threeBytes) DiskEngine.noReadings] := by
  obtain ⟨m, made, engine, -, writable, wal, healthy, ring⟩ := wide_engine_created writeEnv rfl
  refine ⟨m, made, ?_⟩
  intro throughout
  obtain ⟨-, first⟩ := throughout
  obtain ⟨-, second⟩ := first _ rfl
  obtain ⟨-, third⟩ := second _ rfl
  have pair : ((m.ensureOidExists firstObject).ensureOidExists (ObjectId.fromParts 2 1)).engine =
      pairEngine (ObjectId.fromParts 2 1) := by
    change (m.engine.replayCreateObject _ 0).replayCreateObject _ 0 = _
    rw [engine]
    rfl
  obtain ⟨after, wrote, blobs⟩ := first_write_succeeds
    ((m.ensureOidExists firstObject).ensureOidExists (ObjectId.fromParts 2 1))
    (by rw [pair]; decide +kernel) (by rw [pair]; rfl) writable healthy wal ring
  have reads := third _ (by
    unfold step
    dsimp only
    exact congrArg (Option.map _) wrote)
  have present : (ObjectId.fromParts 2 1).toU64 ∈ ((m.ensureOidExists firstObject).ensureOidExists
      (ObjectId.fromParts 2 1)).engine.objectTable :=
    (Engine.mem_replay_create _ _ 0 _).mpr (Or.inl rfl)
  have read := reads (ObjectId.fromParts 2 1) (Finset.mem_union_left _
    (Finset.mem_union_right _ (Finmap.mem_keys.mpr present)))
  have found : after.readBlob (ObjectId.fromParts 2 1) = some threeBytes := by
    rw [DiskEngine.readBlob, blobs, lookup_insert_eq, if_pos (by decide +kernel)]
  have unwritten : ((∅ : FMap UInt64 (List UInt8)).insert firstObject.toU64 threeBytes).lookup
      (ObjectId.fromParts 2 1).toU64 = none := by decide +kernel
  have both : some threeBytes = none := (found.symm.trans read).trans unwritten
  cases both

end BlobRun

end MountedEngine

end Mimisbrunnr
