import Mimisbrunnr.Disk.DiskRuns
import Mimisbrunnr.Disk.Refusal
import Mimisbrunnr.Lib.PartialRuns
import Mimisbrunnr.Meta.SharedSlots

/-!
# Identifiers of objects

An engine counts past the local numbers of all its objects, of its own node and
of others, so that a new object is not one of them while the counter is within
the 48 bits of a local number. The object table on the disk has one slot for each
local number, and an opening makes up the last counted object of the node again.
-/

namespace Mimisbrunnr

set_option autoImplicit false

open Mimisbrunnr.Index
open Mimisbrunnr.Lib
open Mimisbrunnr.Lib.FiniteMap
open Mimisbrunnr.Meta
open Mimisbrunnr.Pool
open Mimisbrunnr.Storage
open Mimisbrunnr.Types
open Mimisbrunnr.Wal

namespace Engine

theorem has_record_iff (e : Engine) (oid : ObjectId) :
    e.hasRecord oid = true ↔ oid.toU64 ∈ e.objectTable := Finmap.lookup_isSome

def TableKeyed (e : Engine) : Prop :=
  ∀ key record, e.objectTable.lookup key = some record → record.id = key

/-- The engine has records for the same objects, has counted as far and transforms alike. -/
structure SameRecords (e after : Engine) : Prop where
  member : ∀ key, key ∈ after.objectTable ↔ key ∈ e.objectTable
  keyed : e.TableKeyed → after.TableKeyed
  counter : after.nextOidLocal = e.nextOidLocal
  node : after.nodeId = e.nodeId
  transform : after.transform = e.transform

theorem same_records_of_table (e after : Engine) (table : after.objectTable = e.objectTable)
    (counter : after.nextOidLocal = e.nextOidLocal) (node : after.nodeId = e.nodeId)
    (transform : after.transform = e.transform) : SameRecords e after := by
  refine ⟨?_, ?_, counter, node, transform⟩
  · intro key
    rw [table]
  · intro keyed key record found
    rw [table] at found
    exact keyed key record found

private theorem same_records_of_update (e after : Engine) (oid : ObjectId)
    (change : ObjectRecord → ObjectRecord) (table : after.objectTable = e.updateRecord oid change)
    (counter : after.nextOidLocal = e.nextOidLocal) (node : after.nodeId = e.nodeId)
    (transform : after.transform = e.transform)
    (own : ∀ record, (change record).id = record.id) :
    SameRecords e after := by
  have found (key : UInt64) := lookup_update e.objectTable key oid.toU64 change
  rw [updateRecord] at table
  refine ⟨?_, ?_, counter, node, transform⟩
  · intro key
    rw [← Finmap.lookup_isSome, ← Finmap.lookup_isSome, table, found key]
    split
    · rw [Option.isSome_map]
    · rfl
  · intro keyed key record stored
    rw [table, found key] at stored
    split at stored
    · obtain ⟨old, here, same⟩ := Option.map_eq_some_iff.mp stored
      rw [← same, own]
      exact keyed key old here
    · exact keyed key record stored

theorem apply_same_records (env : Env) (e : Engine) (mutation : Mutation) (reading : Option Int64)
    (other : mutation ≠ .createObject) : SameRecords e (e.apply env mutation reading).2 := by
  have refl : SameRecords e e := same_records_of_table e e rfl rfl rfl rfl
  cases mutation with
  | createObject => exact absurd rfl other
  | deleteObject oid =>
      simp only [apply, logged, deleteObject]
      split
      · exact same_records_of_update e _ oid _ rfl rfl rfl rfl fun _ => rfl
      · exact refl
  | addTag oid tag =>
      simp only [apply, logged, addTag]
      split
      · exact same_records_of_update e _ oid _ rfl rfl rfl rfl fun _ => rfl
      · exact refl
  | removeTag oid tag =>
      simp only [apply, logged, removeTag]
      split
      · exact same_records_of_update e _ oid _ rfl rfl rfl rfl fun _ => rfl
      · exact refl
  | setAttr oid key value =>
      simp only [apply, logged, setAttr]
      split
      · exact same_records_of_update e _ oid _ rfl rfl rfl rfl fun _ => rfl
      · exact refl
  | removeAttr oid key valueHash =>
      simp only [apply, logged, removeAttr]
      split
      · cases (e.indices.selectedValue env.hash oid key valueHash).isSome with
        | true => exact same_records_of_update e _ oid _ rfl rfl rfl rfl fun _ => rfl
        | false => exact same_records_of_table e _ rfl rfl rfl rfl
      · exact refl
  | addRelation oid predicate target =>
      simp only [apply, logged, addRelation]
      split
      · exact same_records_of_update e _ oid _ rfl rfl rfl rfl fun _ => rfl
      · exact refl
  | removeRelation oid predicate target =>
      simp only [apply, logged, removeRelation]
      split
      · cases removed : (e.indices.removeRelation oid predicate target).2 with
        | true => exact same_records_of_update e _ oid _ rfl rfl rfl rfl fun _ => rfl
        | false => exact same_records_of_table e _ rfl rfl rfl rfl
      · exact refl
  | writeBlob oid plaintext =>
      simp only [apply, logged, writeBlob]
      split
      · split
        · exact same_records_of_table e _ rfl rfl rfl rfl
        · exact same_records_of_update e _ oid _ rfl rfl rfl rfl fun _ => rfl
      · exact refl

def ghost (e : Engine) : ObjectId := ObjectId.fromParts e.nodeId (e.nextOidLocal - 1)

/-- The counter is past the local numbers of all objects, and was moved there by one of them or
by a creation behind the last local number. -/
structure Numbered (nodeId : NodeId) (e : Engine) : Prop where
  node : e.nodeId = nodeId
  keyed : e.TableKeyed
  below : ∀ key ∈ e.objectTable, key.toNat % 2 ^ 48 < e.nextOidLocal
  positive : 1 ≤ e.nextOidLocal
  reached : e.nextOidLocal = 1 ∨
    ∃ key ∈ e.objectTable, key.toNat % 2 ^ 48 + 1 = min e.nextOidLocal (2 ^ 48)

theorem numbered_new (nodeId : NodeId) : Numbered nodeId (Engine.new nodeId) := by
  refine ⟨rfl, ?_, ?_, Nat.le_refl 1, Or.inl rfl⟩
  · intro key record found
    cases found
  · intro key member
    exact absurd member Finmap.notMem_empty

theorem numbered_same {nodeId : NodeId} {e after : Engine} (numbered : Numbered nodeId e)
    (same : SameRecords e after) : Numbered nodeId after := by
  refine ⟨same.node.trans numbered.node, same.keyed numbered.keyed, ?_, ?_, ?_⟩
  · intro key member
    rw [same.counter]
    exact numbered.below key ((same.member key).mp member)
  · rw [same.counter]
    exact numbered.positive
  · rw [same.counter]
    cases numbered.reached with
    | inl first => exact Or.inl first
    | inr counted =>
        obtain ⟨key, member, number⟩ := counted
        exact Or.inr ⟨key, (same.member key).mpr member, number⟩

theorem keyed_insert {table : FMap UInt64 ObjectRecord}
    (keyed : ∀ key record, table.lookup key = some record → record.id = key) (key : UInt64)
    (record : ObjectRecord) (own : record.id = key) :
    ∀ other found, (table.insert key record).lookup other = some found → found.id = other := by
  intro other found stored
  rw [lookup_insert_eq] at stored
  split at stored
  · next same =>
      cases stored
      rw [same]
      exact own
  · exact keyed other found stored

private theorem numbered_create {nodeId : NodeId} {e : Engine} (numbered : Numbered nodeId e)
    (reading : Option Int64) : Numbered nodeId (e.createObject reading).2 := by
  have positive := numbered.positive
  have counter : (e.createObject reading).2.nextOidLocal = min (e.nextOidLocal + 1) (2 ^ 64 - 1) :=
    rfl
  have number : (ObjectId.fromParts e.nodeId e.nextOidLocal).toU64.toNat % 2 ^ 48 =
      e.nextOidLocal % 2 ^ 48 := by
    rw [ObjectId.toU64, ObjectId.raw_from_parts]
    omega
  refine ⟨numbered.node, keyed_insert numbered.keyed _ _ rfl, ?_, ?_, ?_⟩
  · intro key member
    rw [counter]
    cases (Finmap.mem_insert).mp member with
    | inl same =>
        rw [same, number]
        omega
    | inr earlier =>
        have below := numbered.below key earlier
        omega
  · rw [counter]
    omega
  · rw [counter]
    right
    by_cases small : e.nextOidLocal < 2 ^ 48
    · refine ⟨_, (Finmap.mem_insert).mpr (Or.inl rfl), ?_⟩
      rw [number]
      omega
    · cases numbered.reached with
      | inl first => omega
      | inr counted =>
          obtain ⟨key, member, last⟩ := counted
          refine ⟨key, (Finmap.mem_insert).mpr (Or.inr member), ?_⟩
          omega

theorem minted_fresh {nodeId : NodeId} {e : Engine} (numbered : Numbered nodeId e)
    (small : e.nextOidLocal < 2 ^ 48) :
    e.hasRecord (ObjectId.fromParts e.nodeId e.nextOidLocal) = false := by
  rw [Bool.eq_false_iff]
  intro known
  have below := numbered.below _ ((has_record_iff e _).mp known)
  rw [ObjectId.toU64, ObjectId.raw_from_parts] at below
  omega

theorem mem_replay_create (e : Engine) (oid : ObjectId) (createdNs : Int64) (key : UInt64) :
    key ∈ (e.replayCreateObject oid createdNs).objectTable ↔
      key = oid.toU64 ∨ key ∈ e.objectTable := by
  unfold replayCreateObject
  dsimp only
  split
  · next known =>
      constructor
      · exact Or.inr
      · intro either
        cases either with
        | inl same =>
            rw [same]
            exact (has_record_iff e oid).mp known
        | inr member => exact member
  · exact Finmap.mem_insert

theorem keyed_replay_create {e : Engine} (keyed : e.TableKeyed) (oid : ObjectId)
    (createdNs : Int64) : (e.replayCreateObject oid createdNs).TableKeyed := by
  unfold TableKeyed replayCreateObject
  dsimp only
  split
  · exact keyed
  · exact keyed_insert keyed _ _ rfl

theorem numbered_replay_create {nodeId : NodeId} {e : Engine} (numbered : Numbered nodeId e)
    (oid : ObjectId) (createdNs : Int64) :
    Numbered nodeId (e.replayCreateObject oid createdNs) := by
  have positive := numbered.positive
  have counter : (e.replayCreateObject oid createdNs).nextOidLocal =
      if e.nextOidLocal ≤ oid.localSeq then min (oid.localSeq + 1) (2 ^ 64 - 1)
      else e.nextOidLocal := rfl
  have number : oid.toU64.toNat % 2 ^ 48 = oid.localSeq := rfl
  have bound : oid.localSeq < 2 ^ 48 := Nat.mod_lt _ (by decide)
  refine ⟨numbered.node, keyed_replay_create numbered.keyed oid createdNs, ?_, ?_, ?_⟩
  · intro key member
    rw [counter]
    cases (mem_replay_create e oid createdNs key).mp member with
    | inl same =>
        rw [same, number]
        split <;> omega
    | inr earlier =>
        have below := numbered.below key earlier
        split <;> omega
  · rw [counter]
    split <;> omega
  · rw [counter]
    split
    · right
      refine ⟨oid.toU64, (mem_replay_create e oid createdNs _).mpr (Or.inl rfl), ?_⟩
      rw [number]
      omega
    · cases numbered.reached with
      | inl first => exact Or.inl first
      | inr counted =>
          obtain ⟨key, member, last⟩ := counted
          exact Or.inr ⟨key, (mem_replay_create e oid createdNs key).mpr (Or.inr member), last⟩

theorem counter_within_leaf {nodeId : NodeId} {e : Engine} (numbered : Numbered nodeId e)
    (small : ∀ key ∈ e.objectTable, key.toNat % 2 ^ 48 < objectLeaf.records) :
    e.nextOidLocal ≤ objectLeaf.records := by
  have records : objectLeaf.records = 2044 := rfl
  cases numbered.reached with
  | inl first => omega
  | inr counted =>
      obtain ⟨key, member, last⟩ := counted
      have inside := small key member
      omega

def reloaded (nodeId : NodeId) (table : FMap UInt64 ObjectRecord) (nextOidLocal : Nat) : Engine :=
  MountedEngine.caughtUp { Engine.new nodeId with objectTable := table } nextOidLocal

/-- The objects behind an opening: those that kept their slots, and the one that was counted
last. -/
theorem mem_reloaded {nodeId : NodeId} {e : Engine} (numbered : Numbered nodeId e)
    {table : FMap UInt64 ObjectRecord} (back : ReadBack e.objectTable table) (key : UInt64) :
    key ∈ (reloaded nodeId table e.nextOidLocal).objectTable ↔
      KeepsSlot e.objectTable key ∨ 1 < e.nextOidLocal ∧ key = e.ghost.toU64 := by
  have first : (Engine.new nodeId).nextOidLocal = 1 := rfl
  unfold reloaded MountedEngine.caughtUp
  dsimp only
  rw [first, ← back.keeps key]
  split
  · next counted =>
      have same : ObjectId.fromParts (Engine.new nodeId).nodeId (e.nextOidLocal - 1) = e.ghost := by
        rw [ghost, numbered.node]
        rfl
      rw [mem_replay_create, same]
      simp only [counted, true_and]
      exact or_comm
  · next fresh => simp only [fresh, false_and, or_false]

private theorem numbered_reloaded {nodeId : NodeId} {e : Engine} (numbered : Numbered nodeId e)
    {table : FMap UInt64 ObjectRecord} (back : ReadBack e.objectTable table) :
    Numbered nodeId (reloaded nodeId table e.nextOidLocal) := by
  have positive := numbered.positive
  have records : objectLeaf.records = 2044 := rfl
  have within := counter_within_leaf numbered back.small
  have first : (Engine.new nodeId).nextOidLocal = 1 := rfl
  have below (key : UInt64) (member : key ∈ table) : key.toNat % 2 ^ 48 < e.nextOidLocal :=
    numbered.below key ((back.keeps key).mp member).1
  by_cases counted : 1 < e.nextOidLocal
  · have number : (ObjectId.fromParts nodeId (e.nextOidLocal - 1)).localSeq = e.nextOidLocal - 1 :=
      ObjectId.local_seq_from_parts _ _ (by omega)
    have caught : reloaded nodeId table e.nextOidLocal =
        replayCreateObject { Engine.new nodeId with objectTable := table }
          (ObjectId.fromParts nodeId (e.nextOidLocal - 1)) 0 := by
      unfold reloaded MountedEngine.caughtUp
      exact if_pos counted
    have counter : (reloaded nodeId table e.nextOidLocal).nextOidLocal = e.nextOidLocal := by
      rw [caught]
      change (if 1 ≤ (ObjectId.fromParts nodeId (e.nextOidLocal - 1)).localSeq then
        min ((ObjectId.fromParts nodeId (e.nextOidLocal - 1)).localSeq + 1) (2 ^ 64 - 1) else 1) = _
      rw [number, if_pos (by omega)]
      omega
    refine ⟨by rw [caught]; rfl, ?_, ?_, by rw [counter]; exact positive, ?_⟩
    · rw [caught]
      exact @keyed_replay_create { Engine.new nodeId with objectTable := table } back.keyed _ _
    · intro key member
      rw [counter]
      rw [caught, mem_replay_create] at member
      cases member with
      | inl same =>
          rw [same]
          change (ObjectId.fromParts nodeId (e.nextOidLocal - 1)).localSeq < _
          rw [number]
          omega
      | inr loaded => exact below key loaded
    · right
      rw [counter, caught]
      refine ⟨_, (mem_replay_create _ _ _ _).mpr (Or.inl rfl), ?_⟩
      change (ObjectId.fromParts nodeId (e.nextOidLocal - 1)).localSeq + 1 = _
      rw [number]
      omega
  · have one : e.nextOidLocal = 1 := by omega
    have fresh : reloaded nodeId table e.nextOidLocal =
        { Engine.new nodeId with objectTable := table } := by
      unfold reloaded MountedEngine.caughtUp
      exact if_neg counted
    rw [fresh]
    refine ⟨rfl, back.keyed, ?_, Nat.le_refl 1, Or.inl rfl⟩
    intro key member
    have number := below key member
    rw [one] at number
    exact number

/-- An opening finds the same objects: the one that was counted last is an object of the node
itself, and no other object gives its slot to one with its local number. -/
structure Reopenable (e : Engine) : Prop where
  own : 1 < e.nextOidLocal → e.hasRecord e.ghost = true
  apart : ∀ left right, left ∈ e.objectTable → right ∈ e.objectTable →
    left.toNat % 2 ^ 48 = right.toNat % 2 ^ 48 → left < right →
      1 < e.nextOidLocal ∧ left = e.ghost.toU64

private theorem reloaded_same_iff {nodeId : NodeId} {e : Engine} (numbered : Numbered nodeId e)
    {table : FMap UInt64 ObjectRecord} (back : ReadBack e.objectTable table) :
    (∀ key, key ∈ (reloaded nodeId table e.nextOidLocal).objectTable ↔ key ∈ e.objectTable) ↔
      Reopenable e := by
  have member := mem_reloaded numbered back
  constructor
  · intro same
    constructor
    · intro counted
      exact (has_record_iff e _).mpr ((same _).mp ((member _).mpr (Or.inr ⟨counted, rfl⟩)))
    · intro left right leftMember rightMember number less
      cases (member left).mp ((same left).mpr leftMember) with
      | inl keeps => exact absurd less (not_lt_of_ge (keeps.2 right rightMember number.symm))
      | inr last => exact last
  · intro reopenable key
    rw [member]
    constructor
    · intro either
      cases either with
      | inl keeps => exact keeps.1
      | inr last =>
          rw [last.2]
          exact (has_record_iff e _).mp (reopenable.own last.1)
    · intro known
      by_cases largest : ∀ other ∈ e.objectTable,
          other.toNat % 2 ^ 48 = key.toNat % 2 ^ 48 → other ≤ key
      · exact Or.inl ⟨known, largest⟩
      · push Not at largest
        obtain ⟨other, otherMember, number, less⟩ := largest
        exact Or.inr (reopenable.apart key other known otherMember number.symm less)

end Engine

namespace DiskEngine

/-- The engine behind a durable mutation: the mutated one with another clock, or the one before
where the pool is not writable. -/
theorem apply_engine (env : DiskEnv) (d : DiskEngine) (mutation : Mutation) (readings : Readings) :
    (d.apply env mutation readings).2.engine = d.engine ∨
      ∃ clock, (d.apply env mutation readings).2.engine =
        { (d.engine.apply env.toEnv mutation readings.mutation).2 with clock := clock } := by
  rw [apply_durably, outcome]
  dsimp only
  cases fixed : d.readOnly with
  | true =>
      rw [durably_read_only _ _ _ _ _ _ fixed]
      exact Or.inl rfl
  | false => exact Or.inr (engine_durably env d _ _ _ _ fixed)

/-- A mutation that succeeds has been applied, stored and appended. -/
theorem durably_ok {α : Type} (env : DiskEnv) (d after : DiskEngine)
    (mutated : Except EngineError α × Engine)
    (store : α → FMap Nat (List UInt8) → FMap Nat (List UInt8)) (entry : α → OpKind)
    (reading : Option Int64) (result : α)
    (ok : d.durably env mutated store entry reading = (.ok result, after)) :
    mutated.1 = .ok result ∧ after.blobs = store result d.blobs ∧
      ∃ clock, after.engine = { mutated.2 with clock := clock } := by
  unfold durably at ok
  split at ok
  · cases ok
  · split at ok
    · cases ok
    · next value engine =>
        unfold appendWal at ok
        split at ok
        · cases ok
        · next payload _ =>
            dsimp only at ok
            generalize d.wal.appendRaw env.crc d.device (projectOp (entry value)).kind payload
              (engine.clock.now reading).1 0 = appended at ok
            obtain ⟨outcome, wal, device⟩ := appended
            cases outcome with
            | error err => cases ok
            | ok lsn =>
                cases ok
                exact ⟨rfl, rfl, _, rfl⟩

theorem create_object_ok (env : DiskEnv) (d after : DiskEngine) (readings : Readings)
    (oid : ObjectId) (ok : d.createObject env readings = (.ok oid, after)) :
    oid = ObjectId.fromParts d.engine.nodeId d.engine.nextOidLocal := by
  obtain ⟨created, -⟩ := durably_ok env d after _ _ _ _ oid ok
  cases created
  rfl

end DiskEngine

namespace MountedEngine

/-- The invariant of a run: the engine fits to its disk, and its counter to its objects. -/
structure Sound (env : LifecycleEnv) (m : MountedEngine) : Prop where
  mounted : Mounted env m
  numbered : Engine.Numbered m.config.nodeId m.engine

/-- A creation returns an object without a record, and an opening finds the objects that were
there before. -/
def KeepsIds (env : LifecycleEnv) (m : MountedEngine) : DiskCall → Prop
  | .mutate .createObject readings =>
      ∀ oid after, m.toDiskEngine.createObject env.toDiskEnv readings = (.ok oid, after) →
        m.engine.hasRecord oid = false
  | .reopen reading fuel =>
      ∀ opened, m.reopen env reading fuel = some opened →
        ∀ oid, opened.engine.hasRecord oid = true ↔ m.engine.hasRecord oid = true
  | _ => True

/-- The counter is within a local number, or behind it at one the node has not used; what a commit
saves is not written over and no object shares its slot. -/
def KeepsCount (env : LifecycleEnv) (m : MountedEngine) : DiskCall → Prop
  | .mutate .createObject _ =>
      m.engine.nextOidLocal < 2 ^ 48 ∨
        m.engine.hasRecord (ObjectId.fromParts m.engine.nodeId m.engine.nextOidLocal) = false
  | .reopen _ _ => BlobFits env m ∧ NewestAtEnd env m ∧ m.engine.Reopenable
  | _ => True

theorem create_sound (env : LifecycleEnv) (config : PoolConfig) (fs : FileSystem)
    (m : MountedEngine) (bounded : ∀ path, (fs.file path).length < 2 ^ 64)
    (ok : create env config fs = .ok m) : Sound env m := by
  refine ⟨create_mounted env config fs m bounded ok, ?_⟩
  obtain ⟨same, engine, -, -⟩ := create_facts env config fs m ok
  rw [same, engine]
  exact Engine.numbered_new config.nodeId

theorem mutate_sound (env : LifecycleEnv) (m : MountedEngine) (mutation : Mutation)
    (readings : Readings) (sound : Sound env m) : Sound env (m.mutate env mutation readings).2 := by
  refine ⟨mutate_mounted env m mutation readings sound.mounted, ?_⟩
  have numbered := sound.numbered
  have moved : Engine.Numbered m.config.nodeId
      (m.engine.apply env.toEnv mutation readings.mutation).2 := by
    by_cases creates : mutation = .createObject
    · rw [creates]
      exact Engine.numbered_create numbered readings.mutation
    · exact Engine.numbered_same numbered
        (Engine.apply_same_records env.toEnv m.engine mutation readings.mutation creates)
  change Engine.Numbered m.config.nodeId
    (m.toDiskEngine.apply env.toDiskEnv mutation readings).2.engine
  cases DiskEngine.apply_engine env.toDiskEnv m.toDiskEngine mutation readings with
  | inl same =>
      rw [same]
      exact numbered
  | inr changed =>
      obtain ⟨clock, same⟩ := changed
      rw [same]
      exact Engine.numbered_same moved (Engine.same_records_of_table _ _ rfl rfl rfl rfl)

/-- The engine behind a reopening, as far as its objects go. -/
theorem reopened_engine (env : LifecycleEnv) (m opened : MountedEngine) (sound : Sound env m)
    (reopened : Reopened env m opened) :
    Engine.Numbered m.config.nodeId opened.engine ∧
      ((∀ oid, opened.engine.hasRecord oid = true ↔ m.engine.hasRecord oid = true) ↔
        m.engine.Reopenable) := by
  obtain ⟨before, stored, table, flushed, loaded, same⟩ := reopened.objects
  have back := object_table_kept m.engine.objectTable sound.numbered.keyed _ _ _ flushed table loaded
  refine ⟨?_, ?_⟩
  · exact Engine.numbered_same (Engine.numbered_reloaded sound.numbered back)
      (Engine.same_records_of_table _ _ same.table same.counter same.node same.transform)
  · rw [← Engine.reloaded_same_iff sound.numbered back]
    have table : opened.engine.objectTable = (Engine.reloaded m.config.nodeId table
      m.engine.nextOidLocal).objectTable := same.table
    simp only [Engine.has_record_iff, table]
    constructor
    · intro oids key
      exact oids (ObjectId.fromU64 key)
    · intro keys oid
      exact keys oid.toU64

private theorem perform_sound (env : LifecycleEnv) (m after : MountedEngine) (call : DiskCall)
    (sound : Sound env m) (keeps : KeepsCount env m call)
    (ok : m.perform env call = some after) : Sound env after := by
  cases call with
  | mutate mutation readings =>
      cases ok
      exact mutate_sound env m mutation readings sound
  | ensure oid =>
      cases ok
      exact ⟨ensure_mounted env m oid sound.mounted,
        Engine.numbered_replay_create sound.numbered oid 0⟩
  | reopen reading fuel =>
      obtain ⟨fits, newest, -⟩ := keeps
      have reopened := reopen_ok env m after reading fuel sound.mounted fits newest ok
      refine ⟨reopen_mounted env m after sound.mounted reopened, ?_⟩
      rw [reopened.config]
      exact (reopened_engine env m after sound reopened).1

private theorem perform_keeps_ids (env : LifecycleEnv) (m : MountedEngine) (call : DiskCall)
    (sound : Sound env m) (keeps : KeepsCount env m call) : KeepsIds env m call := by
  cases call with
  | ensure oid => exact trivial
  | reopen reading fuel =>
      obtain ⟨fits, newest, reopenable⟩ := keeps
      intro opened ok
      have reopened := reopen_ok env m opened reading fuel sound.mounted fits newest ok
      exact (reopened_engine env m opened sound reopened).2.mpr reopenable
  | mutate mutation readings =>
      by_cases creates : mutation = .createObject
      · subst creates
        intro oid after ok
        rw [DiskEngine.create_object_ok env.toDiskEnv m.toDiskEngine after readings oid ok]
        cases keeps with
        | inl small => exact Engine.minted_fresh sound.numbered small
        | inr unused => exact unused
      · cases mutation with
        | createObject => exact absurd rfl creates
        | _ => exact trivial

/-- No identifier is used again, and an opening makes up no object and loses none, in every run
whose steps keep the count. -/
theorem ids_kept (env : LifecycleEnv) (config : PoolConfig) (fs : FileSystem) (m : MountedEngine)
    (bounded : ∀ path, (fs.file path).length < 2 ^ 64) (created : create env config fs = .ok m)
    (calls : List DiskCall)
    (counts : PartialRuns.Along (perform env) (KeepsCount env) m calls) :
    PartialRuns.Along (perform env) (KeepsIds env) m calls := by
  apply PartialRuns.along_of_condition (perform env) (Sound env) (KeepsCount env) (KeepsIds env) _
    _ calls m (create_sound env config fs m bounded created) counts
  · exact fun m call sound keeps => perform_keeps_ids env m call sound keeps
  · exact fun m call after sound keeps ok => perform_sound env m after call sound keeps ok

/-- A coding that no call below uses. -/
def unusedCbor (α : Type) : Cbor α where
  encode _ := .error "unknown value"
  decode _ := .error "unknown bytes"
  decode_encode := nofun

/-- The CBOR payload of the creation of an object of node 1 with a small number. -/
def creationPayload (number : UInt8) : WalOp × List UInt8 :=
  (.createObject (0x0001000000000000 + number.toUInt64) 0 0,
    [0xa3, 0x63, 0x6f, 0x69, 0x64, 0x1b, 0x00, 0x01, 0x00, 0x00, 0x00, 0x00, 0x00, number,
      0x6a, 0x67, 0x65, 0x6e, 0x65, 0x72, 0x61, 0x74, 0x69, 0x6f, 0x6e, 0x00, 0x6a, 0x63,
      0x72, 0x65, 0x61, 0x74, 0x65, 0x64, 0x5f, 0x6e, 0x73, 0x00])

def creationPayloads : List (WalOp × List UInt8) := [creationPayload 1, creationPayload 0]

def lifecycleSample (codec : WalCodec) : LifecycleEnv :=
  { DiskEngine.diskSample with
    codec := codec
    roaring := sampleRoaring
    chunkCbor := unusedCbor _
    forwardCbor := unusedCbor _
    tagCbor := unusedCbor _
    rangeCbor := unusedCbor _
    ontologyCbor := unusedCbor _
    subscriptionCbor := unusedCbor _
    recordCbor := unusedCbor _
    record_some_byte := nofun
    record_short := nofun
    record_narrow := nofun
    backpointerCbor := unusedCbor _
    bucketCbor := unusedCbor _
    freespaceCbor := unusedCbor _
    pathContextsCbor := unusedCbor _
    oplogCbor := unusedCbor _
    blobCbor := unusedCbor _
    toStringLossy := id
    checkpointCbor := unusedCbor _ }

def creationEnv : LifecycleEnv :=
  lifecycleSample (WalCodec.ofTable creationPayloads (by decide +kernel))

theorem wide_engine_created (env : LifecycleEnv) (plain : env.toStringLossy = id) :
    ∃ m, create env wideConfig emptyHost = .ok m ∧
      m.engine = Engine.new 1 ∧ m.blobs = ∅ ∧ m.readOnly = false ∧
      m.wal = Wal.formatted env.crc fmtWalOffset.toNat fmtWalSize.toNat ∧
      m.device.Healthy ∧ Wal.Ring env.crc m.wal m.device [] := by
  obtain ⟨m, made, log⟩ := lone_engine_created env 1 wideDisk
    (by rw [plain]; decide) (by decide)
  obtain ⟨-, engine, blobs, writable⟩ := create_facts _ _ _ m made
  exact ⟨m, made, engine, blobs, writable, log⟩

theorem empty_host_short : ∀ path, (emptyHost.file path).length < 2 ^ 64 := by
  intro path
  have length : (emptyHost.file path).length = 0 := rfl
  omega

/-- A new engine that has counted to the last local number, where the first is in use. -/
def fullEngine : Engine :=
  ((Engine.new 1).replayCreateObject (ObjectId.fromParts 1 (2 ^ 48 - 1)) 0).replayCreateObject
    (ObjectId.fromParts 1 0) 0

/-- A creation behind the last local number returns the object with the first. -/
theorem full_creates (m : MountedEngine) (engine : m.engine = fullEngine)
    (writable : m.readOnly = false) (healthy : m.device.Healthy)
    (wal : m.wal = Wal.formatted crc32c fmtWalOffset.toNat fmtWalSize.toNat)
    (ring : Wal.Ring crc32c m.wal m.device []) :
    ∃ after, m.toDiskEngine.createObject creationEnv.toDiskEnv DiskEngine.noReadings =
      (.ok (ObjectId.fromParts 1 0), after) := by
  have minted : ObjectId.fromParts fullEngine.nodeId fullEngine.nextOidLocal =
      ObjectId.fromParts 1 0 := by decide +kernel
  have taken : m.engine.apply creationEnv.toEnv .createObject none =
      (.ok (.createObject (ObjectId.fromParts 1 0)), (m.engine.createObject none).2) := by
    rw [engine, ← minted]
    rfl
  obtain ⟨clock, after, applied, -⟩ := DiskEngine.apply_healthy creationEnv.toDiskEnv
    m.toDiskEngine .createObject DiskEngine.noReadings _ _ _ [] writable taken (by rfl) ring healthy
    (by rw [wal]; decide +kernel) (by rw [wal]; decide +kernel)
  rcases created : m.toDiskEngine.createObject creationEnv.toDiskEnv DiskEngine.noReadings with
    ⟨_ | oid, later⟩
  · have failed := congrArg Prod.fst applied
    rw [DiskEngine.apply, created] at failed
    cases failed
  · have same := DiskEngine.create_object_ok _ _ _ _ _ created
    rw [engine, minted] at same
    rw [same]
    exact ⟨later, rfl⟩

/-- The object behind the last local number is one that was made to exist before. -/
theorem id_used_again : ∃ m, create creationEnv wideConfig emptyHost = .ok m ∧
    ¬ PartialRuns.Along (perform creationEnv) (KeepsIds creationEnv) m
      [.ensure (ObjectId.fromParts 1 (2 ^ 48 - 1)), .ensure (ObjectId.fromParts 1 0),
        .mutate .createObject DiskEngine.noReadings] := by
  obtain ⟨m, made, engine, -, writable, wal, healthy, ring⟩ :=
    wide_engine_created creationEnv rfl
  refine ⟨m, made, ?_⟩
  intro along
  have full : ((m.ensureOidExists (ObjectId.fromParts 1 (2 ^ 48 - 1))).ensureOidExists
      (ObjectId.fromParts 1 0)).engine = fullEngine := by
    change (m.engine.replayCreateObject _ 0).replayCreateObject _ 0 = _
    rw [engine]
    rfl
  have keeps := PartialRuns.along_reached (perform creationEnv) (KeepsIds creationEnv)
    (.mutate .createObject DiskEngine.noReadings) [] m
    [.ensure (ObjectId.fromParts 1 (2 ^ 48 - 1)), .ensure (ObjectId.fromParts 1 0)] _ along rfl
  obtain ⟨after, created⟩ := full_creates _ full writable healthy wal ring
  have unused := keeps _ after created
  rw [full] at unused
  have present : fullEngine.hasRecord (ObjectId.fromParts 1 0) = true := by decide +kernel
  rw [present] at unused
  cases unused

end MountedEngine

end Mimisbrunnr
