import Mimisbrunnr.Disk.BlobIsolation
import Mimisbrunnr.Disk.Checkpoints
import Mimisbrunnr.Disk.CrashRecovery

/-!
# Runs with commits, crashes and openings

What a run comes to is told by three things: the core in memory, the core that the
last commit has saved, and the operations logged since. A machine that stops goes
back to what these operations make of the saved core.
-/

namespace Mimisbrunnr

set_option autoImplicit false

open Mimisbrunnr.Lib
open Mimisbrunnr.Lib.FiniteMap
open Mimisbrunnr.Meta
open Mimisbrunnr.Ontology
open Mimisbrunnr.Pool
open Mimisbrunnr.Storage
open Mimisbrunnr.Types
open Mimisbrunnr.Wal

/-- A mutation, a machine that stops, or a commit. -/
inductive DurableCall where
  | power (call : PowerCall)
  | commit (reading : Option Int64)

structure Shadow where
  memory : Core
  saved : Core
  log : List OpKind

namespace Shadow

def recovered (s : Setting) (x : Shadow) : Core := x.log.foldl (Core.replay s) x.saved

def logging (x : Shadow) (op : OpKind) : Shadow := { x with log := x.log ++ [op] }

def fresh (c : Core) : Shadow :=
  { memory := c
    saved := c
    log := [] }

/-- A mutation that succeeds is logged and one that fails changes nothing; the mutation in which a
machine stops has been logged or has not; a commit saves what is in memory, but for the values in
the forward index, and empties the log. -/
inductive Step (s : Setting) : DurableCall → Shadow → Shadow → Prop
  | refused (x : Shadow) (mutation : Mutation) (readings : Readings)
      (unchanged : x.memory.step s mutation = x.memory) :
      Step s (.power (.mutate mutation readings)) x x
  | logged (x : Shadow) (mutation : Mutation) (readings : Readings) (op : OpKind)
      (logs : x.memory.Logs s op mutation) :
      Step s (.power (.mutate mutation readings)) x
        { x.logging op with memory := x.memory.step s mutation }
  | lost (x : Shadow) (mutation : Mutation) (readings : Readings) (left : Device) :
      Step s (.power (.crash mutation readings left)) x { x with memory := x.recovered s }
  | kept (x : Shadow) (mutation : Mutation) (readings : Readings) (left : Device) (op : OpKind)
      (logs : x.memory.Logs s op mutation) :
      Step s (.power (.crash mutation readings left)) x
        { x.logging op with memory := (x.logging op).recovered s }
  | committed (x : Shadow) (reading : Option Int64) :
      Step s (.commit reading) x
        { memory := x.memory
          saved := x.memory.stored
          log := [] }

end Shadow

namespace MountedEngine

def endure (env : LifecycleEnv) (fuel : Nat) (m : MountedEngine) :
    DurableCall → Option MountedEngine
  | .power call => m.suffer env fuel call
  | .commit reading =>
      match m.commit env reading with
      | (.ok (), saved) => some saved
      | (.error _, _) => none

/-- The log takes the entry of a mutation that returns, a crash leaves what writes in order can
leave, and what is committed has its room in the zone. -/
def Endurable (env : LifecycleEnv) (m : MountedEngine) : DurableCall → Prop
  | .power (.mutate mutation readings) =>
      ∀ err, (m.mutate env mutation readings).1 ≠ .error (.wal err)
  | .power (.crash mutation readings left) =>
      Crashed (Wal.Detected env.crc m.wal) (m.mutationWrites env mutation readings) m.device left
  | .commit reading => Committable env m ∧ (m.commit env reading).1 = .ok ()

/-- The engine and its disk are as the abstract engine tells. -/
def Shadowed (env : LifecycleEnv) (fuel : Nat) (config : PoolConfig) (m : MountedEngine)
    (x : Shadow) : Prop :=
  m.config = config ∧ m.engine.core = x.memory ∧
    ∃ lsn, Kept env fuel m
      { setting := (Saved.new env config.nodeId).setting, core := x.saved, lsn := lsn } x.log

section

variable {env : LifecycleEnv} {fuel : Nat} {config : PoolConfig} {m : MountedEngine} {x : Shadow}

theorem Shadowed.step (shadowed : Shadowed env fuel config m x) (call : DurableCall)
    (enough : tagBitmapAreaPages < fuel) (endurable : Endurable env m call) :
    ∃ next later, m.endure env fuel call = some next ∧
      Shadow.Step (Saved.new env config.nodeId).setting call x later ∧
      Shadowed env fuel config next later := by
  obtain ⟨sameConfig, memory, lsn, kept⟩ := shadowed
  cases call with
  | power call =>
      cases call with
      | mutate mutation readings =>
          obtain ⟨later, keptNext, sameNext, core, either⟩ := kept.mutate mutation readings endurable
          rw [memory] at core either
          rcases either with ⟨rfl, same⟩ | ⟨op, logs, rfl⟩
          · refine ⟨_, x, rfl, .refused x mutation readings (core.symm.trans same),
              sameNext.trans sameConfig, same, lsn, keptNext⟩
          · exact ⟨_, _, rfl, .logged x mutation readings op logs, sameNext.trans sameConfig, core,
              lsn, keptNext⟩
      | crash mutation readings left =>
          obtain ⟨opened, later, opens, keptNext, sameNext, core, torn⟩ :=
            kept.crash mutation readings left endurable
          have taken : m.endure env fuel (.power (.crash mutation readings left)) = some opened := by
            rw [endure, suffer, opens]
          rw [memory] at torn
          rcases torn with rfl | ⟨op, logs, rfl⟩
          · exact ⟨opened, _, taken, .lost x mutation readings left, sameNext.trans sameConfig, core,
              lsn, keptNext⟩
          · exact ⟨opened, _, taken, .kept x mutation readings left op logs,
              sameNext.trans sameConfig, core, lsn, keptNext⟩
  | commit reading =>
      obtain ⟨committable, ok⟩ := endurable
      have reloads : Reloads env m.engine.ontology := by
        have ontology : m.engine.ontology = OntologyState.new :=
          congrArg Setting.ontology kept.memory.setting
        rw [ontology]
        exact new_reloads env
      rcases committed : m.commit env reading with ⟨_ | _, after⟩
      · rw [committed] at ok
        cases ok
      · obtain ⟨keptNext, sameNext, core⟩ := kept.commit committable reloads enough reading committed
        refine ⟨after, _, ?_, .committed x reading, sameNext.trans sameConfig, core.trans memory,
          lsn + x.log.length + 1, ?_⟩
        · rw [endure, committed]
        · rw [← memory]
          exact keptNext

theorem Shadowed.recovers (shadowed : Shadowed env fuel config m x) :
    Core.SameStates x.memory (x.recovered (Saved.new env config.nodeId).setting) ∧
      ∃ opened, «open» env fuel config m.current = some (.ok opened) ∧
        opened.engine.core = x.recovered (Saved.new env config.nodeId).setting := by
  obtain ⟨sameConfig, memory, lsn, kept⟩ := shadowed
  obtain ⟨opened, opens, -, -, core⟩ := kept.restart m.device m.wal x.log kept.log
    ⟨rfl, fun _ _ => rfl⟩ kept.memory
  rw [sameConfig] at opens
  refine ⟨?_, opened, opens, core⟩
  rw [← memory]
  exact kept.memory.objects

end

/-- On a sound disk that the zone can be saved on, the commit succeeds as long as the log takes
its checkpoint. -/
theorem Kept.commit_succeeds {env : LifecycleEnv} {fuel : Nat} {m : MountedEngine} {saved : Saved}
    {ops : List OpKind} (kept : Kept env fuel m saved ops) (whole : m.WholeZone)
    (healthy : m.device.Healthy)
    (saves : Completes (zoneStart + fmtIndexZoneSize.toNat) (m.saveZone env.toZoneEnv)
      fun _ => True)
    (payload : List UInt8)
    (encoded : env.checkpointCbor.encode (Checkpoint.fromRoot (m.committedRoot env) 0) =
      .ok payload)
    (accepted : m.wal.refusal payload 0 = none)
    (more : m.wal.header.header.generation.toNat + 2 < 2 ^ 64) (reading : Option Int64) :
    (m.commit env reading).1 = .ok () ∧ (m.commit env reading).2.device.Healthy ∧
      (m.commit env reading).2.wal.header.header.generation.toNat =
        m.wal.header.header.generation.toNat + 2 := by
  have writable : ¬ m.readOnly = true := by rw [kept.disk.writable]; decide
  have width : m.device.capacity = m.handle.capacity := kept.disk.capacity
  have block : blockSize = 4096 := rfl
  have room : blobStart + 8 ≤ m.handle.capacity - blockSize := kept.disk.room
  have start : blobStart = 4259840 := rfl
  unfold WholeZone at whole
  obtain ⟨⟨⟩, zone, zoned, -, sound, -⟩ := saves m.device healthy (by rw [width]; omega)
  obtain ⟨_, saving⟩ := save_zone_ok env.toZoneEnv m kept.disk.laid m.device zone zoned
  have logged := kept.zone_logged whole zone zoned
  obtain ⟨entries, ring, -⟩ := logged.recorded
  have root : ({ m with device := zone } : MountedEngine).committedRoot env =
      m.committedRoot env := rfl
  let ts := (m.engine.clock.now reading).1
  obtain ⟨appended, middle, ran, soundMiddle, mode, generation⟩ := Wal.append_healthy env.crc m.wal
    zone entries ring sound .checkpoint payload ts 0 accepted (by omega)
  obtain ⟨-, longer, -⟩ := Wal.append_ring env.crc m.wal appended zone middle entries ring _ payload
    ts 0 _ ran
  obtain ⟨last, emptied, trimmed, soundEmptied, -, second⟩ :=
    Wal.checkpoint_healthy env.crc appended middle _ longer soundMiddle
      (mode.trans logged.writable) m.wal.header.nextLsn (by omega)
  obtain ⟨-, -, outside⟩ := logged.checkpoint payload ts _ _ ran trimmed
  obtain ⟨flipped, committed, final⟩ := Superblock.commit_root_healthy env.crc m.superblock
    (({ m.committedRoot env with lsn := m.wal.header.nextLsn } : RootPointer).recomputeCrc env.crc)
    emptied soundEmptied (by rw [outside.1, saving.confined.capacity, width]; omega)
  unfold MountedEngine.commit
  rw [if_neg writable, saveIndexState, if_neg writable, zoned]
  dsimp only
  rw [appendCheckpoint, root]
  dsimp only
  rw [encoded]
  dsimp only
  rw [ran]
  simp only [Except.mapError, finishCommit, trimmed, committed]
  exact ⟨trivial, final, by omega⟩

/-- On a sound disk a mutation that the engine takes is made, as long as the log has room. -/
theorem Kept.makes {env : LifecycleEnv} {fuel : Nat} {m : MountedEngine} {saved : Saved}
    {ops : List OpKind} (kept : Kept env fuel m saved ops) (healthy : m.device.Healthy)
    (mutation : Mutation) (readings : Readings) (op : OpKind) (engine : Engine)
    (payload : List UInt8)
    (taken : m.engine.apply env.toEnv mutation readings.mutation = (.ok op, engine))
    (encoded : env.codec.encode (projectOp op) = .ok payload)
    (short : payload.length ≤ walMaxPayloadPlaintext) (free : ops.length < 254)
    (small : saved.lsn + ops.length + 2 < 2 ^ 64)
    (more : m.wal.header.header.generation.toNat + 1 < 2 ^ 64) :
    ∃ after later, m.mutate env mutation readings = (.ok (), after) ∧
      Kept env fuel after saved later ∧ later.length ≤ ops.length + 1 ∧
      after = { m with toDiskEngine := after.toDiskEngine } ∧
      after.engine = { engine with clock := (engine.clock.now readings.append).2 } ∧
      after.blobs = m.toDiskEngine.stored env.toEnv mutation ∧ after.device.Healthy ∧
      after.wal.header.header.generation.toNat = m.wal.header.header.generation.toNat + 1 := by
  obtain ⟨entries, ring, -⟩ := kept.log.recorded
  obtain ⟨clock, d, applied, made, blobs, -, sound, generation, rfl⟩ :=
    DiskEngine.apply_healthy env.toDiskEnv m.toDiskEngine mutation readings op engine payload
      entries kept.disk.writable taken encoded ring healthy
      (kept.log.accepts free small payload short) more
  have mutated : m.mutate env mutation readings = (.ok (), { m with toDiskEngine := d }) := by
    rw [MountedEngine.mutate, applied]
  obtain ⟨later, keptNext, -, -, ops⟩ := kept.mutate mutation readings (by
    intro err failed
    rw [mutated] at failed
    cases failed)
  rw [mutated] at keptNext
  refine ⟨_, later, mutated, keptNext, ?_, rfl, made, blobs, sound, generation⟩
  rcases ops with ⟨rfl, -⟩ | ⟨op, -, rfl⟩
  · exact Nat.le_succ _
  · exact (List.length_append ..).le

/-- A commit of an engine with objects only succeeds on a sound disk. -/
theorem Kept.commits_objects {base : LifecycleEnv} {log : OpLog} {logBytes blobBytes : List UInt8}
    {blob : IndexBlob} {fuel : Nat} {m : MountedEngine} {saved : Saved} {ops : List OpKind}
    (kept : Kept (objectsEnv base log logBytes blob blobBytes) fuel m saved ops)
    (whole : m.WholeZone) (healthy : m.device.Healthy) (only : m.RecordsOnly)
    (short : 8 + blobBytes.length ≤ blobRoom)
    (built : m.buildIndexBlob (objectsEnv base log logBytes blob blobBytes).toZoneEnv = .ok blob)
    (free : ops.length < 254) (small : saved.lsn + ops.length + 2 < 2 ^ 64)
    (more : m.wal.header.header.generation.toNat + 2 < 2 ^ 64) (reading : Option Int64) :
    Committable (objectsEnv base log logBytes blob blobBytes) m ∧
      (m.commit (objectsEnv base log logBytes blob blobBytes) reading).1 = .ok () ∧
      (m.commit (objectsEnv base log logBytes blob blobBytes) reading).2.device.Healthy ∧
      (m.commit (objectsEnv base log logBytes blob blobBytes)
          reading).2.wal.header.header.generation.toNat =
        m.wal.header.header.generation.toNat + 2 := by
  have root : (RootPointer.layout.toBytes
      (m.committedRoot (objectsEnv base log logBytes blob blobBytes))).length = 408 :=
    RootPointer.layout.length_to_bytes _
  have most : walMaxPayloadPlaintext = 4052 := rfl
  have size := checkpoint_short _ root
  refine ⟨⟨whole, Engine.new_narrow_tags _ only.indices, objects_below short built⟩, ?_⟩
  exact kept.commit_succeeds whole healthy (completes_object_zone kept.disk.laid only short built) _
    (checkpoint_encodes _ root) (kept.log.accepts free small _ (by omega)) more reading

/-- A commit that succeeds can be opened, and the log that is opened is the one of the commit. -/
theorem Kept.reopens {env : LifecycleEnv} {fuel : Nat} {m : MountedEngine} {saved : Saved}
    {ops : List OpKind} (kept : Kept env fuel m saved ops) (committable : Committable env m)
    (reloads : Reloads env m.engine.ontology) (enough : tagBitmapAreaPages < fuel)
    (reading : Option Int64) (ok : (m.commit env reading).1 = .ok ()) :
    ∃ opened, m.reopen env reading fuel = some opened ∧
      Kept env fuel opened (saved.checkpoint m.engine ops) [] ∧
      opened.engine.core = m.engine.core.stored ∧
      ((m.commit env reading).2.device.Healthy → opened.device.Healthy) ∧
      opened.wal = (m.commit env reading).2.wal ∧ opened.config = m.config := by
  rcases committed : m.commit env reading with ⟨_ | _, after⟩
  · rw [committed] at ok
    cases ok
  · obtain ⟨keptNext, sameConfig, -⟩ := kept.commit committable reloads enough reading committed
    obtain ⟨opened, opens, keptOpened, config, core⟩ := keptNext.restart after.device after.wal []
      keptNext.log ⟨rfl, fun _ _ => rfl⟩ keptNext.memory
    obtain ⟨device, wal⟩ := keptNext.restart_host after.device after.wal [] keptNext.log
      ⟨rfl, fun _ _ => rfl⟩ opened opens
    refine ⟨opened, ?_, keptOpened, core, ?_, wal, config.trans sameConfig⟩
    · rw [reopen, committed]
      dsimp only
      rw [current, opens]
    · intro healthy
      rw [device]
      constructor
      · exact congrArg FileBlockDevice.readOnly keptNext.disk.whole.symm
      · intro fault member
        rw [FileSystem.device, FileSystem.stored] at member
        dsimp only at member
        rw [Function.update_self] at member
        exact healthy.sound fault member

/-- The engine with one object, behind the entry in the log. -/
def firstMade : Engine := { oneObject with clock := (oneObject.clock.now none).2 }

theorem first_object_made (env : LifecycleEnv) (fuel : Nat) (m : MountedEngine)
    (plain : env.toStringLossy = id)
    (encoded : env.codec.encode (creationPayload 1).1 = .ok (creationPayload 1).2)
    (made : create env wideConfig emptyHost = .ok m) :
    ∃ after later, m.mutate env .createObject DiskEngine.noReadings = (.ok (), after) ∧
      Kept env fuel after (Saved.new env 1) later ∧ later.length ≤ 1 ∧
      after = { m with toDiskEngine := after.toDiskEngine } ∧ after.engine = firstMade ∧
      after.blobs = ∅ ∧ after.side = SideTables.new ∧ after.WholeZone ∧ after.device.Healthy ∧
      after.wal.header.header.generation.toNat ≤ 2 := by
  have started := create_started env wideConfig emptyHost m (by decide) (fun _ _ => rfl)
    wide_roomy made
  obtain ⟨same, again, engine, blobs, -, wal, healthy, -⟩ := wide_engine_created env plain
  cases made.symm.trans again
  obtain ⟨config, -⟩ := create_facts env wideConfig emptyHost m made
  have kept := (started_durable fuel started).kept
  rw [config] at kept
  have taken : m.engine.apply env.toEnv .createObject none =
      (.ok (.createObject firstObject), (m.engine.createObject none).2) := by
    rw [engine]
    rfl
  have generation : m.wal.header.header.generation.toNat ≤ 1 := by
    rw [wal]
    exact Nat.le_refl 1
  obtain ⟨after, later, mutated, keptNext, few, host, made, stored, sound, count⟩ :=
    kept.makes healthy .createObject DiskEngine.noReadings _ _ _ taken encoded (by decide)
      (by decide) (show (0 : Nat) + 0 + 2 < 2 ^ 64 by decide) (by omega)
  refine ⟨after, later, mutated, keptNext, few, host, ?_, ?_, ?_, ?_, sound, by omega⟩
  · rw [made, engine]
    rfl
  · rw [stored]
    exact blobs
  · rw [host]
    exact started.side
  · obtain ⟨primary, least, handle⟩ := started.handle
    rw [config] at least
    have only : wideDisk = primary := Option.some.inj least
    rw [host, WholeZone]
    rw [handle, ← only]
    decide +kernel

namespace BlobRun

/-- An object is made, its bytes are written, the engine is committed and opened, and another
object is made. -/
def writtenCalls : List DiskCall :=
  [.mutate .createObject DiskEngine.noReadings,
    .mutate (.writeBlob firstObject threeBytes) DiskEngine.noReadings, .reopen none 1025,
    .mutate .createObject DiskEngine.noReadings]

def writtenBase : LifecycleEnv :=
  { writeEnv with
    codec := WalCodec.ofTable (creationPayload 1 :: creationPayload 2 :: writePayloads)
      (by decide +kernel) }

/-- The engine with the object and its bytes, behind the entry in the log. -/
def firstWritten : Engine :=
  let written := (firstMade.writeBlob writeEnv.toEnv firstObject threeBytes none).2
  { written with clock := (written.clock.now none).2 }

def writtenLogBytes : List UInt8 :=
  logImage
    [createdEntry,
      entryImage 3
        ([0x69, 0x57, 0x72, 0x69, 0x74, 0x65, 0x42, 0x6c, 0x6f, 0x62, 0xa3, 0x63, 0x6f, 0x69, 0x64,
            0x1b, 0x00, 0x01, 0x00, 0x00, 0x00, 0x00, 0x00, 0x01, 0x6c, 0x63, 0x6f, 0x6e, 0x74, 0x65,
            0x6e, 0x74, 0x5f, 0x68, 0x61, 0x73, 0x68, 0x98, 0x20] ++
          threeHash.flatMap cborByte ++ [0x64, 0x73, 0x69, 0x7a, 0x65, 0x03])]

def firstBlobs : FMap Nat (List UInt8) := (∅ : FMap Nat (List UInt8)).insert 1 threeBytes

def writtenBlob : IndexBlob := objectsBlob writtenLogBytes firstWritten firstBlobs

def writtenBlobBytes : List UInt8 :=
  blobImage writtenLogBytes [0xa1, 0x01, 0x83, 0x01, 0x02, 0x03]

def writtenEnv : LifecycleEnv :=
  objectsEnv writtenBase firstWritten.oplog writtenLogBytes writtenBlob writtenBlobBytes

/-- The engines of the run, of which each call succeeds. -/
structure WrittenRun (m first second third : MountedEngine) : Prop where
  made : m.mutate writtenEnv .createObject DiskEngine.noReadings = (.ok (), first)
  wrote : first.mutate writtenEnv (.writeBlob firstObject threeBytes) DiskEngine.noReadings =
    (.ok (), second)
  reopened : second.reopen writtenEnv none 1025 = some third
  again : ∃ last, third.mutate writtenEnv .createObject DiskEngine.noReadings = (.ok (), last)
  engine : m.engine = Engine.new 1
  blobs : m.blobs = ∅
  firstEngine : first.engine = firstMade
  secondEngine : second.engine = firstWritten
  fits : BlobFits writtenEnv second
  newest : NewestAtEnd writtenEnv second
  node : third.engine.nodeId = 1
  counter : third.engine.nextOidLocal = 2
  thirdBlobs : third.blobs = firstBlobs

private theorem written_only (m : MountedEngine) (engine : m.engine = firstWritten)
    (side : m.side = SideTables.new) : m.RecordsOnly := by
  refine ⟨?_, ?_, ?_, ?_, ?_, side⟩
  all_goals rw [engine]
  · rfl
  · decide +kernel
  · rfl
  · rfl
  · rfl

private theorem written_built (m : MountedEngine) (engine : m.engine = firstWritten)
    (side : m.side = SideTables.new) (blobs : m.blobs = firstBlobs) :
    m.buildIndexBlob writtenEnv.toZoneEnv = .ok writtenBlob := by
  apply objects_built _ side
  · rw [engine, blobs]
    rfl
  · rw [engine]

private theorem written_room : 8 + writtenBlobBytes.length ≤ blobRoom := by decide +kernel

theorem written_run (m : MountedEngine) (made : create writtenEnv wideConfig emptyHost = .ok m) :
    ∃ first second third, WrittenRun m first second third := by
  obtain ⟨first, ops, created, kept, few, host, engine, blobs, side, whole, healthy, generation⟩ :=
    first_object_made writtenEnv 1025 m rfl (by rfl) made
  obtain ⟨config, start, empty, -⟩ := create_facts writtenEnv wideConfig emptyHost m made
  have none_saved : (Saved.new writtenEnv 1).lsn = 0 := rfl
  have taken : first.engine.apply writtenEnv.toEnv (.writeBlob firstObject threeBytes) none =
      (.ok (.writeBlob firstObject threeHash 3),
        (firstMade.writeBlob writeEnv.toEnv firstObject threeBytes none).2) := by
    rw [engine]
    rfl
  obtain ⟨second, ops, wrote, kept, more, sameHost, engineNow, stored, healthy, count⟩ :=
    kept.makes healthy _ DiskEngine.noReadings _ _ writePayload.2 taken (by rfl)
      (by decide +kernel) (by omega) (by omega) (by omega)
  have secondEngine : second.engine = firstWritten := engineNow
  have secondBlobs : second.blobs = firstBlobs := by
    rw [stored, DiskEngine.stored, engine, blobs]
    rfl
  have secondSide : second.side = SideTables.new := by rw [sameHost]; exact side
  have secondWhole : second.WholeZone := by rw [sameHost]; exact whole
  have built := written_built second secondEngine secondSide secondBlobs
  obtain ⟨committable, committed, sound, laterCount⟩ := kept.commits_objects secondWhole healthy
    (written_only second secondEngine secondSide) written_room built (by omega) (by omega)
    (by omega) none
  change (second.commit writtenEnv none).2.wal.header.header.generation.toNat = _ at laterCount
  obtain ⟨third, reopened, keptThird, core, still, wal, sameConfig⟩ := kept.reopens committable
    (by rw [secondEngine]; exact new_reloads writtenEnv) (by decide) none committed
  have fits := secondWhole.fits (objects_below written_room built)
  have newest : NewestAtEnd writtenEnv second :=
    newest_at_end writtenEnv second kept.on_disk
      (congrArg FileBlockDevice.capacity kept.disk.whole)
  have mounted : Mounted writtenEnv second := by
    have one := mutate_sound writtenEnv m .createObject DiskEngine.noReadings
      (create_sound writtenEnv wideConfig emptyHost m empty_host_short made)
    rw [created] at one
    have two := mutate_sound writtenEnv first (.writeBlob firstObject threeBytes)
      DiskEngine.noReadings one
    rw [wrote] at two
    exact two.mounted
  have found := reopen_ok writtenEnv second third none 1025 mounted fits newest reopened
  have counter : third.engine.nextOidLocal = 2 := by
    have same := congrArg Core.nextOidLocal core
    rw [secondEngine] at same
    exact same
  have node : third.engine.nodeId = 1 := by
    rw [keptThird.memory.filed.node, sameConfig, sameHost]
    exact (congrArg PoolConfig.nodeId ((congrArg MountedEngine.config host).trans config))
  have next : third.engine.apply writtenEnv.toEnv .createObject none =
      (.ok (.createObject (ObjectId.fromParts 1 2)), (third.engine.createObject none).2) := by
    rw [← node, ← counter]
    rfl
  obtain ⟨last, -, again, -⟩ := keptThird.makes (still sound) .createObject DiskEngine.noReadings
    _ _ (creationPayload 2).2 next (by rfl) (by decide) (by decide)
    (by change (Saved.new writtenEnv 1).lsn + _ + 1 + 0 + 2 < _; omega) (by rw [wal]; omega)
  exact ⟨first, second, third, created, wrote, reopened, ⟨last, again⟩, start, empty, engine,
    secondEngine, fits, newest, node, counter, found.blobs.trans secondBlobs⟩

private theorem step_succeeds (env : LifecycleEnv) (r : BlobRun) (call : DiskCall)
    (after : MountedEngine) (ok : succeed env r.engine call = some after) :
    step env r call = some
      { engine := after
        objects := r.objects ∪ after.engine.objectTable.keys
        blobs := written r.blobs call } := by
  rw [step, ok]
  rfl

theorem first_written_keys : firstWritten.objectTable.keys = {firstObject.toU64} := by
  decide +kernel

theorem blob_reads_follow_pair : ∃ m, create writtenEnv wideConfig emptyHost = .ok m ∧
    (∃ last, PartialRuns.reach (step writtenEnv) (start m) writtenCalls = some last) ∧
      PartialRuns.Throughout (step writtenEnv) Reads (start m) writtenCalls ∧
      PartialRuns.Along (step writtenEnv) (LeavesOthers writtenEnv) (start m) writtenCalls := by
  obtain ⟨m, made, -⟩ := wide_engine_created writtenEnv rfl
  obtain ⟨first, second, third, run⟩ := written_run m made
  obtain ⟨last, again⟩ := run.again
  have one : succeed writtenEnv m (.mutate .createObject DiskEngine.noReadings) = some first := by
    simp only [succeed, run.made]
  have two : succeed writtenEnv first
      (.mutate (.writeBlob firstObject threeBytes) DiskEngine.noReadings) = some second := by
    simp only [succeed, run.wrote]
  have three : succeed writtenEnv second (.reopen none 1025) = some third := run.reopened
  have four : succeed writtenEnv third (.mutate .createObject DiskEngine.noReadings) =
      some last := by
    simp only [succeed, again]
  refine ⟨m, made, ?_, blob_reads_follow writtenEnv wideConfig emptyHost m empty_host_short made _ ?_⟩
  · simp only [writtenCalls, PartialRuns.reach, step, start, one, two, three, four, Option.map_some,
      Option.bind_some]
    exact ⟨_, rfl⟩
  have firstKeys : first.engine.objectTable.keys = {firstObject.toU64} := by
    rw [run.firstEngine]
    decide +kernel
  refine ⟨Or.inr ?_, fun next taken => ?_⟩
  · change _ ∉ m.blobs
    rw [run.blobs]
    exact Finmap.notMem_empty
  cases (step_succeeds writtenEnv (start m) _ first one).symm.trans taken
  refine ⟨?_, fun next taken => ?_⟩
  · intro other member apart
    change other.toU64 ∈ ∅ ∪ first.engine.objectTable.keys at member
    rw [firstKeys, Finset.empty_union, Finset.mem_singleton] at member
    exact absurd (to_u64_injective member) apart
  cases (step_succeeds writtenEnv _ _ second two).symm.trans taken
  have secondKeys : second.engine.objectTable.keys = {firstObject.toU64} := by
    rw [run.secondEngine]
    exact first_written_keys
  refine ⟨⟨run.fits, run.newest, fun _ => Or.inl ?_⟩, fun next taken => ?_⟩
  · have ghost : second.engine.ghost.toU64 = firstObject.toU64 := by
      rw [run.secondEngine]
      decide +kernel
    change second.engine.ghost.toU64 ∈ _ ∪ second.engine.objectTable.keys
    rw [ghost, secondKeys]
    exact Finset.mem_union_right _ (Finset.mem_singleton_self _)
  cases (step_succeeds writtenEnv _ _ third three).symm.trans taken
  refine ⟨Or.inr ?_, fun _ _ => trivial⟩
  change (ObjectId.fromParts third.engine.nodeId third.engine.nextOidLocal).localSeq ∉ third.blobs
  rw [run.node, run.counter, run.thirdBlobs]
  decide +kernel

end BlobRun

open BlobRun in
theorem ids_kept_wide : ∃ m, create writtenEnv wideConfig emptyHost = .ok m ∧
    (∃ last, PartialRuns.reach (perform writtenEnv) m writtenCalls = some last) ∧
      PartialRuns.Along (perform writtenEnv) (KeepsIds writtenEnv) m writtenCalls := by
  obtain ⟨m, made, -⟩ := wide_engine_created writtenEnv rfl
  obtain ⟨first, second, third, run⟩ := written_run m made
  obtain ⟨last, again⟩ := run.again
  have one : perform writtenEnv m (.mutate .createObject DiskEngine.noReadings) = some first := by
    rw [perform, run.made]
  have two : perform writtenEnv first
      (.mutate (.writeBlob firstObject threeBytes) DiskEngine.noReadings) = some second := by
    rw [perform, run.wrote]
  have three : perform writtenEnv second (.reopen none 1025) = some third := run.reopened
  refine ⟨m, made, ⟨last, ?_⟩, ids_kept writtenEnv wideConfig emptyHost m empty_host_short made _ ?_⟩
  · simp only [writtenCalls, PartialRuns.reach, one, two, three, Option.bind_some]
    rw [perform, again]
    rfl
  · refine ⟨Or.inl ?_, fun next taken => ?_⟩
    · rw [run.engine]
      decide
    cases one.symm.trans taken
    refine ⟨trivial, fun next taken => ?_⟩
    cases two.symm.trans taken
    refine ⟨⟨run.fits, run.newest, ?_⟩, fun next taken => ?_⟩
    · rw [run.secondEngine]
      refine ⟨fun _ => by decide +kernel, fun left right leftMember rightMember _ less => ?_⟩
      rw [← Finmap.mem_keys, first_written_keys, Finset.mem_singleton] at leftMember rightMember
      rw [leftMember, rightMember] at less
      exact absurd less (lt_irrefl _)
    cases three.symm.trans taken
    refine ⟨Or.inl ?_, fun _ _ => trivial⟩
    rw [run.counter]
    decide

end MountedEngine

end Mimisbrunnr
