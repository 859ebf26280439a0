import Mimisbrunnr.Disk.LoggedRuns

/-!
# Crashes of an engine

A mutation is first made in memory and then appended to the log, with two blocks
written at most. Whenever the machine stops, what comes up again is the engine of
the mutations that have returned, with or without the one that was under way.
-/

namespace Mimisbrunnr

set_option autoImplicit false

open Mimisbrunnr.Lib.ByteStore
open Mimisbrunnr.Lib.Layout
open Mimisbrunnr.Meta
open Mimisbrunnr.Pool
open Mimisbrunnr.Storage
open Mimisbrunnr.Types
open Mimisbrunnr.Wal

namespace Core

/-- A deleted object is in no attribute index under an attribute it holds. -/
def StripsAll (s : Setting) (c : Core) : Mutation → Prop
  | .deleteObject oid => ∀ entry ∈ c.indices.entriesOf oid, c.indices.Unindexed s.hash oid entry
  | _ => True

instance (s : Setting) (c : Core) : (mutation : Mutation) → Decidable (c.StripsAll s mutation)
  | .deleteObject oid =>
      inferInstanceAs
        (Decidable (∀ entry ∈ c.indices.entriesOf oid, c.indices.Unindexed s.hash oid entry))
  | .createObject | .addTag _ _ | .removeTag _ _ | .setAttr _ _ _ | .removeAttr _ _ _
  | .addRelation _ _ _ | .removeRelation _ _ _ | .writeBlob _ _ => instDecidableTrue

theorem step_eq_replay (s : Setting) (c : Core) (counted : Counted s.nodeId c) (mutation : Mutation)
    (op : OpKind) (small : c.nextOidLocal < 2 ^ 48) (logs : c.Logs s op mutation)
    (strips : c.StripsAll s mutation) : c.step s mutation = c.replay s op := by
  have replayable : c.Replayable s mutation := by
    cases mutation with
    | createObject =>
        intro known
        rw [counted.fresh small] at known
        cases known
    | deleteObject oid => exact strips
    | addTag oid tag => trivial
    | removeTag oid tag => trivial
    | setAttr oid key value => trivial
    | removeAttr oid key valueHash => trivial
    | addRelation oid predicate target => trivial
    | removeRelation oid predicate target => trivial
    | writeBlob oid plaintext => trivial
  have same := same_step s c c mutation op ⟨rfl, rfl⟩ logs replayable
  have objects := SameStates.step ⟨rfl, rfl⟩ counted mutation op small logs
  cases stepped : c.step s mutation with
  | mk indices states next =>
      rw [stepped] at same objects
      cases replayed : c.replay s op with
      | mk other otherStates otherNext =>
          rw [replayed] at same objects
          obtain ⟨rfl, rfl⟩ := same
          obtain ⟨-, rfl⟩ := objects
          rfl

end Core

/-- A mutation that returns, or one in which the machine stops with some bytes on the disk. -/
inductive PowerCall where
  | mutate (mutation : Mutation) (readings : Readings)
  | crash (mutation : Mutation) (readings : Readings) (left : Device)

/-- The mutations of a run, where one that a crash has interrupted may be missing. -/
inductive Took : List PowerCall → List TimedMutation → Prop
  | nil : Took [] []
  | done (mutation : Mutation) (readings : Readings) {calls : List PowerCall}
      {run : List TimedMutation} (later : Took calls run) :
      Took (.mutate mutation readings :: calls) ((mutation, readings.mutation) :: run)
  | kept (mutation : Mutation) (readings : Readings) (left : Device) {calls : List PowerCall}
      {run : List TimedMutation} (later : Took calls run) :
      Took (.crash mutation readings left :: calls) ((mutation, readings.mutation) :: run)
  | lost (mutation : Mutation) (readings : Readings) (left : Device) {calls : List PowerCall}
      {run : List TimedMutation} (later : Took calls run) :
      Took (.crash mutation readings left :: calls) run

namespace MountedEngine

/-- Behind a crash the engine is opened on the files with what was left on its disk. -/
def suffer (env : LifecycleEnv) (fuel : Nat) (m : MountedEngine) : PowerCall → Option MountedEngine
  | .mutate mutation readings => some (m.mutate env mutation readings).2
  | .crash _ _ left =>
      match «open» env fuel m.config (m.files.stored m.handle left) with
      | some (.ok opened) => some opened
      | _ => none

/-- The log takes the entry of a mutation that returns, and a crash leaves what writes in order
can leave. -/
def Allowed (env : LifecycleEnv) (m : MountedEngine) : PowerCall → Prop
  | .mutate mutation readings =>
      m.engine.core.StripsAll (m.engine.setting env.toEnv) mutation ∧
        ∀ err, (m.mutate env mutation readings).1 ≠ .error (.wal err)
  | .crash mutation readings left =>
      m.engine.core.StripsAll (m.engine.setting env.toEnv) mutation ∧
        Crashed (Wal.Detected env.crc m.wal) (m.mutationWrites env mutation readings) m.device left

/-- An engine that is what its log says. -/
structure Durable (env : LifecycleEnv) (fuel : Nat) (m : MountedEngine) (ops : List OpKind) :
    Prop where
  kept : Kept env fuel m (Saved.new env m.config.nodeId) ops
  core : m.engine.core = (Saved.new env m.config.nodeId).replayed ops

section

variable {env : LifecycleEnv} {fuel : Nat} {m : MountedEngine} {ops : List OpKind}

theorem started_durable (fuel : Nat) (started : Started env m) : Durable env fuel m [] := by
  have wal := started.wal
  have room := started.disk.room
  rw [← started.disk.capacity] at room
  have log : LogHolds env 0 m.wal m.device [] :=
    ⟨by rw [wal]; rfl, by rw [wal]; rfl, by rw [wal]; rfl, by rw [wal]; exact Nat.le_refl 1,
      by rw [wal]; rfl, [], started.ring, .nil⟩
  refine ⟨⟨started.disk.toResident, ?_, log, ?_⟩, by rw [started.engine]; rfl⟩
  · exact zone_loads_zeros fuel m.config.nodeId m.device started.disk.zero (by omega)
  · rw [started.engine]
    exact new_in_memory m.config.nodeId

/-- Where a mutation was logged, the log leads to what the mutation has made. -/
theorem Durable.logged (durable : Durable env fuel m ops) (mutation : Mutation) (op : OpKind)
    (strips : m.engine.core.StripsAll (m.engine.setting env.toEnv) mutation)
    (logs : m.engine.core.Logs (Saved.new env m.config.nodeId).setting op mutation) :
    m.engine.core.step (m.engine.setting env.toEnv) mutation =
      (Saved.new env m.config.nodeId).replayed (ops ++ [op]) := by
  have memory := durable.kept.memory
  have short := durable.kept.log.few
  have few : m.engine.core.nextOidLocal ≤ objectLeaf.records + ops.length := memory.few
  have records : objectLeaf.records = 2044 := rfl
  have counted := memory.counted
  rw [← memory.node] at counted
  rw [memory.setting] at strips ⊢
  rw [Saved.replayed_append, ← durable.core]
  exact Core.step_eq_replay _ _ counted mutation op (by omega) logs strips

def CoreAfter (s : Setting) (before after : Core) : PowerCall → Prop
  | .mutate mutation _ => after = before.step s mutation
  | .crash mutation _ _ => after = before ∨ after = before.step s mutation

private theorem Durable.mutate (durable : Durable env fuel m ops) (mutation : Mutation)
    (readings : Readings)
    (strips : m.engine.core.StripsAll (m.engine.setting env.toEnv) mutation)
    (logged : ∀ err, (m.mutate env mutation readings).1 ≠ .error (.wal err)) :
    ∃ later, Durable env fuel (m.mutate env mutation readings).2 later ∧
      (m.mutate env mutation readings).2.config = m.config ∧
      (m.mutate env mutation readings).2.engine.core =
        m.engine.core.step (m.engine.setting env.toEnv) mutation := by
  obtain ⟨later, kept, config, core, either⟩ := durable.kept.mutate mutation readings logged
  rw [← durable.kept.memory.setting] at core
  refine ⟨later, ⟨by rw [config]; exact kept, ?_⟩, config, core⟩
  rw [config]
  rcases either with ⟨rfl, same⟩ | ⟨op, logs, rfl⟩
  · exact same.trans durable.core
  · exact core.trans (durable.logged mutation op strips logs)

theorem Durable.crash (durable : Durable env fuel m ops) (mutation : Mutation)
    (readings : Readings) (left : Device)
    (strips : m.engine.core.StripsAll (m.engine.setting env.toEnv) mutation)
    (crash : Crashed (Wal.Detected env.crc m.wal) (m.mutationWrites env mutation readings) m.device
      left) :
    ∃ opened later, «open» env fuel m.config (m.files.stored m.handle left) = some (.ok opened) ∧
      Durable env fuel opened later ∧ opened.config = m.config ∧
      (opened.engine.core = m.engine.core ∨
        opened.engine.core = m.engine.core.step (m.engine.setting env.toEnv) mutation) := by
  obtain ⟨opened, later, opens, kept, config, core, torn⟩ :=
    durable.kept.crash mutation readings left crash
  refine ⟨opened, later, opens, ⟨by rw [config]; exact kept, by rw [config]; exact core⟩, config, ?_⟩
  rcases torn with rfl | ⟨op, logs, rfl⟩
  · exact Or.inl (core.trans durable.core.symm)
  · exact Or.inr (core.trans (durable.logged mutation op strips logs).symm)

theorem suffer_durable (durable : Durable env fuel m ops) (call : PowerCall)
    (allowed : Allowed env m call) :
    ∃ next later, m.suffer env fuel call = some next ∧ Durable env fuel next later ∧
      next.config = m.config ∧
      CoreAfter (m.engine.setting env.toEnv) m.engine.core next.engine.core call := by
  cases call with
  | mutate mutation readings =>
      obtain ⟨later, next, config, core⟩ := durable.mutate mutation readings allowed.1 allowed.2
      exact ⟨_, later, rfl, next, config, core⟩
  | crash mutation readings left =>
      obtain ⟨opened, later, opens, next, config, core⟩ := durable.crash mutation readings left
        allowed.1 allowed.2
      refine ⟨opened, later, ?_, next, config, core⟩
      rw [suffer, opens]

/-- A run from an engine that is what its log says, against an engine that never stops. -/
theorem durable_run (fuel : Nat) (calls : List PowerCall) :
    ∀ (m : MountedEngine) (ops : List OpKind) (steady : Engine), Durable env fuel m ops →
      steady.core = m.engine.core → steady.setting env.toEnv = m.engine.setting env.toEnv →
      Lib.PartialRuns.Along (suffer env fuel) (Allowed env) m calls →
      ∃ last run, Lib.PartialRuns.reach (suffer env fuel) m calls = some last ∧ Took calls run ∧
        last.engine.core = (steady.after env.toEnv run).core := by
  induction calls with
  | nil => exact fun m ops steady _ core _ _ => ⟨m, [], rfl, .nil, core.symm⟩
  | cons call calls ih =>
      intro m ops steady durable core setting along
      obtain ⟨next, later, taken, durableNext, config, after⟩ :=
        suffer_durable durable call along.1
      have settingNext : next.engine.setting env.toEnv = m.engine.setting env.toEnv := by
        rw [durableNext.kept.memory.setting, durable.kept.memory.setting, config]
      have reached (last : MountedEngine)
          (rest : Lib.PartialRuns.reach (suffer env fuel) next calls = some last) :
          Lib.PartialRuns.reach (suffer env fuel) m (call :: calls) = some last := by
        rw [Lib.PartialRuns.reach, taken]
        exact rest
      -- the steady engine takes the mutation too, or it does not
      have followed (mutation : Mutation) (reading : Option Int64)
          (stepped : next.engine.core = m.engine.core.step (m.engine.setting env.toEnv) mutation) :
          (steady.apply env.toEnv mutation reading).2.core = next.engine.core ∧
            (steady.apply env.toEnv mutation reading).2.setting env.toEnv =
              next.engine.setting env.toEnv := by
        rw [Engine.core_apply, Engine.setting_apply, core, setting, stepped, settingNext]
        exact ⟨rfl, rfl⟩
      cases call with
      | mutate mutation readings =>
          obtain ⟨coreHere, settingHere⟩ := followed mutation readings.mutation after
          obtain ⟨last, run, rest, took, agrees⟩ := ih next later _ durableNext coreHere settingHere
            (along.2 next taken)
          exact ⟨last, _, reached last rest, .done mutation readings took, agrees⟩
      | crash mutation readings left =>
          cases after with
          | inl missing =>
              obtain ⟨last, run, rest, took, agrees⟩ := ih next later steady durableNext
                (core.trans missing.symm) (setting.trans settingNext.symm) (along.2 next taken)
              exact ⟨last, run, reached last rest, .lost mutation readings left took, agrees⟩
          | inr stepped =>
              obtain ⟨coreHere, settingHere⟩ := followed mutation readings.mutation stepped
              obtain ⟨last, run, rest, took, agrees⟩ := ih next later _ durableNext coreHere
                settingHere (along.2 next taken)
              exact ⟨last, _, reached last rest, .kept mutation readings left took, agrees⟩

end

/-- An engine on new files comes up again behind every crash, and then it has the assertions, the
indices, the object states and the counter of an engine in memory that ran the same mutations;
only one that a crash has interrupted may be missing, and then as a whole. -/
theorem crashes_lose_nothing (env : LifecycleEnv) (fuel : Nat) (config : PoolConfig)
    (fs : FileSystem) (m : MountedEngine) (paths : (config.disks.map DiskConfigEntry.path).Nodup)
    (absent : ∀ entry ∈ config.disks, fs.files entry.path = none) (roomy : RoomyZone config)
    (made : create env config fs = .ok m) (calls : List PowerCall)
    (allowed : Lib.PartialRuns.Along (suffer env fuel) (Allowed env) m calls) :
    ∃ last run, Lib.PartialRuns.reach (suffer env fuel) m calls = some last ∧ Took calls run ∧
      last.engine.core = ((Engine.new config.nodeId).after env.toEnv run).core := by
  have started := create_started env config fs m paths absent roomy made
  obtain ⟨sameConfig, -⟩ := create_facts env config fs m made
  have engine := started.engine
  rw [sameConfig] at engine
  exact durable_run fuel calls m [] (Engine.new config.nodeId) (started_durable fuel started)
    (by rw [engine]) (by rw [engine]) allowed

def crashEnv : LifecycleEnv := lifecycleSample Engine.sampleCodec

/-- The machine stops before an attribute of the first object is on the disk. -/
def stoppedCalls (m : MountedEngine) : List PowerCall :=
  [.mutate .createObject DiskEngine.noReadings,
    .crash (.setAttr firstObject 7 (.int 1)) DiskEngine.noReadings
      (m.mutate crashEnv .createObject DiskEngine.noReadings).2.device]

theorem wide_roomy : RoomyZone wideConfig := by
  intro primary least
  have only : wideDisk = primary := Option.some.inj least
  rw [← only]
  decide

theorem stopped_calls_allowed : ∃ m, create crashEnv wideConfig emptyHost = .ok m ∧
    Lib.PartialRuns.Along (suffer crashEnv 0) (Allowed crashEnv) m (stoppedCalls m) := by
  obtain ⟨m, made, engine, -, writable, wal, healthy, ring⟩ := wide_engine_created crashEnv rfl
  refine ⟨m, made, ?_⟩
  have taken : m.engine.apply crashEnv.toEnv .createObject none =
      (.ok (.createObject firstObject), (m.engine.createObject none).2) := by
    rw [engine]
    rfl
  obtain ⟨clock, after, applied, -⟩ := DiskEngine.apply_healthy crashEnv.toDiskEnv m.toDiskEngine
    .createObject DiskEngine.noReadings _ _ _ [] writable taken (by rfl) ring healthy
    (by rw [wal]; decide +kernel) (by rw [wal]; decide +kernel)
  refine ⟨⟨trivial, ?_⟩, ?_⟩
  · intro err failed
    rw [MountedEngine.mutate, applied] at failed
    cases failed
  · intro next taken
    cases taken
    exact ⟨⟨trivial, .stopped _ _⟩, fun _ _ => trivial⟩

theorem crashes_lose_nothing_stopped : ∃ m, create crashEnv wideConfig emptyHost = .ok m ∧
    ∃ last run, Lib.PartialRuns.reach (suffer crashEnv 0) m (stoppedCalls m) = some last ∧
      Took (stoppedCalls m) run ∧
      last.engine.core = ((Engine.new 1).after crashEnv.toEnv run).core := by
  obtain ⟨m, made, allowed⟩ := stopped_calls_allowed
  exact ⟨m, made, crashes_lose_nothing crashEnv 0 wideConfig emptyHost m (by decide)
    (fun _ _ => rfl) wide_roomy made (stoppedCalls m) allowed⟩

end MountedEngine

end Mimisbrunnr
