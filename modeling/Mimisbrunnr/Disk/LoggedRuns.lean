import Mimisbrunnr.Disk.Created
import Mimisbrunnr.Disk.Storability
import Mimisbrunnr.Lib.PartialRuns
import Mimisbrunnr.Wal.CrashConsistency

/-!
# What a log adds to a saved engine

A mutation is first made in memory and then appended to the log, with two blocks
written at most. Whenever the machine stops, what comes up again is what the zone
was saved as with the entries of the log replayed on it, the one that was under
way being there as a whole or not at all.
-/

namespace Mimisbrunnr

set_option autoImplicit false

open Mimisbrunnr.Lib.ByteStore
open Mimisbrunnr.Lib.Layout
open Mimisbrunnr.Meta
open Mimisbrunnr.Pool
open Mimisbrunnr.Storage
open Mimisbrunnr.Types
open Mimisbrunnr.Wal

/-- A log in its area whose entries are behind a number and record the operations. -/
structure LogHolds (env : LifecycleEnv) (since : Nat) (wal : Wal) (d : Device)
    (ops : List OpKind) : Prop where
  base : wal.base = fmtWalOffset.toNat
  size : wal.size = fmtWalSize.toNat
  writable : wal.readOnly = false
  behind : wal.header.nextLsn.toNat ≤ wal.header.header.generation.toNat
  next : wal.header.nextLsn.toNat = since + ops.length + 1
  recorded : ∃ entries, Wal.Ring env.crc wal d entries ∧ Records env.codec entries ops

theorem records_length {codec : WalCodec} {entries : List WalEntry} {ops : List OpKind}
    (records : Records codec entries ops) : entries.length = ops.length :=
  List.Forall₂.length_eq records

section

variable {env : LifecycleEnv} {since : Nat} {wal after : Wal} {d appended left : Device}
  {ops : List OpKind}

theorem LogHolds.few (log : LogHolds env since wal d ops) : ops.length ≤ 254 := by
  obtain ⟨entries, ring, records⟩ := log.recorded
  have room := ring.log.room
  have sectors : wal.dataSectors = 254 := by
    rw [Wal.dataSectors, log.size]
    decide
  rw [sectors, records_length records] at room
  exact room

theorem append_header (crc : Crc) (kind : WalOpKind) (payload : List UInt8) (ts : HybridTimestamp)
    (lsn : UInt64) (ok : wal.appendRaw crc d kind payload ts 0 = (.ok lsn, after, appended)) :
    after.header.nextLsn.toNat = wal.header.nextLsn.toNat + 1 ∧
      after.header.header.generation.toNat = wal.header.header.generation.toNat + 1 ∧
      after.readOnly = wal.readOnly := by
  have one : (1 : UInt64).toNat = 1 := rfl
  simp only [Wal.appendRaw] at ok
  split at ok
  · cases ok
  next accepted =>
    have number := (Wal.refusal_none wal payload 0 accepted).2.2.2.2.2
    split at ok
    · cases ok
    next middle written =>
      obtain ⟨-, bound, same, -⟩ := Wal.settle_ok crc wal.advanced after middle appended _ lsn ok
      have block : wal.advanced.header.header = wal.header.header := rfl
      rw [block] at bound
      rw [same]
      refine ⟨?_, ?_, rfl⟩
      · change (wal.header.nextLsn + 1).toNat = _
        rw [UInt64.toNat_add, one, Nat.mod_eq_of_lt number]
      · change (wal.header.header.generation + 1).toNat = _
        rw [UInt64.toNat_add, one, Nat.mod_eq_of_lt bound]

theorem LogHolds.accepts (log : LogHolds env since wal d ops) (free : ops.length < 254)
    (small : since + ops.length + 2 < 2 ^ 64) (payload : List UInt8)
    (short : payload.length ≤ walMaxPayloadPlaintext) : wal.refusal payload 0 = none := by
  obtain ⟨entries, ring, records⟩ := log.recorded
  have used := ring.log.used
  have next := log.next
  have capacity : wal.dataCapacity = 1040384 := by
    rw [Wal.dataCapacity, Wal.dataSectors, log.size]
    decide
  have block : blockSize = 4096 := rfl
  rw [records_length records, block] at used
  rw [Wal.refusal, if_neg (by rw [log.writable]; decide), if_neg (by decide), if_neg (by decide),
    if_neg (by omega), if_neg (by omega), if_neg (by omega)]

theorem LogHolds.append (log : LogHolds env since wal d ops) (op : OpKind) (payload : List UInt8)
    (encoded : env.codec.encode (projectOp op) = .ok payload) (ts : HybridTimestamp) (lsn : UInt64)
    (ok : wal.appendRaw env.crc d (projectOp op).kind payload ts 0 = (.ok lsn, after, appended)) :
    LogHolds env since after appended (ops ++ [op]) ∧ wal.KeepsOutside d appended := by
  obtain ⟨entries, ring, records⟩ := log.recorded
  obtain ⟨-, longer, outside, base, size⟩ := Wal.append_ring env.crc wal after d appended entries
    ring _ payload ts 0 lsn ok
  obtain ⟨number, generation, mode⟩ := append_header env.crc _ payload ts lsn ok
  refine ⟨⟨base.trans log.base, size.trans log.size, mode.trans log.writable, ?_, ?_, _, longer, ?_⟩,
    outside⟩
  · rw [number, generation]
    exact Nat.succ_le_succ log.behind
  · rw [number, log.next, List.length_append, List.length_singleton, Nat.add_assoc since]
  · exact List.rel_append records (List.Forall₂.cons ⟨rfl, encoded⟩ .nil)

theorem crashed_mended (crc : Crc) (writes : List (Nat × List UInt8))
    (crash : Crashed (Wal.Detected crc wal) writes d left) :
    Crashed (Wal.Detected crc wal) writes (Wal.mended d) (Wal.mended left) := by
  induction crash with
  | stopped writes d => exact .stopped writes _
  | torn write rest d left changes detected =>
      exact .torn write rest _ _ ⟨changes.capacity, changes.outside⟩ detected
  | next write rest d left _ ih => exact .next write rest _ _ ih

/-- A crash in an append leaves the log as it was or with the operation recorded. -/
theorem LogHolds.crashed (log : LogHolds env since wal d ops) (op : OpKind) (payload : List UInt8)
    (encoded : env.codec.encode (projectOp op) = .ok payload) (ts : HybridTimestamp)
    (crash : Crashed (Wal.Detected env.crc wal)
      (wal.writes env.crc d (.append (projectOp op).kind payload ts 0)) d left) :
    ∃ wal' ops', LogHolds env since wal' left ops' ∧ (ops' = ops ∨ ops' = ops ++ [op]) := by
  obtain ⟨entries, ring, records⟩ := log.recorded
  have stays (survives : Wal.Ring env.crc wal left entries) :
      ∃ wal' ops', LogHolds env since wal' left ops' ∧ (ops' = ops ∨ ops' = ops ++ [op]) :=
    ⟨wal, ops, ⟨log.base, log.size, log.writable, log.behind, log.next, entries, survives, records⟩,
      Or.inl rfl⟩
  cases refused : wal.refusal payload 0 with
  | some err =>
      simp only [Wal.writes, refused] at crash
      cases crash with
      | stopped => exact stays ring
  | none =>
      have ringMended := Wal.ring_bytes env.crc wal d (Wal.mended d) entries ring rfl rfl
      have healthy := Wal.mended_healthy d
      have follows : Wal.Follows env.crc wal (Wal.mended d)
          { sectors := wal.dataSectors
            appended := since + ops.length
            live := entries.map WalEntry.record }
          entries :=
        ⟨ringMended, healthy, log.writable, rfl, log.next, rfl, log.behind⟩
      have crashHere := crashed_mended env.crc _ crash
      have writes : wal.writes env.crc d (.append (projectOp op).kind payload ts 0) =
          wal.writes env.crc (Wal.mended d) (.append (projectOp op).kind payload ts 0) := rfl
      rw [writes] at crashHere
      rcases Wal.crash_call env.crc wal (Wal.mended d) (Wal.mended left) _ entries follows _ crashHere
        with survives | ⟨more, complete⟩
      · exact stays (Wal.ring_bytes env.crc wal (Wal.mended left) left entries survives rfl rfl)
      · obtain ⟨after, appended, done, -, -, -⟩ := Wal.append_healthy env.crc wal (Wal.mended d)
          entries ringMended healthy (projectOp op).kind payload ts 0 refused more
        have held : LogHolds env since wal (Wal.mended d) ops :=
          ⟨log.base, log.size, log.writable, log.behind, log.next, entries, ringMended, records⟩
        obtain ⟨longer, -⟩ := held.append op payload encoded ts _ done
        have performed := Wal.perform_writes env.crc wal (Wal.mended d) _ entries follows
          (.append (projectOp op).kind payload ts 0)
        simp only [Wal.perform, done] at performed
        rw [← complete] at performed
        obtain ⟨final, ringAfter, recordsAfter⟩ := longer.recorded
        have capacity : left.capacity = appended.capacity := by
          have kept := congrArg Device.capacity complete
          rw [written_capacity] at kept
          exact kept.trans performed.2.symm
        exact ⟨after, ops ++ [op], ⟨longer.base, longer.size, longer.writable, longer.behind,
          longer.next, final, Wal.ring_bytes env.crc after appended left final ringAfter capacity
            performed.1.symm, recordsAfter⟩, Or.inr rfl⟩

/-- A crash within the writes of a mutation touches the log only. -/
theorem LogHolds.crash_only_log (log : LogHolds env since wal d ops) (op : OpKind) (payload : List UInt8)
    (ts : HybridTimestamp)
    (crash : Crashed (Wal.Detected env.crc wal)
      (wal.writes env.crc d (.append (projectOp op).kind payload ts 0)) d left) :
    MountedEngine.OnlyLog d left := by
  obtain ⟨entries, ring, -⟩ := log.recorded
  apply MountedEngine.only_log_of_outside wal d left log.base log.size
  have inside : ∀ write ∈ wal.writes env.crc d (.append (projectOp op).kind payload ts 0),
      wal.base ≤ write.1 ∧ write.1 + write.2.length ≤ wal.base + wal.size := by
    intro write member
    have reservation := Wal.sectors_fit wal ring.log.size
    have start : wal.dataOffset = wal.base + 2 * blockSize := rfl
    cases refused : wal.refusal payload 0 with
    | some err =>
        simp only [Wal.writes, refused] at member
        cases member
    | none =>
        have length := (Wal.entry_inside env.crc wal d entries ring
          (projectOp op).kind payload ts 0 refused).1
        have target := Wal.sector_inside wal ring.log.size _
          (Wal.sector_mod_lt wal ring.log.size (wal.firstSector + entries.length))
        rw [← ring.log.write] at target
        simp only [Wal.writes, refused, Wal.headerWrites] at member
        rcases List.mem_cons.mp member with rfl | header
        · dsimp only
          rw [length]
          omega
        · split at header
          · rw [List.mem_singleton] at header
            subst header
            have slot := Wal.header_slot_inside wal.advanced wal.advanced.activeSlot.other
            have width : (WalHeader.layout.toBytes
                (wal.advanced.flushedHeader env.crc)).length = blockSize :=
              WalHeader.layout.length_to_bytes _
            have base : wal.advanced.base = wal.base := rfl
            have data : wal.advanced.dataOffset = wal.dataOffset := rfl
            dsimp only
            rw [width]
            omega
          · cases header
  refine ⟨?_, ?_⟩
  · exact (crashed_agrees _ 0 0 _ d left crash (by
      intro write member
      unfold Apart
      omega)).capacity
  · intro address outside
    exact ((crashed_agrees _ address 1 _ d left crash (by
      intro write member
      have within := inside write member
      unfold Apart
      omega)).inside address (Nat.le_refl _) (Nat.lt_succ_self _))

end

namespace MountedEngine

/-- The append that a mutation makes, if it comes to one. -/
def logCall (env : LifecycleEnv) (m : MountedEngine) (mutation : Mutation) (readings : Readings) :
    Option Wal.Call :=
  if m.readOnly then none
  else
    match m.engine.apply env.toEnv mutation readings.mutation with
    | (.error _, _) => none
    | (.ok op, engine) =>
        match env.codec.encode (projectOp op) with
        | .error _ => none
        | .ok payload =>
            some (.append (projectOp op).kind payload (engine.clock.now readings.append).1 0)

/-- The blocks that a mutation writes, in their order. -/
def mutationWrites (env : LifecycleEnv) (m : MountedEngine) (mutation : Mutation)
    (readings : Readings) : List (Nat × List UInt8) :=
  match m.logCall env mutation readings with
  | none => []
  | some call => m.wal.writes env.crc m.device call

/-- What a mutation of a writable engine comes to. -/
inductive MutationCases (env : LifecycleEnv) (m : MountedEngine) (mutation : Mutation)
    (readings : Readings) : Prop where
  | refused (err : EngineError) (engine : Engine)
      (applied : m.engine.apply env.toEnv mutation readings.mutation = (.error err, engine))
      (writes : m.mutationWrites env mutation readings = [])
      (after : m.mutate env mutation readings = (.error err, { m with engine := engine }))
  | unrecorded (op : OpKind) (engine : Engine) (err : WalError)
      (applied : m.engine.apply env.toEnv mutation readings.mutation = (.ok op, engine))
      (encoded : env.codec.encode (projectOp op) = .error err)
      (writes : m.mutationWrites env mutation readings = [])
      (failed : (m.mutate env mutation readings).1 = .error (.wal err))
  | recorded (op : OpKind) (engine : Engine) (payload : List UInt8)
      (applied : m.engine.apply env.toEnv mutation readings.mutation = (.ok op, engine))
      (encoded : env.codec.encode (projectOp op) = .ok payload)
      (writes : m.mutationWrites env mutation readings = m.wal.writes env.crc m.device
        (.append (projectOp op).kind payload (engine.clock.now readings.append).1 0))
      (after : m.mutate env mutation readings =
        ((m.wal.appendRaw env.crc m.device (projectOp op).kind payload
            (engine.clock.now readings.append).1 0).1.mapError EngineError.wal |>.map fun _ => (),
          { m with
            engine := { engine with clock := (engine.clock.now readings.append).2 }
            blobs := m.toDiskEngine.stored env.toEnv mutation
            wal := (m.wal.appendRaw env.crc m.device (projectOp op).kind payload
              (engine.clock.now readings.append).1 0).2.1
            device := (m.wal.appendRaw env.crc m.device (projectOp op).kind payload
              (engine.clock.now readings.append).1 0).2.2 }))

theorem mutation_cases (env : LifecycleEnv) (m : MountedEngine) (mutation : Mutation)
    (readings : Readings) (writable : m.readOnly = false) :
    MutationCases env m mutation readings := by
  have run : m.mutate env mutation readings =
      ((DiskEngine.outcome (m.toDiskEngine.durably env.toDiskEnv
        (m.engine.apply env.toEnv mutation readings.mutation)
        (fun _ _ => m.toDiskEngine.stored env.toEnv mutation) id readings.append)).1,
      { m with toDiskEngine := (DiskEngine.outcome (m.toDiskEngine.durably env.toDiskEnv
        (m.engine.apply env.toEnv mutation readings.mutation)
        (fun _ _ => m.toDiskEngine.stored env.toEnv mutation) id readings.append)).2 }) := by
    rw [mutate, DiskEngine.apply_durably]
  rcases applied : m.engine.apply env.toEnv mutation readings.mutation with ⟨err | op, engine⟩
  · apply MutationCases.refused err engine applied
    · simp only [mutationWrites, logCall, writable, applied, Bool.false_eq_true, if_false]
    · rw [run, applied]
      simp only [DiskEngine.durably, writable, Bool.false_eq_true, if_false, DiskEngine.outcome,
        Except.map]
  · cases encoded : env.codec.encode (projectOp op) with
    | error err =>
        apply MutationCases.unrecorded op engine err applied encoded
        · simp only [mutationWrites, logCall, writable, applied, encoded, Bool.false_eq_true,
            if_false]
        · rw [run, applied]
          simp only [DiskEngine.durably, DiskEngine.appendWal, writable, Bool.false_eq_true,
            if_false, id_eq, encoded, DiskEngine.outcome, Except.map]
    | ok payload =>
        apply MutationCases.recorded op engine payload applied encoded
        · simp only [mutationWrites, logCall, writable, applied, encoded, Bool.false_eq_true,
            if_false]
        · rw [run, applied]
          simp only [DiskEngine.durably, DiskEngine.appendWal, writable, Bool.false_eq_true,
            if_false, id_eq, encoded, DiskEngine.outcome]
          cases (m.wal.appendRaw env.crc m.device (projectOp op).kind payload
            (engine.clock.now readings.append).1 0).1 with
          | error err => rfl
          | ok lsn => rfl

/-- An engine that has come from a saved one by these operations. Its objects are those that the
log leads to; its indices need not be. -/
structure InMemory (env : LifecycleEnv) (nodeId : NodeId) (saved : Saved) (ops : List OpKind)
    (e : Engine) : Prop where
  setting : e.setting env.toEnv = saved.setting
  applied : e.lastAppliedLsn ≤ saved.lsn + ops.length
  filed : e.Filed nodeId
  counted : e.core.Counted nodeId
  few : e.nextOidLocal ≤ objectLeaf.records + ops.length
  objects : Core.SameStates e.core (saved.replayed ops)

/-- An engine whose zone was saved, and whose log has the operations since. -/
structure Kept (env : LifecycleEnv) (fuel : Nat) (m : MountedEngine) (saved : Saved)
    (ops : List OpKind) : Prop where
  disk : Resident env m
  zone : ZoneLoads env fuel m.config.nodeId m.device saved
  log : LogHolds env saved.lsn m.wal m.device ops
  memory : InMemory env m.config.nodeId saved ops m.engine

section

variable {env : LifecycleEnv} {fuel : Nat} {nodeId : NodeId} {e : Engine} {m : MountedEngine}
  {saved : Saved} {ops : List OpKind}

theorem Saved.replayed_append (saved : Saved) (ops : List OpKind) (op : OpKind) :
    saved.replayed (ops ++ [op]) = (saved.replayed ops).replay saved.setting op := by
  rw [Saved.replayed, List.foldl_append]
  rfl

theorem InMemory.node (memory : InMemory env nodeId saved ops e) :
    saved.setting.nodeId = nodeId := by
  rw [← memory.setting]
  exact memory.filed.node

theorem new_in_memory (nodeId : NodeId) :
    InMemory env nodeId (Saved.new env nodeId) [] (Engine.new nodeId) := by
  have first : 1 ≤ objectLeaf.records := by decide
  exact ⟨rfl, Nat.le_refl 0, Engine.filed_new _, Core.counted_new _, first, rfl, rfl⟩

private theorem InMemory.timed (memory : InMemory env nodeId saved ops e) (clock : HybridClock) :
    InMemory env nodeId saved ops { e with clock := clock } :=
  ⟨memory.setting, memory.applied, ⟨memory.filed.node, memory.filed.keyed, memory.filed.located,
    memory.filed.subscriptions⟩, memory.counted, memory.few, memory.objects⟩

/-- A mutation that is refused leaves the engine where it was. -/
theorem InMemory.refused (memory : InMemory env nodeId saved ops e) (mutation : Mutation)
    (reading : Option Int64) (err : EngineError) (engine : Engine)
    (applied : e.apply env.toEnv mutation reading = (.error err, engine)) :
    engine.core = e.core ∧ engine.core = e.core.step saved.setting mutation ∧
      InMemory env nodeId saved ops engine := by
  have core := Engine.core_apply env.toEnv e mutation reading
  have same := Engine.apply_error_core env.toEnv e mutation reading err (by rw [applied])
  have setting := Engine.setting_apply env.toEnv e mutation reading
  have refiled := Engine.refiled_apply env.toEnv e mutation reading
  have last := Engine.last_applied_apply env.toEnv e mutation reading
  rw [applied] at core same setting refiled last
  rw [memory.setting] at core
  have counter : engine.nextOidLocal = e.nextOidLocal := congrArg Core.nextOidLocal same
  refine ⟨same, core, setting.trans memory.setting, ?_, memory.filed.refiled refiled, ?_, ?_, ?_⟩
  · rw [last]
    exact memory.applied
  · rw [same]
    exact memory.counted
  · rw [counter]
    exact memory.few
  · rw [same]
    exact memory.objects

/-- A mutation that succeeds is one step of the core, and so is the replay of what it logs. -/
theorem InMemory.step (memory : InMemory env nodeId saved ops e) (short : ops.length ≤ 254)
    (mutation : Mutation) (reading : Option Int64) (op : OpKind) (engine : Engine)
    (applied : e.apply env.toEnv mutation reading = (.ok op, engine)) :
    engine.core = e.core.step saved.setting mutation ∧ e.core.Logs saved.setting op mutation ∧
      InMemory env nodeId saved (ops ++ [op]) engine := by
  have core := Engine.core_apply env.toEnv e mutation reading
  have setting := Engine.setting_apply env.toEnv e mutation reading
  have refiled := Engine.refiled_apply env.toEnv e mutation reading
  have last := Engine.last_applied_apply env.toEnv e mutation reading
  have logs := Engine.apply_logs env.toEnv e mutation reading op (by rw [applied])
  rw [applied] at core setting refiled last
  rw [memory.setting] at core logs
  have records : objectLeaf.records = 2044 := rfl
  have few : e.core.nextOidLocal ≤ objectLeaf.records + ops.length := memory.few
  have counted := memory.counted
  rw [← memory.node] at counted
  have stepped := Core.step_below saved.setting e.core mutation counted.below (by omega)
  have counter : engine.nextOidLocal = (e.core.step saved.setting mutation).nextOidLocal :=
    congrArg Core.nextOidLocal core
  refine ⟨core, logs, setting.trans memory.setting, ?_, memory.filed.refiled refiled, ?_, ?_, ?_⟩
  · rw [last, List.length_append]
    exact Nat.le_trans memory.applied (by omega)
  · rw [core, ← memory.node]
    exact counted.step mutation (by omega)
  · rw [counter, List.length_append, List.length_singleton]
    omega
  · rw [core, Saved.replayed_append]
    exact memory.objects.step counted mutation op (by omega) logs

/-- An engine that comes up on a log is what the log makes of the saved one. -/
theorem Kept.restart (kept : Kept env fuel m saved ops) (left : Device) (wal : Wal)
    (later : List OpKind) (log : LogHolds env saved.lsn wal left later)
    (only : OnlyLog m.device left) (memory : InMemory env m.config.nodeId saved later e) :
    ∃ opened, «open» env fuel m.config (m.files.stored m.handle left) = some (.ok opened) ∧
      Kept env fuel opened saved later ∧ opened.config = m.config ∧
        opened.engine.core = saved.replayed later := by
  obtain ⟨entries, ring, records⟩ := log.recorded
  have next := log.next
  rw [← records_length records] at next
  obtain ⟨opened, opens, restarted⟩ := kept.disk.restart fuel only saved kept.zone wal entries later
    ring log.base log.size log.writable next records
  refine ⟨opened, opens, ⟨restarted.disk, ?_, ?_, ?_⟩, restarted.config, restarted.core⟩
  · rw [restarted.config]
    apply kept.zone.congr
    apply agrees_trans (only_log_agrees only)
    exact ⟨restarted.capacity, fun address _ _ => by rw [restarted.bytes]⟩
  · rw [restarted.wal]
    exact ⟨log.base, log.size, log.writable, log.behind, log.next, entries,
      Wal.ring_bytes env.crc wal left opened.device entries ring restarted.capacity restarted.bytes,
      records⟩
  · rw [restarted.config]
    refine ⟨restarted.setting, restarted.applied, restarted.filed, ?_, ?_, ?_⟩
    · rw [restarted.core]
      exact memory.counted.same memory.objects
    · have counter : opened.engine.nextOidLocal = e.nextOidLocal :=
        (congrArg Core.nextOidLocal restarted.core).trans memory.objects.counter.symm
      rw [counter]
      exact memory.few
    · rw [restarted.core]
      exact ⟨rfl, rfl⟩

theorem Kept.restart_host (kept : Kept env fuel m saved ops) (left : Device) (wal : Wal)
    (later : List OpKind) (log : LogHolds env saved.lsn wal left later)
    (only : OnlyLog m.device left) (opened : MountedEngine)
    (opens : «open» env fuel m.config (m.files.stored m.handle left) = some (.ok opened)) :
    opened.device = (m.files.stored m.handle left).device m.handle ∧ opened.wal = wal := by
  obtain ⟨entries, ring, records⟩ := log.recorded
  have next := log.next
  rw [← records_length records] at next
  obtain ⟨found, again, restarted⟩ := kept.disk.restart fuel only saved kept.zone wal entries later
    ring log.base log.size log.writable next records
  rw [opens] at again
  cases again
  exact ⟨restarted.device, restarted.wal⟩

/-- What a mutation that returns does to the core and to the log. -/
def Taken (s : Setting) (before after : Core) (mutation : Mutation) (ops later : List OpKind) :
    Prop :=
  after = before.step s mutation ∧
    (later = ops ∧ after = before ∨ ∃ op, before.Logs s op mutation ∧ later = ops ++ [op])

def Torn (s : Setting) (before : Core) (mutation : Mutation) (ops later : List OpKind) : Prop :=
  later = ops ∨ ∃ op, before.Logs s op mutation ∧ later = ops ++ [op]

theorem Kept.mutate (kept : Kept env fuel m saved ops) (mutation : Mutation) (readings : Readings)
    (logged : ∀ err, (m.mutate env mutation readings).1 ≠ .error (.wal err)) :
    ∃ later, Kept env fuel (m.mutate env mutation readings).2 saved later ∧
      (m.mutate env mutation readings).2.config = m.config ∧
      Taken saved.setting m.engine.core (m.mutate env mutation readings).2.engine.core mutation
        ops later := by
  cases mutation_cases env m mutation readings kept.disk.writable with
  | refused err engine applied writes after =>
      obtain ⟨same, core, memory⟩ := kept.memory.refused mutation readings.mutation err engine applied
      rw [after]
      refine ⟨ops, ⟨?_, kept.zone, kept.log, memory⟩, rfl, core, Or.inl ⟨rfl, same⟩⟩
      exact kept.disk.kept rfl rfl rfl kept.disk.writable (fun _ _ => rfl) rfl
        ⟨rfl, fun _ _ => rfl⟩
  | unrecorded op engine err applied encoded writes failed => exact absurd failed (logged err)
  | recorded op engine payload applied encoded writes after =>
      obtain ⟨core, logs, memory⟩ := kept.memory.step kept.log.few mutation readings.mutation op
        engine applied
      rcases appended : m.wal.appendRaw env.crc m.device (projectOp op).kind payload
        (engine.clock.now readings.append).1 0 with ⟨err | lsn, wal, device⟩
      · rw [appended] at after
        exact absurd (congrArg Prod.fst after) (logged err)
      · rw [appended] at after
        rw [after]
        obtain ⟨longer, outside⟩ := kept.log.append op payload encoded _ lsn appended
        have only := only_log_of_outside m.wal m.device device kept.log.base kept.log.size outside
        refine ⟨ops ++ [op], ⟨?_, kept.zone.congr (only_log_agrees only), longer, ?_⟩, rfl, core,
          Or.inr ⟨op, logs, rfl⟩⟩
        · exact kept.disk.kept rfl rfl rfl kept.disk.writable (fun _ _ => rfl) rfl only
        · exact memory.timed _

theorem Kept.crash (kept : Kept env fuel m saved ops) (mutation : Mutation) (readings : Readings)
    (left : Device)
    (crash : Crashed (Wal.Detected env.crc m.wal) (m.mutationWrites env mutation readings) m.device
      left) :
    ∃ opened later, «open» env fuel m.config (m.files.stored m.handle left) = some (.ok opened) ∧
      Kept env fuel opened saved later ∧ opened.config = m.config ∧
      opened.engine.core = saved.replayed later ∧
      Torn saved.setting m.engine.core mutation ops later := by
  -- nothing was written
  have stopped (same : left = m.device) :
      ∃ opened later, «open» env fuel m.config (m.files.stored m.handle left) = some (.ok opened) ∧
        Kept env fuel opened saved later ∧ opened.config = m.config ∧
        opened.engine.core = saved.replayed later ∧
        Torn saved.setting m.engine.core mutation ops later := by
    subst same
    obtain ⟨opened, opens, later, config, core⟩ := kept.restart m.device m.wal ops kept.log
      ⟨rfl, fun _ _ => rfl⟩ kept.memory
    exact ⟨opened, ops, opens, later, config, core, Or.inl rfl⟩
  cases mutation_cases env m mutation readings kept.disk.writable with
  | refused err engine applied writes after =>
      rw [writes] at crash
      cases crash with
      | stopped => exact stopped rfl
  | unrecorded op engine err applied encoded writes failed =>
      rw [writes] at crash
      cases crash with
      | stopped => exact stopped rfl
  | recorded op engine payload applied encoded writes after =>
      rw [writes] at crash
      have only := kept.log.crash_only_log op payload _ crash
      obtain ⟨-, logs, memory⟩ := kept.memory.step kept.log.few mutation readings.mutation op engine
        applied
      obtain ⟨wal, later, log, either⟩ := kept.log.crashed op payload encoded _ crash
      cases either with
      | inl same =>
          subst same
          obtain ⟨opened, opens, next, config, core⟩ := kept.restart left wal _ log only kept.memory
          exact ⟨opened, _, opens, next, config, core, Or.inl rfl⟩
      | inr longer =>
          subst longer
          obtain ⟨opened, opens, next, config, core⟩ := kept.restart left wal _ log only memory
          exact ⟨opened, _, opens, next, config, core, Or.inr ⟨op, logs, rfl⟩⟩

end

end MountedEngine

end Mimisbrunnr
