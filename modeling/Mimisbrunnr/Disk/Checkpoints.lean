import Mimisbrunnr.Disk.LoggedRuns
import Mimisbrunnr.Disk.Reopening
import Mimisbrunnr.Disk.ZoneRoundTrip

/-!
# A commit between two openings

A commit saves the zone, appends a checkpoint to the log, empties it and writes the
superblock. It leaves a disk on which the zone loads as the engine that was
committed, without the values of the forward index, behind an empty log.
-/

namespace Mimisbrunnr

set_option autoImplicit false

open Mimisbrunnr.Lib.ByteStore
open Mimisbrunnr.Lib.FiniteMap
open Mimisbrunnr.Lib.Layout
open Mimisbrunnr.Meta
open Mimisbrunnr.Ontology
open Mimisbrunnr.Pool
open Mimisbrunnr.Storage
open Mimisbrunnr.Types
open Mimisbrunnr.Wal
open Mimisbrunnr.Watch

section

variable {env : LifecycleEnv} {since : Nat} {wal appended last : Wal} {d middle emptied : Device}
  {ops : List OpKind}

theorem LogHolds.moved {e : Device} (log : LogHolds env since wal d ops)
    (inside : fmtWalOffset.toNat + fmtWalSize.toNat ≤ e.capacity) (bounded : e.capacity < 2 ^ 64)
    (bytes : ∀ address, fmtWalOffset.toNat ≤ address →
      address < fmtWalOffset.toNat + fmtWalSize.toNat → e.bytes address = d.bytes address) :
    LogHolds env since wal e ops := by
  obtain ⟨entries, ring, records⟩ := log.recorded
  refine ⟨log.base, log.size, log.writable, log.behind, log.next, entries, ?_, records⟩
  apply Wal.ring_moved ring
  · rw [log.base, log.size]
    exact inside
  · exact bounded
  · intro address above below
    rw [log.base] at above
    rw [log.base, log.size] at below
    exact bytes address above below

/-- A checkpoint that is appended and trimmed to leaves an empty log behind its own number. -/
theorem LogHolds.checkpoint (log : LogHolds env since wal d ops) (payload : List UInt8)
    (ts : HybridTimestamp) (lsn : UInt64) (count : Nat)
    (ran : wal.appendRaw env.crc d .checkpoint payload ts 0 = (.ok lsn, appended, middle))
    (trimmed : appended.checkpoint env.crc middle lsn = (.ok count, last, emptied)) :
    lsn.toNat = since + ops.length + 1 ∧ LogHolds env lsn.toNat last emptied [] ∧
      wal.KeepsOutside d emptied := by
  obtain ⟨entries, ring, -⟩ := log.recorded
  obtain ⟨number, left, outside, base, size, mode⟩ := Wal.append_then_checkpoint
    (Wal.tracked_of_ring ring log.writable) .checkpoint payload ts 0 lsn count ran trimmed
  obtain ⟨next, generation, -⟩ := append_header env.crc _ payload ts lsn ran
  obtain ⟨-, longer, -, -, -⟩ := Wal.append_ring env.crc wal appended d middle entries ring _ payload
    ts 0 lsn ran
  obtain ⟨-, -, -, -, nextKept⟩ := Wal.checkpoint_ring env.crc appended last middle emptied _ longer
    lsn count trimmed
  have counted := Wal.checkpoint_generation longer lsn count trimmed
  have here : lsn.toNat = since + ops.length + 1 := by
    rw [number]
    exact log.next
  have behind := log.behind
  refine ⟨here, ⟨base.trans log.base, size.trans log.size, mode, ?_, ?_, [], left, .nil⟩, outside⟩
  · rw [nextKept]
    omega
  · rw [nextKept, next, number]
    rfl

end

namespace MountedEngine

def WholeZone (m : MountedEngine) : Prop :=
  zoneStart + fmtIndexZoneSize.toNat ≤ m.handle.capacity - blockSize

theorem WholeZone.fits {env : LifecycleEnv} {m : MountedEngine} (whole : m.WholeZone)
    (below : m.BlobBelowPages env.toZoneEnv) : BlobFits env m := by
  intro blob payload built encoded
  have short := below blob payload built encoded
  have inside : blobStart + blobRoom ≤ zoneStart + fmtIndexZoneSize.toNat := by decide
  unfold WholeZone at whole
  omega

/-- The engine behind a commit is the one before it, with the checkpoint applied. -/
theorem commit_engine (env : LifecycleEnv) (m after : MountedEngine) (reading : Option Int64)
    (ok : m.commit env reading = (.ok (), after)) :
    ∃ zone payload ts lsn appended clock,
      m.saveZone env.toZoneEnv m.device = (.ok (), zone) ∧
      m.wal.appendRaw env.crc zone .checkpoint payload ts 0 = (.ok lsn, appended) ∧
      after.engine =
        { m.engine with
          clock := clock
          lastAppliedLsn := max m.engine.lastAppliedLsn lsn.toNat } ∧
      after.readOnly = false := by
  unfold commit at ok
  split at ok
  · cases ok
  next writable =>
    simp only [saveIndexState, if_neg writable] at ok
    rcases zoned : m.saveZone env.toZoneEnv m.device with ⟨_ | done, zone⟩
    · rw [zoned] at ok
      cases ok
    · rw [zoned] at ok
      dsimp only at ok
      split at ok
      · cases ok
      next lsn appended checkpointed =>
        obtain ⟨payload, ts, ran, clock, same⟩ :=
          append_checkpoint_ok env _ appended _ reading lsn checkpointed
        have engine : appended.engine = { m.engine with clock := clock } := by rw [same]
        have mode : appended.readOnly = m.readOnly := by rw [same]
        refine ⟨zone, payload, ts, lsn, _, clock, rfl, ran, ?_⟩
        unfold finishCommit at ok
        dsimp only at ok
        split at ok
        · cases ok
        · split at ok
          · cases ok
          · cases ok
            dsimp only
            rw [engine, mode]
            exact ⟨rfl, Bool.eq_false_iff.mpr writable⟩

section

variable {env : LifecycleEnv} {fuel : Nat} {m after : MountedEngine} {saved : Saved}
  {ops : List OpKind}

theorem Kept.on_disk (kept : Kept env fuel m saved ops) : OnDisk env m := by
  obtain ⟨primary, least, path, -⟩ := kept.disk.primary
  obtain ⟨entries, ring, -⟩ := kept.log.recorded
  have length : (m.files.file m.handle.path).length = m.handle.capacity :=
    congrArg FileBlockDevice.capacity kept.disk.whole
  refine ⟨⟨primary, least, path⟩, kept.disk.capacity, ?_, ?_, kept.disk.laid,
    ⟨entries, Wal.tracked_of_ring ring kept.log.writable⟩, kept.log.base, kept.log.size⟩
  · rw [length]
  · rw [length]
    exact kept.disk.bounded

theorem Kept.zone_logged (kept : Kept env fuel m saved ops) (whole : m.WholeZone) (zone : Device)
    (zoned : m.saveZone env.toZoneEnv m.device = (.ok (), zone)) :
    LogHolds env saved.lsn m.wal zone ops := by
  obtain ⟨payload, saving⟩ := save_zone_ok env.toZoneEnv m kept.disk.laid m.device zone zoned
  have walEnd : fmtWalOffset.toNat + fmtWalSize.toNat = zoneStart := rfl
  have width : zone.capacity = m.handle.capacity := saving.confined.capacity.trans kept.disk.capacity
  unfold WholeZone at whole
  apply kept.log.moved
  · rw [width]
    omega
  · rw [width]
    exact kept.disk.bounded
  · intro address above below
    exact saving.confined.kept address (Or.inl (by omega))

/-- What a commit has written: the zone, an empty log, and nothing between the superblock and
the log. -/
structure Rewritten (env : LifecycleEnv) (m after : MountedEngine) (lsn : Nat) : Prop where
  zone : ∃ zone, m.saveZone env.toZoneEnv m.device = (.ok (), zone) ∧
    AgreesOn zoneStart fmtIndexZoneSize.toNat zone after.device
  low : ∀ address, 2 * blockSize ≤ address → address < fmtWalOffset.toNat →
    after.device.bytes address = m.device.bytes address
  log : LogHolds env lsn after.wal after.device []

theorem Kept.rewritten (kept : Kept env fuel m saved ops) (whole : m.WholeZone)
    (reading : Option Int64) (ok : m.commit env reading = (.ok (), after)) :
    Rewritten env m after (saved.lsn + ops.length + 1) := by
  obtain ⟨zone, bytes, ts, lsn, appended, middle, count, emptied, zoned, ran, trimmed, flipped, -⟩ :=
    commit_steps env m after reading ok
  obtain ⟨payload, saving⟩ := save_zone_ok env.toZoneEnv m kept.disk.laid m.device zone zoned
  have block : blockSize = 4096 := rfl
  have first : zoneStart = 1114112 := rfl
  have width : fmtIndexZoneSize.toNat = 33554432 := rfl
  have walFirst : fmtWalOffset.toNat = 65536 := rfl
  have walEnd : fmtWalOffset.toNat + fmtWalSize.toNat = 1114112 := rfl
  have room : zoneStart + fmtIndexZoneSize.toNat ≤ m.device.capacity - blockSize := by
    rw [kept.disk.capacity]
    exact whole
  have bounded : m.device.capacity < 2 ^ 64 := by
    rw [kept.disk.capacity]
    exact kept.disk.bounded
  have zoneWidth := saving.confined.capacity
  have logged := kept.zone_logged whole zone zoned
  obtain ⟨number, empty, outside⟩ := logged.checkpoint bytes ts lsn count ran trimmed
  have emptiedWidth : emptied.capacity = m.device.capacity := outside.1.trans zoneWidth
  obtain ⟨-, -, capacity, behind⟩ := Superblock.commit_root_ok env.crc m.superblock
    after.superblock _ emptied after.device (by rw [emptiedWidth]; omega) kept.disk.laid.magic flipped
  have afterWidth : after.device.capacity = m.device.capacity := capacity.trans emptiedWidth
  refine ⟨⟨zone, zoned, afterWidth.trans zoneWidth.symm, ?_⟩, ?_, ?_⟩
  · intro address above below
    rw [behind address (by omega) (by rw [emptiedWidth]; omega),
      outside.2 address (Or.inr (by rw [kept.log.base, kept.log.size]; omega))]
  · intro address above below
    rw [behind address above (by rw [emptiedWidth]; omega),
      outside.2 address (Or.inl (by rw [kept.log.base]; exact below)),
      saving.confined.kept address (Or.inl (by omega))]
  · rw [← number]
    apply empty.moved
    · rw [afterWidth]
      omega
    · rw [afterWidth]
      exact bounded
    · intro address above below
      exact behind address (by omega) (by rw [emptiedWidth]; omega)

end

end MountedEngine

def Core.stored (c : Core) : Core :=
  { c with indices := { c.indices with forward := c.indices.forward.stored } }

namespace MountedEngine

/-- The engine that has everything but the counter of a saved one. -/
def uncounted (base saved : Engine) (ontology : OntologyState)
    (subscriptions : SubscriptionEngine) : Engine :=
  { base with
    indices := { saved.indices with forward := saved.indices.forward.stored }
    objectTable := mapVals storedRecord saved.objectTable
    locationTable := mapVals locationImage saved.locationTable
    ontology := ontology
    subscriptions := subscriptions
    oplog := saved.oplog }

section

variable {nodeId : NodeId} {e : Engine} (ontology : OntologyState)
  (subscriptions : SubscriptionEngine)

private theorem uncounted_states :
    (uncounted (Engine.new nodeId) e ontology subscriptions).core.states = e.core.states := by
  funext raw
  change ((mapVals storedRecord e.objectTable).lookup raw).map ObjectRecord.state = _
  rw [lookup_map_vals, Option.map_map]
  rfl

theorem restored_core (env : Env) (counted : e.core.Counted nodeId)
    (small : e.nextOidLocal < 2 ^ 48) :
    (restoredEngine (Engine.new nodeId) e ontology subscriptions).core = e.core.stored := by
  have positive : 1 ≤ e.nextOidLocal := counted.positive
  have states := @uncounted_states nodeId e ontology subscriptions
  change (caughtUp (uncounted (Engine.new nodeId) e ontology subscriptions) e.nextOidLocal).core = _
  have made : (uncounted (Engine.new nodeId) e ontology subscriptions).core =
      { e.core.stored with nextOidLocal := 1 } := by
    rw [Core.stored, ← states]
    rfl
  unfold caughtUp
  split
  · next more =>
      let oid := ObjectId.fromParts nodeId (e.nextOidLocal - 1)
      have known : (uncounted (Engine.new nodeId) e ontology subscriptions).core.known oid = true := by
        rw [Core.known, states]
        exact counted.last more
      have here : oid.localSeq = e.nextOidLocal - 1 :=
        ObjectId.local_seq_from_parts nodeId _ (by omega)
      have next : Engine.saturatingSucc oid.localSeq = e.nextOidLocal := by
        rw [here, Engine.saturatingSucc]
        omega
      have replayed := Engine.core_replay env (uncounted (Engine.new nodeId) e ontology subscriptions)
        (.createObject oid)
      refine replayed.trans ?_
      have first : 1 ≤ oid.localSeq := by
        have above : 1 < e.nextOidLocal := more
        omega
      simp only [Core.replay, Core.ensured_known _ _ known]
      rw [made]
      simp only [first, if_true, next]
      rfl
  · next few =>
      have one : 1 = e.nextOidLocal := by
        have above : ¬ 1 < e.nextOidLocal := few
        omega
      rw [made, one]
      rfl

private theorem caught_up_refiled (e : Engine) (counter : Nat) :
    Engine.Refiled e (caughtUp e counter) ∧ (caughtUp e counter).ontology = e.ontology ∧
      (caughtUp e counter).lastAppliedLsn = e.lastAppliedLsn := by
  unfold caughtUp
  split
  · refine ⟨⟨rfl, ?_, fun _ member => member, id⟩, rfl, rfl⟩
    exact fun keyed => Engine.keyed_replay_create keyed _ _
  · exact ⟨Engine.refiled_refl e, rfl, rfl⟩

private theorem uncounted_filed (filed : e.Filed nodeId)
    (same : subscriptions.subscriptions = e.subscriptions.subscriptions) :
    (uncounted (Engine.new nodeId) e ontology subscriptions).Filed nodeId := by
  refine ⟨rfl, ?_, ?_, ?_⟩
  · intro key record found
    change (mapVals storedRecord e.objectTable).lookup key = some record at found
    rw [lookup_map_vals] at found
    obtain ⟨old, here, stored⟩ := Option.map_eq_some_iff.mp found
    rw [← stored]
    exact filed.keyed key old here
  · intro key member
    apply filed.located key
    have found : ((mapVals locationImage e.locationTable).lookup key).isSome :=
      Finmap.lookup_isSome.mpr member
    rw [lookup_map_vals, Option.isSome_map] at found
    exact Finmap.lookup_isSome.mp found
  · constructor
    · intro id sub found
      change subscriptions.subscriptions.lookup id = some sub at found
      rw [same] at found
      exact filed.subscriptions.own id sub found
    · intro id sub found
      change subscriptions.subscriptions.lookup id = some sub at found
      rw [same] at found
      exact filed.subscriptions.narrow id sub found

private theorem restored_loaded_as (env : LifecycleEnv) (setting : Setting) (lsn : Nat)
    (filed : e.Filed nodeId) (counted : e.core.Counted nodeId) (small : e.nextOidLocal < 2 ^ 48)
    (same : subscriptions.subscriptions = e.subscriptions.subscriptions)
    (here : e.setting env.toEnv = setting) (applied : e.lastAppliedLsn ≤ lsn) :
    LoadedAs env nodeId { setting := setting, core := e.core.stored, lsn := lsn }
      (restoredEngine (Engine.new nodeId) e e.ontology subscriptions) := by
  obtain ⟨refiled, sameOntology, last⟩ := caught_up_refiled
    (uncounted (Engine.new nodeId) e e.ontology subscriptions) e.nextOidLocal
  have caught := (uncounted_filed e.ontology subscriptions filed same).refiled refiled
  refine ⟨restored_core e.ontology subscriptions env.toEnv counted small, ?_, ?_, ?_⟩
  · rw [← here]
    unfold Engine.setting
    congr 1
    exact caught.node.trans filed.node.symm
  · change max (caughtUp (uncounted (Engine.new nodeId) e e.ontology subscriptions)
      e.nextOidLocal).lastAppliedLsn e.lastAppliedLsn ≤ lsn
    rw [last]
    exact Nat.max_le.mpr ⟨Nat.zero_le _, applied⟩
  · exact ⟨caught.node, caught.keyed, caught.located, caught.subscriptions⟩

end

/-- What a commit saves of an engine in memory. -/
def Saved.checkpoint (saved : Saved) (e : Engine) (ops : List OpKind) : Saved :=
  { setting := saved.setting
    core := e.core.stored
    lsn := saved.lsn + ops.length + 1 }

/-- The disk has room for the zone, tags have 32 bits, and the blob ends before the tag bitmaps. -/
structure Committable (env : LifecycleEnv) (m : MountedEngine) : Prop where
  whole : m.WholeZone
  tags : m.engine.NarrowTags
  below : m.BlobBelowPages env.toZoneEnv

def Reloads (env : LifecycleEnv) (ontology : OntologyState) : Prop :=
  ontology.toImage.intoState env.ontology.topo = .ok ontology

theorem new_reloads (env : LifecycleEnv) : Reloads env OntologyState.new := rfl

section

variable {env : LifecycleEnv} {fuel : Nat} {m after : MountedEngine} {saved : Saved}
  {ops : List OpKind} {lsn : Nat}

theorem Kept.storable (kept : Kept env fuel m saved ops) (tags : m.engine.NarrowTags) :
    m.Storable := storable_of_filed kept.memory.filed kept.memory.counted tags

theorem Kept.counter_small (kept : Kept env fuel m saved ops) :
    m.engine.core.nextOidLocal < 2 ^ 48 := by
  have few : m.engine.core.nextOidLocal ≤ objectLeaf.records + ops.length := kept.memory.few
  have records : objectLeaf.records = 2044 := rfl
  have short := kept.log.few
  omega

private theorem Kept.zone_loads (kept : Kept env fuel m saved ops) (committable : Committable env m)
    (reloads : Reloads env m.engine.ontology)
    (enough : tagBitmapAreaPages < fuel) (rewritten : Rewritten env m after lsn) :
    ZoneLoads env fuel m.config.nodeId after.device (saved.checkpoint m.engine ops) := by
  obtain ⟨zone, zoned, agrees⟩ := rewritten.zone
  have filed := kept.memory.filed
  have small := kept.counter_small
  intro config handle files sb wal node laid here
  obtain ⟨subscriptions, same, loads⟩ := saved_zone_loads env.toZoneEnv m
    (blank config handle files sb wal) kept.disk.laid
    (kept.storable committable.tags) committable.below m.device zone zoned laid
    (node.trans filed.node.symm) (agrees_trans agrees here) m.engine.ontology reloads fuel enough
  refine ⟨_, _, _, loads, ?_⟩
  have start : (blank config handle files sb wal).engine = Engine.new m.config.nodeId :=
    congrArg Engine.new node
  rw [start]
  exact restored_loaded_as subscriptions env saved.setting _ filed kept.memory.counted small same
    kept.memory.setting (Nat.le_succ_of_le kept.memory.applied)

theorem Kept.counter_within_leaf (kept : Kept env fuel m saved ops)
    (tags : m.engine.NarrowTags) (rewritten : Rewritten env m after lsn) :
    m.engine.nextOidLocal ≤ objectLeaf.records := by
  obtain ⟨zone, zoned, -⟩ := rewritten.zone
  obtain ⟨_, saving⟩ := save_zone_ok env.toZoneEnv m kept.disk.laid m.device zone zoned
  obtain ⟨before, stored, -, flushed, -⟩ := saving.objects
  have storable := kept.storable tags
  obtain ⟨-, back⟩ := object_table_read_back m.engine.objectTable storable.keyed storable.apart _ _ _
    flushed
  have small := (object_table_kept m.engine.objectTable storable.keyed _ _ _ flushed _
    (back stored (agrees_refl _ _ _))).small
  have records : objectLeaf.records = 2044 := rfl
  have few := kept.memory.few
  have short := kept.log.few
  by_cases more : 1 < m.engine.nextOidLocal
  · have last := small _ ((m.engine.known_key _).mp (kept.memory.counted.last more))
    rw [ObjectId.toU64, ObjectId.raw_from_parts] at last
    have counter : m.engine.core.nextOidLocal = m.engine.nextOidLocal := rfl
    omega
  · omega

theorem Kept.commit_resident (kept : Kept env fuel m saved ops) (whole : m.WholeZone)
    (reading : Option Int64) (ok : m.commit env reading = (.ok (), after)) :
    Resident env after := by
  have rewritten := kept.rewritten whole reading ok
  obtain ⟨payload, committed⟩ := commit_ok env m after reading kept.on_disk ok
  obtain ⟨-, -, -, -, -, -, -, -, -, writable⟩ := commit_engine env m after reading ok
  have block : blockSize = 4096 := rfl
  have walFirst : fmtWalOffset.toNat = 65536 := rfl
  have root : poolStateRootOffset = 16384 := rfl
  have start : blobStart = 4259840 := rfl
  have room := kept.disk.room
  rw [← kept.disk.capacity] at room
  have ids : (m.committedSuperblock env).diskId = m.superblock.diskId ∧
      (m.committedSuperblock env).nodeId = m.superblock.nodeId := by
    unfold committedSuperblock Superblock.withRoot
    split <;> exact ⟨rfl, rfl⟩
  rw [← committed.superblock] at ids
  obtain ⟨psr, header, states, applies⟩ := kept.disk.states
  constructor
  · rw [committed.config]
    exact kept.disk.ids
  · rw [committed.config]
    exact kept.disk.paths
  · rw [committed.config, committed.handle, ids.1]
    exact kept.disk.primary
  · rw [ids.2, committed.config]
    exact kept.disk.node
  · rw [committed.config, committed.handle, committed.files]
    exact kept.disk.others
  · rw [committed.files, committed.handle]
    exact kept.disk.whole
  · rw [committed.capacity, committed.handle]
    exact kept.disk.capacity
  · rw [committed.handle]
    exact kept.disk.room
  · rw [committed.handle]
    exact kept.disk.bounded
  · rw [committed.superblock]
    exact committed_laid_out env m kept.disk.laid
  · exact committed.stored
  · refine ⟨psr, header, ?_, applies⟩
    rw [← states, Device.readAt, Device.readAt, committed.capacity]
    have same : read after.device.bytes poolStateRootOffset blockSize =
        read m.device.bytes poolStateRootOffset blockSize := by
      apply read_congr
      intro address above below
      exact rewritten.low address (by omega) (by omega)
    rw [same]
  · exact writable

theorem Kept.commit_memory (kept : Kept env fuel m saved ops) (committable : Committable env m)
    (reading : Option Int64) (ok : m.commit env reading = (.ok (), after)) :
    after.engine.core = m.engine.core ∧
      InMemory env m.config.nodeId (saved.checkpoint m.engine ops) [] after.engine := by
  have rewritten := kept.rewritten committable.whole reading ok
  obtain ⟨zone, bytes, ts, lsn, appended, clock, zoned, ran, engine, -⟩ :=
    commit_engine env m after reading ok
  obtain ⟨entries, ring, -⟩ := (kept.zone_logged committable.whole zone zoned).recorded
  obtain ⟨number, -⟩ := Wal.append_ring env.crc m.wal appended.1 zone appended.2 entries ring _ bytes
    ts 0 lsn ran
  have here : lsn.toNat = saved.lsn + ops.length + 1 := by
    rw [number]
    exact kept.log.next
  have memory := kept.memory
  have few := kept.counter_within_leaf committable.tags rewritten
  rw [engine]
  refine ⟨rfl, memory.setting, ?_, ?_, memory.counted, few, rfl, rfl⟩
  · have applied := memory.applied
    change max m.engine.lastAppliedLsn lsn.toNat ≤ saved.lsn + ops.length + 1 + 0
    omega
  · exact ⟨memory.filed.node, memory.filed.keyed, memory.filed.located, memory.filed.subscriptions⟩

/-- A commit that succeeds leaves a saved engine with an empty log. -/
theorem Kept.commit (kept : Kept env fuel m saved ops) (committable : Committable env m)
    (reloads : Reloads env m.engine.ontology) (enough : tagBitmapAreaPages < fuel)
    (reading : Option Int64)
    (ok : m.commit env reading = (.ok (), after)) :
    Kept env fuel after (saved.checkpoint m.engine ops) [] ∧ after.config = m.config ∧
      after.engine.core = m.engine.core := by
  have rewritten := kept.rewritten committable.whole reading ok
  obtain ⟨payload, committed⟩ := commit_ok env m after reading kept.on_disk ok
  obtain ⟨core, memory⟩ := kept.commit_memory committable reading ok
  refine ⟨⟨kept.commit_resident committable.whole reading ok, ?_, rewritten.log, ?_⟩,
    committed.config, core⟩
  · rw [committed.config]
    exact kept.zone_loads committable reloads enough rewritten
  · rw [committed.config]
    exact memory

end

end MountedEngine

end Mimisbrunnr
