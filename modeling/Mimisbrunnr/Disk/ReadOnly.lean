import Mimisbrunnr.Disk.CrashRecovery
import Mimisbrunnr.Disk.ReadContent

/-!
# Opening without writing

A pool that is opened for inspection is read through a device and a log that take no
writes. What is loaded is what an opening for writing loads; then every call that would
change something is refused.
-/

namespace Mimisbrunnr

set_option autoImplicit false

open Mimisbrunnr.Lib.FiniteMap
open Mimisbrunnr.Pool
open Mimisbrunnr.Storage
open Mimisbrunnr.Types
open Mimisbrunnr.Wal

def noSuchFile : StorageError := .io "No such file or directory (os error 2)"

/-- Nothing is created here. -/
def Storage.FileSystem.openDeviceReadOnly (fs : FileSystem) (path : Path) :
    Except StorageError FileBlockDevice :=
  match fs.files path with
  | none => .error noSuchFile
  | some file => .ok { path := path, capacity := file.length, readOnly := true }

def Wal.openReadOnly (crc : Crc) (d : Device) (offset size : Nat) : Except WalError Wal :=
  (Wal.open crc d offset size).map fun wal => { wal with readOnly := true }

namespace MountedEngine

/-- What an opening does once the superblock and the log header are read. -/
def loadAndReplay (env : LifecycleEnv) (fuel : Nat) (m : MountedEngine) :
    Option (Except EngineError MountedEngine) :=
  match m.loadIndexState env.toZoneEnv fuel with
  | none => none
  | some (.error err, _) => some (.error err)
  | some (.ok (), loaded) => some (loaded.replayWal env)

def mountReadOnly (env : LifecycleEnv) (fuel : Nat) (config : PoolConfig)
    (handle : FileBlockDevice) (files : FileSystem) : Option (Except EngineError MountedEngine) :=
  let device := files.device handle
  match Superblock.open env.crc device with
  | .error err => some (.error (.storage err))
  | .ok sb =>
      match Wal.openReadOnly env.crc device sb.walOffset.toNat sb.walSize.toNat with
      | .error err => some (.error (.wal err))
      | .ok wal =>
          { blank config handle files sb wal with readOnly := true }.loadAndReplay env fuel

/-- The pool itself is opened as for writing, to read its state root. -/
def openReadOnly (env : LifecycleEnv) (fuel : Nat) (config : PoolConfig) (fs : FileSystem) :
    Option (Except EngineError MountedEngine) :=
  match PoolManager.open env.pool config fs with
  | (.error err, _) => some (.error (.pool err))
  | (.ok _, opened) =>
      match config.primary with
      | none => some (.error (.pool .emptyPool))
      | some primary =>
          match config.disks.find? fun entry => entry.id = primary.id with
          | none => some (.error (.pool (.diskNotFound primary.id)))
          | some entry =>
              match opened.openDeviceReadOnly entry.path with
              | .error err => some (.error (.storage err))
              | .ok handle => mountReadOnly env fuel config handle opened

/-- The calls that write. -/
inductive WritingCall where
  | mutate (mutation : Mutation) (readings : Readings)
  | saveIndexState
  | commit (reading : Option Int64)

def call (env : LifecycleEnv) (m : MountedEngine) :
    WritingCall → Except EngineError Unit × MountedEngine
  | .mutate mutation readings => m.mutate env mutation readings
  | .saveIndexState => m.saveIndexState env.toZoneEnv
  | .commit reading => m.commit env reading

def callAll (env : LifecycleEnv) :
    List WritingCall → MountedEngine → List (Except EngineError Unit) × MountedEngine
  | [], m => ([], m)
  | here :: rest, m =>
      let (outcome, next) := m.call env here
      let (outcomes, last) := callAll env rest next
      (outcome :: outcomes, last)

/-- The same engine behind a device and a log that take no writes. -/
def asReadOnly (m : MountedEngine) : MountedEngine :=
  { m with
    readOnly := true
    wal := { m.wal with readOnly := true }
    device := { m.device with readOnly := true }
    handle := { m.handle with readOnly := true } }

private theorem read_only_call (env : LifecycleEnv) (m : MountedEngine) (fixed : m.readOnly = true)
    (here : WritingCall) : m.call env here = (.error .readOnly, m) := by
  cases here with
  | mutate mutation readings =>
      rw [call, mutate, DiskEngine.apply_durably]
      unfold DiskEngine.durably
      rw [if_pos fixed]
      rfl
  | saveIndexState => rw [call, saveIndexState, if_pos fixed]
  | commit reading => rw [call, commit, if_pos fixed]

theorem read_only_calls (env : LifecycleEnv) (m : MountedEngine) (fixed : m.readOnly = true)
    (calls : List WritingCall) :
    callAll env calls m = (List.replicate calls.length (.error .readOnly), m) := by
  induction calls with
  | nil => rfl
  | cons here rest ih =>
      simp only [callAll, read_only_call env m fixed here, ih, List.length_cons,
        List.replicate_succ]

def IgnoresMode (load : MountedEngine → Option (Except EngineError MountedEngine)) : Prop :=
  ∀ m, load m.asReadOnly = (load m).map (Except.map asReadOnly)

private theorem load_region_ignores {α ε : Type} (ref : BlockRef) (fallback : α)
    (load : Nat → Option (Except ε α)) (wrap : ε → EngineError)
    (set : MountedEngine → α → MountedEngine)
    (commutes : ∀ m value, set m.asReadOnly value = (set m value).asReadOnly) :
    IgnoresMode fun m => loadRegion ref fallback load wrap (set m) := by
  intro m
  unfold loadRegion
  split
  · simp only [commutes, Option.map_some, Except.map]
  · cases load ref.offset with
    | none => rfl
    | some result =>
        cases result with
        | error err => rfl
        | ok value =>
            simp only [Option.map_some, Except.mapError, Except.map, commutes]

private theorem map_ignores {α : Type} (loaded : Except EngineError α)
    (set : MountedEngine → α → MountedEngine)
    (commutes : ∀ m value, set m.asReadOnly value = (set m value).asReadOnly) :
    IgnoresMode fun m => some (loaded.map (set m)) := by
  intro m
  cases loaded with
  | error err => rfl
  | ok value => simp only [Except.map, commutes, Option.map_some]

section

variable (env : ZoneEnv) (fuel : Nat) (d : Device) (start : Nat) (root : RootPointer)
  (nodeId : UInt16)

theorem region_loads_ignore :
    ∀ load ∈ regionLoads env fuel d start root nodeId, IgnoresMode load := by
  simp only [regionLoads, List.forall_mem_cons, List.not_mem_nil, false_implies, implies_true,
    and_true]
  refine ⟨?_, ?_, ?_, ?_, ?_, ?_, ?_, ?_, ?_, ?_, ?_, ?_⟩
  -- the trees, and then the two regions that are always loaded
  any_goals exact load_region_ignores _ _ _ _ _ fun _ _ => rfl
  any_goals exact map_ignores _ _ fun _ _ => rfl

end

private theorem load_in_turn_read_only
    (loads : List (MountedEngine → Option (Except EngineError MountedEngine)))
    (ignore : ∀ load ∈ loads, IgnoresMode load) :
    ∀ m : MountedEngine, loadInTurn loads m.asReadOnly =
      (loadInTurn loads m).map (Prod.map id asReadOnly) := by
  induction loads with
  | nil => exact fun _ => rfl
  | cons load rest ih =>
      intro m
      have first := ignore load List.mem_cons_self m
      rw [loadInTurn, loadInTurn, first]
      cases load m with
      | none => rfl
      | some result =>
          cases result with
          | error err => rfl
          | ok next => exact ih (fun other member => ignore other (List.mem_cons_of_mem _ member)) next

private theorem load_blob_read_only (env : ZoneEnv) (m : MountedEngine) :
    m.asReadOnly.loadBlob env = Prod.map id asReadOnly (m.loadBlob env) := by
  have same : readIndexBlob env m.asReadOnly.device m.asReadOnly.superblock =
      readIndexBlob env m.device m.superblock := read_index_blob_content rfl env m.superblock
  rw [loadBlob, loadBlob, same]
  cases readIndexBlob env m.device m.superblock with
  | error err => rfl
  | ok found =>
      cases found with
      | none => rfl
      | some blob => rfl

private theorem load_index_state_read_only (env : ZoneEnv) (fuel : Nat) (m : MountedEngine) :
    m.asReadOnly.loadIndexState env fuel =
      (m.loadIndexState env fuel).map (Prod.map id asReadOnly) := by
  have loads : regionLoads env fuel m.asReadOnly.device m.zoneOffset
      m.superblock.activeRootPointer m.engine.nodeId =
        regionLoads env fuel m.device m.zoneOffset m.superblock.activeRootPointer
          m.engine.nodeId :=
    region_loads_content (d := m.device) (e := m.asReadOnly.device) rfl env fuel _ _ _
  have regions : loadAllRegions env fuel m.asReadOnly m.asReadOnly.device m.asReadOnly.zoneOffset
      m.asReadOnly.superblock.activeRootPointer m.asReadOnly.engine.nodeId =
        (loadAllRegions env fuel m m.device m.zoneOffset m.superblock.activeRootPointer
          m.engine.nodeId).map (Prod.map id asReadOnly) := by
    unfold loadAllRegions
    change loadInTurn (regionLoads env fuel m.asReadOnly.device m.zoneOffset
      m.superblock.activeRootPointer m.engine.nodeId) m.asReadOnly = _
    rw [loads]
    exact load_in_turn_read_only _ (region_loads_ignore env fuel _ _ _ _) m
  rw [loadIndexState, loadIndexState, regions]
  cases loadAllRegions env fuel m m.device m.zoneOffset m.superblock.activeRootPointer
      m.engine.nodeId with
  | none => rfl
  | some result =>
      obtain ⟨outcome, loaded⟩ := result
      cases outcome with
      | error err => rfl
      | ok value =>
          cases value
          exact congrArg some (load_blob_read_only env loaded)

private theorem scan_read_only (crc : Crc) (wal : Wal) (d : Device) (start count : Nat) :
    ∀ cursor, ({ wal with readOnly := true } : Wal).scan crc d start count cursor =
      wal.scan crc d start count cursor := by
  induction count with
  | zero => exact fun _ => rfl
  | succ count ih =>
      intro cursor
      have later := ih ((cursor + blockSize) % wal.dataCapacity)
      rw [Wal.scan, Wal.scan, ← later]
      rfl

private theorem replay_wal_read_only (env : LifecycleEnv) (m : MountedEngine) :
    m.asReadOnly.replayWal env = (m.replayWal env).map asReadOnly := by
  have listed (start : Nat) : m.asReadOnly.wal.iterFrom env.crc m.asReadOnly.device start =
      m.wal.iterFrom env.crc m.device start := by
    unfold Wal.iterFrom
    rw [asReadOnly, scan_read_only]
    exact scan_content (d := m.device) (e := m.asReadOnly.device) rfl env.crc m.wal start _ _
  rw [replayWal, replayWal, listed]
  change (replayEntries env (m.wal.iterFrom env.crc m.device
    (Engine.saturatingSucc m.engine.lastAppliedLsn)) m.engine).map _ = _
  cases replayEntries env (m.wal.iterFrom env.crc m.device
    (Engine.saturatingSucc m.engine.lastAppliedLsn)) m.engine with
  | error err => rfl
  | ok engine => rfl

private theorem wal_open_read_only (crc : Crc) (d : Device) (offset size : Nat) :
    Wal.openReadOnly crc { d with readOnly := true } offset size =
      (Wal.open crc d offset size).map fun wal => { wal with readOnly := true } := by
  unfold Wal.openReadOnly
  rw [wal_open_content (d := d) (e := { d with readOnly := true }) rfl]

private theorem load_and_replay_read_only (env : LifecycleEnv) (fuel : Nat) (m : MountedEngine) :
    m.asReadOnly.loadAndReplay env fuel =
      (m.loadAndReplay env fuel).map (Except.map asReadOnly) := by
  rw [loadAndReplay, loadAndReplay, load_index_state_read_only]
  cases m.loadIndexState env.toZoneEnv fuel with
  | none => rfl
  | some result =>
      obtain ⟨outcome, loaded⟩ := result
      cases outcome with
      | error err => rfl
      | ok value =>
          cases value
          exact congrArg some (replay_wal_read_only env loaded)

private theorem mount_read_only (env : LifecycleEnv) (fuel : Nat) (config : PoolConfig)
    (handle : FileBlockDevice) (files : FileSystem) :
    mountReadOnly env fuel config { handle with readOnly := true } files =
      (mount env fuel config handle files).map (Except.map asReadOnly) := by
  have device : files.device { handle with readOnly := true } =
      { files.device handle with readOnly := true } := rfl
  have rooted := open_superblock_congr env.crc (files.device handle)
    { files.device handle with readOnly := true } rfl rfl
  unfold mountReadOnly mount
  rw [device]
  dsimp only
  rw [rooted]
  cases Superblock.open env.crc (files.device handle) with
  | error err => rfl
  | ok sb =>
      dsimp only
      rw [wal_open_read_only]
      cases Wal.open env.crc (files.device handle) sb.walOffset.toNat sb.walSize.toNat with
      | error err => rfl
      | ok wal => exact load_and_replay_read_only env fuel (blank config handle files sb wal)

end MountedEngine

private theorem open_disk_creates (env : Pool.Env) (fs : FileSystem) (entry : DiskConfigEntry)
    (nodeId : NodeId) :
    (openDisk env fs entry nodeId).2 = fs.setFile entry.path (fs.file entry.path) := by
  have opened : (openDisk env fs entry nodeId).2 = (fs.openDevice entry.path 0).2 := by
    simp only [openDisk]
    split
    · rfl
    · split
      · rfl
      · split
        · rfl
        · rfl
  rw [opened, FileSystem.openDevice, if_pos rfl]

theorem open_all_creates (env : Pool.Env) (nodeId : NodeId) (entries : List DiskConfigEntry) :
    ∀ (disks final : FMap DiskId DiskRuntime) (fs after : FileSystem),
      openAll env nodeId false entries disks fs = (.ok final, after) → ∀ path,
      path ∈ entries.map DiskConfigEntry.path ∨ fs.files path ≠ none → after.files path ≠ none := by
  induction entries with
  | nil =>
      intro disks final fs after ok path there
      cases ok
      cases there with
      | inl inside => cases inside
      | inr found => exact found
  | cons entry rest ih =>
      intro disks final fs after ok path there
      have creates := open_disk_creates env fs entry nodeId
      rw [openAll, openOrFormatDisk, if_neg (by simp)] at ok
      rcases done : openDisk env fs entry nodeId with ⟨_ | ⟨handle, sb⟩, middle⟩
      · rw [done] at ok
        cases ok
      · rw [done] at ok creates
        dsimp only at ok creates
        apply ih _ final middle after ok path
        rw [List.map_cons, List.mem_cons] at there
        by_cases here : path = entry.path
        · right
          rw [creates, here]
          simp [FileSystem.setFile]
        · cases there with
          | inl inside => exact Or.inl (inside.resolve_left here)
          | inr found =>
              right
              rw [creates]
              simpa [FileSystem.setFile, here] using found

private theorem open_creates (env : Pool.Env) (config : PoolConfig) (pool : PoolManager)
    (fs after : FileSystem) (ok : PoolManager.open env config fs = (.ok pool, after)) :
    ∀ entry ∈ config.disks, after.files entry.path ≠ none := by
  intro entry member
  unfold PoolManager.open at ok
  split at ok
  · cases ok
  split at ok
  · cases ok
  next disks _ opened =>
    have there := open_all_creates env config.nodeId config.disks ∅ disks fs _ opened entry.path
      (Or.inl (List.mem_map_of_mem member))
    split at ok
    · cases ok
    split at ok
    · cases ok
    split at ok
    · cases ok
    split at ok
    · cases ok
    · cases ok
      exact there

private theorem open_device_read_only (fs : FileSystem) (path : Path)
    (there : fs.files path ≠ none) :
    fs.openDeviceReadOnly path = .ok { fileDevice fs path with readOnly := true } := by
  obtain ⟨file, found⟩ := Option.ne_none_iff_exists'.mp there
  rw [FileSystem.openDeviceReadOnly, found, fileDevice, FileSystem.file, found]
  rfl

namespace MountedEngine

theorem open_read_only_eq (env : LifecycleEnv) (fuel : Nat) (config : PoolConfig)
    (fs : FileSystem) (ids : (config.disks.map DiskConfigEntry.id).Nodup) :
    openReadOnly env fuel config fs =
      («open» env fuel config fs).map (Except.map asReadOnly) := by
  unfold openReadOnly «open»
  rcases opened : PoolManager.open env.pool config fs with ⟨err | pool, after⟩
  · rfl
  · dsimp only
    unfold primaryRuntime
    cases least : config.primary with
    | none => rfl
    | some primary =>
        have member := primary_mem config primary least
        obtain ⟨same, -, disks⟩ := open_ok env.pool config pool fs after ids opened
        obtain ⟨rt, found, device⟩ := disks primary member
        have entry : (config.disks.find? fun entry => entry.id = primary.id) = some primary := by
          cases chosen : config.disks.find? fun entry => entry.id = primary.id with
          | none =>
              rw [List.find?_eq_none] at chosen
              exact absurd (decide_eq_true rfl) (chosen primary member)
          | some other =>
              have named : other.id = primary.id := by simpa using List.find?_some chosen
              rw [List.inj_on_of_nodup_map ids (List.mem_of_find?_eq_some chosen) member named]
        have there := open_creates env.pool config pool fs after opened primary member
        have place : fileDevice after primary.path = fileDevice fs primary.path := by
          unfold fileDevice
          rw [same.files]
        dsimp only
        rw [entry, found]
        dsimp only
        rw [open_device_read_only after primary.path there, device, place]
        exact mount_read_only env fuel config (fileDevice fs primary.path) after

def host (m : MountedEngine) : Device × FileBlockDevice × FileSystem := (m.device, m.handle, m.files)

private theorem load_blob_host (env : ZoneEnv) (m : MountedEngine) :
    (m.loadBlob env).2.host = m.host := by
  rw [loadBlob]
  cases readIndexBlob env m.device m.superblock with
  | error err => rfl
  | ok found =>
      cases found with
      | none => rfl
      | some blob => rfl

private theorem replay_wal_host (env : LifecycleEnv) (m next : MountedEngine)
    (ok : m.replayWal env = .ok next) : next.host = m.host := by
  rw [replayWal] at ok
  cases replayed : replayEntries env (m.wal.iterFrom env.crc m.device
      (Engine.saturatingSucc m.engine.lastAppliedLsn)) m.engine with
  | error err =>
      simp only [replayed] at ok
      cases ok
  | ok engine =>
      simp only [replayed] at ok
      cases ok
      rfl

private theorem load_and_replay_host (env : LifecycleEnv) (fuel : Nat) (m opened : MountedEngine)
    (ok : m.loadAndReplay env fuel = some (.ok opened)) : opened.host = m.host := by
  unfold loadAndReplay loadIndexState at ok
  cases regions : loadAllRegions env.toZoneEnv fuel m m.device m.zoneOffset
      m.superblock.activeRootPointer m.engine.nodeId with
  | none =>
      rw [regions] at ok
      cases ok
  | some result =>
      obtain ⟨outcome, loaded⟩ := result
      rw [regions] at ok
      cases outcome with
      | error err => cases ok
      | ok value =>
          cases value
          have same := load_in_turn_keeps unloaded _
            (region_loads_keep env.toZoneEnv fuel _ _ _ _) m loaded regions
          have kept : loaded.unloaded.host = m.unloaded.host := congrArg host same
          have blob := load_blob_host env.toZoneEnv loaded
          dsimp only at ok
          cases found : loaded.loadBlob env.toZoneEnv with
          | mk first last =>
              rw [found] at ok blob
              cases first with
              | error err => cases ok
              | ok value =>
                  cases value
                  have replayed := replay_wal_host env last opened (Option.some.inj ok)
                  exact replayed.trans (blob.trans kept)

private theorem mount_host (env : LifecycleEnv) (fuel : Nat) (config : PoolConfig)
    (handle : FileBlockDevice) (files : FileSystem) (opened : MountedEngine)
    (ok : mountReadOnly env fuel config handle files = some (.ok opened)) :
    opened.host = (files.device handle, handle, files) := by
  unfold mountReadOnly at ok
  dsimp only at ok
  split at ok
  · cases ok
  · split at ok
    · cases ok
    · exact load_and_replay_host env fuel _ opened ok

theorem current_of_host (m : MountedEngine) (files : FileSystem) (handle : FileBlockDevice)
    (host : m.host = (files.device handle, handle, files)) : SameFiles files m.current := by
  obtain ⟨device, rest⟩ := Prod.mk.inj host
  obtain ⟨place, others⟩ := Prod.mk.inj rest
  rw [current, others, place, device]
  constructor
  · intro path
    rw [FileSystem.file_stored]
    split
    · next here =>
        rw [here]
        rfl
    · rfl
  · exact Function.update_eq_self handle.path files.faults

theorem open_read_only_files (env : LifecycleEnv) (fuel : Nat) (config : PoolConfig)
    (fs : FileSystem) (ids : (config.disks.map DiskConfigEntry.id).Nodup) (reader : MountedEngine)
    (ok : openReadOnly env fuel config fs = some (.ok reader)) : SameFiles fs reader.current := by
  unfold openReadOnly at ok
  rcases opened : PoolManager.open env.pool config fs with ⟨err | pool, after⟩
  · rw [opened] at ok
    cases ok
  · obtain ⟨same, -⟩ := open_ok env.pool config pool fs after ids opened
    rw [opened] at ok
    dsimp only at ok
    split at ok
    · cases ok
    · split at ok
      · cases ok
      · split at ok
        · cases ok
        · next handle _ =>
            exact same_files_trans same
              (current_of_host reader after handle (mount_host env fuel config handle after reader ok))

/-- What the log says of an engine, and the configuration it was created with. -/
def DurableUnder (env : LifecycleEnv) (fuel : Nat) (config : PoolConfig) (m : MountedEngine) :
    Prop :=
  m.config = config ∧ ∃ ops, Durable env fuel m ops

private theorem suffer_durable_under (env : LifecycleEnv) (fuel : Nat) (config : PoolConfig)
    (m : MountedEngine) (call : PowerCall) (under : DurableUnder env fuel config m)
    (allowed : Allowed env m call) :
    ∃ next, m.suffer env fuel call = some next ∧ DurableUnder env fuel config next := by
  obtain ⟨sameConfig, ops, durable⟩ := under
  obtain ⟨next, later, taken, durableNext, kept, -⟩ := suffer_durable durable call allowed
  exact ⟨next, taken, kept.trans sameConfig, later, durableNext⟩

theorem Durable.found {env : LifecycleEnv} {fuel : Nat} {m : MountedEngine} {ops : List OpKind}
    (durable : Durable env fuel m ops) :
    ∃ opened, «open» env fuel m.config m.current = some (.ok opened) ∧
      opened.engine.core = m.engine.core := by
  obtain ⟨opened, opens, -, -, core⟩ := durable.kept.restart m.device m.wal ops durable.kept.log
    ⟨rfl, fun _ _ => rfl⟩ durable.kept.memory
  exact ⟨opened, opens, core.trans durable.core.symm⟩

/-- What a run on a new pool leaves is found again. -/
theorem run_found (env : LifecycleEnv) (fuel : Nat) (config : PoolConfig) (fs : FileSystem)
    (m : MountedEngine) (paths : (config.disks.map DiskConfigEntry.path).Nodup)
    (absent : ∀ entry ∈ config.disks, fs.files entry.path = none) (roomy : RoomyZone config)
    (made : create env config fs = .ok m) (calls : List PowerCall)
    (allowed : Lib.PartialRuns.Along (suffer env fuel) (Allowed env) m calls) :
    ∃ last ops, Lib.PartialRuns.reach (suffer env fuel) m calls = some last ∧
      last.config = config ∧ Durable env fuel last ops ∧
      ∃ opened, «open» env fuel config last.current = some (.ok opened) ∧
        opened.engine.core = last.engine.core := by
  have started := create_started env config fs m paths absent roomy made
  obtain ⟨sameConfig, -⟩ := create_facts env config fs m made
  obtain ⟨last, reached, under, ops, durable⟩ :=
    Lib.PartialRuns.reaches_of_condition (suffer env fuel) (DurableUnder env fuel config)
      (Allowed env) (suffer_durable_under env fuel config) calls m
      ⟨sameConfig, [], started_durable fuel started⟩ allowed
  have found := durable.found
  rw [under] at found
  exact ⟨last, ops, reached, under, durable, found⟩

/-- Opening for inspection loads what an opening for writing loads, or fails as it does. What it
gives refuses every run of writing calls, and the files stay as they are. -/
theorem read_only_mirrors_open (env : LifecycleEnv) (fuel : Nat) (config : PoolConfig)
    (fs : FileSystem) (ids : (config.disks.map DiskConfigEntry.id).Nodup) :
    openReadOnly env fuel config fs =
        («open» env fuel config fs).map (Except.map asReadOnly) ∧
      ∀ reader, openReadOnly env fuel config fs = some (.ok reader) →
        SameFiles fs reader.current ∧
        ∀ calls, callAll env calls reader =
          (List.replicate calls.length (.error .readOnly), reader) := by
  have mirrors := open_read_only_eq env fuel config fs ids
  refine ⟨mirrors, ?_⟩
  intro reader ok
  refine ⟨open_read_only_files env fuel config fs ids reader ok, ?_⟩
  have fixed : reader.readOnly = true := by
    rw [mirrors] at ok
    obtain ⟨result, -, mapped⟩ := Option.map_eq_some_iff.mp ok
    cases result with
    | error err => cases mapped
    | ok opened =>
        cases mapped
        rfl
  exact read_only_calls env reader fixed

/-- The pool on the wide disk, with an object, behind a machine that stopped. -/
theorem read_only_mirrors_open_wide : ∃ m last reader,
    create crashEnv wideConfig emptyHost = .ok m ∧
      Lib.PartialRuns.reach (suffer crashEnv 0) m (stoppedCalls m) = some last ∧
      openReadOnly crashEnv 0 wideConfig last.current = some (.ok reader) ∧
      reader.engine.core = last.engine.core ∧
      openReadOnly crashEnv 0 wideConfig last.current =
        («open» crashEnv 0 wideConfig last.current).map (Except.map asReadOnly) ∧
      SameFiles last.current reader.current ∧
      ∀ calls, callAll crashEnv calls reader =
        (List.replicate calls.length (.error .readOnly), reader) := by
  obtain ⟨m, made, allowed⟩ := stopped_calls_allowed
  obtain ⟨last, -, reached, -, -, opened, opens, core⟩ := run_found crashEnv 0 wideConfig emptyHost m
    (by decide) (fun _ _ => rfl) wide_roomy made (stoppedCalls m) allowed
  obtain ⟨mirrors, refuses⟩ := read_only_mirrors_open crashEnv 0 wideConfig last.current (by decide)
  have reads : openReadOnly crashEnv 0 wideConfig last.current = some (.ok opened.asReadOnly) := by
    rw [mirrors, opens]
    rfl
  exact ⟨m, last, opened.asReadOnly, made, reached, reads, core, mirrors, refuses _ reads⟩

end MountedEngine

end Mimisbrunnr
