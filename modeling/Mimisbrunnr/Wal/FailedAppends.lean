import Mimisbrunnr.Wal.CrashConsistency

/-!
# Appends that fail

An append that is refused, or that fails to write its sector, leaves the ring
as it was. One that fails afterwards, at the header or at the sync, has already
counted its entry: the next header that is written shows it.
-/

namespace Mimisbrunnr

set_option autoImplicit false

open Mimisbrunnr.Lib.ByteStore
open Mimisbrunnr.Lib.Layout
open Mimisbrunnr.Storage
open Mimisbrunnr.Types
open Mimisbrunnr.Wal

namespace Wal

def Flushes (wal : Wal) (d : Device) : Prop :=
  d.readOnly = false ∧ d.fault = none ∧ d.faults.tail.headD none = none ∧
    wal.header.header.generation.toNat + 1 < 2 ^ 64

def Writes (d : Device) : Prop := d.readOnly = false ∧ d.fault = none

/-- A call that fails does so before it changes the header: its header write and
its sync succeed if they are reached. -/
def Careful (wal : Wal) (d : Device) : Call → Prop
  | .append _ payload _ flags =>
      wal.refusal payload flags = none → Writes d → wal.Flushes { d with faults := d.faults.tail }
  | .checkpoint _ => wal.Flushes d
  | .reopen => True

def CarefulRun (crc : Crc) (wal : Wal) (d : Device) : List Call → Prop
  | [] => True
  | call :: rest =>
      wal.Careful d call ∧
        CarefulRun crc (wal.perform crc d call).2.1 (wal.perform crc d call).2.2 rest

/-- What a caller has been told to be in the log. -/
def acceptedBy : Call → Outcome → List Record
  | .append kind payload ts flags, .appended (.ok lsn) =>
      [{ opKind := kind.toU8, flags := flags, lsn := lsn, timestamp := ts, payload := payload }]
  | _, _ => []

/-- The records of the appends of a run that succeeded, in their order. -/
def accepted (crc : Crc) (wal : Wal) (d : Device) : List Call → List Record
  | [] => []
  | call :: rest =>
      let done := wal.perform crc d call
      acceptedBy call done.1 ++ accepted crc done.2.1 done.2.2 rest

/-- Iterating shows records of the list, in their order. -/
def ShowsOnly (crc : Crc) (wal : Wal) (d : Device) (records : List Record) : Prop :=
  ∀ start : UInt64, ∃ entries : List WalEntry,
    wal.iterFrom crc d start.toNat = entries.map .ok ∧
      (entries.map WalEntry.record).Sublist records

/-- The cursors, the size in use and the next number are as before. -/
structure SameCursors (before after : Wal) : Prop where
  writeCursor : after.header.writeCursor = before.header.writeCursor
  readCursor : after.header.readCursor = before.header.readCursor
  usedBytes : after.header.usedBytes = before.header.usedBytes
  nextLsn : after.header.nextLsn = before.header.nextLsn

theorem write_at_sound (d : Device) (offset : Nat) (data : List UInt8) (writes : Writes d)
    (inside : offset + data.length ≤ d.capacity) :
    d.writeAt offset data =
      (.ok (), { d with bytes := overwrite d.bytes offset data, faults := d.faults.tail }) := by
  rw [Device.writeAt, writes.1, if_neg (by simp), if_neg (Nat.not_lt.mpr inside), writes.2]

private theorem sync_sound (d : Device) (writes : Writes d) :
    d.sync = (.ok (), { d with faults := d.faults.tail }) := by
  rw [Device.sync, writes.1, if_neg (by simp), writes.2]

theorem write_at_failed (d after : Device) (offset : Nat) (data : List UInt8) (err : StorageError)
    (failed : d.writeAt offset data = (.error err, after)) :
    ChangesWithin offset data.length d after := by
  unfold Device.writeAt at failed
  split at failed
  · cases failed
    exact changes_within_refl _ _ _
  · split at failed
    · cases failed
      exact changes_within_refl _ _ _
    · split at failed
      · next fault _ =>
          cases failed
          constructor
          · rfl
          · intro address outside
            apply overwrite_outside
            have fewer : (data.take fault.written).length ≤ data.length := by
              rw [List.length_take]
              exact Nat.min_le_right _ _
            omega
      · cases failed

theorem settle_sound {α : Type} (crc : Crc) (wal : Wal) (d : Device) (result : α)
    (flushes : wal.Flushes d) (room : wal.dataOffset ≤ d.capacity) :
    ∃ after settled, wal.settle crc d result = (.ok result, after, settled) ∧
      after.readOnly = wal.readOnly := by
  obtain ⟨writable, first, second, more⟩ := flushes
  have slot := (header_slot_inside wal wal.activeSlot.other).2
  let flushed : Wal :=
    { wal with
      header := WalHeader.recomputeCrc crc
        { wal.header with
          header := { wal.header.header with generation := wal.header.header.generation + 1 } } }
  have length : (WalHeader.layout.toBytes flushed.header).length = blockSize :=
    WalHeader.layout.length_to_bytes _
  have written := write_at_sound d (wal.headerSlotOffset wal.activeSlot.other)
    (WalHeader.layout.toBytes flushed.header) ⟨writable, first⟩ (by rw [length]; omega)
  have flush : wal.flushHeader crc d =
      (.ok (), { flushed with activeSlot := wal.activeSlot.other },
        { d with
          bytes := overwrite d.bytes (wal.headerSlotOffset wal.activeSlot.other)
            (WalHeader.layout.toBytes flushed.header)
          faults := d.faults.tail }) := by
    rw [flushHeader, if_pos more]
    simp only
    rw [show flushed.writeHeaderTo d wal.activeSlot.other = _ from written]
  let stored : Device :=
    { d with
      bytes := overwrite d.bytes (wal.headerSlotOffset wal.activeSlot.other)
        (WalHeader.layout.toBytes flushed.header)
      faults := d.faults.tail }
  have synced : stored.sync = (.ok (), { stored with faults := stored.faults.tail }) :=
    sync_sound stored ⟨writable, second⟩
  refine ⟨{ flushed with activeSlot := wal.activeSlot.other },
    { stored with faults := stored.faults.tail }, ?_, rfl⟩
  rw [settle, flush]
  simp only
  rw [synced]

private theorem write_at_writes (d after : Device) (offset : Nat) (data : List UInt8)
    (ok : d.writeAt offset data = (.ok (), after)) : Writes d := by
  unfold Device.writeAt at ok
  split at ok
  · cases ok
  · next writable =>
      split at ok
      · cases ok
      · split at ok
        · cases ok
        · next sound => exact ⟨by simpa using writable, sound⟩

theorem append_read_only (crc : Crc) (wal after : Wal) (d appended : Device) (kind : WalOpKind)
    (payload : List UInt8) (ts : HybridTimestamp) (flags : UInt16) (lsn : UInt64)
    (writable : wal.readOnly = false)
    (ok : wal.appendRaw crc d kind payload ts flags = (.ok lsn, after, appended)) :
    after.readOnly = false := by
  simp only [appendRaw] at ok
  split at ok
  · cases ok
  · split at ok
    · cases ok
    · next middle written =>
        have facts := settle_ok crc wal.advanced after middle appended _ lsn ok
        rw [facts.2.2.1]
        exact writable

theorem settle_failed {α : Type} (crc : Crc) (wal after : Wal) (d settled : Device) (result : α)
    (err : WalError) (failed : wal.settle crc d result = (.error err, after, settled)) :
    after.header.nextLsn = wal.header.nextLsn := by
  simp only [settle, flushHeader] at failed
  split at failed
  · next flushed =>
      split at flushed
      · split at flushed
        · cases flushed
          cases failed
          rfl
        · cases flushed
      · cases flushed
        cases failed
        rfl
  · next flushed =>
      split at flushed
      · split at flushed
        · cases flushed
        · cases flushed
          split at failed
          · cases failed
            rfl
          · cases failed
      · cases flushed

section

variable (crc : Crc) (wal after : Wal) (d appended : Device) (entries : List WalEntry)
variable (kind : WalOpKind) (payload : List UInt8) (ts : HybridTimestamp) (flags : UInt16)

theorem append_failed (ring : Ring crc wal d entries)
    (careful : wal.Careful d (.append kind payload ts flags)) (err : WalError)
    (failed : wal.appendRaw crc d kind payload ts flags = (.error err, after, appended)) :
    after = wal ∧ Ring crc wal appended entries := by
  simp only [appendRaw] at failed
  split at failed
  · cases failed
    exact ⟨rfl, ring⟩
  · next accepted =>
      obtain ⟨length, inside⟩ := entry_inside crc wal d entries ring kind payload ts flags accepted
      split at failed
      · next refused =>
          cases failed
          have changes := write_at_failed _ _ _ _ _ refused
          rw [length] at changes
          have room := refusal_none wal payload flags accepted
          have used := ring.log.used
          have free : entries.length < wal.dataSectors := by
            have more := room.2.2.2.2.1
            rw [used, dataCapacity] at more
            simp only [blockSize] at more
            omega
          exact ⟨rfl, ring_next_sector crc wal d appended entries ring free changes⟩
      · next middle written =>
          have writes := write_at_writes _ _ _ _ written
          have write := Device.write_at_ok _ _ _ _ written
          have flushes : wal.advanced.Flushes middle := by
            rw [write.2]
            exact careful accepted writes
          obtain ⟨_, _, settled, -⟩ := settle_sound crc wal.advanced middle wal.header.nextLsn flushes
            (by
              rw [write.2]
              show wal.dataOffset ≤ d.capacity
              omega)
          rw [settled] at failed
          cases failed

private theorem checkpoint_careful (ring : Ring crc wal d entries) (writable : wal.readOnly = false)
    (lsn : UInt64) (flushes : wal.Flushes d) :
    ∃ count after trimmed, wal.checkpoint crc d lsn = (.ok count, after, trimmed) ∧
      after.readOnly = false := by
  have reservation := sectors_fit wal ring.log.size
  have inside := ring.log.inside
  have sectors : wal.header.usedBytes.toNat / blockSize = entries.length := by
    rw [ring.log.used]
    exact Nat.mul_div_cancel _ (by decide)
  obtain ⟨count, shorter, trimmed, -, same, mode, -⟩ := trim_log crc d lsn entries wal ring.log
  have start : shorter.dataOffset ≤ d.capacity := by
    unfold dataOffset
    rw [same.base]
    omega
  have more : shorter.header.header.generation.toNat + 1 < 2 ^ 64 := by
    rw [same.block]
    exact flushes.2.2.2
  obtain ⟨after, settled, done, kept⟩ := settle_sound crc
    { shorter with header := { shorter.header with lastCheckpointLsn := lsn } } d count
    ⟨flushes.1, flushes.2.1, flushes.2.2.1, more⟩ start
  refine ⟨count, after, settled, ?_, kept.trans (mode.trans writable)⟩
  rw [checkpoint, if_neg (by simp [writable]), sectors, trimmed]
  exact done

/-- A call that is careful keeps the ring, with at most the record of the call
behind the records it held. -/
theorem careful_step (ring : Ring crc wal d entries) (writable : wal.readOnly = false)
    (call : Call) (careful : wal.Careful d call) :
    ∃ later, Ring crc (wal.perform crc d call).2.1 (wal.perform crc d call).2.2 later ∧
      (wal.perform crc d call).2.1.readOnly = false ∧
      later.map WalEntry.record <:+
        entries.map WalEntry.record ++ acceptedBy call (wal.perform crc d call).1 := by
  cases call with
  | append kind payload ts flags =>
      rcases outcome : wal.appendRaw crc d kind payload ts flags with ⟨result, after, appended⟩
      simp only [perform, outcome]
      cases result with
      | ok lsn =>
          have facts := append_ring crc wal after d appended entries ring kind payload ts flags lsn
            outcome
          refine ⟨_, facts.2.1, append_read_only crc wal after d appended kind payload ts flags lsn
            writable outcome, ?_⟩
          rw [List.map_append, facts.1]
          exact List.suffix_refl _
      | error err =>
          obtain ⟨rfl, kept⟩ := append_failed crc wal after d appended entries kind payload ts flags
            ring careful err outcome
          exact ⟨entries, kept, writable, by simp [acceptedBy]⟩
  | checkpoint lsn =>
      obtain ⟨count, after, trimmed, ok, mode⟩ := checkpoint_careful crc wal d entries ring writable
        lsn careful
      have facts := checkpoint_ring crc wal after d trimmed entries ring lsn count ok
      simp only [perform, ok]
      refine ⟨_, facts.1, mode, ?_⟩
      simp only [acceptedBy, List.append_nil]
      exact (List.dropWhile_suffix _).map _
  | reopen =>
      have opened := open_ring crc wal d entries ring writable
      simp only [perform, opened]
      exact ⟨entries, ring, writable, by simp [acceptedBy]⟩

/-- A careful run keeps the ring; what it holds are the last of the accepted
records. -/
theorem careful_run (calls : List Call) (records : List Record) (ring : Ring crc wal d entries)
    (writable : wal.readOnly = false) (held : entries.map WalEntry.record <:+ records)
    (careful : wal.CarefulRun crc d calls) :
    ∃ later, Ring crc (wal.performAll crc d calls).2.1 (wal.performAll crc d calls).2.2 later ∧
      (wal.performAll crc d calls).2.1.readOnly = false ∧
      later.map WalEntry.record <:+ records ++ wal.accepted crc d calls := by
  induction calls generalizing wal d entries records with
  | nil => exact ⟨entries, ring, writable, by simpa [accepted] using held⟩
  | cons call rest ih =>
      obtain ⟨next, kept, mode, shown⟩ := careful_step crc wal d entries ring writable call careful.1
      have grown : next.map WalEntry.record <:+
          records ++ acceptedBy call (wal.perform crc d call).1 := by
        obtain ⟨front, same⟩ := held
        obtain ⟨before, split⟩ := shown
        refine ⟨front ++ before, ?_⟩
        rw [List.append_assoc, split, ← List.append_assoc, same]
      obtain ⟨later, final, writable', listed⟩ := ih _ _ next _ kept mode grown careful.2
      refine ⟨later, final, writable', ?_⟩
      rw [accepted, ← List.append_assoc]
      exact listed

private theorem shows_only_of_ring (records : List Record) (ring : Ring crc wal d entries)
    (held : entries.map WalEntry.record <:+ records) : wal.ShowsOnly crc d records := by
  intro start
  refine ⟨_, iter_from_log crc wal d entries ring.log start.toNat, ?_⟩
  exact (List.filter_sublist.map WalEntry.record).trans held.sublist

end

def mended (d : Device) : Device := { d with readOnly := false, faults := [] }

theorem mended_healthy (d : Device) : (mended d).Healthy :=
  ⟨rfl, fun _ member => absurd member List.not_mem_nil⟩

private theorem write_at_mended (d after : Device) (offset : Nat) (data : List UInt8)
    (ok : d.writeAt offset data = (.ok (), after)) :
    (mended d).writeAt offset data = (.ok (), mended after) := by
  have write := Device.write_at_ok d after offset data ok
  rw [write.2]
  exact Device.write_at_healthy (mended d) offset data (mended_healthy d) write.1

private theorem sync_mended (d after : Device) (ok : d.sync = (.ok (), after)) :
    (mended d).sync = (.ok (), mended after) := by
  rw [Device.sync_ok d after ok]
  exact Device.sync_healthy (mended d) (mended_healthy d)

theorem format_ok (crc : Crc) (d after : Device) (offset size : Nat) (wal : Wal)
    (inside : offset + size ≤ d.capacity) (bounded : d.capacity < 2 ^ 64)
    (ok : Wal.format crc d offset size = (.ok wal, after)) :
    wal = formatted crc offset size ∧ Ring crc wal after [] := by
  rw [Wal.format] at ok
  split at ok
  · next valid =>
      obtain ⟨clean, done, ring, -⟩ :=
        format_ring crc (mended d) offset size (mended_healthy d) valid inside bounded
      rw [Wal.format, if_pos valid] at done
      simp only at ok done
      split at ok
      · cases ok
      · next first writtenA =>
          split at ok
          · cases ok
          · next second writtenB =>
              split at ok
              · cases ok
              · next third synced =>
                  cases ok
                  have mendedA : (formatted crc offset size).writeHeaderTo (mended d) .a =
                      (.ok (), mended first) := write_at_mended _ _ _ _ writtenA
                  rw [mendedA] at done
                  simp only [write_at_mended _ _ _ _ writtenB, sync_mended _ _ synced] at done
                  cases done
                  exact ⟨rfl, ring_bytes crc _ _ _ [] ring rfl rfl⟩
  · cases ok

section

variable (crc : Crc) (wal : Wal) (d : Device) (records : List Record) (call : Call)

/-- The call changes neither the cursors nor what any later iteration shows, and
later calls are careful. -/
structure LeavesNoTrace : Prop where
  cursors : SameCursors wal (wal.perform crc d call).2.1
  iterates : ∀ later, (wal.perform crc d call).2.1.CarefulRun crc (wal.perform crc d call).2.2 later →
    let last := (wal.perform crc d call).2.1.performAll crc (wal.perform crc d call).2.2 later
    last.2.1.ShowsOnly crc last.2.2
      (records ++ (wal.perform crc d call).2.1.accepted crc (wal.perform crc d call).2.2 later)

/-- An append that fails at the header or at the sync has counted its entry. -/
theorem careless_append_counts (after : Wal) (appended : Device) (entries : List WalEntry)
    (kind : WalOpKind) (payload : List UInt8) (ts : HybridTimestamp) (flags : UInt16)
    (err : WalError) (ring : Ring crc wal d entries)
    (careless : ¬wal.Careful d (.append kind payload ts flags))
    (failed : wal.appendRaw crc d kind payload ts flags = (.error err, after, appended)) :
    after.header.nextLsn = wal.header.nextLsn + 1 := by
  simp only [Careful, Classical.not_imp] at careless
  obtain ⟨accepted, writes, -⟩ := careless
  obtain ⟨length, inside⟩ := entry_inside crc wal d entries ring kind payload ts flags accepted
  have written := write_at_sound d (wal.dataOffset + wal.header.writeCursor.toNat)
    ((wal.entryFor crc kind payload ts flags).sector crc) writes (by rw [length]; omega)
  simp only [appendRaw, accepted, written] at failed
  rw [settle_failed crc wal.advanced after _ appended _ err failed]
  rfl

end

/-- In a ring that careful calls have reached, an append that fails leaves no
trace exactly when it fails before the header. -/
theorem failed_append_leaves_no_trace_iff (crc : Crc) (d blank : Device) (offset size : Nat)
    (formatted : Wal) (before : List Call) (kind : WalOpKind) (payload : List UInt8)
    (ts : HybridTimestamp) (flags : UInt16) (err : WalError) (after : Wal) (appended : Device)
    (inside : offset + size ≤ d.capacity) (bounded : d.capacity < 2 ^ 64)
    (format : Wal.format crc d offset size = (.ok formatted, blank))
    (careful : formatted.CarefulRun crc blank before)
    (failed : (formatted.performAll crc blank before).2.1.appendRaw crc
      (formatted.performAll crc blank before).2.2 kind payload ts flags =
        (.error err, after, appended)) :
    LeavesNoTrace crc (formatted.performAll crc blank before).2.1
        (formatted.performAll crc blank before).2.2 (formatted.accepted crc blank before)
        (.append kind payload ts flags) ↔
      (formatted.performAll crc blank before).2.1.Careful
        (formatted.performAll crc blank before).2.2 (.append kind payload ts flags) := by
  obtain ⟨rfl, empty⟩ := format_ok crc d blank offset size formatted inside bounded format
  obtain ⟨entries, ring, writable, held⟩ := careful_run crc _ blank [] before [] empty rfl
    List.suffix_rfl careful
  rw [List.nil_append] at held
  generalize (Wal.formatted crc offset size).performAll crc blank before = state at *
  constructor
  · intro untraced
    by_contra careless
    have counted := careless_append_counts crc state.2.1 state.2.2 after appended entries kind
      payload ts flags err ring careless failed
    have kept := untraced.cursors.nextLsn
    simp only [perform, failed, counted] at kept
    simp at kept
  · intro early
    obtain ⟨rfl, still⟩ := append_failed crc state.2.1 after state.2.2 appended entries kind payload
      ts flags ring early err failed
    constructor
    · simp only [perform, failed]
      exact ⟨rfl, rfl, rfl, rfl⟩
    · intro later careful_later
      simp only [perform, failed] at careful_later ⊢
      obtain ⟨final, kept, -, listed⟩ := careful_run crc _ appended entries later _ still writable
        held careful_later
      exact shows_only_of_ring crc _ _ final _ kept listed

/-- The device of a ring of one sector whose sixth operation, the sync of the
first append, fails. -/
def unsynced : Device :=
  { bytes := fun _ => 0, capacity := 3 * blockSize, readOnly := false
    faults := [none, none, none, none, none, some { message := "sync failed", written := 0 }] }

/-- Whether the first append to a formatted ring fails and counts its entry. -/
def countsFailed (d : Device) : Bool :=
  match Wal.format crc32c d 0 (3 * blockSize) with
  | (.ok formatted, blank) =>
      let done := formatted.appendRaw crc32c blank .createObject [1, 2] ⟨7, 0, 1⟩ 0
      !done.1.isOk && done.2.1.header.nextLsn != formatted.header.nextLsn
  | (.error _, _) => false

theorem failed_append_counted :
    ¬∀ (d blank : Device) (offset size : Nat) (formatted : Wal) (kind : WalOpKind)
      (payload : List UInt8) (ts : HybridTimestamp) (flags : UInt16) (err : WalError) (after : Wal)
      (appended : Device), offset + size ≤ d.capacity → d.capacity < 2 ^ 64 →
      Wal.format crc32c d offset size = (.ok formatted, blank) →
      formatted.appendRaw crc32c blank kind payload ts flags = (.error err, after, appended) →
      LeavesNoTrace crc32c formatted blank [] (.append kind payload ts flags) := by
  intro untraced
  have counts : countsFailed unsynced = true := by decide +kernel
  rw [countsFailed] at counts
  split at counts
  · next formatted blank format =>
      rw [Bool.and_eq_true] at counts
      rcases failed : formatted.appendRaw crc32c blank .createObject [1, 2] ⟨7, 0, 1⟩ 0
        with ⟨result, after, appended⟩
      rw [failed] at counts
      cases result with
      | ok lsn => simp [Except.isOk, Except.toBool] at counts
      | error err =>
          have traceless := untraced unsynced blank 0 (3 * blockSize) formatted .createObject [1, 2]
            ⟨7, 0, 1⟩ 0 err after appended (by decide) (by decide) format failed
          have kept := traceless.cursors.nextLsn
          simp only [perform, failed] at kept
          rw [kept] at counts
          simp at counts
  · cases counts

/-- The device of a ring of one sector that stops in the middle of the first
entry. -/
def torn : Device :=
  { bytes := fun _ => 0, capacity := 3 * blockSize, readOnly := false
    faults := [none, none, none, some { message := "short write", written := 40 }] }

/-- Whether the first append to a formatted ring meets a fault. -/
def failsEarly (d : Device) : Bool :=
  match Wal.format crc32c d 0 (3 * blockSize) with
  | (.ok formatted, blank) =>
      !(formatted.appendRaw crc32c blank .createObject [1, 2] ⟨7, 0, 1⟩ 0).1.isOk &&
        blank.fault != none
  | (.error _, _) => false

theorem failed_append_leaves_no_trace_torn :
    ∃ formatted blank err after appended,
      Wal.format crc32c torn 0 (3 * blockSize) = (.ok formatted, blank) ∧
        formatted.appendRaw crc32c blank .createObject [1, 2] ⟨7, 0, 1⟩ 0 =
          (.error err, after, appended) ∧
        LeavesNoTrace crc32c formatted blank [] (.append .createObject [1, 2] ⟨7, 0, 1⟩ 0) := by
  have early : failsEarly torn = true := by decide +kernel
  rw [failsEarly] at early
  split at early
  · next formatted blank format =>
      rw [Bool.and_eq_true] at early
      rcases failed : formatted.appendRaw crc32c blank .createObject [1, 2] ⟨7, 0, 1⟩ 0
        with ⟨result, after, appended⟩
      rw [failed] at early
      cases result with
      | ok lsn => simp [Except.isOk, Except.toBool] at early
      | error err =>
          refine ⟨formatted, blank, err, after, appended, format, failed, ?_⟩
          apply (failed_append_leaves_no_trace_iff crc32c torn blank 0 (3 * blockSize) formatted []
            .createObject [1, 2] ⟨7, 0, 1⟩ 0 err after appended (by decide) (by decide) format trivial
            failed).mpr
          intro _ writes
          have sound : blank.fault = none := writes.2
          rw [sound] at early
          simp at early
  · cases early

end Wal

end Mimisbrunnr
