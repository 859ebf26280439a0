import Mathlib.Data.List.TakeWhile
import Mimisbrunnr.Wal.FailedAppends

/-!
# A ring that goes on after failures

A failed append leaves the device with a header that is older than the one in
memory, or with a torn one in the slot that is not active. The ring in memory
still knows the entries of the data area, and the next header that is written is
newer than all others.
-/

namespace Mimisbrunnr

set_option autoImplicit false

open Mimisbrunnr.Lib.ByteStore
open Mimisbrunnr.Lib.Layout
open Mimisbrunnr.Storage
open Mimisbrunnr.Types
open Mimisbrunnr.Wal

namespace Wal

/-- The ring in memory knows the entries of the data area, and the active slot holds no header
that is newer than its own. -/
structure Tracked (crc : Crc) (wal : Wal) (d : Device) (entries : List WalEntry) : Prop where
  log : Log crc wal d entries
  kind : wal.header.header.kind = BlockKind.walSegment.toU16
  version : wal.header.header.formatVersion = walHeaderFormatVersion
  older : ∀ h, candidate crc (read d.bytes (wal.headerSlotOffset wal.activeSlot) blockSize) =
    some h → h.header.generation.toNat ≤ wal.header.header.generation.toNat
  writable : wal.readOnly = false

section

variable {crc : Crc} {wal after : Wal} {d later : Device} {entries : List WalEntry}

theorem tracked_of_ring (ring : Ring crc wal d entries) (writable : wal.readOnly = false) :
    Tracked crc wal d entries := by
  refine ⟨ring.log, ring.valid.kind, ring.valid.version, ?_, writable⟩
  intro h found
  rw [ring.active, candidate_to_bytes crc wal.header ring.valid] at found
  cases found
  exact Nat.le_refl _

theorem format_capacity (crc : Crc) (d later : Device) (offset size : Nat) (wal : Wal)
    (ok : Wal.format crc d offset size = (.ok wal, later)) : later.capacity = d.capacity := by
  unfold Wal.format at ok
  split at ok
  · dsimp only at ok
    split at ok
    · cases ok
    next first writtenA =>
      split at ok
      · cases ok
      next second writtenB =>
        split at ok
        · cases ok
        next third synced =>
          cases ok
          rw [Device.sync_ok _ _ synced, (Device.write_at_ok _ _ _ _ writtenB).2,
            (Device.write_at_ok _ _ _ _ writtenA).2]
  · cases ok

/-- The log stays where its data area stays, on a device of any size that holds it. -/
theorem log_moved (log : Log crc wal d entries) (inside : wal.base + wal.size ≤ later.capacity)
    (bounded : later.capacity < 2 ^ 64)
    (same : ∀ address, wal.dataOffset ≤ address → address < wal.base + wal.size →
      later.bytes address = d.bytes address) : Log crc wal later entries := by
  have kept := log_frame crc wal d { later with capacity := d.capacity } entries log rfl same
  exact ⟨log.size, inside, bounded, log.aligned, log.first, log.used, log.room, log.write,
    kept.stored, log.valid, log.numbered⟩

theorem reservation_slot (log : Log crc wal d entries) (slot : HeaderSlot) (address : Nat)
    (above : wal.headerSlotOffset slot ≤ address)
    (below : address < wal.headerSlotOffset slot + blockSize) :
    wal.base ≤ address ∧ address < wal.base + wal.size := by
  have reservation := sectors_fit wal log.size
  have inside := header_slot_inside wal slot
  have start : wal.dataOffset = wal.base + 2 * blockSize := rfl
  omega

theorem Tracked.moved (tracked : Tracked crc wal d entries)
    (inside : wal.base + wal.size ≤ later.capacity) (bounded : later.capacity < 2 ^ 64)
    (same : ∀ address, wal.base ≤ address → address < wal.base + wal.size →
      later.bytes address = d.bytes address) : Tracked crc wal later entries := by
  have start : wal.dataOffset = wal.base + 2 * blockSize := rfl
  refine ⟨log_moved tracked.log inside bounded ?_, tracked.kind, tracked.version, ?_,
    tracked.writable⟩
  · intro address above below
    exact same address (by omega) below
  · intro h found
    apply tracked.older h
    rw [← found]
    apply congrArg (candidate crc)
    apply read_congr
    intro address above below
    obtain ⟨low, high⟩ := reservation_slot tracked.log wal.activeSlot address above below
    exact (same address low high).symm

theorem Tracked.raised (tracked : Tracked crc wal d entries)
    (more : wal.header.header.generation.toNat + 1 < 2 ^ 64)
    (changes : ChangesWithin (wal.headerSlotOffset wal.activeSlot.other) blockSize d later) :
    Tracked crc { wal with header := wal.flushedHeader crc } later entries := by
  have log := tracked.log
  have raised : Log crc { wal with header := wal.flushedHeader crc } d entries :=
    ⟨log.size, log.inside, log.bounded, log.aligned, log.first, log.used, log.room, log.write,
      log.stored, log.valid, log.numbered⟩
  have slot := header_slot_inside wal wal.activeSlot.other
  refine ⟨?_, tracked.kind, tracked.version, ?_, tracked.writable⟩
  · apply log_frame crc _ d later entries raised changes.capacity
    intro address above _
    apply changes.outside
    have start : wal.dataOffset ≤ address := above
    omega
  · intro h found
    have kept : AgreesOn (wal.headerSlotOffset wal.activeSlot) blockSize d later :=
      agrees_of_apart changes (header_slots_apart wal wal.activeSlot)
    have here : candidate crc (read later.bytes (wal.headerSlotOffset wal.activeSlot) blockSize) =
      some h := found
    rw [read_agrees kept] at here
    have before := tracked.older h here
    have grown : (wal.flushedHeader crc).header.generation.toNat =
        wal.header.header.generation.toNat + 1 := by
      simp only [flushedHeader, WalHeader.recomputeCrc, UInt64.toNat_add]
      have one : (1 : UInt64).toNat = 1 := rfl
      omega
    have goal : h.header.generation.toNat ≤ (wal.flushedHeader crc).header.generation.toNat := by
      omega
    exact goal

/-- A header that was written, whether or not it was synchronised, is the one in memory. -/
theorem Tracked.written (tracked : Tracked crc wal d entries)
    (more : wal.header.header.generation.toNat + 1 < 2 ^ 64)
    (capacity : later.capacity = d.capacity)
    (bytes : later.bytes = overwrite d.bytes (wal.headerSlotOffset wal.activeSlot.other)
      (WalHeader.layout.toBytes (wal.flushedHeader crc))) :
    Tracked crc { wal with header := wal.flushedHeader crc, activeSlot := wal.activeSlot.other }
      later entries := by
  have length : (WalHeader.layout.toBytes (wal.flushedHeader crc)).length = blockSize :=
    WalHeader.layout.length_to_bytes _
  have changes : ChangesWithin (wal.headerSlotOffset wal.activeSlot.other) blockSize d later := by
    refine ⟨capacity, ?_⟩
    intro address outside
    rw [bytes]
    apply overwrite_outside
    rw [length]
    omega
  have raised := tracked.raised more changes
  have log := raised.log
  refine ⟨⟨log.size, log.inside, log.bounded, log.aligned, log.first, log.used, log.room,
    log.write, log.stored, log.valid, log.numbered⟩, tracked.kind, tracked.version, ?_,
    tracked.writable⟩
  intro h found
  have here : candidate crc (read later.bytes (wal.headerSlotOffset wal.activeSlot.other)
    blockSize) = some h := found
  have valid := WalHeader.valid_recompute crc
    { wal.header with
      header := { wal.header.header with generation := wal.header.header.generation + 1 } }
    tracked.kind tracked.version
  rw [bytes, ← length, read_overwrite, flushedHeader, candidate_to_bytes crc _ valid] at here
  cases here
  exact Nat.le_refl _

theorem keeps_outside_within {start length : Nat} (log : Log crc wal d entries)
    (changes : ChangesWithin start length d later) (low : wal.base ≤ start)
    (high : start + length ≤ wal.base + wal.size) : wal.KeepsOutside d later := by
  refine ⟨changes.capacity, ?_⟩
  intro address outside
  apply changes.outside
  have fits := sectors_fit wal log.size
  omega

private theorem sync_failed (err : StorageError) (failed : d.sync = (.error err, later)) :
    later.bytes = d.bytes ∧ later.capacity = d.capacity := by
  unfold Device.sync at failed
  split at failed
  · cases failed
    exact ⟨rfl, rfl⟩
  · split at failed
    · cases failed
      exact ⟨rfl, rfl⟩
    · cases failed

/-- What a call leaves of the ring: it stays in its place, and nothing else changes. -/
structure StaysTracked (crc : Crc) (wal after : Wal) (d later : Device) : Prop where
  tracked : ∃ entries, Tracked crc after later entries
  outside : wal.KeepsOutside d later
  base : after.base = wal.base
  size : after.size = wal.size

private theorem settle_failed_tracked {α : Type} (result : α) (err : WalError)
    (tracked : Tracked crc wal d entries)
    (failed : wal.settle crc d result = (.error err, after, later)) :
    StaysTracked crc wal after d later := by
  have slot := header_slot_inside wal wal.activeSlot.other
  have reservation := sectors_fit wal tracked.log.size
  have start : wal.dataOffset = wal.base + 2 * blockSize := rfl
  have length : (WalHeader.layout.toBytes (wal.flushedHeader crc)).length = blockSize :=
    WalHeader.layout.length_to_bytes _
  simp only [settle, flushHeader] at failed
  split at failed
  · next flushed =>
      split at flushed
      · next more =>
          split at flushed
          · next device refused =>
              cases flushed
              cases failed
              have changes : ChangesWithin (wal.headerSlotOffset wal.activeSlot.other) blockSize d
                  later := by
                rw [← length]
                exact write_at_failed _ _ _ _ _ refused
              exact ⟨⟨entries, tracked.raised more changes⟩,
                keeps_outside_within tracked.log changes slot.1 (by omega), rfl, rfl⟩
          · cases flushed
      · cases flushed
        cases failed
        exact ⟨⟨entries, tracked⟩, ⟨rfl, fun _ _ => rfl⟩, rfl, rfl⟩
  · next flushed =>
      split at flushed
      · next more =>
          split at flushed
          · cases flushed
          · next device stored =>
              cases flushed
              split at failed
              · next unsynced =>
                  cases failed
                  have write := Device.write_at_ok _ _ _ _ stored
                  obtain ⟨bytes, capacity⟩ := sync_failed _ unsynced
                  rw [write.2] at bytes capacity
                  have changes : ChangesWithin (wal.headerSlotOffset wal.activeSlot.other) blockSize
                      d later := by
                    refine ⟨capacity, ?_⟩
                    intro address outside
                    rw [bytes]
                    apply overwrite_outside
                    rw [← length] at outside
                    exact outside
                  exact ⟨⟨entries, tracked.written more capacity bytes⟩,
                    keeps_outside_within tracked.log changes slot.1 (by omega), rfl, rfl⟩
              · cases failed
      · cases flushed

theorem log_next_sector (log : Log crc wal d entries) (free : entries.length < wal.dataSectors)
    (changes : ChangesWithin (wal.dataOffset + wal.header.writeCursor.toNat) walSectorSize d
      later) : Log crc wal later entries := by
  have target : wal.dataOffset + wal.header.writeCursor.toNat = wal.sectorAt entries.length := by
    rw [log.write]
    rfl
  rw [target] at changes
  refine ⟨log.size, ?_, ?_, log.aligned, log.first, log.used, log.room, log.write, ?_, log.valid,
    log.numbered⟩
  · rw [changes.capacity]
    exact log.inside
  · rw [changes.capacity]
    exact log.bounded
  · intro index entry found
    have below := (List.getElem?_eq_some_iff.mp found).1
    have apart : AgreesOn (wal.sectorAt index) walSectorSize d later :=
      agrees_of_apart changes (sectors_apart _ _ _ (mod_ne_of_lt below (by omega)))
    rw [read_agrees apart]
    exact log.stored index entry found

private theorem Tracked.next_sector (tracked : Tracked crc wal d entries)
    (free : entries.length < wal.dataSectors)
    (changes : ChangesWithin (wal.dataOffset + wal.header.writeCursor.toNat) walSectorSize d
      later) : Tracked crc wal later entries := by
  refine ⟨log_next_sector tracked.log free changes, tracked.kind, tracked.version, ?_,
    tracked.writable⟩
  intro h found
  apply tracked.older h
  have slot := header_slot_inside wal wal.activeSlot
  have apart : AgreesOn (wal.headerSlotOffset wal.activeSlot) blockSize d later := by
    apply agrees_of_apart changes
    left
    omega
  rw [← read_agrees apart]
  exact found

theorem append_tracked (kind : WalOpKind) (payload : List UInt8) (ts : HybridTimestamp)
    (flags : UInt16) (result : Except WalError UInt64) (tracked : Tracked crc wal d entries)
    (ran : wal.appendRaw crc d kind payload ts flags = (result, after, later)) :
    StaysTracked crc wal after d later := by
  cases result with
  | ok lsn =>
      obtain ⟨-, ring, outside, base, size⟩ := append_settled crc wal after d later entries
        tracked.log tracked.kind tracked.version tracked.older kind payload ts flags lsn ran
      have writable := append_read_only crc wal after d later kind payload ts flags lsn
        tracked.writable ran
      exact ⟨⟨_, tracked_of_ring ring writable⟩, outside, base, size⟩
  | error err =>
      simp only [appendRaw] at ran
      split at ran
      · cases ran
        exact ⟨⟨entries, tracked⟩, ⟨rfl, fun _ _ => rfl⟩, rfl, rfl⟩
      · next accepted =>
          have length := WalEntry.length_sector crc _
            (valid_entry_for crc wal kind payload ts flags accepted).fits
          have free : entries.length < wal.dataSectors := by
            have more := (refusal_none wal payload flags accepted).2.2.2.2.1
            rw [tracked.log.used, dataCapacity] at more
            simp only [blockSize] at more
            omega
          have target := sector_inside wal tracked.log.size _
            (sector_mod_lt wal tracked.log.size (wal.firstSector + entries.length))
          rw [← tracked.log.write] at target
          have start : wal.dataOffset = wal.base + 2 * blockSize := rfl
          split at ran
          · next refused =>
              cases ran
              have changes := write_at_failed _ _ _ _ _ refused
              rw [length] at changes
              exact ⟨⟨entries, tracked.next_sector free changes⟩,
                keeps_outside_within tracked.log changes (by omega) target, rfl, rfl⟩
          · next middle written =>
              have write := Device.write_at_ok _ _ _ _ written
              have changes := changes_within_write _ _ _ _ written
              rw [length] at changes
              have first := tracked.next_sector free changes
              have longer := log_append crc wal d middle entries tracked.log kind payload ts flags
                accepted (by rw [write.2]) (by rw [write.2])
              have advanced : Tracked crc wal.advanced middle
                  (entries ++ [wal.entryFor crc kind payload ts flags]) :=
                ⟨longer, tracked.kind, tracked.version, first.older, tracked.writable⟩
              have failed := settle_failed_tracked _ err advanced ran
              have kept := keeps_outside_within tracked.log changes (by omega) target
              exact ⟨failed.tracked, keeps_outside_trans wal kept failed.outside, failed.base,
                failed.size⟩

theorem ring_moved (ring : Ring crc wal d entries)
    (inside : wal.base + wal.size ≤ later.capacity) (bounded : later.capacity < 2 ^ 64)
    (same : ∀ address, wal.base ≤ address → address < wal.base + wal.size →
      later.bytes address = d.bytes address) : Ring crc wal later entries := by
  have slot (slot : HeaderSlot) : read later.bytes (wal.headerSlotOffset slot) blockSize =
      read d.bytes (wal.headerSlotOffset slot) blockSize := by
    apply read_congr
    intro address above below
    obtain ⟨low, high⟩ := reservation_slot ring.log slot address above below
    exact same address low high
  refine ⟨log_moved ring.log inside bounded ?_, ring.valid, ?_, ?_⟩
  · intro address above below
    have start : wal.dataOffset = wal.base + 2 * blockSize := rfl
    exact same address (by omega) below
  · rw [slot]
    exact ring.active
  · rw [slot]
    exact ring.stale

private theorem checkpoint_read_only (ring : Ring crc wal d entries) (lsn : UInt64) (count : Nat)
    (ok : wal.checkpoint crc d lsn = (.ok count, after, later)) : after.readOnly = false := by
  have sectors : wal.header.usedBytes.toNat / blockSize = entries.length := by
    rw [ring.log.used]
    exact Nat.mul_div_cancel _ (by decide)
  obtain ⟨trimmed, shorter, done, -, -, mode, -⟩ := trim_log crc d lsn entries wal ring.log
  simp only [checkpoint, sectors, done] at ok
  split at ok
  · cases ok
  · next writable =>
      have facts := settle_ok crc _ after d later trimmed count ok
      rw [facts.2.2.1]
      exact mode.trans (by simpa using writable)

theorem checkpoint_generation (ring : Ring crc wal d entries) (lsn : UInt64) (count : Nat)
    (ok : wal.checkpoint crc d lsn = (.ok count, after, later)) :
    after.header.header.generation.toNat = wal.header.header.generation.toNat + 1 := by
  have one : (1 : UInt64).toNat = 1 := rfl
  have sectors : wal.header.usedBytes.toNat / blockSize = entries.length := by
    rw [ring.log.used]
    exact Nat.mul_div_cancel _ (by decide)
  obtain ⟨trimmed, shorter, done, -, same, -⟩ := trim_log crc d lsn entries wal ring.log
  simp only [checkpoint, sectors, done] at ok
  split at ok
  · cases ok
  · obtain ⟨-, bound, settled, -⟩ := settle_ok crc _ after d later trimmed count ok
    dsimp only at bound
    rw [same.block] at bound
    rw [settled]
    change (shorter.header.header.generation + 1).toNat = _
    rw [same.block, UInt64.toNat_add, one, Nat.mod_eq_of_lt bound]

theorem last_drops_all (log : Log crc wal d entries) (lsn : UInt64)
    (last : wal.header.nextLsn.toNat = lsn.toNat + 1) :
    (entries.dropWhile fun entry => !decide (lsn < entry.header.lsn)) = [] := by
  rw [List.dropWhile_eq_nil_iff]
  intro entry member
  obtain ⟨index, below, found⟩ := List.getElem_of_mem member
  have number := log.numbered index entry (by rw [List.getElem?_eq_getElem below, found])
  have reached : ¬ lsn < entry.header.lsn := by
    rw [UInt64.lt_iff_toNat_lt]
    omega
  simp only [reached, decide_false, Bool.not_false]

/-- An entry is appended and the ring emptied up to it. -/
theorem append_then_checkpoint (tracked : Tracked crc wal d entries) {appended last : Wal}
    {middle emptied : Device} (kind : WalOpKind) (payload : List UInt8) (ts : HybridTimestamp)
    (flags : UInt16) (lsn : UInt64) (count : Nat)
    (ran : wal.appendRaw crc d kind payload ts flags = (.ok lsn, appended, middle))
    (trimmed : appended.checkpoint crc middle lsn = (.ok count, last, emptied)) :
    lsn = wal.header.nextLsn ∧ Ring crc last emptied [] ∧ wal.KeepsOutside d emptied ∧
      last.base = wal.base ∧ last.size = wal.size ∧ last.readOnly = false := by
  obtain ⟨number, ring, outside, base, size⟩ := append_settled crc wal appended d middle entries
    tracked.log tracked.kind tracked.version tracked.older kind payload ts flags lsn ran
  obtain ⟨left, kept, lastBase, lastSize, -⟩ :=
    checkpoint_ring crc appended last middle emptied _ ring lsn count trimmed
  have next : appended.header.nextLsn.toNat = lsn.toNat + 1 := by
    have found : (entries ++ [wal.entryFor crc kind payload ts flags])[entries.length]? =
        some (wal.entryFor crc kind payload ts flags) := by
      rw [List.getElem?_append_right (Nat.le_refl _), Nat.sub_self]
      rfl
    have own := ring.log.numbered entries.length _ found
    have header : (wal.entryFor crc kind payload ts flags).header.lsn = wal.header.nextLsn := rfl
    rw [header, ← number, List.length_append, List.length_singleton] at own
    omega
  rw [last_drops_all ring.log lsn next] at left
  refine ⟨number, left, ?_, lastBase.trans base, lastSize.trans size,
    checkpoint_read_only ring lsn count trimmed⟩
  refine ⟨kept.1.trans outside.1, ?_⟩
  intro address apart
  rw [kept.2 address (by rw [base, size]; exact apart), outside.2 address apart]

end

end Wal

end Mimisbrunnr
