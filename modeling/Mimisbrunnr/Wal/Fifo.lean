import Mimisbrunnr.Wal.RingLog

/-!
# The ring refines a queue

On a device that does not fail, a formatted ring answers every sequence of
appends, checkpoints and openings as a bounded queue of numbered records does,
until the generation of its header runs out.
-/

namespace Mimisbrunnr.Wal

set_option autoImplicit false

open Mimisbrunnr.Storage
open Mimisbrunnr.Types

/-- What a caller knows of an entry. -/
structure Record where
  opKind : UInt8
  flags : UInt16
  lsn : UInt64
  timestamp : HybridTimestamp
  payload : List UInt8
deriving DecidableEq

def WalEntry.record (entry : WalEntry) : Record :=
  { opKind := entry.header.opKind
    flags := entry.header.flags
    lsn := entry.header.lsn
    timestamp := entry.header.timestamp
    payload := entry.payload }

inductive Call where
  | append (kind : WalOpKind) (payload : List UInt8) (ts : HybridTimestamp) (flags : UInt16)
  | checkpoint (lsn : UInt64)
  | reopen

inductive Outcome where
  | appended (result : Except WalError UInt64)
  | reclaimed (result : Except WalError Nat)
  | reopened (result : Except WalError Unit)

/-- The call has flushed a header. -/
def Outcome.flushes : Outcome → Bool
  | appended (.ok _) => true
  | reclaimed (.ok _) => true
  | _ => false

def Outcome.lsn? : Outcome → Option UInt64
  | appended (.ok lsn) => some lsn
  | _ => none

/-- A queue of at most `sectors` records, numbered in the order of the appends. -/
structure Fifo where
  sectors : Nat
  appended : Nat
  live : List Record

namespace Fifo

def empty (sectors : Nat) : Fifo := { sectors, appended := 0, live := [] }

def nextLsn (log : Fifo) : UInt64 := UInt64.ofNat (log.appended + 1)

/-- Why the queue does not take a record. -/
def refusal (log : Fifo) (payload : List UInt8) (flags : UInt16) : Option WalError :=
  if flags &&& walEntryFlagEncrypted ≠ 0 then some .encryptionUnsupported
  else if flags &&& walEntryFlagCompressed ≠ 0 then some .compressionUnsupported
  else if walMaxPayloadPlaintext < payload.length then
    some (.payloadTooLarge payload.length walMaxPayloadPlaintext)
  else if log.live.length = log.sectors then
    some (.ringFull (log.live.length * blockSize) (log.sectors * blockSize))
  else none

def perform (log : Fifo) : Call → Outcome × Fifo
  | .append kind payload ts flags =>
      match log.refusal payload flags with
      | some err => (.appended (.error err), log)
      | none =>
          let record : Record :=
            { opKind := kind.toU8
              flags := flags
              lsn := log.nextLsn
              timestamp := ts
              payload := payload }
          (.appended (.ok log.nextLsn),
            { log with appended := log.appended + 1, live := log.live ++ [record] })
  | .checkpoint lsn =>
      let kept := log.live.filter fun record => lsn < record.lsn
      (.reclaimed (.ok (log.live.length - kept.length)), { log with live := kept })
  | .reopen => (.reopened (.ok ()), log)

def performAll (log : Fifo) : List Call → List Outcome × Fifo
  | [] => ([], log)
  | call :: calls =>
      let first := log.perform call
      let later := first.2.performAll calls
      (first.1 :: later.1, later.2)

end Fifo

end Mimisbrunnr.Wal

namespace Mimisbrunnr

set_option autoImplicit false

open Mimisbrunnr.Lib.ByteStore
open Mimisbrunnr.Lib.Layout
open Mimisbrunnr.Storage
open Mimisbrunnr.Types
open Mimisbrunnr.Wal

namespace Wal

def perform (crc : Crc) (wal : Wal) (d : Device) : Call → Outcome × Wal × Device
  | .append kind payload ts flags =>
      let done := wal.appendRaw crc d kind payload ts flags
      (.appended done.1, done.2)
  | .checkpoint lsn =>
      let done := wal.checkpoint crc d lsn
      (.reclaimed done.1, done.2)
  | .reopen =>
      match Wal.open crc d wal.base wal.size with
      | .ok opened => (.reopened (.ok ()), opened, d)
      | .error err => (.reopened (.error err), wal, d)

def performAll (crc : Crc) (wal : Wal) (d : Device) : List Call → List Outcome × Wal × Device
  | [] => ([], wal, d)
  | call :: calls =>
      let first := wal.perform crc d call
      let later := first.2.1.performAll crc first.2.2 calls
      (first.1 :: later.1, later.2)

theorem open_ring (crc : Crc) (wal : Wal) (d : Device) (entries : List WalEntry)
    (ring : Ring crc wal d entries) (writable : wal.readOnly = false) :
    Wal.open crc d wal.base wal.size = .ok wal := by
  have reservation := sectors_fit wal ring.log.size
  have inside := ring.log.inside
  have found := candidate_to_bytes crc wal.header ring.valid
  have active := ring.active
  have stale := ring.stale
  have same : wal = { wal with readOnly := false } := by
    rw [← writable]
  have blockA : d.readAt wal.base blockSize =
      .ok (read d.bytes (wal.headerSlotOffset .a) blockSize) := by
    rw [Device.read_at_ok _ _ _ (by omega)]
    simp only [headerSlotOffset, HeaderSlot.index, Nat.zero_mul, Nat.add_zero]
  have blockB : d.readAt (wal.base + blockSize) blockSize =
      .ok (read d.bytes (wal.headerSlotOffset .b) blockSize) := by
    rw [Device.read_at_ok _ _ _ (by omega)]
    simp only [headerSlotOffset, HeaderSlot.index, Nat.one_mul]
  rw [Wal.open, ring.log.size, if_pos rfl, blockA, blockB]
  simp only
  cases slot : wal.activeSlot with
  | a =>
      rw [slot] at active stale
      rw [active, found]
      cases other : candidate crc (read d.bytes (wal.headerSlotOffset .b) blockSize) with
      | none =>
          rw [same, slot]
          rfl
      | some h =>
          have older := stale h other
          simp only [pick]
          rw [if_neg (by rw [UInt64.lt_iff_toNat_lt]; omega)]
          simp only
          rw [← slot, ← writable]
  | b =>
      rw [slot] at active stale
      rw [active, found]
      cases other : candidate crc (read d.bytes (wal.headerSlotOffset .a) blockSize) with
      | none =>
          rw [same, slot]
          rfl
      | some h =>
          have older := stale h other
          simp only [pick]
          rw [if_pos (by rw [UInt64.lt_iff_toNat_lt]; exact older)]
          simp only
          rw [← slot, ← writable]

/-- Scanning from a position lists the entries from there on. -/
theorem scan_log (crc : Crc) (wal : Wal) (d : Device) (entries : List WalEntry)
    (log : Log crc wal d entries) (start : Nat) (count : Nat) :
    ∀ index, index + count = entries.length →
      wal.scan crc d start count ((wal.firstSector + index) % wal.dataSectors * blockSize) =
        ((entries.drop index).filter fun entry => start ≤ entry.header.lsn.toNat).map .ok := by
  induction count with
  | zero =>
      intro index last
      rw [List.drop_eq_nil_of_le (by omega)]
      rfl
  | succ count ih =>
      intro index rest
      have below : index < entries.length := by omega
      have found : entries[index]? = some entries[index] := List.getElem?_eq_getElem below
      have inside := sector_inside wal log.size _
        (sector_mod_lt wal log.size (wal.firstSector + index))
      have capacity := log.inside
      have sector : d.readAt (wal.dataOffset +
          (wal.firstSector + index) % wal.dataSectors * blockSize) walSectorSize =
            .ok (entries[index].sector crc) := by
        rw [Device.read_at_ok _ _ _ (by omega)]
        exact congrArg Except.ok (log.stored index _ found)
      have decoded := WalEntry.decode_sector crc entries[index]
        (log.valid _ (List.getElem_mem below))
      have next : ((wal.firstSector + index) % wal.dataSectors * blockSize + blockSize) %
          wal.dataCapacity = (wal.firstSector + (index + 1)) % wal.dataSectors * blockSize :=
        next_cursor _ _
      rw [scan, sector]
      simp only [decoded]
      rw [next, ih (index + 1) (by omega), List.drop_eq_getElem_cons below, List.filter_cons]
      by_cases early : entries[index].header.lsn.toNat < start
      · rw [if_pos early, if_neg (by simp [early])]
      · rw [if_neg early, if_pos (by simpa using early), List.map_cons]

theorem iter_from_log (crc : Crc) (wal : Wal) (d : Device) (entries : List WalEntry)
    (log : Log crc wal d entries) (start : Nat) :
    wal.iterFrom crc d start =
      (entries.filter fun entry => start ≤ entry.header.lsn.toNat).map .ok := by
  have count : wal.header.usedBytes.toNat / blockSize = entries.length := by
    rw [log.used]
    exact Nat.mul_div_cancel _ (by decide)
  have all := scan_log crc wal d entries log start entries.length 0 (Nat.zero_add _)
  rw [Nat.add_zero, Nat.mod_eq_of_lt log.first, ← log.aligned] at all
  rw [iterFrom, count, all, List.drop_zero]

/-- A flush succeeds while there are generations left. -/
theorem settle_healthy {α : Type} (crc : Crc) (wal : Wal) (d : Device) (result : α)
    (healthy : d.Healthy) (room : wal.dataOffset ≤ d.capacity)
    (more : wal.header.header.generation.toNat + 1 < 2 ^ 64) :
    ∃ after settled, wal.settle crc d result = (.ok result, after, settled) ∧
      settled.Healthy ∧ after.readOnly = wal.readOnly ∧
      after.header.header.generation.toNat = wal.header.header.generation.toNat + 1 := by
  have slot := (header_slot_inside wal wal.activeSlot.other).2
  let flushed : Wal :=
    { wal with
      header := WalHeader.recomputeCrc crc
        { wal.header with
          header := { wal.header.header with generation := wal.header.header.generation + 1 } } }
  have length : (WalHeader.layout.toBytes flushed.header).length = blockSize :=
    WalHeader.layout.length_to_bytes _
  have written := Device.write_at_healthy d (wal.headerSlotOffset wal.activeSlot.other)
    (WalHeader.layout.toBytes flushed.header) healthy (by rw [length]; omega)
  have after := Device.healthy_after d (overwrite d.bytes
    (wal.headerSlotOffset wal.activeSlot.other) (WalHeader.layout.toBytes flushed.header)) healthy
  have flush : wal.flushHeader crc d =
      (.ok (), { flushed with activeSlot := wal.activeSlot.other },
        { d with
          bytes := overwrite d.bytes (wal.headerSlotOffset wal.activeSlot.other)
            (WalHeader.layout.toBytes flushed.header)
          faults := d.faults.tail }) := by
    rw [flushHeader, if_pos more]
    simp only
    rw [show flushed.writeHeaderTo d wal.activeSlot.other = _ from written]
  have synced := Device.sync_healthy _ after
  refine ⟨{ flushed with activeSlot := wal.activeSlot.other }, _, ?_,
    Device.healthy_after _ (overwrite d.bytes (wal.headerSlotOffset wal.activeSlot.other)
      (WalHeader.layout.toBytes flushed.header)) after, rfl, ?_⟩
  · rw [settle, flush]
    simp only
    rw [synced]
  · show (wal.header.header.generation + 1).toNat = _
    rw [UInt64.toNat_add]
    have one : (1 : UInt64).toNat = 1 := rfl
    omega

/-- The sector of a new entry lies on the device, behind the header. -/
theorem entry_inside (crc : Crc) (wal : Wal) (d : Device) (entries : List WalEntry)
    (ring : Ring crc wal d entries) (kind : WalOpKind) (payload : List UInt8)
    (ts : HybridTimestamp) (flags : UInt16) (accepted : wal.refusal payload flags = none) :
    ((wal.entryFor crc kind payload ts flags).sector crc).length = walSectorSize ∧
      wal.dataOffset + wal.header.writeCursor.toNat + walSectorSize ≤ d.capacity := by
  have reservation := sectors_fit wal ring.log.size
  have inside := ring.log.inside
  have target := sector_inside wal ring.log.size _
    (sector_mod_lt wal ring.log.size (wal.firstSector + entries.length))
  rw [← ring.log.write] at target
  have start : wal.dataOffset = wal.base + 2 * blockSize := rfl
  have length := WalEntry.length_sector crc _
    (valid_entry_for crc wal kind payload ts flags accepted).fits
  refine ⟨length, ?_⟩
  omega

theorem append_healthy (crc : Crc) (wal : Wal) (d : Device) (entries : List WalEntry)
    (ring : Ring crc wal d entries) (healthy : d.Healthy) (kind : WalOpKind)
    (payload : List UInt8) (ts : HybridTimestamp) (flags : UInt16)
    (accepted : wal.refusal payload flags = none)
    (more : wal.header.header.generation.toNat + 1 < 2 ^ 64) :
    ∃ after appended,
      wal.appendRaw crc d kind payload ts flags = (.ok wal.header.nextLsn, after, appended) ∧
      appended.Healthy ∧ after.readOnly = wal.readOnly ∧
      after.header.header.generation.toNat = wal.header.header.generation.toNat + 1 := by
  obtain ⟨length, inside⟩ := entry_inside crc wal d entries ring kind payload ts flags accepted
  have written := Device.write_at_healthy d (wal.dataOffset + wal.header.writeCursor.toNat)
    ((wal.entryFor crc kind payload ts flags).sector crc) healthy (by rw [length]; omega)
  obtain ⟨after, settled, done, final, mode, generation⟩ := settle_healthy crc wal.advanced
    { d with
      bytes := overwrite d.bytes (wal.dataOffset + wal.header.writeCursor.toNat)
        ((wal.entryFor crc kind payload ts flags).sector crc)
      faults := d.faults.tail }
    wal.header.nextLsn (Device.healthy_after d _ healthy) (by
      show wal.dataOffset ≤ d.capacity
      omega) more
  refine ⟨after, settled, ?_, final, mode, generation⟩
  simp only [appendRaw, accepted]
  rw [written]
  exact done

/-- A checkpoint succeeds and counts what it has dropped. -/
theorem checkpoint_healthy (crc : Crc) (wal : Wal) (d : Device) (entries : List WalEntry)
    (ring : Ring crc wal d entries) (healthy : d.Healthy) (writable : wal.readOnly = false)
    (lsn : UInt64) (more : wal.header.header.generation.toNat + 1 < 2 ^ 64) :
    ∃ after trimmed,
      wal.checkpoint crc d lsn =
        (.ok (entries.length -
          (entries.dropWhile fun entry => !decide (lsn < entry.header.lsn)).length),
          after, trimmed) ∧
      trimmed.Healthy ∧ after.readOnly = false ∧
      after.header.header.generation.toNat = wal.header.header.generation.toNat + 1 := by
  have reservation := sectors_fit wal ring.log.size
  have inside := ring.log.inside
  have sectors : wal.header.usedBytes.toNat / blockSize = entries.length := by
    rw [ring.log.used]
    exact Nat.mul_div_cancel _ (by decide)
  obtain ⟨count, shorter, trimmed, -, same, mode, number⟩ :=
    trim_log crc d lsn entries wal ring.log
  have start : shorter.dataOffset ≤ d.capacity := by
    unfold dataOffset
    rw [same.base]
    omega
  obtain ⟨after, settled, done, final, kept, generation⟩ := settle_healthy crc
    { shorter with header := { shorter.header with lastCheckpointLsn := lsn } } d count healthy
    start (by
      show shorter.header.header.generation.toNat + 1 < 2 ^ 64
      rw [same.block]
      exact more)
  have grown : after.header.header.generation.toNat =
      wal.header.header.generation.toNat + 1 := by
    rw [generation, ← same.block]
  refine ⟨after, settled, ?_, final, kept.trans (mode.trans writable), grown⟩
  rw [checkpoint, if_neg (by simp [writable]), sectors, trimmed]
  rw [← number, Nat.add_sub_cancel]
  exact done

private theorem formatted_log (crc : Crc) (d : Device) (offset size : Nat)
    (valid : validSize size = true)
    (inside : offset + size ≤ d.capacity) (bounded : d.capacity < 2 ^ 64) :
    Log crc (formatted crc offset size) d [] := by
  have start : (formatted crc offset size).header.readCursor.toNat = 0 := rfl
  have first : (formatted crc offset size).firstSector = 0 := by
    rw [firstSector, start, Nat.zero_div]
  have some_sector := sector_mod_lt (formatted crc offset size) valid 0
  constructor
  · exact valid
  · exact inside
  · exact bounded
  · rw [first, start, Nat.zero_mul]
  · rw [first]
    omega
  · rfl
  · exact Nat.zero_le _
  · rw [first, List.length_nil, Nat.zero_mod, Nat.zero_mul]
    rfl
  · intro index entry found
    cases found
  · intro entry member
    cases member
  · intro index entry found
    cases found

/-- A formatted ring is empty, whatever the device held before. -/
theorem format_ring (crc : Crc) (d : Device) (offset size : Nat) (healthy : d.Healthy)
    (valid : validSize size = true) (inside : offset + size ≤ d.capacity)
    (bounded : d.capacity < 2 ^ 64) :
    ∃ after, Wal.format crc d offset size = (.ok (formatted crc offset size), after) ∧
      Ring crc (formatted crc offset size) after [] ∧ after.Healthy := by
  let wal := formatted crc offset size
  let mirror : WalHeader := WalHeader.recomputeCrc crc
    { wal.header with header := { wal.header.header with generation := 0 } }
  have reservation := sectors_fit wal valid
  have size_ : wal.size = size := rfl
  have base : wal.base = offset := rfl
  have slotA : wal.headerSlotOffset .a = offset := rfl
  have slotB : wal.headerSlotOffset .b = offset + 1 * blockSize := rfl
  have lengthA : (WalHeader.layout.toBytes wal.header).length = blockSize :=
    WalHeader.layout.length_to_bytes _
  have lengthB : (WalHeader.layout.toBytes mirror).length = blockSize :=
    WalHeader.layout.length_to_bytes _
  have writtenA := Device.write_at_healthy d (wal.headerSlotOffset .a)
    (WalHeader.layout.toBytes wal.header) healthy (by rw [lengthA]; omega)
  have healthyA := Device.healthy_after d
    (overwrite d.bytes (wal.headerSlotOffset .a) (WalHeader.layout.toBytes wal.header)) healthy
  have writtenB := Device.write_at_healthy _ (wal.headerSlotOffset .b)
    (WalHeader.layout.toBytes mirror) healthyA (by
      show _ ≤ d.capacity
      rw [lengthB]
      omega)
  have healthyB := Device.healthy_after _ (overwrite
    (overwrite d.bytes (wal.headerSlotOffset .a) (WalHeader.layout.toBytes wal.header))
      (wal.headerSlotOffset .b) (WalHeader.layout.toBytes mirror)) healthyA
  have synced := Device.sync_healthy _ healthyB
  have apart := header_slots_apart wal .b
  refine ⟨_, ?_, ⟨?_, ?_, ?_, ?_⟩, Device.healthy_after _ (overwrite
    (overwrite d.bytes (wal.headerSlotOffset .a) (WalHeader.layout.toBytes wal.header))
      (wal.headerSlotOffset .b) (WalHeader.layout.toBytes mirror)) healthyB⟩
  · rw [Wal.format, valid, if_pos rfl]
    simp only
    rw [show (formatted crc offset size).writeHeaderTo d .a = _ from writtenA]
    simp only
    rw [writtenB]
    simp only
    rw [synced]
  · exact formatted_log crc _ offset size valid inside bounded
  · exact WalHeader.valid_recompute crc _ rfl rfl
  · show read (overwrite (overwrite d.bytes (wal.headerSlotOffset .a) _)
      (wal.headerSlotOffset .b) _) (wal.headerSlotOffset .a) blockSize = _
    rw [read_overwrite_apart _ _ _ _ _ (by rw [lengthB]; exact apart),
      ← lengthA]
    exact read_overwrite _ _ _
  · intro h found
    have stored : read (overwrite (overwrite d.bytes (wal.headerSlotOffset .a)
        (WalHeader.layout.toBytes wal.header)) (wal.headerSlotOffset .b)
          (WalHeader.layout.toBytes mirror)) (wal.headerSlotOffset .b) blockSize =
            WalHeader.layout.toBytes mirror := by
      rw [← lengthB]
      exact read_overwrite _ _ _
    have older : candidate crc (WalHeader.layout.toBytes mirror) = some h := by
      rw [← stored]
      exact found
    rw [candidate_to_bytes crc mirror (WalHeader.valid_recompute crc _ rfl rfl)] at older
    cases older
    exact Nat.zero_lt_one

/-- The ring holds the records of the queue and can take its next call. -/
structure Follows (crc : Crc) (wal : Wal) (d : Device) (log : Fifo) (entries : List WalEntry) :
    Prop where
  ring : Ring crc wal d entries
  healthy : d.Healthy
  writable : wal.readOnly = false
  sectors : log.sectors = wal.dataSectors
  next : wal.header.nextLsn.toNat = log.appended + 1
  records : log.live = entries.map WalEntry.record
  behind : wal.header.nextLsn.toNat ≤ wal.header.header.generation.toNat

section

variable (crc : Crc) (wal : Wal) (d : Device) (log : Fifo) (entries : List WalEntry)

private theorem follows_next_lsn (follows : Follows crc wal d log entries) :
    log.nextLsn = wal.header.nextLsn := by
  rw [Fifo.nextLsn, ← follows.next, UInt64.ofNat_toNat]

/-- Both refuse the same records, but for the last number. -/
theorem refusal_follows (follows : Follows crc wal d log entries) (payload : List UInt8)
    (flags : UInt16) :
    wal.refusal payload flags =
      (log.refusal payload flags).or
        (if 2 ^ 64 ≤ wal.header.nextLsn.toNat + 1 then some (.panic "WAL next_lsn overflow")
          else none) := by
  have length : log.live.length = entries.length := by
    rw [follows.records, List.length_map]
  have used := follows.ring.log.used
  have room := follows.ring.log.room
  have full : wal.dataCapacity < wal.header.usedBytes.toNat + blockSize ↔
      log.live.length = log.sectors := by
    rw [dataCapacity, used, length, follows.sectors]
    simp only [blockSize]
    omega
  have sizes : log.live.length * blockSize = wal.header.usedBytes.toNat ∧
      log.sectors * blockSize = wal.dataCapacity := by
    rw [length, used, follows.sectors]
    exact ⟨rfl, rfl⟩
  rw [refusal, Fifo.refusal, if_neg (by simp [follows.writable]), sizes.1, sizes.2]
  by_cases encrypted : flags &&& walEntryFlagEncrypted ≠ 0
  · rw [if_pos encrypted, if_pos encrypted]
    rfl
  rw [if_neg encrypted, if_neg encrypted]
  by_cases compressed : flags &&& walEntryFlagCompressed ≠ 0
  · rw [if_pos compressed, if_pos compressed]
    rfl
  rw [if_neg compressed, if_neg compressed]
  by_cases large : walMaxPayloadPlaintext < payload.length
  · rw [if_pos large, if_pos large]
    rfl
  rw [if_neg large, if_neg large]
  by_cases ringFull : log.live.length = log.sectors
  · rw [if_pos (full.mpr ringFull), if_pos ringFull]
    rfl
  · rw [if_neg (fun more => ringFull (full.mp more)), if_neg ringFull]
    rfl

theorem increasing_lsns (ring : Log crc wal d entries) :
    entries.Pairwise fun first second => first.header.lsn < second.header.lsn := by
  rw [List.pairwise_iff_getElem]
  intro left right leftBound rightBound order
  have first := ring.numbered left _ (List.getElem?_eq_getElem leftBound)
  have second := ring.numbered right _ (List.getElem?_eq_getElem rightBound)
  rw [UInt64.lt_iff_toNat_lt]
  omega

end

theorem drop_while_increasing (lsn : UInt64) (entries : List WalEntry)
    (increasing : entries.Pairwise fun first second => first.header.lsn < second.header.lsn) :
    (entries.dropWhile fun entry => !decide (lsn < entry.header.lsn)) =
      entries.filter fun entry => lsn < entry.header.lsn := by
  induction entries with
  | nil => rfl
  | cons entry rest ih =>
      rw [List.pairwise_cons] at increasing
      by_cases beyond : lsn < entry.header.lsn
      · have all : ∀ later ∈ entry :: rest, decide (lsn < later.header.lsn) = true := by
          intro later member
          rw [decide_eq_true_iff]
          cases List.mem_cons.mp member with
          | inl same => rwa [same]
          | inr behind => exact UInt64.lt_trans beyond (increasing.1 later behind)
        rw [List.dropWhile_cons_of_neg (by simp [beyond]), List.filter_eq_self.mpr all]
      · rw [List.dropWhile_cons_of_pos (by simp [beyond]), List.filter_cons_of_neg (by simp [beyond])]
        exact ih increasing.2

/-- What a call leaves of the simulation. -/
structure Step (crc : Crc) (wal : Wal) (d : Device) (log : Fifo) (call : Call) : Prop where
  outcome : (wal.perform crc d call).1 = (log.perform call).1
  follows : ∃ entries, Follows crc (wal.perform crc d call).2.1 (wal.perform crc d call).2.2
    (log.perform call).2 entries
  generation : (wal.perform crc d call).2.1.header.header.generation.toNat =
    wal.header.header.generation.toNat + if (log.perform call).1.flushes then 1 else 0
  place : (wal.perform crc d call).2.1.base = wal.base ∧
    (wal.perform crc d call).2.1.size = wal.size

section

variable (crc : Crc) (wal : Wal) (d : Device) (log : Fifo) (entries : List WalEntry)

private theorem step_append (follows : Follows crc wal d log entries) (kind : WalOpKind)
    (payload : List UInt8) (ts : HybridTimestamp) (flags : UInt16)
    (more : (log.perform (.append kind payload ts flags)).1.flushes = true →
      wal.header.header.generation.toNat + 1 < 2 ^ 64) :
    Step crc wal d log (.append kind payload ts flags) := by
  have refusals := refusal_follows crc wal d log entries follows payload flags
  have number := follows_next_lsn crc wal d log entries follows
  cases refused : log.refusal payload flags with
  | some err =>
      have same : wal.refusal payload flags = some err := by
        rw [refusals, refused]
        rfl
      have failed : wal.perform crc d (.append kind payload ts flags) =
          (.appended (.error err), wal, d) := by
        simp only [perform, appendRaw, same]
      have expected : log.perform (.append kind payload ts flags) =
          (.appended (.error err), log) := by
        simp only [Fifo.perform, refused]
      constructor
      · rw [failed, expected]
      · rw [failed, expected]
        exact ⟨entries, follows⟩
      · rw [failed, expected]
        rfl
      · rw [failed]
        exact ⟨rfl, rfl⟩
  | none =>
      have expected : log.perform (.append kind payload ts flags) =
          (.appended (.ok log.nextLsn),
            { log with
              appended := log.appended + 1
              live := log.live ++ [⟨kind.toU8, flags, log.nextLsn, ts, payload⟩] }) := by
        simp only [Fifo.perform, refused]
      have bound := more (by rw [expected]; rfl)
      have behind := follows.behind
      have accepted : wal.refusal payload flags = none := by
        rw [refusals, refused, if_neg (by omega)]
        rfl
      obtain ⟨after, appended, ok, healthy, mode, generation⟩ := append_healthy crc wal d entries
        follows.ring follows.healthy kind payload ts flags accepted bound
      have facts := append_ring crc wal after d appended entries follows.ring kind payload ts flags
        _ ok
      have done : wal.perform crc d (.append kind payload ts flags) =
          (.appended (.ok wal.header.nextLsn), after, appended) := by
        simp only [perform, ok]
      have counted : after.header.nextLsn.toNat = wal.header.nextLsn.toNat + 1 := by
        have last := facts.2.1.log.numbered entries.length
          (wal.entryFor crc kind payload ts flags) (by simp)
        rw [List.length_append, List.length_singleton] at last
        have lsn : (wal.entryFor crc kind payload ts flags).header.lsn = wal.header.nextLsn := rfl
        rw [lsn] at last
        omega
      constructor
      · rw [done, expected, number]
      · rw [done, expected]
        refine ⟨entries ++ [wal.entryFor crc kind payload ts flags], facts.2.1, healthy,
          mode.trans follows.writable, ?_, ?_, ?_, ?_⟩
        · show log.sectors = after.dataSectors
          rw [follows.sectors, dataSectors, dataSectors, facts.2.2.2.2]
        · show after.header.nextLsn.toNat = log.appended + 1 + 1
          rw [counted, follows.next]
        · show log.live ++ [_] = _
          rw [List.map_append, ← follows.records, number]
          rfl
        · show after.header.nextLsn.toNat ≤ after.header.header.generation.toNat
          omega
      · rw [done, expected]
        exact generation
      · rw [done]
        exact facts.2.2.2

private theorem step_checkpoint (follows : Follows crc wal d log entries) (lsn : UInt64)
    (more : wal.header.header.generation.toNat + 1 < 2 ^ 64) :
    Step crc wal d log (.checkpoint lsn) := by
  obtain ⟨after, trimmed, ok, healthy, mode, generation⟩ := checkpoint_healthy crc wal d entries
    follows.ring follows.healthy follows.writable lsn more
  have facts := checkpoint_ring crc wal after d trimmed entries follows.ring lsn _ ok
  have kept := drop_while_increasing lsn entries
    (increasing_lsns crc wal d entries follows.ring.log)
  rw [kept] at ok facts
  have records : (log.live.filter fun record => lsn < record.lsn) =
      (entries.filter fun entry => lsn < entry.header.lsn).map WalEntry.record := by
    rw [follows.records, List.filter_map]
    rfl
  have expected : log.perform (.checkpoint lsn) =
      (.reclaimed (.ok (entries.length -
        (entries.filter fun entry => lsn < entry.header.lsn).length)),
        { log with
          live := (entries.filter fun entry => lsn < entry.header.lsn).map WalEntry.record }) := by
    rw [Fifo.perform, records, List.length_map, follows.records, List.length_map]
  have done : wal.perform crc d (.checkpoint lsn) =
      (.reclaimed (.ok (entries.length -
        (entries.filter fun entry => lsn < entry.header.lsn).length)), after, trimmed) := by
    simp only [perform, ok]
  have behind := follows.behind
  constructor
  · rw [done, expected]
  · rw [done, expected]
    refine ⟨_, facts.1, healthy, mode, ?_, ?_, rfl, ?_⟩
    · show log.sectors = after.dataSectors
      rw [follows.sectors, dataSectors, dataSectors, facts.2.2.2.1]
    · show after.header.nextLsn.toNat = log.appended + 1
      rw [facts.2.2.2.2, follows.next]
    · show after.header.nextLsn.toNat ≤ after.header.header.generation.toNat
      rw [facts.2.2.2.2]
      omega
  · rw [done, expected]
    exact generation
  · rw [done]
    exact ⟨facts.2.2.1, facts.2.2.2.1⟩

private theorem step_reopen (follows : Follows crc wal d log entries) :
    Step crc wal d log .reopen := by
  have opened := open_ring crc wal d entries follows.ring follows.writable
  have done : wal.perform crc d .reopen = (.reopened (.ok ()), wal, d) := by
    simp only [perform, opened]
  constructor
  · rw [done]
    rfl
  · rw [done]
    exact ⟨entries, follows⟩
  · rw [done]
    rfl
  · rw [done]
    exact ⟨rfl, rfl⟩

theorem step_follows (follows : Follows crc wal d log entries) (call : Call)
    (more : (log.perform call).1.flushes = true →
      wal.header.header.generation.toNat + 1 < 2 ^ 64) : Step crc wal d log call := by
  cases call with
  | append kind payload ts flags =>
      exact step_append crc wal d log entries follows kind payload ts flags more
  | checkpoint lsn => exact step_checkpoint crc wal d log entries follows lsn (more rfl)
  | reopen => exact step_reopen crc wal d log entries follows

end

/-- A whole run keeps ring and queue together. -/
theorem run_follows (crc : Crc) (calls : List Call) :
    ∀ (wal : Wal) (d : Device) (log : Fifo) (entries : List WalEntry),
      Follows crc wal d log entries →
      wal.header.header.generation.toNat + (log.performAll calls).1.countP Outcome.flushes <
        2 ^ 64 →
      (wal.performAll crc d calls).1 = (log.performAll calls).1 ∧
        (∃ entries, Follows crc (wal.performAll crc d calls).2.1
          (wal.performAll crc d calls).2.2 (log.performAll calls).2 entries) ∧
        (wal.performAll crc d calls).2.1.header.header.generation.toNat =
          wal.header.header.generation.toNat +
            (log.performAll calls).1.countP Outcome.flushes ∧
        (wal.performAll crc d calls).2.1.base = wal.base ∧
        (wal.performAll crc d calls).2.1.size = wal.size := by
  induction calls with
  | nil =>
      intro wal d log entries follows _
      exact ⟨rfl, ⟨entries, follows⟩, rfl, rfl, rfl⟩
  | cons call calls ih =>
      intro wal d log entries follows enough
      simp only [Fifo.performAll, List.countP_cons] at enough ⊢
      have step := step_follows crc wal d log entries follows call (by
        intro flushes
        rw [if_pos flushes] at enough
        omega)
      obtain ⟨later, together⟩ := step.follows
      have generation := step.generation
      obtain ⟨outcomes, rest, final, base, size⟩ := ih _ _ _ later together (by omega)
      refine ⟨?_, rest, ?_, base.trans step.place.1, size.trans step.place.2⟩
      · rw [performAll, outcomes, step.outcome]
      · rw [performAll, final]
        omega

def lsns (outcomes : List Outcome) : List UInt64 := outcomes.filterMap Outcome.lsn?

/-- A ring and its device are what the queue says. -/
structure Shows (crc : Crc) (wal : Wal) (d : Device) (log : Fifo) : Prop where
  full : ∀ kind payload ts flags, flags &&& walEntryFlagEncrypted = 0 →
    flags &&& walEntryFlagCompressed = 0 → payload.length ≤ walMaxPayloadPlaintext →
    ((∃ used capacity, (wal.appendRaw crc d kind payload ts flags).1 =
      .error (.ringFull used capacity)) ↔ log.live.length = wal.dataSectors)
  iterates : ∀ start : UInt64, ∃ entries : List WalEntry,
    wal.iterFrom crc d start.toNat = entries.map .ok ∧
      entries.map WalEntry.record = log.live.filter fun record => start ≤ record.lsn
  used : wal.header.usedBytes.toNat = blockSize * log.live.length
  cursors : wal.header.writeCursor.toNat =
    (wal.header.readCursor.toNat + wal.header.usedBytes.toNat) % wal.dataCapacity

/-- A formatted ring answers a run as the queue does and shows what the queue holds. -/
def RefinesFifo (crc : Crc) (d : Device) (offset size : Nat) (calls : List Call) : Prop :=
  ∃ wal formatted, Wal.format crc d offset size = (.ok wal, formatted) ∧
    let run := wal.performAll crc formatted calls
    let log := (Fifo.empty wal.dataSectors).performAll calls
    run.1 = log.1 ∧
      lsns run.1 = (List.range log.2.appended).map (fun count => UInt64.ofNat (count + 1)) ∧
      Shows crc run.2.1 run.2.2 log.2

/-- The queue gives out the numbers from one on. -/
theorem fifo_lsns (calls : List Call) :
    ∀ log : Fifo, log.appended ≤ (log.performAll calls).2.appended ∧
      lsns (log.performAll calls).1 =
        (List.range' log.appended ((log.performAll calls).2.appended - log.appended)).map
          fun count => UInt64.ofNat (count + 1) := by
  induction calls with
  | nil =>
      intro log
      simp [Fifo.performAll, lsns]
  | cons call calls ih =>
      intro log
      have later := ih (log.perform call).2
      simp only [Fifo.performAll, lsns, List.filterMap_cons] at later ⊢
      cases call with
      | checkpoint lsn => exact later
      | reopen => exact later
      | append kind payload ts flags =>
          cases refused : log.refusal payload flags with
          | some err =>
              simp only [Fifo.perform, refused] at later ⊢
              exact later
          | none =>
              simp only [Fifo.perform, refused, Outcome.lsn?] at later ⊢
              generalize Fifo.performAll _ calls = rest at later ⊢
              refine ⟨by omega, ?_⟩
              have length : rest.2.appended - log.appended =
                  rest.2.appended - (log.appended + 1) + 1 := by omega
              rw [later.2, length, List.range'_succ, List.map_cons]
              rfl

theorem append_ring_full (crc : Crc) (wal : Wal) (d : Device) (kind : WalOpKind)
    (payload : List UInt8) (ts : HybridTimestamp) (flags : UInt16) (used capacity : Nat)
    (failed : (wal.appendRaw crc d kind payload ts flags).1 = .error (.ringFull used capacity)) :
    wal.refusal payload flags = some (.ringFull used capacity) := by
  cases refused : wal.refusal payload flags with
  | some err =>
      simp only [appendRaw, refused] at failed
      cases failed
      rfl
  | none =>
      simp only [appendRaw, refused] at failed
      split at failed
      · cases failed
      · simp only [settle, flushHeader] at failed
        split at failed
        · next flushed =>
            split at flushed
            · split at flushed <;> cases flushed
              cases failed
            · cases flushed
              cases failed
        · split at failed <;> cases failed

private theorem shows_of_follows (crc : Crc) (wal : Wal) (d : Device) (log : Fifo)
    (entries : List WalEntry) (follows : Follows crc wal d log entries) : Shows crc wal d log := by
  have length : log.live.length = entries.length := by
    rw [follows.records, List.length_map]
  have ring := follows.ring.log
  constructor
  · intro kind payload ts flags plain uncompressed fits
    have refusals := refusal_follows crc wal d log entries follows payload flags
    have expected : log.refusal payload flags = if log.live.length = log.sectors then
        some (.ringFull (log.live.length * blockSize) (log.sectors * blockSize)) else none := by
      rw [Fifo.refusal, if_neg (by simp [plain]), if_neg (by simp [uncompressed]),
        if_neg (Nat.not_lt.mpr fits)]
    rw [expected] at refusals
    constructor
    · intro failed
      obtain ⟨used, capacity, failed⟩ := failed
      have refused := append_ring_full crc wal d kind payload ts flags used capacity failed
      by_cases full : log.live.length = log.sectors
      · rw [full, follows.sectors]
      · rw [refusals, if_neg full] at refused
        split at refused <;> cases refused
    · intro full
      rw [follows.sectors, if_pos full] at refusals
      refine ⟨log.live.length * blockSize, wal.dataSectors * blockSize, ?_⟩
      simp only [appendRaw, refusals, Option.some_or]
  · intro start
    refine ⟨_, iter_from_log crc wal d entries ring start.toNat, ?_⟩
    rw [follows.records, List.filter_map]
    congr 1
  · rw [ring.used, length, Nat.mul_comm]
  · rw [ring.write, ring.used, ring.aligned, dataCapacity, ← Nat.add_mul, Nat.mul_mod_mul_right]

/-- A ring refines the queue in every run that its header generations can count. -/
theorem ring_refines_fifo (crc : Crc) (d : Device) (offset size : Nat) (calls : List Call)
    (healthy : d.Healthy) (valid : validSize size = true) (inside : offset + size ≤ d.capacity)
    (bounded : d.capacity < 2 ^ 64)
    (counted : ((Fifo.empty (formatted crc offset size).dataSectors).performAll calls).1.countP
      Outcome.flushes ≤ 2 ^ 64 - 2) : RefinesFifo crc d offset size calls := by
  obtain ⟨after, format, ring, final⟩ := format_ring crc d offset size healthy valid inside bounded
  have generation : (formatted crc offset size).header.header.generation.toNat = 1 := rfl
  have follows : Follows crc (formatted crc offset size) after
      (Fifo.empty (formatted crc offset size).dataSectors) [] := by
    constructor
    · exact ring
    · exact final
    · rfl
    · rfl
    · rfl
    · rfl
    · exact Nat.le_refl 1
  obtain ⟨outcomes, later, -⟩ := run_follows crc calls _ _ _ _ follows (by omega)
  obtain ⟨entries, together⟩ := later
  refine ⟨_, after, format, outcomes, ?_, shows_of_follows crc _ _ _ entries together⟩
  have numbers := (fifo_lsns calls (Fifo.empty (formatted crc offset size).dataSectors)).2
  rw [outcomes, numbers, List.range_eq_range']
  rfl

def smallDevice : Device :=
  { bytes := fun _ => 0, capacity := 3 * blockSize, readOnly := false, faults := [] }

theorem small_device_healthy : smallDevice.Healthy :=
  ⟨rfl, fun _ member => absurd member List.not_mem_nil⟩

/-- The second append finds the ring full, the third one reuses the sector. -/
def reusingCalls : List Call :=
  [.append .createObject [1, 2] ⟨7, 0, 1⟩ 0, .append .addTag [] ⟨8, 0, 1⟩ 0, .checkpoint 1, .reopen,
    .append .addTag [3] ⟨9, 0, 1⟩ 0]

theorem reused_sector_refines :
    validSize (3 * blockSize) = true ∧
      RefinesFifo crc32c smallDevice 0 (3 * blockSize) reusingCalls :=
  ⟨by decide, ring_refines_fifo crc32c smallDevice 0 (3 * blockSize) reusingCalls
    small_device_healthy (by decide) (by decide) (by decide) (by decide +kernel)⟩

theorem perform_all_append (crc : Crc) (first second : List Call) :
    ∀ (wal : Wal) (d : Device), wal.performAll crc d (first ++ second) =
      ((wal.performAll crc d first).1 ++
        ((wal.performAll crc d first).2.1.performAll crc (wal.performAll crc d first).2.2 second).1,
        ((wal.performAll crc d first).2.1.performAll crc
          (wal.performAll crc d first).2.2 second).2) := by
  induction first with
  | nil =>
      intro wal d
      rfl
  | cons call first ih =>
      intro wal d
      rw [List.cons_append, performAll, ih]
      rfl

theorem empty_checkpoints (sectors : Nat) (lsn : UInt64) (count : Nat) :
    (Fifo.empty sectors).performAll (List.replicate count (.checkpoint lsn)) =
      (List.replicate count (.reclaimed (.ok 0)), Fifo.empty sectors) := by
  induction count with
  | zero => rfl
  | succ count ih =>
      have step : (Fifo.empty sectors).perform (.checkpoint lsn) =
          (.reclaimed (.ok 0), Fifo.empty sectors) := rfl
      rw [List.replicate_succ, List.replicate_succ, Fifo.performAll, step, ih]

/-- Without a generation left an append fails, but its entry is in the ring. -/
theorem append_without_generation (crc : Crc) (wal : Wal) (d : Device) (entries : List WalEntry)
    (ring : Ring crc wal d entries) (healthy : d.Healthy) (kind : WalOpKind) (payload : List UInt8)
    (ts : HybridTimestamp) (flags : UInt16) (accepted : wal.refusal payload flags = none)
    (last : 2 ^ 64 ≤ wal.header.header.generation.toNat + 1) :
    ∃ after, wal.appendRaw crc d kind payload ts flags =
        (.error .lsnOverflow, wal.advanced, after) ∧
      ChangesWithin (wal.dataOffset + wal.header.writeCursor.toNat) walSectorSize d after ∧
      Log crc wal.advanced after (entries ++ [wal.entryFor crc kind payload ts flags]) := by
  have inside := ring.log.inside
  have target := sector_inside wal ring.log.size _
    (sector_mod_lt wal ring.log.size (wal.firstSector + entries.length))
  rw [← ring.log.write] at target
  have length := WalEntry.length_sector crc _
    (valid_entry_for crc wal kind payload ts flags accepted).fits
  have written := Device.write_at_healthy d (wal.dataOffset + wal.header.writeCursor.toNat)
    ((wal.entryFor crc kind payload ts flags).sector crc) healthy (by rw [length]; omega)
  have none_left : ¬ wal.advanced.header.header.generation.toNat + 1 < 2 ^ 64 :=
    Nat.not_lt.mpr last
  refine ⟨_, ?_, ?_, log_append crc wal d
    { d with
      bytes := overwrite d.bytes (wal.dataOffset + wal.header.writeCursor.toNat)
        ((wal.entryFor crc kind payload ts flags).sector crc)
      faults := d.faults.tail }
    entries ring.log kind payload ts flags accepted rfl rfl⟩
  · simp only [appendRaw, accepted]
    rw [written]
    simp only [settle]
    rw [flushHeader, if_neg none_left]
  · have changes := changes_within_write d _ _ _ written
    rwa [length] at changes

private theorem refusal_not_exhausted (log : Fifo) (payload : List UInt8) (flags : UInt16) :
    log.refusal payload flags ≠ some .lsnOverflow := by
  unfold Fifo.refusal
  split
  · simp
  split
  · simp
  split
  · simp
  split
  · simp
  · simp

theorem fifo_never_exhausted (calls : List Call) :
    ∀ log : Fifo, ∀ outcome ∈ (log.performAll calls).1,
      outcome ≠ .appended (.error .lsnOverflow) := by
  induction calls with
  | nil =>
      intro log outcome member
      cases member
  | cons call calls ih =>
      intro log outcome member
      cases List.mem_cons.mp member with
      | inr later => exact ih _ outcome later
      | inl first =>
          rw [first]
          cases call with
          | checkpoint lsn => exact Outcome.noConfusion
          | reopen => exact Outcome.noConfusion
          | append kind payload ts flags =>
              have other := refusal_not_exhausted log payload flags
              cases refused : log.refusal payload flags with
              | some err =>
                  simp only [Fifo.perform, refused]
                  intro same
                  cases same
                  exact other refused
              | none =>
                  simp only [Fifo.perform, refused]
                  intro same
                  cases same

def exhaustingCalls : List Call :=
  List.replicate (2 ^ 64 - 2) (.checkpoint 0) ++ [.append .createObject [1, 2] ⟨7, 0, 1⟩ 0]

/-- An empty ring after as many checkpoints as it has generations. -/
theorem exhausted_follows (crc : Crc) (d : Device) (offset size count : Nat) (healthy : d.Healthy)
    (valid : validSize size = true) (inside : offset + size ≤ d.capacity)
    (bounded : d.capacity < 2 ^ 64) (all : count = 2 ^ 64 - 2) :
    ∃ after, Wal.format crc d offset size = (.ok (formatted crc offset size), after) ∧
      let run := (formatted crc offset size).performAll crc after
        (List.replicate count (.checkpoint 0))
      run.1 = List.replicate count (.reclaimed (.ok 0)) ∧
        Follows crc run.2.1 run.2.2 (Fifo.empty (formatted crc offset size).dataSectors) [] ∧
        run.2.1.header.header.generation.toNat + 1 = 2 ^ 64 ∧ run.2.1.base = offset ∧
        run.2.1.size = size := by
  obtain ⟨after, format, ring, final⟩ := format_ring crc d offset size healthy valid inside bounded
  have generation : (formatted crc offset size).header.header.generation.toNat = 1 := rfl
  have follows : Follows crc (formatted crc offset size) after
      (Fifo.empty (formatted crc offset size).dataSectors) [] :=
    ⟨ring, final, rfl, rfl, rfl, rfl, Nat.le_refl 1⟩
  have idle := empty_checkpoints (formatted crc offset size).dataSectors 0 count
  have flushed : (List.replicate count (Outcome.reclaimed (.ok 0))).countP Outcome.flushes =
      count := by
    rw [List.countP_replicate]
    rfl
  obtain ⟨outcomes, later, reached, base, size_⟩ :=
    run_follows crc (List.replicate count (.checkpoint 0)) _ _ _ _
    follows (by
      rw [idle, flushed]
      omega)
  obtain ⟨entries, together⟩ := later
  rw [idle] at outcomes together reached
  rw [flushed] at reached
  have empty : entries = [] := List.map_eq_nil_iff.mp together.records.symm
  subst empty
  exact ⟨after, format, outcomes, together, by omega, base, size_⟩

/-- An empty queue with a sector takes any record that is not too large. -/
theorem empty_accepts (crc : Crc) (wal : Wal) (d : Device) (sectors : Nat)
    (follows : Follows crc wal d (Fifo.empty sectors) []) (payload : List UInt8) (flags : UInt16)
    (plain : flags &&& walEntryFlagEncrypted = 0)
    (uncompressed : flags &&& walEntryFlagCompressed = 0)
    (fits : payload.length ≤ walMaxPayloadPlaintext) : wal.refusal payload flags = none := by
  have some_sector := sector_mod_lt wal follows.ring.log.size 0
  have next : wal.header.nextLsn.toNat = 1 := follows.next
  have same : sectors = wal.dataSectors := follows.sectors
  rw [refusal_follows crc _ _ _ _ follows, Fifo.refusal, if_neg (by simp [plain]),
    if_neg (by simp [uncompressed]), if_neg (Nat.not_lt.mpr fits), if_neg (by
      intro full
      have none : 0 = sectors := full
      omega), if_neg (by omega)]
  rfl

private theorem exhausted_run (crc : Crc) (d : Device) (offset size count : Nat)
    (healthy : d.Healthy)
    (valid : validSize size = true) (inside : offset + size ≤ d.capacity)
    (bounded : d.capacity < 2 ^ 64) (all : count = 2 ^ 64 - 2) (kind : WalOpKind)
    (payload : List UInt8) (ts : HybridTimestamp) (flags : UInt16)
    (plain : flags &&& walEntryFlagEncrypted = 0)
    (uncompressed : flags &&& walEntryFlagCompressed = 0)
    (fits : payload.length ≤ walMaxPayloadPlaintext) :
    ∃ wal formatted, Wal.format crc d offset size = (.ok wal, formatted) ∧
      let run := wal.performAll crc formatted
        (List.replicate count (.checkpoint 0) ++ [.append kind payload ts flags])
      lsns run.1 = [] ∧ run.1.getLast? = some (.appended (.error .lsnOverflow)) ∧
        ∃ entry, run.2.1.iterFrom crc run.2.2 0 = [.ok entry] := by
  obtain ⟨after, format, outcomes, follows, last, -⟩ :=
    exhausted_follows crc d offset size count healthy valid inside bounded all
  have accepted := empty_accepts crc _ _ _ follows payload flags plain uncompressed fits
  obtain ⟨device, failed, -, log⟩ := append_without_generation crc _ _ [] follows.ring
    follows.healthy kind payload ts flags accepted (Nat.le_of_eq last.symm)
  refine ⟨formatted crc offset size, after, format, ?_⟩
  simp only
  rw [perform_all_append]
  simp only [performAll, perform]
  rw [outcomes, failed]
  refine ⟨?_, ?_, ⟨_, iter_from_log crc _ _ _ log 0⟩⟩
  · rw [lsns, List.filterMap_append, List.filterMap_replicate_of_none rfl]
    rfl
  · rw [List.getLast?_append, List.getLast?_singleton]
    rfl

/-- The append that finds no generation left has failed, but its entry is iterated over. -/
theorem exhausted_generations :
    (∃ wal formatted, Wal.format crc32c smallDevice 0 (3 * blockSize) = (.ok wal, formatted) ∧
      let run := wal.performAll crc32c formatted exhaustingCalls
      lsns run.1 = [] ∧ run.1.getLast? = some (.appended (.error .lsnOverflow)) ∧
        ∃ entry, run.2.1.iterFrom crc32c run.2.2 0 = [.ok entry]) ∧
      ¬ RefinesFifo crc32c smallDevice 0 (3 * blockSize) exhaustingCalls := by
  have run := exhausted_run crc32c smallDevice 0 (3 * blockSize) (2 ^ 64 - 2) small_device_healthy
    (by decide) (by decide) (by decide) rfl .createObject [1, 2] ⟨7, 0, 1⟩ 0 (by decide) (by decide)
    (by decide)
  refine ⟨run, ?_⟩
  intro refines
  obtain ⟨wal, after, format, -, last, -⟩ := run
  obtain ⟨same, again, formatted, outcomes, -⟩ := refines
  rw [format] at formatted
  cases formatted
  have given : Outcome.appended (.error .lsnOverflow) ∈
      (wal.performAll crc32c after exhaustingCalls).1 := List.mem_of_getLast? last
  rw [outcomes] at given
  exact fifo_never_exhausted exhaustingCalls _ _ given rfl

end Wal

end Mimisbrunnr
