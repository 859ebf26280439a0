import Mimisbrunnr.Wal.Fifo

/-!
# Crashes

A call writes at most two blocks: the sector of an entry and the header in the
slot that is not the active one. When the machine stops in between, or in the
middle of one of them, the ring that is opened afterwards is the one before the
call or the one after it. An append syncs once, behind both blocks; that the disk
takes them in the order in which they are written is an assumption.
-/

namespace Mimisbrunnr

set_option autoImplicit false

open Mimisbrunnr.Lib.ByteStore
open Mimisbrunnr.Lib.Layout
open Mimisbrunnr.Storage
open Mimisbrunnr.Types
open Mimisbrunnr.Wal

namespace Wal

/-- The header as the next flush writes it. -/
def flushedHeader (crc : Crc) (wal : Wal) : WalHeader :=
  WalHeader.recomputeCrc crc
    { wal.header with
      header := { wal.header.header with generation := wal.header.header.generation + 1 } }

def headerWrites (crc : Crc) (wal : Wal) : List (Nat × List UInt8) :=
  if wal.header.header.generation.toNat + 1 < 2 ^ 64 then
    [(wal.headerSlotOffset wal.activeSlot.other, WalHeader.layout.toBytes (wal.flushedHeader crc))]
  else []

/-- What a call writes, in its order. -/
def writes (crc : Crc) (wal : Wal) (d : Device) : Call → List (Nat × List UInt8)
  | .append kind payload ts flags =>
      match wal.refusal payload flags with
      | some _ => []
      | none =>
          (wal.dataOffset + wal.header.writeCursor.toNat,
            (wal.entryFor crc kind payload ts flags).sector crc) :: wal.advanced.headerWrites crc
  | .checkpoint lsn =>
      match trim d lsn (wal.header.usedBytes.toNat / blockSize) wal with
      | (.error _, _) => []
      | (.ok _, trimmed) =>
          headerWrites crc { trimmed with header := { trimmed.header with lastCheckpointLsn := lsn } }
  | .reopen => []

def Detected (crc : Crc) (wal : Wal) (offset : Nat) (d : Device) : Prop :=
  ∀ slot, offset = wal.headerSlotOffset slot →
    WalHeader.verifyCrc crc (read d.bytes offset blockSize) ≠ .ok ()

section

variable (crc : Crc) (wal : Wal) (d after : Device) (entries : List WalEntry)

/-- A ring stays where its live sectors and its active header stay and the other
slot holds nothing newer. -/
theorem ring_survives (ring : Ring crc wal d entries) (capacity : after.capacity = d.capacity)
    (live : ∀ index, index < entries.length → AgreesOn (wal.sectorAt index) walSectorSize d after)
    (active : AgreesOn (wal.headerSlotOffset wal.activeSlot) blockSize d after)
    (stale : ∀ h, candidate crc
      (read after.bytes (wal.headerSlotOffset wal.activeSlot.other) blockSize) = some h →
        h.header.generation.toNat < wal.header.header.generation.toNat) :
    Ring crc wal after entries := by
  have log := ring.log
  constructor
  · constructor
    · exact log.size
    · rw [capacity]
      exact log.inside
    · rw [capacity]
      exact log.bounded
    · exact log.aligned
    · exact log.first
    · exact log.used
    · exact log.room
    · exact log.write
    · intro index entry found
      have below := (List.getElem?_eq_some_iff.mp found).1
      rw [read_agrees (live index below)]
      exact log.stored index entry found
    · exact log.valid
    · exact log.numbered
  · exact ring.valid
  · rw [read_agrees active]
    exact ring.active
  · exact stale

theorem ring_bytes (ring : Ring crc wal d entries) (capacity : after.capacity = d.capacity)
    (bytes : after.bytes = d.bytes) : Ring crc wal after entries := by
  have same (start length : Nat) : AgreesOn start length d after :=
    ⟨capacity, fun address _ _ => by rw [bytes]⟩
  apply ring_survives crc wal d after entries ring capacity (fun _ _ => same _ _) (same _ _)
  rw [bytes]
  exact ring.stale

theorem ring_next_sector (ring : Ring crc wal d entries)
    (free : entries.length < wal.dataSectors)
    (changes : ChangesWithin (wal.dataOffset + wal.header.writeCursor.toNat) walSectorSize d
      after) : Ring crc wal after entries := by
  have log := ring.log
  have target : wal.dataOffset + wal.header.writeCursor.toNat = wal.sectorAt entries.length := by
    rw [log.write]
    rfl
  rw [target] at changes
  have slots (slot : HeaderSlot) : AgreesOn (wal.headerSlotOffset slot) blockSize d after := by
    apply agrees_of_apart changes
    have before := (header_slot_inside wal slot).2
    unfold sectorAt
    left
    omega
  apply ring_survives crc wal d after entries ring changes.capacity
  · intro index below
    apply agrees_of_apart changes
    exact sectors_apart _ _ _ (mod_ne_of_lt below (by omega))
  · exact slots _
  · intro h found
    rw [read_agrees (slots _)] at found
    exact ring.stale h found

theorem ring_torn_header (ring : Ring crc wal d entries)
    (changes : ChangesWithin (wal.headerSlotOffset wal.activeSlot.other) blockSize d after)
    (detected : Detected crc wal (wal.headerSlotOffset wal.activeSlot.other) after) :
    Ring crc wal after entries := by
  have reservation := header_slot_inside wal wal.activeSlot.other
  apply ring_survives crc wal d after entries ring changes.capacity
  · intro index below
    apply agrees_of_apart changes
    unfold sectorAt
    right
    omega
  · apply agrees_of_apart changes
    exact header_slots_apart wal wal.activeSlot
  · intro h found
    have broken := detected wal.activeSlot.other rfl
    simp only [candidate] at found
    split at found
    · next checked => exact absurd checked broken
    · cases found

end

theorem advanced_kept (wal : Wal) :
    wal.advanced.base = wal.base ∧ wal.advanced.activeSlot = wal.activeSlot ∧
      wal.advanced.header.header = wal.header.header := by
  unfold advanced
  exact ⟨rfl, rfl, rfl⟩

private theorem settle_writes {α : Type} (crc : Crc) (wal : Wal) (d : Device) (result : α)
    (healthy : d.Healthy) (room : wal.dataOffset ≤ d.capacity) :
    (wal.settle crc d result).2.2.bytes = ((wal.headerWrites crc).foldl Device.written d).bytes ∧
      (wal.settle crc d result).2.2.capacity = d.capacity := by
  by_cases more : wal.header.header.generation.toNat + 1 < 2 ^ 64
  · obtain ⟨after, settled, done, -⟩ := settle_healthy crc wal d result healthy room more
    have facts := settle_ok crc wal after d settled result result done
    rw [done, headerWrites, if_pos more]
    refine ⟨?_, facts.2.2.2.1⟩
    rw [facts.2.2.2.2, facts.2.2.1]
    rfl
  · have failed : wal.settle crc d result = (.error .lsnOverflow, wal, d) := by
      simp only [settle]
      rw [flushHeader, if_neg more]
    rw [failed, headerWrites, if_neg more]
    exact ⟨rfl, rfl⟩

theorem perform_writes (crc : Crc) (wal : Wal) (d : Device) (log : Fifo) (entries : List WalEntry)
    (follows : Follows crc wal d log entries) (call : Call) :
    (wal.perform crc d call).2.2.bytes =
        ((wal.writes crc d call).foldl Device.written d).bytes ∧
      (wal.perform crc d call).2.2.capacity = d.capacity := by
  have ring := follows.ring.log
  have reservation := sectors_fit wal ring.size
  have inside := ring.inside
  have room : wal.dataOffset ≤ d.capacity := by
    unfold dataOffset
    omega
  cases call with
  | reopen =>
      have opened := open_ring crc wal d entries follows.ring follows.writable
      simp only [perform, opened, writes]
      exact ⟨rfl, trivial⟩
  | append kind payload ts flags =>
      cases refused : wal.refusal payload flags with
      | some err =>
          simp only [perform, appendRaw, writes, refused]
          exact ⟨rfl, trivial⟩
      | none =>
          have target := sector_inside wal ring.size _
            (sector_mod_lt wal ring.size (wal.firstSector + entries.length))
          rw [← ring.write] at target
          have length := WalEntry.length_sector crc _
            (valid_entry_for crc wal kind payload ts flags refused).fits
          have written := Device.write_at_healthy d (wal.dataOffset + wal.header.writeCursor.toNat)
            ((wal.entryFor crc kind payload ts flags).sector crc) follows.healthy
            (by rw [length]; omega)
          have start : wal.advanced.dataOffset ≤ d.capacity := by
            rw [dataOffset, (advanced_kept wal).1]
            exact room
          have settled := settle_writes crc wal.advanced
            { d with
              bytes := overwrite d.bytes (wal.dataOffset + wal.header.writeCursor.toNat)
                ((wal.entryFor crc kind payload ts flags).sector crc)
              faults := d.faults.tail }
            wal.header.nextLsn (Device.healthy_after d _ follows.healthy) start
          simp only [perform, appendRaw, writes, refused]
          rw [written]
          refine ⟨settled.1.trans ?_, settled.2⟩
          rw [List.foldl_cons]
          exact written_bytes _ _ _ rfl
  | checkpoint lsn =>
      obtain ⟨count, shorter, trimmed, -, same, -, -⟩ := trim_log crc d lsn entries wal ring
      have sectors : wal.header.usedBytes.toNat / blockSize = entries.length := by
        rw [ring.used]
        exact Nat.mul_div_cancel _ (by decide)
      have start : shorter.dataOffset ≤ d.capacity := by
        unfold dataOffset
        rw [same.base]
        omega
      have settled := settle_writes crc
        { shorter with header := { shorter.header with lastCheckpointLsn := lsn } } d count
        follows.healthy start
      simp only [perform, checkpoint, follows.writable, writes, sectors, trimmed]
      exact settled

/-- A crash in the flush of a header leaves the ring, or the flush is complete. -/
theorem crash_header (crc : Crc) (wal flushing : Wal) (d after : Device) (entries : List WalEntry)
    (ring : Ring crc wal d entries)
    (slot : flushing.headerSlotOffset flushing.activeSlot.other =
      wal.headerSlotOffset wal.activeSlot.other)
    (crash : Crashed (Detected crc wal) (flushing.headerWrites crc) d after) :
    Ring crc wal after entries ∨
      flushing.header.header.generation.toNat + 1 < 2 ^ 64 ∧
        after = (flushing.headerWrites crc).foldl Device.written d := by
  unfold headerWrites at crash ⊢
  split at crash
  · next more =>
      have length : (WalHeader.layout.toBytes (flushing.flushedHeader crc)).length = blockSize :=
        WalHeader.layout.length_to_bytes _
      cases crash with
      | stopped => exact .inl ring
      | torn _ _ _ _ changes detected =>
          rw [length, slot] at changes
          rw [slot] at detected
          exact .inl (ring_torn_header crc wal d after entries ring changes detected)
      | next _ _ _ _ later =>
          cases later with
          | stopped =>
              rw [if_pos more]
              exact .inr ⟨more, rfl⟩
  · cases crash with
    | stopped => exact .inl ring

/-- A crash in a call leaves the ring, or the call is complete. -/
theorem crash_call (crc : Crc) (wal : Wal) (d after : Device) (log : Fifo)
    (entries : List WalEntry) (follows : Follows crc wal d log entries) (call : Call)
    (crash : Crashed (Detected crc wal) (wal.writes crc d call) d after) :
    Ring crc wal after entries ∨
      wal.header.header.generation.toNat + 1 < 2 ^ 64 ∧
        after = (wal.writes crc d call).foldl Device.written d := by
  have ring := follows.ring
  cases call with
  | reopen =>
      cases crash with
      | stopped => exact .inl ring
  | append kind payload ts flags =>
      cases refused : wal.refusal payload flags with
      | some err =>
          simp only [writes, refused] at crash
          cases crash with
          | stopped => exact .inl ring
      | none =>
          have facts := refusal_none wal payload flags refused
          have length := WalEntry.length_sector crc _
            (valid_entry_for crc wal kind payload ts flags refused).fits
          have free : entries.length < wal.dataSectors := by
            have room := facts.2.2.2.2.1
            rw [ring.log.used, dataCapacity] at room
            simp only [blockSize] at room
            omega
          simp only [writes, refused] at crash ⊢
          cases crash with
          | stopped => exact .inl ring
          | torn _ _ _ _ changes _ =>
              rw [length] at changes
              exact .inl (ring_next_sector crc wal d after entries ring free changes)
          | next _ _ _ _ later =>
              have changes := written_changes d
                (wal.dataOffset + wal.header.writeCursor.toNat,
                  (wal.entryFor crc kind payload ts flags).sector crc)
              rw [length] at changes
              have middle := ring_next_sector crc wal d _ entries ring free changes
              have kept := advanced_kept wal
              have slot : wal.advanced.headerSlotOffset wal.advanced.activeSlot.other =
                  wal.headerSlotOffset wal.activeSlot.other := by
                rw [headerSlotOffset, headerSlotOffset, kept.1, kept.2.1]
              have outcome := crash_header crc wal wal.advanced _ after entries middle slot later
              rw [kept.2.2] at outcome
              exact outcome
  | checkpoint lsn =>
      obtain ⟨count, shorter, trimmed, -, same, -, -⟩ := trim_log crc d lsn entries wal ring.log
      have sectors : wal.header.usedBytes.toNat / blockSize = entries.length := by
        rw [ring.log.used]
        exact Nat.mul_div_cancel _ (by decide)
      have slot (marked : WalHeader) :
          ({ shorter with header := marked } : Wal).headerSlotOffset shorter.activeSlot.other =
            wal.headerSlotOffset wal.activeSlot.other := by
        rw [headerSlotOffset, headerSlotOffset, same.base, same.slot]
      simp only [writes, sectors, trimmed] at crash ⊢
      rw [← same.block]
      exact crash_header crc wal
        { shorter with header := { shorter.header with lastCheckpointLsn := lsn } } d after entries
        ring (slot _) crash

/-- After a crash in a call the ring opens and lists, without an error, the entries
that were live before the call or those after it. -/
def SurvivesCrash (crc : Crc) (d : Device) (offset size : Nat) (calls : List Call) (call : Call) :
    Prop :=
  ∃ wal formatted, Wal.format crc d offset size = (.ok wal, formatted) ∧
    let reached := wal.performAll crc formatted calls
    let done := reached.2.1.perform crc reached.2.2 call
    ∀ crashed, Crashed (Detected crc reached.2.1) (reached.2.1.writes crc reached.2.2 call)
        reached.2.2 crashed →
      ∃ opened, ∃ entries : List WalEntry, Wal.open crc crashed offset size = .ok opened ∧
        opened.iterFrom crc crashed 0 = entries.map .ok ∧
        (entries.map .ok = reached.2.1.iterFrom crc reached.2.2 0 ∨
          entries.map .ok = done.2.1.iterFrom crc done.2.2 0)

/-- A crash in one call is survived. -/
theorem call_survives_crash (crc : Crc) (wal : Wal) (d crashed : Device) (log : Fifo)
    (entries : List WalEntry) (follows : Follows crc wal d log entries) (call : Call)
    (crash : Crashed (Detected crc wal) (wal.writes crc d call) d crashed) :
    ∃ opened, ∃ listed : List WalEntry, Wal.open crc crashed wal.base wal.size = .ok opened ∧
      opened.iterFrom crc crashed 0 = listed.map .ok ∧
      (listed.map .ok = wal.iterFrom crc d 0 ∨
        listed.map .ok = (wal.perform crc d call).2.1.iterFrom crc (wal.perform crc d call).2.2 0) := by
  cases crash_call crc wal d crashed log entries follows call crash with
  | inl ring =>
      refine ⟨wal, _, open_ring crc wal crashed entries ring follows.writable,
        iter_from_log crc wal crashed entries ring.log 0, .inl ?_⟩
      rw [iter_from_log crc wal d entries follows.ring.log 0]
  | inr complete =>
      have step := step_follows crc wal d log entries follows call fun _ => complete.1
      obtain ⟨later, together⟩ := step.follows
      have writes := perform_writes crc wal d log entries follows call
      have bytes : crashed.bytes = (wal.perform crc d call).2.2.bytes := by
        rw [complete.2, writes.1]
      have capacity : crashed.capacity = (wal.perform crc d call).2.2.capacity := by
        rw [complete.2, writes.2]
        exact written_capacity _ _
      have ring := ring_bytes crc _ _ crashed later together.ring capacity bytes
      refine ⟨(wal.perform crc d call).2.1, _, ?_, iter_from_log crc _ crashed later ring.log 0,
        .inr ?_⟩
      · rw [← step.place.1, ← step.place.2]
        exact open_ring crc _ crashed later ring together.writable
      · rw [iter_from_log crc _ _ later together.ring.log 0]

/-- Every ring that its header generations can count survives a crash in any call. -/
theorem ring_survives_crash (crc : Crc) (d : Device) (offset size : Nat) (calls : List Call)
    (call : Call) (healthy : d.Healthy) (valid : validSize size = true)
    (inside : offset + size ≤ d.capacity) (bounded : d.capacity < 2 ^ 64)
    (counted : ((Fifo.empty (formatted crc offset size).dataSectors).performAll calls).1.countP
      Outcome.flushes ≤ 2 ^ 64 - 2) : SurvivesCrash crc d offset size calls call := by
  obtain ⟨after, format, ring, final⟩ := format_ring crc d offset size healthy valid inside bounded
  have generation : (formatted crc offset size).header.header.generation.toNat = 1 := rfl
  have follows : Follows crc (formatted crc offset size) after
      (Fifo.empty (formatted crc offset size).dataSectors) [] :=
    ⟨ring, final, rfl, rfl, rfl, rfl, Nat.le_refl 1⟩
  obtain ⟨-, ⟨entries, together⟩, -, base, size_⟩ := run_follows crc calls _ _ _ _ follows
    (by omega)
  refine ⟨_, after, format, ?_⟩
  intro reached done crashed crash
  have survived := call_survives_crash crc _ _ crashed _ entries together call crash
  rw [base, size_] at survived
  exact survived

/-- A crash in the checkpoint that frees a sector used twice. -/
theorem reused_sector_survives :
    validSize (3 * blockSize) = true ∧
      SurvivesCrash crc32c smallDevice 0 (3 * blockSize) reusingCalls (.checkpoint 2) :=
  ⟨by decide, ring_survives_crash crc32c smallDevice 0 (3 * blockSize) reusingCalls (.checkpoint 2)
    small_device_healthy (by decide) (by decide) (by decide) (by decide +kernel)⟩

/-- Without a generation left the ring in memory has an entry that no crash keeps. -/
theorem exhausted_crash (crc : Crc) (d : Device) (offset count : Nat) (healthy : d.Healthy)
    (inside : offset + 3 * blockSize ≤ d.capacity) (bounded : d.capacity < 2 ^ 64)
    (all : count = 2 ^ 64 - 2) (kind : WalOpKind) (payload : List UInt8) (ts : HybridTimestamp)
    (flags : UInt16) (plain : flags &&& walEntryFlagEncrypted = 0)
    (uncompressed : flags &&& walEntryFlagCompressed = 0)
    (fits : payload.length ≤ walMaxPayloadPlaintext) :
    ¬ SurvivesCrash crc d offset (3 * blockSize)
      (List.replicate count (.checkpoint 0) ++ [.append kind payload ts flags])
      (.append kind payload ts flags) := by
  obtain ⟨after, format, -, follows, last, base, size_⟩ :=
    exhausted_follows crc d offset (3 * blockSize) count healthy (by decide) inside bounded all
  have accepted := empty_accepts crc _ _ _ follows payload flags plain uncompressed fits
  obtain ⟨device, failed, changes, log⟩ := append_without_generation crc _ _ [] follows.ring
    follows.healthy kind payload ts flags accepted (Nat.le_of_eq last.symm)
  generalize run : (formatted crc offset (3 * blockSize)).performAll crc after
    (List.replicate count (.checkpoint 0)) = state
    at follows accepted failed changes log base size_
  have sectors : state.2.1.advanced.dataSectors = 1 := by
    have three : (formatted crc offset (3 * blockSize)).dataSectors = 1 := by
      show (3 * blockSize - 2 * blockSize) / blockSize = 1
      decide
    have same : (formatted crc offset (3 * blockSize)).dataSectors = state.2.1.dataSectors :=
      follows.sectors
    show state.2.1.dataSectors = 1
    rw [← same, three]
  have reached : (formatted crc offset (3 * blockSize)).performAll crc after
      (List.replicate count (.checkpoint 0) ++ [.append kind payload ts flags]) =
        (state.1 ++ [.appended (.error .lsnOverflow)], state.2.1.advanced, device) := by
    rw [perform_all_append, run]
    simp only [performAll, perform, failed]
  have full : state.2.1.advanced.refusal payload flags =
      some (.ringFull state.2.1.advanced.header.usedBytes.toNat
        state.2.1.advanced.dataCapacity) := by
    have used := log.used
    rw [List.nil_append, List.length_singleton] at used
    have mode : state.2.1.advanced.readOnly = false := follows.writable
    rw [refusal, if_neg (by simp [mode]), if_neg (by simp [plain]), if_neg (by simp [uncompressed]),
      if_neg (Nat.not_lt.mpr fits), if_pos (by
        rw [used, dataCapacity, sectors]
        decide)]
  have stays : (state.2.1.advanced.perform crc device (.append kind payload ts flags)).2 =
      (state.2.1.advanced, device) := by
    simp only [perform, appendRaw, full]
  -- on the device the sector is not in use
  have ring := ring_next_sector crc state.2.1 state.2.2 device [] follows.ring (by
    have same : state.2.1.dataSectors = 1 := sectors
    rw [same]
    decide) changes
  have opens := open_ring crc state.2.1 device [] ring follows.writable
  intro survives
  obtain ⟨wal, formatted_, formats, survives⟩ := survives
  rw [format] at formats
  cases formats
  simp only at survives
  rw [reached] at survives
  obtain ⟨opened, listed, opened_, lists, either⟩ := survives device (.stopped _ _)
  simp only at either
  rw [stays, iter_from_log crc _ _ _ log 0] at either
  rw [base, size_] at opens
  rw [opens] at opened_
  cases opened_
  rw [iter_from_log crc _ _ _ ring.log 0] at lists
  rw [← lists] at either
  simp at either

/-- As many checkpoints as there are generations, an append that fails, and a crash
before the next one has written anything. -/
theorem exhausted_ring_loses_entry :
    ¬ SurvivesCrash crc32c smallDevice 0 (3 * blockSize) exhaustingCalls
      (.append .createObject [1, 2] ⟨7, 0, 1⟩ 0) :=
  exhausted_crash crc32c smallDevice 0 (2 ^ 64 - 2) small_device_healthy (by decide) (by decide)
    rfl .createObject [1, 2] ⟨7, 0, 1⟩ 0 (by decide) (by decide) (by decide)

end Wal

end Mimisbrunnr
