import Mimisbrunnr.Wal.Ring

/-!
# The ring as a log

`Ring` states that a ring and its device hold a list of entries, the oldest
first: the sectors from the read cursor on are their frames, and the newest valid
header on the device is the one in memory. Appending adds an entry at the end,
a checkpoint drops entries from the front, iterating lists them and opening finds
the same header again.
-/

namespace Mimisbrunnr.Wal

set_option autoImplicit false

open Mimisbrunnr.Lib.ByteStore
open Mimisbrunnr.Lib.Layout
open Mimisbrunnr.Storage

namespace WalEntry

/-- An entry as `append_raw` builds it. -/
structure Valid (crc : Crc) (entry : WalEntry) : Prop where
  magic : entry.header.magic = walEntryMagic
  length : entry.payload.length = entry.header.payloadLength.toNat
  fits : entry.payload.length ≤ walMaxPayloadPlaintext
  payloadCrc : entry.header.payloadCrc = crc entry.payload
  plain : entry.header.flags &&& walEntryFlagEncrypted = 0
  uncompressed : entry.header.flags &&& walEntryFlagCompressed = 0

private theorem length_frame (crc : Crc) (entry : WalEntry) :
    (entry.frame crc).length = 44 + entry.payload.length := by
  simp only [frame, List.length_append, WalEntryHeader.layout.length_to_bytes,
    WalEntryHeader.layout_size, Pod.u32.length_to_bytes]
  have four : Pod.u32.size = 4 := rfl
  omega

theorem length_sector (crc : Crc) (entry : WalEntry)
    (fits : entry.payload.length ≤ walMaxPayloadPlaintext) :
    (entry.sector crc).length = walSectorSize := by
  have bound : walMaxPayloadPlaintext = 4052 := rfl
  have size : walSectorSize = 4096 := rfl
  simp only [sector, List.length_append, List.length_replicate, length_frame]
  omega

theorem header_of_sector (crc : Crc) (entry : WalEntry) :
    headerOf (entry.sector crc) = entry.header := by
  simp only [headerOf, sector, frame, List.append_assoc]
  exact WalEntryHeader.layout.of_bytes_take entry.header _

theorem decode_sector (crc : Crc) (entry : WalEntry) (valid : entry.Valid crc) :
    decode crc (entry.sector crc) = .ok entry := by
  have bound : walMaxPayloadPlaintext = 4052 := rfl
  have size : walSectorSize = 4096 := rfl
  have crcSize : walFramingCrcLen = 4 := rfl
  have fits := valid.fits
  have length := valid.length
  -- the sector is the header, the payload, the checksum of both and zeros
  have covered : (WalEntryHeader.layout.toBytes entry.header ++ entry.payload).length =
      WalEntryHeader.layout.size + entry.header.payloadLength.toNat := by
    rw [List.length_append, WalEntryHeader.layout.length_to_bytes, length]
  have whole : entry.sector crc =
      (WalEntryHeader.layout.toBytes entry.header ++ entry.payload) ++
        (Pod.u32.toBytes (crc (WalEntryHeader.layout.toBytes entry.header ++ entry.payload)) ++
          List.replicate (walSectorSize - (entry.frame crc).length) 0) := by
    simp only [sector, frame, List.append_assoc]
  have before : (entry.sector crc).take
      (WalEntryHeader.layout.size + entry.header.payloadLength.toNat) =
        WalEntryHeader.layout.toBytes entry.header ++ entry.payload := by
    rw [whole, List.take_left' covered]
  have stored : Pod.u32.ofBytes (((entry.sector crc).drop
      (WalEntryHeader.layout.size + entry.header.payloadLength.toNat)).take walFramingCrcLen) =
        crc (WalEntryHeader.layout.toBytes entry.header ++ entry.payload) := by
    rw [whole, List.drop_left' covered]
    exact Pod.u32.of_bytes_take _ _
  have payload : ((entry.sector crc).drop WalEntryHeader.layout.size).take
      entry.header.payloadLength.toNat = entry.payload := by
    rw [whole, List.append_assoc,
      List.drop_left' (WalEntryHeader.layout.length_to_bytes entry.header),
      List.take_left' length]
  have enough : ¬ walSectorSize <
      WalEntryHeader.layout.size + entry.header.payloadLength.toNat + walFramingCrcLen := by
    have headerSize : WalEntryHeader.layout.size = 40 := WalEntryHeader.layout_size
    omega
  simp only [decode, header_of_sector, WalEntryHeader.checkMagic, valid.magic, if_true,
    if_neg enough, stored, before, ne_eq, not_true_eq_false, if_false, payload, valid.payloadCrc,
    valid.plain, valid.uncompressed]

end WalEntry

namespace WalHeader

/-- A header whose checksum is right and whose block is recognised. -/
structure Valid (crc : Crc) (h : WalHeader) : Prop where
  kind : h.header.kind = BlockKind.walSegment.toU16
  version : h.header.formatVersion = walHeaderFormatVersion
  checksum : h.crc = crc ((layout.toBytes h).take crcOffset)

theorem take_to_bytes (h : WalHeader) :
    (layout.toBytes h).take crcOffset =
      body.toBytes (h.header, h.nextLsn, h.writeCursor, h.readCursor, h.usedBytes,
        h.lastCheckpointLsn, h.segmentSize, ()) :=
  body.take_prod Pod.u32
    ((h.header, h.nextLsn, h.writeCursor, h.readCursor, h.usedBytes, h.lastCheckpointLsn,
      h.segmentSize, ()), h.crc)

theorem valid_recompute (crc : Crc) (h : WalHeader)
    (kind : h.header.kind = BlockKind.walSegment.toU16)
    (version : h.header.formatVersion = walHeaderFormatVersion) :
    (h.recomputeCrc crc).Valid crc where
  kind := kind
  version := version
  checksum := by
    rw [take_to_bytes, recomputeCrc, take_to_bytes]

end WalHeader

theorem candidate_to_bytes (crc : Crc) (h : WalHeader) (valid : h.Valid crc) :
    candidate crc (WalHeader.layout.toBytes h) = some h := by
  have kind : h.verifyKind = .ok () := by
    simp only [WalHeader.verifyKind, valid.kind, BlockKind.from_to_u16, valid.version, ne_eq,
      not_true_eq_false, if_false]
  have checksum : WalHeader.verifyCrc crc (WalHeader.layout.toBytes h) = .ok () := by
    simp only [WalHeader.verifyCrc, WalHeader.layout.of_to_bytes, ← valid.checksum, if_true]
  simp only [candidate, WalHeader.layout.of_to_bytes, kind, checksum]

end Mimisbrunnr.Wal

namespace Mimisbrunnr

set_option autoImplicit false

open Mimisbrunnr.Lib.ByteStore
open Mimisbrunnr.Lib.Layout
open Mimisbrunnr.Storage
open Mimisbrunnr.Types
open Mimisbrunnr.Wal

namespace Wal

def firstSector (wal : Wal) : Nat := wal.header.readCursor.toNat / blockSize

def sectorAt (wal : Wal) (index : Nat) : Nat :=
  wal.dataOffset + (wal.firstSector + index) % wal.dataSectors * blockSize

/-- The sectors in use hold the entries, the oldest first. -/
structure Log (crc : Crc) (wal : Wal) (d : Device) (entries : List WalEntry) : Prop where
  size : validSize wal.size = true
  inside : wal.base + wal.size ≤ d.capacity
  bounded : d.capacity < 2 ^ 64
  aligned : wal.header.readCursor.toNat = wal.firstSector * blockSize
  first : wal.firstSector < wal.dataSectors
  used : wal.header.usedBytes.toNat = entries.length * blockSize
  room : entries.length ≤ wal.dataSectors
  write : wal.header.writeCursor.toNat =
    (wal.firstSector + entries.length) % wal.dataSectors * blockSize
  stored : ∀ index entry, entries[index]? = some entry →
    read d.bytes (wal.sectorAt index) walSectorSize = entry.sector crc
  valid : ∀ entry ∈ entries, entry.Valid crc
  numbered : ∀ index entry, entries[index]? = some entry →
    entry.header.lsn.toNat + entries.length = wal.header.nextLsn.toNat + index

theorem sectors_fit (wal : Wal) (size : validSize wal.size = true) :
    2 * blockSize + wal.dataSectors * blockSize = wal.size := by
  have facts : wal.size ≠ 0 ∧ wal.size % blockSize = 0 ∧ 3 * blockSize ≤ wal.size := by
    simpa [validSize, and_assoc] using size
  unfold dataSectors
  simp only [blockSize] at facts ⊢
  omega

theorem sector_inside (wal : Wal) (size : validSize wal.size = true) (sector : Nat)
    (below : sector < wal.dataSectors) :
    wal.dataOffset + sector * blockSize + walSectorSize ≤ wal.base + wal.size := by
  have fits := sectors_fit wal size
  have block : blockSize = 4096 := rfl
  have sectorSize : walSectorSize = 4096 := rfl
  unfold dataOffset
  have scaled : sector * blockSize + blockSize ≤ wal.dataSectors * blockSize := by
    have step := Nat.mul_le_mul_right blockSize below
    rwa [Nat.succ_mul] at step
  omega

theorem sector_mod_lt (wal : Wal) (size : validSize wal.size = true) (index : Nat) :
    index % wal.dataSectors < wal.dataSectors := by
  apply Nat.mod_lt
  have facts : wal.size ≠ 0 ∧ wal.size % blockSize = 0 ∧ 3 * blockSize ≤ wal.size := by
    simpa [validSize, and_assoc] using size
  unfold dataSectors
  simp only [blockSize] at facts ⊢
  omega

theorem mod_ne_of_lt {size first left right : Nat} (order : left < right)
    (within : right < left + size) : (first + left) % size ≠ (first + right) % size := by
  intro same
  have equal : (right - left) % size = 0 := by
    have zero := Nat.sub_mod_eq_zero_of_mod_eq same.symm
    rwa [Nat.add_sub_add_left] at zero
  have small : (right - left) % size = right - left := Nat.mod_eq_of_lt (by omega)
  omega

theorem sectors_apart (offset left right : Nat) (different : left ≠ right) :
    Apart (offset + left * blockSize) walSectorSize (offset + right * blockSize) walSectorSize := by
  unfold Apart
  simp only [blockSize, walSectorSize]
  cases Nat.lt_or_gt_of_ne different with
  | inl below => left; omega
  | inr above => right; omega

/-- What a change of the device outside the data area leaves alone. -/
theorem log_frame (crc : Crc) (wal : Wal) (d after : Device) (entries : List WalEntry)
    (log : Log crc wal d entries) (capacity : after.capacity = d.capacity)
    (same : ∀ address, wal.dataOffset ≤ address → address < wal.base + wal.size →
      after.bytes address = d.bytes address) :
    Log crc wal after entries where
  size := log.size
  inside := by rw [capacity]; exact log.inside
  bounded := by rw [capacity]; exact log.bounded
  aligned := log.aligned
  first := log.first
  used := log.used
  room := log.room
  write := log.write
  valid := log.valid
  numbered := log.numbered
  stored := by
    intro index entry found
    rw [← log.stored index entry found]
    apply read_congr
    intro address after_ before
    have fits := sector_inside wal log.size _ (sector_mod_lt wal log.size (wal.firstSector + index))
    unfold sectorAt at after_ before
    exact same address (by omega) (by omega)

theorem refusal_none (wal : Wal) (payload : List UInt8) (flags : UInt16)
    (accepted : wal.refusal payload flags = none) :
    wal.readOnly = false ∧ flags &&& walEntryFlagEncrypted = 0 ∧
      flags &&& walEntryFlagCompressed = 0 ∧ payload.length ≤ walMaxPayloadPlaintext ∧
      wal.header.usedBytes.toNat + blockSize ≤ wal.dataCapacity ∧
      wal.header.nextLsn.toNat + 1 < 2 ^ 64 := by
  simp only [refusal] at accepted
  split at accepted
  · cases accepted
  split at accepted
  · cases accepted
  split at accepted
  · cases accepted
  split at accepted
  · cases accepted
  split at accepted
  · cases accepted
  split at accepted
  · cases accepted
  · next writable plain uncompressed fits room lsn =>
      exact ⟨by simpa using writable, by simpa using plain, by simpa using uncompressed,
        Nat.le_of_not_lt fits, Nat.le_of_not_lt room, Nat.lt_of_not_le lsn⟩

theorem valid_entry_for (crc : Crc) (wal : Wal) (kind : WalOpKind) (payload : List UInt8)
    (ts : HybridTimestamp) (flags : UInt16) (accepted : wal.refusal payload flags = none) :
    (wal.entryFor crc kind payload ts flags).Valid crc := by
  have facts := refusal_none wal payload flags accepted
  have bound : walMaxPayloadPlaintext = 4052 := rfl
  refine ⟨rfl, ?_, facts.2.2.2.1, rfl, facts.2.1, facts.2.2.1⟩
  simp only [entryFor, WalEntryHeader.new, UInt32.toNat_ofNat']
  omega

theorem next_cursor (sector sectors : Nat) :
    (sector % sectors * blockSize + blockSize) % (sectors * blockSize) =
      (sector + 1) % sectors * blockSize := by
  rw [← Nat.succ_mul, Nat.mul_mod_mul_right, Nat.succ_eq_add_one, Nat.mod_add_mod]

theorem cursor_lt (crc : Crc) (wal : Wal) (d : Device) (entries : List WalEntry)
    (log : Log crc wal d entries) (sector : Nat) :
    sector % wal.dataSectors * blockSize < 2 ^ 64 := by
  have below := sector_mod_lt wal log.size sector
  have inside := sector_inside wal log.size _ below
  have capacity := log.inside
  have bounded := log.bounded
  have sectorSize : walSectorSize = 4096 := rfl
  omega

/-- A frame written at the write cursor is the newest entry. -/
theorem log_append (crc : Crc) (wal : Wal) (d after : Device) (entries : List WalEntry)
    (log : Log crc wal d entries) (kind : WalOpKind) (payload : List UInt8)
    (ts : HybridTimestamp) (flags : UInt16) (accepted : wal.refusal payload flags = none)
    (capacity : after.capacity = d.capacity)
    (written : after.bytes = overwrite d.bytes (wal.dataOffset + wal.header.writeCursor.toNat)
      ((wal.entryFor crc kind payload ts flags).sector crc)) :
    Log crc wal.advanced after (entries ++ [wal.entryFor crc kind payload ts flags]) := by
  have facts := refusal_none wal payload flags accepted
  have block : blockSize = 4096 := rfl
  have valid := valid_entry_for crc wal kind payload ts flags accepted
  have frame := WalEntry.length_sector crc _ valid.fits
  have full : wal.header.usedBytes.toNat + blockSize ≤ wal.dataSectors * blockSize :=
    facts.2.2.2.2.1
  have room : entries.length + 1 ≤ wal.dataSectors := by
    rw [log.used, ← Nat.succ_mul] at full
    exact Nat.le_of_mul_le_mul_right full (by decide)
  have cursor := cursor_lt crc wal d entries log
  have reservation := sectors_fit wal log.size
  have inside := log.inside
  have bounded := log.bounded
  have target : wal.dataOffset + wal.header.writeCursor.toNat = wal.sectorAt entries.length := by
    rw [log.write]
    rfl
  constructor
  · exact log.size
  · rw [capacity]
    exact log.inside
  · rw [capacity]
    exact log.bounded
  · exact log.aligned
  · exact log.first
  · -- one more sector is in use
    have sum : (wal.header.usedBytes + UInt64.ofNat blockSize).toNat =
        wal.header.usedBytes.toNat + blockSize := by
      rw [UInt64.toNat_add, UInt64.toNat_ofNat', block]
      omega
    rw [List.length_append, List.length_singleton, Nat.add_mul, Nat.one_mul, ← log.used]
    exact sum
  · rw [List.length_append, List.length_singleton]
    exact room
  · -- the write cursor moves to the next sector
    have next : (wal.header.writeCursor.toNat + blockSize) % wal.dataCapacity =
        (wal.firstSector + entries.length + 1) % wal.dataSectors * blockSize := by
      rw [log.write]
      exact next_cursor _ _
    have small := cursor (wal.firstSector + entries.length + 1)
    have moved : (UInt64.ofNat ((wal.header.writeCursor.toNat + blockSize) %
        wal.dataCapacity)).toNat =
          (wal.firstSector + entries.length + 1) % wal.dataSectors * blockSize := by
      rw [next, UInt64.toNat_ofNat', Nat.mod_eq_of_lt small]
    rw [List.length_append, List.length_singleton]
    exact moved
  · intro index entry found
    rw [written, target]
    have same : wal.advanced.sectorAt index = wal.sectorAt index := rfl
    rw [same]
    cases Nat.lt_or_ge index entries.length with
    | inl older =>
        rw [List.getElem?_append_left older] at found
        rw [read_overwrite_apart, log.stored index entry found]
        rw [frame]
        apply sectors_apart
        exact (mod_ne_of_lt older (by omega)).symm
    | inr newer =>
        have last : index = entries.length := by
          have below : index < (entries ++ [wal.entryFor crc kind payload ts flags]).length :=
            (List.getElem?_eq_some_iff.mp found).1
          simp only [List.length_append, List.length_singleton] at below
          omega
        subst last
        rw [List.getElem?_append_right (Nat.le_refl _), Nat.sub_self] at found
        cases found
        rw [← frame]
        exact read_overwrite _ _ _
  · intro entry member
    cases List.mem_append.mp member with
    | inl older => exact log.valid entry older
    | inr newer =>
        rw [List.mem_singleton.mp newer]
        exact valid
  · intro index entry found
    have next : wal.advanced.header.nextLsn.toNat = wal.header.nextLsn.toNat + 1 := by
      simp only [advanced, UInt64.toNat_add]
      have one : (1 : UInt64).toNat = 1 := rfl
      have bound := facts.2.2.2.2.2
      omega
    rw [next]
    cases Nat.lt_or_ge index entries.length with
    | inl older =>
        rw [List.getElem?_append_left older] at found
        have number := log.numbered index entry found
        simp only [List.length_append, List.length_singleton]
        omega
    | inr newer =>
        rw [List.getElem?_append_right newer] at found
        have last : index = entries.length := by
          have below := (List.getElem?_eq_some_iff.mp found).1
          simp only [List.length_singleton] at below
          omega
        subst last
        rw [Nat.sub_self] at found
        cases found
        simp only [entryFor, WalEntryHeader.new, List.length_append, List.length_singleton]
        omega

/-- The ring holds the entries and its header is the newest valid one on the device. -/
structure Ring (crc : Crc) (wal : Wal) (d : Device) (entries : List WalEntry) : Prop where
  log : Log crc wal d entries
  valid : wal.header.Valid crc
  active : read d.bytes (wal.headerSlotOffset wal.activeSlot) blockSize =
    WalHeader.layout.toBytes wal.header
  stale : ∀ h, candidate crc (read d.bytes (wal.headerSlotOffset wal.activeSlot.other) blockSize) =
    some h → h.header.generation.toNat < wal.header.header.generation.toNat

/-- What a flush of the header and a sync that succeed have done. -/
theorem settle_ok {α : Type} (crc : Crc) (wal after : Wal) (d settled : Device)
    (result returned : α) (ok : wal.settle crc d result = (.ok returned, after, settled)) :
    returned = result ∧ wal.header.header.generation.toNat + 1 < 2 ^ 64 ∧
      after =
        { wal with
          header := WalHeader.recomputeCrc crc
            { wal.header with
              header :=
                { wal.header.header with generation := wal.header.header.generation + 1 } }
          activeSlot := wal.activeSlot.other } ∧
      settled.capacity = d.capacity ∧
      settled.bytes = overwrite d.bytes (wal.headerSlotOffset wal.activeSlot.other)
        (WalHeader.layout.toBytes after.header) := by
  simp only [settle, flushHeader] at ok
  split at ok
  · next failed =>
      split at failed
      · split at failed <;> cases failed
        cases ok
      · cases failed
        cases ok
  · next flushed device done =>
      split at done
      · next bound =>
          split at done
          · cases done
          · next synced written =>
              cases done
              split at ok
              · cases ok
              · next final finished =>
                  cases ok
                  have write := Device.write_at_ok _ _ _ _ written
                  have sync := Device.sync_ok _ _ finished
                  subst sync
                  refine ⟨rfl, bound, rfl, ?_, ?_⟩
                  · rw [write.2]
                  · rw [write.2]
                    rfl
      · cases done

/-- Bytes outside the reservation of the ring are the same on both devices. -/
def KeepsOutside (wal : Wal) (before after : Device) : Prop :=
  after.capacity = before.capacity ∧
    ∀ address, address < wal.base ∨ wal.base + wal.size ≤ address →
      after.bytes address = before.bytes address

theorem keeps_outside_trans (wal : Wal) {first second third : Device}
    (left : wal.KeepsOutside first second) (right : wal.KeepsOutside second third) :
    wal.KeepsOutside first third := by
  refine ⟨right.1.trans left.1, ?_⟩
  intro address outside
  rw [right.2 address outside, left.2 address outside]

theorem header_slot_inside (wal : Wal) (slot : HeaderSlot) :
    wal.base ≤ wal.headerSlotOffset slot ∧
      wal.headerSlotOffset slot + blockSize ≤ wal.dataOffset := by
  unfold headerSlotOffset dataOffset
  cases slot <;> simp only [HeaderSlot.index, blockSize] <;> omega

theorem header_slots_apart (wal : Wal) (slot : HeaderSlot) :
    Apart (wal.headerSlotOffset slot) blockSize (wal.headerSlotOffset slot.other) blockSize := by
  unfold Apart headerSlotOffset
  cases slot <;> simp only [HeaderSlot.index, HeaderSlot.other, blockSize] <;> omega

/-- A settled header is the newest valid one. -/
theorem settle_ring {α : Type} (crc : Crc) (wal after : Wal) (d settled : Device)
    (entries : List WalEntry) (result returned : α) (log : Log crc wal d entries)
    (kind : wal.header.header.kind = BlockKind.walSegment.toU16)
    (version : wal.header.header.formatVersion = walHeaderFormatVersion)
    (older : ∀ h, candidate crc (read d.bytes (wal.headerSlotOffset wal.activeSlot) blockSize) =
      some h → h.header.generation.toNat ≤ wal.header.header.generation.toNat)
    (ok : wal.settle crc d result = (.ok returned, after, settled)) :
    Ring crc after settled entries ∧ wal.KeepsOutside d settled := by
  have facts := settle_ok crc wal after d settled result returned ok
  have bound := facts.2.1
  have capacity := facts.2.2.2.1
  have written := facts.2.2.2.2
  have length : (WalHeader.layout.toBytes after.header).length = blockSize :=
    WalHeader.layout.length_to_bytes _
  have generation : after.header.header.generation.toNat =
      wal.header.header.generation.toNat + 1 := by
    rw [facts.2.2.1]
    simp only [WalHeader.recomputeCrc, UInt64.toNat_add]
    have one : (1 : UInt64).toNat = 1 := rfl
    omega
  have slot : after.activeSlot = wal.activeSlot.other := by rw [facts.2.2.1]
  have place (s : HeaderSlot) : after.headerSlotOffset s = wal.headerSlotOffset s := by
    rw [facts.2.2.1]
    rfl
  have reservation := sectors_fit wal log.size
  have apart := header_slots_apart wal wal.activeSlot.other
  refine ⟨⟨?_, ?_, ?_, ?_⟩, capacity, ?_⟩
  · have moved : Log crc after d entries := by
      rw [facts.2.2.1]
      exact ⟨log.size, log.inside, log.bounded, log.aligned, log.first, log.used, log.room,
        log.write, log.stored, log.valid, log.numbered⟩
    apply log_frame crc after d settled entries moved capacity
    intro address low _
    rw [written]
    apply overwrite_outside
    have before := header_slot_inside wal wal.activeSlot.other
    have same : after.dataOffset = wal.dataOffset := by
      rw [facts.2.2.1]
      rfl
    rw [length]
    omega
  · rw [facts.2.2.1]
    exact WalHeader.valid_recompute crc _ kind version
  · rw [slot, place, written, ← length]
    exact read_overwrite _ _ _
  · intro h found
    have back : wal.activeSlot.other.other = wal.activeSlot := by
      cases wal.activeSlot <;> rfl
    rw [back] at apart
    rw [slot, place, back, written, read_overwrite_apart _ _ _ _ _ (by rwa [length])] at found
    have small := older h found
    omega
  · intro address outside
    rw [written]
    apply overwrite_outside
    have before := header_slot_inside wal wal.activeSlot.other
    have start : wal.dataOffset = wal.base + 2 * blockSize := rfl
    rw [length]
    omega

/-- An append that succeeds adds its entry at the end and makes its header the newest one, if the
active slot held no newer one. -/
theorem append_settled (crc : Crc) (wal after : Wal) (d appended : Device)
    (entries : List WalEntry) (log : Log crc wal d entries)
    (block : wal.header.header.kind = BlockKind.walSegment.toU16)
    (version : wal.header.header.formatVersion = walHeaderFormatVersion)
    (older : ∀ h, candidate crc (read d.bytes (wal.headerSlotOffset wal.activeSlot) blockSize) =
      some h → h.header.generation.toNat ≤ wal.header.header.generation.toNat)
    (kind : WalOpKind) (payload : List UInt8) (ts : HybridTimestamp) (flags : UInt16) (lsn : UInt64)
    (ok : wal.appendRaw crc d kind payload ts flags = (.ok lsn, after, appended)) :
    lsn = wal.header.nextLsn ∧
      Ring crc after appended (entries ++ [wal.entryFor crc kind payload ts flags]) ∧
      wal.KeepsOutside d appended ∧ after.base = wal.base ∧ after.size = wal.size := by
  simp only [appendRaw] at ok
  split at ok
  · cases ok
  · next accepted =>
      split at ok
      · cases ok
      · next middle written =>
          have write := Device.write_at_ok _ _ _ _ written
          have length := WalEntry.length_sector crc _
            (valid_entry_for crc wal kind payload ts flags accepted).fits
          have longer := log_append crc wal d middle entries log kind payload ts flags accepted
            (by rw [write.2]) (by rw [write.2])
          have target := sector_inside wal log.size _
            (sector_mod_lt wal log.size (wal.firstSector + entries.length))
          rw [← log.write] at target
          have start : wal.dataOffset = wal.base + 2 * blockSize := rfl
          have kept : wal.KeepsOutside d middle := by
            refine ⟨by rw [write.2], ?_⟩
            intro address outside
            rw [write.2]
            apply overwrite_outside
            rw [length]
            omega
          -- the header the active slot holds is the one before the append
          have untouched : read middle.bytes (wal.headerSlotOffset wal.activeSlot) blockSize =
              read d.bytes (wal.headerSlotOffset wal.activeSlot) blockSize := by
            rw [write.2]
            apply read_overwrite_apart
            have before := header_slot_inside wal wal.activeSlot
            right
            omega
          have settled := settle_ring crc wal.advanced after middle appended _ _ lsn longer
            block version (by
              intro h found
              have same : wal.advanced.headerSlotOffset wal.advanced.activeSlot =
                  wal.headerSlotOffset wal.activeSlot := rfl
              rw [same, untouched] at found
              exact older h found) ok
          have facts := settle_ok crc wal.advanced after middle appended _ lsn ok
          refine ⟨facts.1, settled.1, keeps_outside_trans wal kept settled.2, ?_, ?_⟩
          · rw [facts.2.2.1]
            rfl
          · rw [facts.2.2.1]
            rfl

/-- An append to a ring adds its entry at the end. -/
theorem append_ring (crc : Crc) (wal after : Wal) (d appended : Device)
    (entries : List WalEntry) (ring : Ring crc wal d entries) (kind : WalOpKind)
    (payload : List UInt8) (ts : HybridTimestamp) (flags : UInt16) (lsn : UInt64)
    (ok : wal.appendRaw crc d kind payload ts flags = (.ok lsn, after, appended)) :
    lsn = wal.header.nextLsn ∧
      Ring crc after appended (entries ++ [wal.entryFor crc kind payload ts flags]) ∧
      wal.KeepsOutside d appended ∧ after.base = wal.base ∧ after.size = wal.size := by
  refine append_settled crc wal after d appended entries ring.log ring.valid.kind
    ring.valid.version ?_ kind payload ts flags lsn ok
  intro h found
  rw [ring.active, candidate_to_bytes crc wal.header ring.valid] at found
  cases found
  exact Nat.le_refl _

/-- What trimming leaves of a ring besides its cursors. -/
structure SameRing (before after : Wal) : Prop where
  base : after.base = before.base
  size : after.size = before.size
  slot : after.activeSlot = before.activeSlot
  block : after.header.header = before.header.header
  nextLsn : after.header.nextLsn = before.header.nextLsn
  write : after.header.writeCursor = before.header.writeCursor

private theorem same_ring_cursor (wal : Wal) (cursor used : UInt64) :
    SameRing wal
      { wal with header := { wal.header with readCursor := cursor, usedBytes := used } } :=
  ⟨rfl, rfl, rfl, rfl, rfl, rfl⟩

theorem same_ring_reclaimed (wal : Wal) : SameRing wal wal.reclaimed :=
  same_ring_cursor wal _ _

private theorem read_only_reclaimed (wal : Wal) : wal.reclaimed.readOnly = wal.readOnly := by
  unfold reclaimed
  rfl

private theorem same_ring_trans {first second third : Wal} (left : SameRing first second)
    (right : SameRing second third) : SameRing first third := by
  constructor
  · exact right.base.trans left.base
  · exact right.size.trans left.size
  · exact right.slot.trans left.slot
  · exact right.block.trans left.block
  · exact right.nextLsn.trans left.nextLsn
  · exact right.write.trans left.write

theorem log_reclaimed (crc : Crc) (wal : Wal) (d : Device) (entry : WalEntry)
    (rest : List WalEntry) (log : Log crc wal d (entry :: rest)) :
    Log crc wal.reclaimed d rest := by
  have same := same_ring_reclaimed wal
  have sectors : wal.reclaimed.dataSectors = wal.dataSectors := by
    rw [dataSectors, same.size, ← dataSectors]
  have offset : wal.reclaimed.dataOffset = wal.dataOffset := by
    rw [dataOffset, same.base, ← dataOffset]
  have cursor := cursor_lt crc wal d _ log (wal.firstSector + 1)
  have used := log.used
  have room := log.room
  rw [List.length_cons] at used room
  have next : (wal.header.readCursor.toNat + blockSize) % wal.dataCapacity =
      (wal.firstSector + 1) % wal.dataSectors * blockSize := by
    have turn := next_cursor wal.firstSector wal.dataSectors
    rw [Nat.mod_eq_of_lt log.first, ← log.aligned] at turn
    exact turn
  have moved : wal.reclaimed.header.readCursor.toNat =
      (wal.firstSector + 1) % wal.dataSectors * blockSize := by
    simp only [reclaimed, next, UInt64.toNat_ofNat']
    exact Nat.mod_eq_of_lt cursor
  have first : wal.reclaimed.firstSector = (wal.firstSector + 1) % wal.dataSectors := by
    rw [firstSector, moved]
    exact Nat.mul_div_cancel _ (by decide)
  have position (index : Nat) :
      (wal.reclaimed.firstSector + index) % wal.dataSectors =
        (wal.firstSector + (index + 1)) % wal.dataSectors := by
    rw [first, Nat.mod_add_mod]
    congr 1
    omega
  have place (index : Nat) : wal.reclaimed.sectorAt index = wal.sectorAt (index + 1) := by
    rw [sectorAt, sectorAt, offset, sectors, position]
  have fewer : wal.reclaimed.header.usedBytes.toNat = rest.length * blockSize := by
    have whole : (UInt64.ofNat blockSize).toNat = blockSize := by decide
    have enough : blockSize ≤ (rest.length + 1) * blockSize :=
      Nat.le_mul_of_pos_left blockSize (Nat.succ_pos _)
    rw [reclaimed, UInt64.toNat_sub_of_le _ _ (by
      rw [UInt64.le_iff_toNat_le, whole, used]
      exact enough), used, whole, Nat.succ_mul]
    exact Nat.add_sub_cancel _ _
  constructor
  · rw [same.size]
    exact log.size
  · rw [same.base, same.size]
    exact log.inside
  · exact log.bounded
  · rw [moved, first]
  · rw [first, sectors]
    exact sector_mod_lt wal log.size _
  · exact fewer
  · rw [sectors]
    exact Nat.le_of_succ_le room
  · rw [same.write, log.write, sectors, position, List.length_cons]
  · intro index later found
    rw [place]
    exact log.stored (index + 1) later found
  · intro later member
    exact log.valid later (List.mem_cons_of_mem entry member)
  · intro index later found
    have number := log.numbered (index + 1) later found
    rw [same.nextLsn]
    rw [List.length_cons] at number
    omega

/-- Trimming drops the entries up to the checkpoint and counts them. -/
theorem trim_log (crc : Crc) (d : Device) (lsn : UInt64) (entries : List WalEntry) :
    ∀ wal, Log crc wal d entries →
      ∃ count after, trim d lsn entries.length wal = (.ok count, after) ∧
        Log crc after d (entries.dropWhile fun entry => !decide (lsn < entry.header.lsn)) ∧
        SameRing wal after ∧ after.readOnly = wal.readOnly ∧
        count + (entries.dropWhile fun entry => !decide (lsn < entry.header.lsn)).length =
          entries.length := by
  induction entries with
  | nil =>
      intro wal log
      exact ⟨0, wal, rfl, log, ⟨rfl, rfl, rfl, rfl, rfl, rfl⟩, rfl, rfl⟩
  | cons entry rest ih =>
      intro wal log
      have inside := sector_inside wal log.size _ log.first
      have start : wal.sectorAt 0 = wal.dataOffset + wal.header.readCursor.toNat := by
        rw [log.aligned, sectorAt, Nat.add_zero, Nat.mod_eq_of_lt log.first]
      have stored := log.stored 0 entry rfl
      rw [start] at stored
      have sector : d.readAt (wal.dataOffset + wal.header.readCursor.toNat) walSectorSize =
          .ok (entry.sector crc) := by
        rw [Device.read_at_ok, stored]
        have capacity := log.inside
        rw [log.aligned]
        omega
      have magic : entry.header.checkMagic = .ok () := by
        rw [WalEntryHeader.checkMagic, if_pos (log.valid entry List.mem_cons_self).magic]
      rw [List.length_cons]
      simp only [trim, sector, WalEntry.header_of_sector, magic]
      by_cases beyond : lsn < entry.header.lsn
      · rw [List.dropWhile_cons_of_neg (by simp [beyond])]
        refine ⟨0, wal, by rw [if_pos beyond], log, ⟨rfl, rfl, rfl, rfl, rfl, rfl⟩, rfl, ?_⟩
        rw [List.length_cons, Nat.zero_add]
      · rw [List.dropWhile_cons_of_pos (by simp [beyond])]
        cases ih wal.reclaimed (log_reclaimed crc wal d entry rest log) with
        | intro count found =>
            cases found with
            | intro after facts =>
                refine ⟨count + 1, after, ?_, facts.2.1,
                  same_ring_trans (same_ring_reclaimed wal) facts.2.2.1,
                  facts.2.2.2.1.trans (read_only_reclaimed wal), ?_⟩
                · rw [if_neg beyond, facts.1]
                  rfl
                · have number := facts.2.2.2.2
                  omega

/-- A checkpoint that succeeds drops the entries up to it. -/
theorem checkpoint_ring (crc : Crc) (wal after : Wal) (d trimmed : Device)
    (entries : List WalEntry) (ring : Ring crc wal d entries) (lsn : UInt64) (count : Nat)
    (ok : wal.checkpoint crc d lsn = (.ok count, after, trimmed)) :
    Ring crc after trimmed (entries.dropWhile fun entry => !decide (lsn < entry.header.lsn)) ∧
      wal.KeepsOutside d trimmed ∧ after.base = wal.base ∧ after.size = wal.size ∧
      after.header.nextLsn = wal.header.nextLsn := by
  have sectors : wal.header.usedBytes.toNat / blockSize = entries.length := by
    rw [ring.log.used]
    exact Nat.mul_div_cancel _ (by decide)
  obtain ⟨reclaimed, shorter, facts⟩ := trim_log crc d lsn entries wal ring.log
  simp only [checkpoint, sectors, facts.1] at ok
  split at ok
  · cases ok
  · let marked : Wal :=
      { shorter with header := { shorter.header with lastCheckpointLsn := lsn } }
    have log : Log crc marked d
        (entries.dropWhile fun entry => !decide (lsn < entry.header.lsn)) := by
      have kept := facts.2.1
      exact ⟨kept.size, kept.inside, kept.bounded, kept.aligned, kept.first, kept.used,
        kept.room, kept.write, kept.stored, kept.valid, kept.numbered⟩
    have same := facts.2.2.1
    have place (s : HeaderSlot) : marked.headerSlotOffset s = wal.headerSlotOffset s :=
      congrArg (· + s.index * blockSize) same.base
    have settled := settle_ring crc marked after d trimmed _ _ count log
      (by
        rw [show marked.header.header = wal.header.header from same.block]
        exact ring.valid.kind)
      (by
        rw [show marked.header.header = wal.header.header from same.block]
        exact ring.valid.version)
      (by
        intro h found
        have slot : marked.activeSlot = wal.activeSlot := same.slot
        rw [place, slot, ring.active, candidate_to_bytes crc wal.header ring.valid] at found
        cases found
        rw [show marked.header.header = wal.header.header from same.block]) ok
    have result := settle_ok crc marked after d trimmed _ count ok
    refine ⟨settled.1, ?_, ?_, ?_, ?_⟩
    · have kept := settled.2
      refine ⟨kept.1, ?_⟩
      intro address outside
      apply kept.2 address
      rw [show marked.base = wal.base from same.base,
        show marked.size = wal.size from same.size]
      exact outside
    · rw [result.2.2.1]
      exact same.base
    · rw [result.2.2.1]
      exact same.size
    · rw [result.2.2.1]
      exact same.nextLsn

end Wal

end Mimisbrunnr
