import Mathlib.Data.Nat.Bitwise
import Mathlib.Tactic.IntervalCases
import Mimisbrunnr.Meta.Radix
import Mimisbrunnr.Storage.BtreeRoundTrip

/-!
# Positional leaves

A leaf of 256 KiB holds records in the slots of their local numbers: the header,
one bit for each slot in use, a trailer and the records. Free slots are zeros. A
region of zeros is a leaf without records.
-/

namespace Mimisbrunnr.Meta

set_option autoImplicit false

open Mimisbrunnr.Lib.ByteStore
open Mimisbrunnr.Lib.Layout
open Mimisbrunnr.Storage

def bitmapByte (used : Nat → Bool) : UInt8 :=
  (List.range 8).foldl
    (fun byte bit => if used bit then byte ||| (1 <<< UInt8.ofNat bit) else byte) 0

def bitmapOf (used : Nat → Bool) (length : Nat) : List UInt8 :=
  (List.range length).map fun byte => bitmapByte fun bit => used (8 * byte + bit)

def occupied (bitmap : List UInt8) (slot : Nat) : Bool :=
  bitmap.getD (slot / 8) 0 &&& (1 <<< UInt8.ofNat (slot % 8)) ≠ 0

theorem one_shifted (bit : Nat) (inside : bit < 8) :
    ((1 : UInt8) <<< UInt8.ofNat bit).toNat = 2 ^ bit := by
  interval_cases bit <;> rfl

theorem masked_bit (byte : UInt8) (bit : Nat) (inside : bit < 8) :
    decide (byte &&& (1 <<< UInt8.ofNat bit) ≠ 0) = byte.toNat.testBit bit := by
  have masked : (byte &&& (1 <<< UInt8.ofNat bit)).toNat =
      (byte.toNat.testBit bit).toNat * 2 ^ bit := by
    rw [UInt8.toNat_and, one_shifted bit inside, Nat.and_two_pow]
  have positive : 0 < 2 ^ bit := Nat.two_pow_pos bit
  rw [Bool.eq_iff_iff, decide_eq_true_eq, ne_eq, ← UInt8.toNat_inj, masked]
  cases byte.toNat.testBit bit with
  | false => simp
  | true => simp

/-- Each round sets the bit of its own slot. -/
theorem bitmap_round_bit (used : Nat → Bool) (bit : Nat) :
    ∀ rounds, rounds ≤ 8 →
      ((List.range rounds).foldl (fun byte slot =>
          if used slot then byte ||| (1 <<< UInt8.ofNat slot) else byte) (0 : UInt8)).toNat.testBit
        bit = (decide (bit < rounds) && used bit) := by
  intro rounds
  induction rounds with
  | zero =>
      intro _
      simp
  | succ rounds ih =>
      intro bound
      have before := ih (by omega)
      rw [List.range_succ, List.foldl_append, List.foldl_cons, List.foldl_nil]
      by_cases current : bit = rounds
      · subst current
        cases set_ : used bit with
        | false => simp [set_, before]
        | true => simp [set_, before, one_shifted bit (by omega)]
      · have other : decide (bit < rounds + 1) = decide (bit < rounds) := by
          rw [decide_eq_decide]
          omega
        rw [other, ← before]
        split
        · rw [UInt8.toNat_or, Nat.testBit_or, one_shifted rounds (by omega),
            Nat.testBit_two_pow_of_ne (Ne.symm current), Bool.or_false]
        · rfl

private theorem bitmap_byte_bit (used : Nat → Bool) (bit : Nat) (inside : bit < 8) :
    decide (bitmapByte used &&& (1 <<< UInt8.ofNat bit) ≠ 0) = used bit := by
  rw [masked_bit _ bit inside, bitmapByte, bitmap_round_bit used bit 8 (Nat.le_refl 8),
    decide_eq_true inside, Bool.true_and]

private theorem occupied_bitmap (used : Nat → Bool) (length slot : Nat)
    (inside : slot < 8 * length) :
    occupied (bitmapOf used length) slot = used slot := by
  have byte : (bitmapOf used length).getD (slot / 8) 0 =
      bitmapByte fun bit => used (8 * (slot / 8) + bit) := by
    have below : slot / 8 < length := by omega
    simp [bitmapOf, List.getD, below]
  rw [occupied, byte, bitmap_byte_bit _ _ (Nat.mod_lt _ (by decide)), Nat.div_add_mod]

/-- What the leaves of the two tables differ in. -/
structure LeafShape (α : Type) where
  kind : BtreeKind
  records : Nat
  bitmapLen : Nat
  recordSize : Nat
  toBytes : α → List UInt8
  ofBytes : List UInt8 → α
  length_to_bytes : ∀ record, (toBytes record).length = recordSize
  some_slot : 0 < records
  few_slots : records < 2 ^ 16
  a_bit_each : records ≤ 8 * bitmapLen
  room : 64 + bitmapLen + 32 + records * recordSize ≤ regionSize

structure LeafTrailer where
  leafGeneration : UInt64
  formatVersion : UInt16
  reserved : List.Vector UInt8 22
deriving DecidableEq

def LeafTrailer.layout : Pod LeafTrailer :=
  (Pod.u64.prod <| Pod.u16.prod (Pod.array 22)).map
    (fun (leafGeneration, formatVersion, reserved) => { leafGeneration, formatVersion, reserved })
    (fun trailer => (trailer.leafGeneration, trailer.formatVersion, trailer.reserved))
    (fun _ => rfl)

def leafFormatVersion : UInt16 := 1

section

variable {α : Type}

structure Leaf (shape : LeafShape α) where
  header : BtreeNodeHeader
  slots : List (Option α)
  trailer : LeafTrailer
  length_slots : slots.length = shape.records

namespace Leaf

variable {shape : LeafShape α}

def new (shape : LeafShape α) : Leaf shape :=
  { header := BtreeNodeHeader.new shape.kind leafFormatVersion 0 regionSizeLog2
    slots := List.replicate shape.records none
    trailer :=
      { leafGeneration := 0
        formatVersion := leafFormatVersion
        reserved := List.Vector.replicate 22 0 }
    length_slots := List.length_replicate }

def set (leaf : Leaf shape) (oidLocal : UInt64) (record : α) : Except MetaError (Leaf shape) := do
  let path ← oidToRadixPathWithLeafFanout oidLocal 0 (UInt64.ofNat shape.records)
  .ok
    { leaf with
      slots := leaf.slots.set path.leafSlot.toNat (some record)
      length_slots := by rw [List.length_set, leaf.length_slots] }

def slotKey (slot : Nat) : List.Vector UInt8 16 :=
  ⟨(leBytes 8 slot).reverse ++ List.replicate 8 0, by simp⟩

def boundKey (slot : Option Nat) : List.Vector UInt8 16 :=
  match slot with
  | some slot => slotKey slot
  | none => List.Vector.replicate 16 0

def used (slots : List (Option α)) (slot : Nat) : Bool := (slots.getD slot none).isSome

def usedSlots (slots : List (Option α)) : List Nat := (List.range slots.length).filter (used slots)

def sealedHeader (leaf : Leaf shape) : BtreeNodeHeader :=
  { leaf.header with
    seq := leaf.header.seq + 1
    minKey := boundKey (usedSlots leaf.slots).head?
    maxKey := boundKey (usedSlots leaf.slots).getLast?
    payloadUsed := UInt32.ofNat (regionSize - 64)
    sortedRunCount := 0 }

def sealedTrailer (leaf : Leaf shape) : LeafTrailer :=
  { leaf.trailer with leafGeneration := leaf.trailer.leafGeneration + 1 }

def slotBytes (shape : LeafShape α) : Option α → List UInt8
  | some record => shape.toBytes record
  | none => List.replicate shape.recordSize 0

def serialise (leaf : Leaf shape) : List UInt8 :=
  BtreeNodeHeader.layout.toBytes leaf.sealedHeader ++
    (bitmapOf (used leaf.slots) shape.bitmapLen ++
      (LeafTrailer.layout.toBytes leaf.sealedTrailer ++
        (leaf.slots.flatMap (slotBytes shape) ++
          List.replicate (regionSize - (64 + shape.bitmapLen + 32 + shape.records * shape.recordSize))
            0)))

/-- The records from a slot on; free slots are skipped. -/
def readSlots (shape : LeafShape α) (bitmap : List UInt8) :
    Nat → Nat → List UInt8 → List (Option α)
  | 0, _, _ => []
  | count + 1, slot, bytes =>
      (if occupied bitmap slot then some (shape.ofBytes (bytes.take shape.recordSize)) else none) ::
        readSlots shape bitmap count (slot + 1) (bytes.drop shape.recordSize)

private theorem length_read_slots (shape : LeafShape α) (bitmap : List UInt8) (count : Nat) :
    ∀ slot bytes, (readSlots shape bitmap count slot bytes).length = count := by
  induction count with
  | zero =>
      intro slot bytes
      rfl
  | succ count ih =>
      intro slot bytes
      rw [readSlots, List.length_cons, ih]

def parse (shape : LeafShape α) (bytes : List UInt8) : Except MetaError (Leaf shape) :=
  if bytes.length ≠ regionSize then .error (.bufferTooSmall regionSize bytes.length)
  else do
    let header ← (BtreeNodeHeader.parse (bytes.take 64)).mapError .storage
    if header.kind ≠ shape.kind.toU16 then .error (.storage (.invalidBtreeKind header.kind))
    else if header.magic ≠ btreeMagic then
      .error (.storage (.invalidMagic btreeMagic.toList header.magic.toList))
    else
      let trailer := LeafTrailer.layout.ofBytes ((bytes.drop (64 + shape.bitmapLen)).take 32)
      if trailer.formatVersion ≠ leafFormatVersion then
        .error (.storage (.unsupportedFormatVersion trailer.formatVersion.toUInt32))
      else
        .ok
          { header := header
            slots := readSlots shape ((bytes.drop 64).take shape.bitmapLen) shape.records 0
              (bytes.drop (64 + shape.bitmapLen + 32))
            trailer := trailer
            length_slots := length_read_slots _ _ _ _ _ }

def write (leaf : Leaf shape) (offset : Nat) : DeviceM MetaError Unit :=
  (DeviceM.writeAt offset leaf.serialise).mapError .storage

def read (shape : LeafShape α) (d : Device) (offset : Nat) : Except MetaError (Leaf shape) := do
  let probe ← (d.readAt offset 8).mapError .storage
  if probe.take 4 = [0, 0, 0, 0] then .ok (new shape)
  else do
    let bytes ← (d.readAt offset regionSize).mapError .storage
    parse shape bytes

@[simp] theorem length_slot_bytes (shape : LeafShape α) (slot : Option α) :
    (slotBytes shape slot).length = shape.recordSize := by
  cases slot with
  | none => exact List.length_replicate
  | some record => exact shape.length_to_bytes record

private theorem length_all_slots (shape : LeafShape α) (slots : List (Option α)) :
    (slots.flatMap (slotBytes shape)).length = slots.length * shape.recordSize := by
  induction slots with
  | nil => simp
  | cons slot rest ih =>
      rw [List.flatMap_cons, List.length_append, length_slot_bytes, ih, List.length_cons]
      ring

@[simp] theorem length_serialise (leaf : Leaf shape) : leaf.serialise.length = regionSize := by
  have room := shape.room
  have header := BtreeNodeHeader.layout.length_to_bytes leaf.sealedHeader
  have trailer := LeafTrailer.layout.length_to_bytes leaf.sealedTrailer
  have headerSize : BtreeNodeHeader.layout.size = 64 := rfl
  have trailerSize : LeafTrailer.layout.size = 32 := rfl
  simp only [serialise, List.length_append, header, trailer, headerSize, trailerSize, bitmapOf,
    List.length_map, List.length_range, length_all_slots, leaf.length_slots, List.length_replicate]
  omega

/-- Slots are read back from their images, where the bitmap tells which are in use. -/
theorem read_slots_stored (shape : LeafShape α) (bitmap : List UInt8) (slots : List (Option α)) :
    ∀ first tail, (∀ index, index < slots.length →
        occupied bitmap (first + index) = used slots index) →
      readSlots shape bitmap slots.length first (slots.flatMap (slotBytes shape) ++ tail) =
        slots.map (Option.map fun record => shape.ofBytes (shape.toBytes record)) := by
  induction slots with
  | nil =>
      intro first tail _
      rfl
  | cons slot rest ih =>
      intro first tail bits
      have here := bits 0 (by simp)
      have later : ∀ index, index < rest.length →
          occupied bitmap (first + 1 + index) = used rest index := by
        intro index inside
        have next := bits (index + 1) (by simpa using inside)
        rw [Nat.add_assoc, Nat.add_comm 1 index]
        exact next
      rw [List.length_cons, readSlots, List.flatMap_cons, List.append_assoc,
        List.take_left' (length_slot_bytes shape slot),
        List.drop_left' (length_slot_bytes shape slot), ih (first + 1) tail later, List.map_cons]
      rw [Nat.add_zero] at here
      rw [here]
      cases slot with
      | none => rfl
      | some record => rfl

/-- A leaf with the header of its kind and the current version. -/
structure WellFormed (leaf : Leaf shape) : Prop where
  magic : leaf.header.magic = btreeMagic
  kind : leaf.header.kind = shape.kind.toU16
  version : leaf.trailer.formatVersion = leafFormatVersion

def storedSlots (leaf : Leaf shape) : List (Option α) :=
  leaf.slots.map (Option.map fun record => shape.ofBytes (shape.toBytes record))

private theorem parse_serialise (leaf : Leaf shape) (formed : leaf.WellFormed) :
    ∃ found, parse shape leaf.serialise = .ok found ∧ found.slots = leaf.storedSlots := by
  have length := length_serialise leaf
  let header := BtreeNodeHeader.layout.toBytes leaf.sealedHeader
  let bitmap := bitmapOf (used leaf.slots) shape.bitmapLen
  let trailer := LeafTrailer.layout.toBytes leaf.sealedTrailer
  let rest := leaf.slots.flatMap (slotBytes shape) ++
    List.replicate (regionSize - (64 + shape.bitmapLen + 32 + shape.records * shape.recordSize)) 0
  have whole : leaf.serialise = header ++ (bitmap ++ (trailer ++ rest)) := rfl
  have headerLength : header.length = 64 := BtreeNodeHeader.layout.length_to_bytes _
  have bitmapLength : bitmap.length = shape.bitmapLen := by simp [bitmap, bitmapOf]
  have trailerLength : trailer.length = 32 := LeafTrailer.layout.length_to_bytes _
  have first : leaf.serialise.take 64 = header := by rw [whole, List.take_left' headerLength]
  have second : leaf.serialise.drop 64 = bitmap ++ (trailer ++ rest) := by
    rw [whole, List.drop_left' headerLength]
  have third : leaf.serialise.drop (64 + shape.bitmapLen) = trailer ++ rest := by
    rw [← List.drop_drop, second, List.drop_left' bitmapLength]
  have fourth : leaf.serialise.drop (64 + shape.bitmapLen + 32) = rest := by
    rw [← List.drop_drop, third, List.drop_left' trailerLength]
  have parsedHeader : BtreeNodeHeader.parse header = .ok leaf.sealedHeader := by
    have enough : ¬ header.length < BtreeNodeHeader.layout.size := by
      rw [headerLength]
      decide
    have back : BtreeNodeHeader.layout.ofBytes (header.take BtreeNodeHeader.layout.size) =
        leaf.sealedHeader := by
      have cut : header.take BtreeNodeHeader.layout.size = header :=
        List.take_of_length_le (Nat.le_of_eq headerLength)
      rw [cut]
      exact BtreeNodeHeader.layout.of_to_bytes _
    rw [BtreeNodeHeader.parse, if_neg enough]
    simp only [back]
    rw [if_neg fun differs => differs formed.magic]
  have parsedTrailer : LeafTrailer.layout.ofBytes
      ((leaf.serialise.drop (64 + shape.bitmapLen)).take 32) = leaf.sealedTrailer := by
    rw [third, List.take_left' trailerLength]
    exact LeafTrailer.layout.of_to_bytes _
  have slots : readSlots shape ((leaf.serialise.drop 64).take shape.bitmapLen) shape.records 0
      (leaf.serialise.drop (64 + shape.bitmapLen + 32)) = leaf.storedSlots := by
    rw [second, List.take_left' bitmapLength, fourth, ← leaf.length_slots]
    apply read_slots_stored
    intro index inside
    rw [Nat.zero_add]
    apply occupied_bitmap
    have bits := shape.a_bit_each
    have count := leaf.length_slots
    omega
  refine ⟨⟨leaf.sealedHeader, leaf.storedSlots, leaf.sealedTrailer, ?_⟩, ?_, rfl⟩
  · rw [storedSlots, List.length_map, leaf.length_slots]
  · rw [parse, if_neg (by simp [length]), first, parsedHeader]
    simp only [Except.mapError, bind, Except.bind]
    rw [if_neg fun differs => differs formed.kind, if_neg fun differs => differs formed.magic,
      parsedTrailer, if_neg fun differs => differs formed.version]
    simp only [slots]

theorem read_of_probe (shape : LeafShape α) (d : Device) (offset : Nat) {probe bytes : List UInt8}
    (probed : d.readAt offset 8 = .ok probe) (magic : ¬ probe.take 4 = [0, 0, 0, 0])
    (filled : d.readAt offset regionSize = .ok bytes) :
    read shape d offset = parse shape bytes := by
  rw [read, probed, filled]
  exact if_neg magic

/-- Writing a leaf touches only its region, and its slots are read back. -/
theorem leaf_read_back (leaf : Leaf shape) (formed : leaf.WellFormed) (offset : Nat)
    (d after : Device) (ok : leaf.write offset d = (.ok (), after)) :
    ChangesWithin offset regionSize d after ∧
      ∀ e, AgreesOn offset regionSize after e →
        ∃ found, read shape e offset = .ok found ∧ found.slots = leaf.storedSlots := by
  have written := DeviceM.map_error_ok _ _ _ _ _ ok
  have changes := changes_within_write _ _ _ _ written
  have stored := read_of_write _ _ _ _ written
  rw [length_serialise] at changes stored
  refine ⟨changes, ?_⟩
  intro e agrees
  have room : offset + regionSize ≤ e.capacity := by
    rw [agrees.capacity]
    exact stored.2
  have bytes : Lib.ByteStore.read e.bytes offset regionSize = leaf.serialise := by
    rw [read_agrees agrees]
    exact stored.1
  have probe : Lib.ByteStore.read e.bytes offset 8 = leaf.serialise.take 8 := by
    have part := read_part e.bytes offset regionSize 0 8 (by decide)
    rw [Nat.add_zero, List.drop_zero, bytes] at part
    exact part
  obtain ⟨found, parsed, slots⟩ := parse_serialise leaf formed
  refine ⟨found, ?_, slots⟩
  have magic : ¬ (leaf.serialise.take 8).take 4 = [0, 0, 0, 0] := by
    intro zeros
    have start : (leaf.serialise.take 8).take 4 = leaf.header.magic.toList := by
      have four : leaf.header.magic.toList.length = 4 := leaf.header.magic.toList_length
      have split : ∃ rest, leaf.serialise = leaf.header.magic.toList ++ rest :=
        ⟨_, List.append_assoc _ _ _⟩
      obtain ⟨rest, whole⟩ := split
      rw [List.take_take, whole]
      exact List.take_left' four
    rw [start, formed.magic] at zeros
    exact absurd zeros (by decide)
  have probed := Device.read_at_ok e offset 8 (by
    have : regionSize = 262144 := rfl
    omega)
  have filled := Device.read_at_ok e offset regionSize room
  rw [probe] at probed
  rw [bytes] at filled
  rw [read_of_probe shape e offset probed magic filled]
  exact parsed

end Leaf

end

end Mimisbrunnr.Meta
