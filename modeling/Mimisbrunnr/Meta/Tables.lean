import Mimisbrunnr.Lib.MachineOrder
import Mimisbrunnr.Lib.SortedEntries
import Mimisbrunnr.Meta.Leaf
import Mimisbrunnr.Types.Object

/-!
# The tables of objects and locations on the device

Each table is a single leaf, filled in the order of the identifiers. The slot of
an object is its local number, so that two objects with the same local number,
of different nodes, share one. An object is loaded under the identifier in its
record, a location under that of its slot and the given node.
-/

namespace Mimisbrunnr.Meta

set_option autoImplicit false

open Mimisbrunnr.Lib
open Mimisbrunnr.Lib.FiniteMap
open Mimisbrunnr.Lib.Layout
open Mimisbrunnr.Lib.MachineOrder
open Mimisbrunnr.Storage
open Mimisbrunnr.Types

def fitted {α : Type} (n : Nat) (default : α) (values : List α) : List.Vector α n :=
  ⟨(values ++ List.replicate n default).take n, by simp⟩

abbrev RecordFields :=
  UInt64 × UInt32 × UInt8 × UInt8 × UInt16 × List.Vector UInt8 32 × UInt64 × UInt64 × Int64 ×
    Int64 × UInt16 × UInt16 × UInt8 × UInt8 × UInt16 × List.Vector UInt32 4 × UInt64 × UInt64 ×
    UInt64

def recordFieldsLayout : Pod RecordFields :=
  Pod.u64.prod <| Pod.u32.prod <| Pod.u8.prod <| Pod.u8.prod <| Pod.u16.prod <|
    (Pod.array 32).prod <| Pod.u64.prod <| Pod.u64.prod <| Pod.i64.prod <| Pod.i64.prod <|
    Pod.u16.prod <| Pod.u16.prod <| Pod.u8.prod <| Pod.u8.prod <| Pod.u16.prod <|
    (Pod.u32.row 4).prod <| Pod.u64.prod <| Pod.u64.prod Pod.u64

def recordFields (record : ObjectRecord) : RecordFields :=
  (record.id, record.generation, record.state, record.flags, record.recordVersion,
    fitted 32 0 record.contentHash, record.blobOffset, record.blobLength, record.createdNs,
    record.modifiedNs, record.tagCount, record.attrCount, record.compression, record.encryption,
    record.relationCount, fitted 4 0 record.inlineTags, record.overflowOffset, record.storedSize,
    record.lastModifyLsn)

def ofRecordFields : RecordFields → ObjectRecord
  | (id, generation, state, flags, recordVersion, contentHash, blobOffset, blobLength, createdNs,
      modifiedNs, tagCount, attrCount, compression, encryption, relationCount, inlineTags,
      overflowOffset, storedSize, lastModifyLsn) =>
    { id, generation, state, flags, recordVersion, contentHash := contentHash.toList, blobOffset,
      blobLength, createdNs, modifiedNs, tagCount, attrCount, compression, encryption,
      relationCount, inlineTags := inlineTags.toList, overflowOffset, storedSize, lastModifyLsn }

def storedRecord (record : ObjectRecord) : ObjectRecord := ofRecordFields (recordFields record)

def objectLeaf : LeafShape ObjectRecord where
  kind := .objectTable
  records := leafRecords
  bitmapLen := 256
  recordSize := 128
  toBytes record := recordFieldsLayout.toBytes (recordFields record)
  ofBytes bytes := ofRecordFields (recordFieldsLayout.ofBytes bytes)
  length_to_bytes _ := recordFieldsLayout.length_to_bytes _
  some_slot := by decide
  few_slots := by decide
  a_bit_each := by decide
  room := by decide

def objectLocationSize : Nat := 48

/-- Locations are kept as their 48 bytes. -/
def locationLeaf : LeafShape (List UInt8) where
  kind := .locationTable
  records := leafRecordsLocation
  bitmapLen := 680
  recordSize := objectLocationSize
  toBytes location := (fitted objectLocationSize 0 location).toList
  ofBytes bytes := bytes
  length_to_bytes location := (fitted objectLocationSize 0 location).toList_length
  some_slot := by decide
  few_slots := by decide
  a_bit_each := by decide
  room := by decide

def localNumber (oid : UInt64) : UInt64 := oid &&& (((1 : UInt64) <<< 48) - 1)

theorem local_number_to_nat (oid : UInt64) : (localNumber oid).toNat = oid.toNat % 2 ^ 48 := by
  have mask : ((1 : UInt64) <<< 48) - 1 = UInt64.ofNat (2 ^ 48 - 1) := by decide
  rw [localNumber, mask, UInt64.toNat_and, UInt64.toNat_ofNat', Nat.mod_eq_of_lt (by decide)]
  exact Nat.and_two_pow_sub_one_eq_mod _ _

section

variable {α : Type} {shape : LeafShape α}

def fillLeaf : List (UInt64 × α) → Leaf shape → Except MetaError (Leaf shape)
  | [], leaf => .ok leaf
  | (oid, record) :: rest, leaf => do
      let next ← leaf.set (localNumber oid) record
      fillLeaf rest next

theorem set_ok (leaf next : Leaf shape) (oidLocal : UInt64) (record : α)
    (ok : leaf.set oidLocal record = .ok next) :
    oidLocal.toNat < shape.records ∧ next.header = leaf.header ∧ next.trailer = leaf.trailer ∧
      next.slots = leaf.slots.set oidLocal.toNat (some record) := by
  rw [Leaf.set, radix_path_of_leaf _ _ shape.some_slot shape.few_slots] at ok
  split at ok
  · next inside =>
      have few := shape.few_slots
      have slot : (UInt16.ofNat oidLocal.toNat).toNat = oidLocal.toNat := by
        rw [UInt16.toNat_ofNat']
        exact Nat.mod_eq_of_lt (by omega)
      cases ok
      refine ⟨inside, rfl, rfl, ?_⟩
      dsimp only
      rw [slot]
  · cases ok

private theorem fill_kept (entries : List (UInt64 × α)) :
    ∀ leaf filled : Leaf shape, fillLeaf entries leaf = .ok filled →
      filled.header = leaf.header ∧ filled.trailer = leaf.trailer := by
  induction entries with
  | nil =>
      intro leaf filled ok
      cases ok
      exact ⟨rfl, rfl⟩
  | cons entry rest ih =>
      intro leaf filled ok
      simp only [fillLeaf, bind, Except.bind] at ok
      split at ok
      · cases ok
      · next next placed =>
          obtain ⟨-, header, trailer, -⟩ := set_ok leaf next _ _ placed
          obtain ⟨laterHeader, laterTrailer⟩ := ih next filled ok
          exact ⟨laterHeader.trans header, laterTrailer.trans trailer⟩

/-- A filled leaf has each record in the slot of its local number. -/
theorem fill_ok (entries : List (UInt64 × α))
    (apart : (entries.map fun entry => entry.1.toNat % 2 ^ 48).Nodup) :
    ∀ leaf filled : Leaf shape, fillLeaf entries leaf = .ok filled →
      (∀ entry ∈ entries, filled.slots[entry.1.toNat % 2 ^ 48]? = some (some entry.2)) ∧
        ∀ slot, (∀ entry ∈ entries, entry.1.toNat % 2 ^ 48 ≠ slot) →
          filled.slots[slot]? = leaf.slots[slot]? := by
  induction entries with
  | nil =>
      intro leaf filled ok
      cases ok
      exact ⟨by simp, fun _ _ => rfl⟩
  | cons entry rest ih =>
      intro leaf filled ok
      rw [List.map_cons, List.nodup_cons] at apart
      have others : ∀ other ∈ rest, other.1.toNat % 2 ^ 48 ≠ entry.1.toNat % 2 ^ 48 := by
        intro other member same
        exact apart.1 (List.mem_map.mpr ⟨other, member, same⟩)
      simp only [fillLeaf, bind, Except.bind] at ok
      split at ok
      · cases ok
      · next next placed =>
          obtain ⟨inside, -, -, slots⟩ := set_ok leaf next _ _ placed
          rw [local_number_to_nat] at inside slots
          obtain ⟨stored, kept⟩ := ih apart.2 next filled ok
          constructor
          · intro other member
            cases List.mem_cons.mp member with
            | inl same =>
                rw [same, kept _ others, slots]
                apply List.getElem?_set_self
                rw [leaf.length_slots]
                exact inside
            | inr later => exact stored other later
          · intro slot free
            rw [kept slot fun other member => free other (List.mem_cons_of_mem _ member), slots]
            exact List.getElem?_set_ne (free entry List.mem_cons_self)

end

def flushObjectTable (table : FMap UInt64 ObjectRecord) (offset : Nat) : DeviceM MetaError Unit := do
  let leaf ← DeviceM.lift (fillLeaf (toSorted table) (Leaf.new objectLeaf))
  leaf.write offset

def loadObjectTable (d : Device) (offset : Nat) : Except MetaError (FMap UInt64 ObjectRecord) := do
  let leaf ← Leaf.read objectLeaf d offset
  .ok (ofEntries ((leaf.slots.filterMap id).map fun record => (record.id, record)))

def flushLocationTable (table : FMap UInt64 (List UInt8)) (offset : Nat) :
    DeviceM MetaError Unit := do
  let leaf ← DeviceM.lift (fillLeaf (toSorted table) (Leaf.new locationLeaf))
  leaf.write offset

/-- The slots in use with their numbers, under the identifiers of a node. -/
def slotEntries (nodeId : UInt16) (slots : List (Option (List UInt8))) :
    List (UInt64 × List UInt8) :=
  (slots.mapIdx fun slot location =>
    location.map fun bytes => ((ObjectId.fromParts nodeId slot).toU64, bytes)).filterMap id

def loadLocationTable (d : Device) (offset : Nat) (nodeId : UInt16) :
    Except MetaError (FMap UInt64 (List UInt8)) := do
  let leaf ← Leaf.read locationLeaf d offset
  .ok (ofEntries (slotEntries nodeId leaf.slots))

section

variable {α : Type} {shape : LeafShape α}

/-- A slot of a leaf that was filled from the start holds a record exactly when the record
has its number. -/
theorem filled_slot (entries : List (UInt64 × α))
    (apart : (entries.map fun entry => entry.1.toNat % 2 ^ 48).Nodup) (filled : Leaf shape)
    (ok : fillLeaf entries (Leaf.new shape) = .ok filled) (slot : Nat) (record : α) :
    filled.slots[slot]? = some (some record) ↔
      ∃ entry ∈ entries, entry.1.toNat % 2 ^ 48 = slot ∧ entry.2 = record := by
  obtain ⟨stored, kept⟩ := fill_ok entries apart _ filled ok
  constructor
  · intro found
    by_cases used : ∃ entry ∈ entries, entry.1.toNat % 2 ^ 48 = slot
    · obtain ⟨entry, member, number⟩ := used
      have here := stored entry member
      rw [number, found] at here
      cases here
      exact ⟨entry, member, number, rfl⟩
    · have free : ∀ entry ∈ entries, entry.1.toNat % 2 ^ 48 ≠ slot := by
        intro entry member number
        exact used ⟨entry, member, number⟩
      rw [kept slot free, Leaf.new, List.getElem?_replicate] at found
      split at found
      · cases found
      · cases found
  · intro used
    obtain ⟨entry, member, number, same⟩ := used
    rw [← number, ← same]
    exact stored entry member

private theorem well_formed_filled (entries : List (UInt64 × α)) (filled : Leaf shape)
    (ok : fillLeaf entries (Leaf.new shape) = .ok filled) : filled.WellFormed := by
  obtain ⟨header, trailer⟩ := fill_kept entries _ filled ok
  constructor
  · rw [header]
    rfl
  · rw [header]
    rfl
  · rw [trailer]
    rfl

/-- A table that was flushed to a leaf has written only there, and the slots are read back. -/
theorem flushed_leaf (shape : LeafShape α) (entries : List (UInt64 × α)) (offset : Nat)
    (d after : Device)
    (ok : (do
      let leaf ← DeviceM.lift (fillLeaf entries (Leaf.new shape))
      leaf.write offset : DeviceM MetaError Unit) d = (.ok (), after)) :
    ChangesWithin offset regionSize d after ∧
      ∀ e, AgreesOn offset regionSize after e →
        ∃ filled found, fillLeaf entries (Leaf.new shape) = .ok filled ∧
          Leaf.read shape e offset = .ok found ∧ found.slots = filled.storedSlots := by
  obtain ⟨filled, middle, lifted, written⟩ := DeviceM.bind_ok _ _ _ _ _ ok
  obtain ⟨built, same⟩ := DeviceM.lift_ok _ _ _ _ lifted
  subst same
  have formed := well_formed_filled entries filled built
  obtain ⟨changes, back⟩ := filled.leaf_read_back formed offset _ _ written
  refine ⟨changes, ?_⟩
  intro e agrees
  obtain ⟨found, read, slots⟩ := back e agrees
  exact ⟨filled, found, built, read, slots⟩

end

theorem locals_apart {ν : Type} (table : FMap UInt64 ν)
    (apart : ∀ left right, left ∈ table → right ∈ table →
      left.toNat % 2 ^ 48 = right.toNat % 2 ^ 48 → left = right) :
    ((toSorted table).map fun entry => entry.1.toNat % 2 ^ 48).Nodup := by
  have keys : ((toSorted table).map Prod.fst).Nodup :=
    (increasing_to_sorted table).imp fun less => ne_of_lt less
  have numbers := keys.map_on (f := fun key => key.toNat % 2 ^ 48) (by
    intro left leftMember right rightMember same
    obtain ⟨leftEntry, leftListed, leftKey⟩ := List.mem_map.mp leftMember
    obtain ⟨rightEntry, rightListed, rightKey⟩ := List.mem_map.mp rightMember
    apply apart left right
    · rw [← leftKey]
      exact Finmap.mem_of_lookup_eq_some ((mem_to_sorted _ _ _).mp leftListed)
    · rw [← rightKey]
      exact Finmap.mem_of_lookup_eq_some ((mem_to_sorted _ _ _).mp rightListed)
    · exact same)
  rw [List.map_map] at numbers
  exact numbers

/-- Objects with different local numbers, each under its own identifier, are read back. -/
theorem object_table_read_back (table : FMap UInt64 ObjectRecord)
    (keyed : ∀ key record, table.lookup key = some record → record.id = key)
    (apart : ∀ left right, left ∈ table → right ∈ table →
      left.toNat % 2 ^ 48 = right.toNat % 2 ^ 48 → left = right)
    (offset : Nat) (d after : Device)
    (ok : flushObjectTable table offset d = (.ok (), after)) :
    ChangesWithin offset regionSize d after ∧
      ∀ e, AgreesOn offset regionSize after e →
        loadObjectTable e offset = .ok (mapVals storedRecord table) := by
  have numbers := locals_apart table apart
  obtain ⟨changes, back⟩ := flushed_leaf objectLeaf (toSorted table) offset d after ok
  refine ⟨changes, ?_⟩
  intro e agrees
  obtain ⟨filled, found, built, read, slots⟩ := back e agrees
  have slot := filled_slot (toSorted table) numbers filled built
  have listed (record : ObjectRecord) : record ∈ found.slots.filterMap id ↔
      ∃ key old, table.lookup key = some old ∧ storedRecord old = record := by
    have bytes (old : ObjectRecord) :
        objectLeaf.ofBytes (objectLeaf.toBytes old) = storedRecord old :=
      congrArg ofRecordFields (recordFieldsLayout.of_to_bytes (recordFields old))
    rw [slots, Leaf.storedSlots, List.mem_filterMap]
    constructor
    · intro present
      obtain ⟨content, member, same⟩ := present
      obtain ⟨before, inside, image⟩ := List.mem_map.mp member
      cases before with
      | none =>
          rw [← image] at same
          cases same
      | some old =>
          obtain ⟨index, place⟩ := List.mem_iff_getElem?.mp inside
          obtain ⟨entry, entryMember, -, entrySame⟩ := (slot index old).mp place
          rw [← image] at same
          refine ⟨entry.1, entry.2, (mem_to_sorted _ _ _).mp entryMember, ?_⟩
          rw [entrySame, ← bytes]
          exact Option.some.inj same
    · intro known
      obtain ⟨key, old, located, image⟩ := known
      have member := (mem_to_sorted table key old).mpr located
      have place := (slot _ old).mpr ⟨(key, old), member, rfl, rfl⟩
      refine ⟨some record, List.mem_map.mpr ⟨some old, List.mem_of_getElem? place, ?_⟩, rfl⟩
      rw [← image, ← bytes]
      rfl
  rw [loadObjectTable, read]
  simp only [bind, Except.bind, Except.ok.injEq]
  apply of_entries_covering
  · intro entry member
    obtain ⟨record, present, same⟩ := List.mem_map.mp member
    obtain ⟨key, old, located, image⟩ := (listed record).mp present
    have identifier : record.id = key := by
      rw [← image]
      exact keyed key old located
    rw [← same, lookup_map_vals, identifier, located, Option.map_some, image]
  · intro key value located
    rw [lookup_map_vals, Option.map_eq_some_iff] at located
    obtain ⟨old, present, image⟩ := located
    have identifier : value.id = key := by
      rw [← image]
      exact keyed key old present
    refine List.mem_map.mpr ⟨value, (listed value).mpr ⟨key, old, present, image⟩, ?_⟩
    rw [identifier]

theorem location_table_loads (table : FMap UInt64 (List UInt8)) (offset : Nat) (nodeId : UInt16)
    (d after : Device) (ok : flushLocationTable table offset d = (.ok (), after)) :
    ChangesWithin offset regionSize d after ∧
      ∀ e, AgreesOn offset regionSize after e →
        ∃ loaded, loadLocationTable e offset nodeId = .ok loaded := by
  obtain ⟨changes, back⟩ := flushed_leaf locationLeaf (toSorted table) offset d after ok
  refine ⟨changes, ?_⟩
  intro e agrees
  obtain ⟨filled, found, built, read, slots⟩ := back e agrees
  rw [loadLocationTable, read]
  exact ⟨_, rfl⟩

end Mimisbrunnr.Meta
