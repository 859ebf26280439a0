import Mimisbrunnr.Meta.Tables

/-!
# Tables through a flush

A table that was flushed is compared with the one that is loaded by the bytes of
its records. The slot of a record is its local number, so that of two objects of
different nodes with one local number only the later is kept. Locations are
loaded under the identifiers of one node and need no more than to be of that
node.
-/

namespace Mimisbrunnr.Meta

set_option autoImplicit false

open Mimisbrunnr.Lib
open Mimisbrunnr.Lib.FiniteMap
open Mimisbrunnr.Lib.Layout
open Mimisbrunnr.Lib.MachineOrder
open Mimisbrunnr.Storage
open Mimisbrunnr.Types

theorem fitted_to_list {α : Type} (n : Nat) (default : α) (values : List.Vector α n) :
    fitted n default values.toList = values := by
  apply List.Vector.toList_injective
  exact List.take_left' values.toList_length

private theorem record_fields_of (fields : RecordFields) : recordFields
    (ofRecordFields fields) = fields := by
  simp only [recordFields, ofRecordFields, fitted_to_list]

def recordImage (record : ObjectRecord) : List UInt8 := objectLeaf.toBytes record

def locationImage (location : List UInt8) : List UInt8 := locationLeaf.toBytes location

private theorem record_image_stored (record : ObjectRecord) :
    recordImage (storedRecord record) = recordImage record :=
  congrArg recordFieldsLayout.toBytes (record_fields_of (recordFields record))

private theorem location_image_image (location : List UInt8) :
    locationImage (locationImage location) = locationImage location :=
  congrArg List.Vector.toList (fitted_to_list objectLocationSize 0 _)

def SameImages {ν : Type} (image : ν → List UInt8) (left right : FMap UInt64 ν) : Prop :=
  mapVals image left = mapVals image right

theorem same_images_of_map {ν : Type} (image : ν → List UInt8) (change : ν → ν)
    (kept : ∀ value, image (change value) = image value) (table : FMap UInt64 ν) :
    SameImages image (mapVals change table) table := by
  apply Finmap.ext_lookup
  intro key
  rw [lookup_map_vals, lookup_map_vals, lookup_map_vals, Option.map_map]
  exact congrArg (fun each => Option.map each (table.lookup key)) (funext kept)

private theorem mem_of_same_images {ν : Type} (image : ν → List UInt8) (left right : FMap UInt64 ν)
    (same : SameImages image left right) (key : UInt64) (member : key ∈ right) : key ∈ left := by
  have lookups := congrArg (Finmap.lookup key) same
  rw [lookup_map_vals, lookup_map_vals] at lookups
  rw [← Finmap.lookup_isSome] at member ⊢
  rw [← Option.isSome_map (f := image), lookups, Option.isSome_map, member]

section

variable {α : Type} {shape : LeafShape α}

/-- Whatever the numbers of the entries, a slot is as it was or holds one of them in its place. -/
theorem fill_origin (entries : List (UInt64 × α)) :
    ∀ leaf filled : Leaf shape, fillLeaf entries leaf = .ok filled →
      ∀ (slot : Nat) (record : α), filled.slots[slot]? = some (some record) →
        leaf.slots[slot]? = some (some record) ∨
          ∃ entry ∈ entries, entry.1.toNat % 2 ^ 48 = slot ∧ entry.2 = record := by
  induction entries with
  | nil =>
      intro leaf filled ok slot record found
      cases ok
      exact Or.inl found
  | cons entry rest ih =>
      intro leaf filled ok slot record found
      simp only [fillLeaf, bind, Except.bind] at ok
      split at ok
      · cases ok
      · next next placed =>
          obtain ⟨-, -, -, slots⟩ := set_ok leaf next _ _ placed
          rw [local_number_to_nat] at slots
          cases ih next filled ok slot record found with
          | inr later =>
              obtain ⟨other, member, number, same⟩ := later
              exact Or.inr ⟨other, List.mem_cons_of_mem _ member, number, same⟩
          | inl before =>
              by_cases here : entry.1.toNat % 2 ^ 48 = slot
              · rw [slots, here, List.getElem?_set_self'] at before
                obtain ⟨old, -, same⟩ := Option.map_eq_some_iff.mp before
                exact Or.inr ⟨entry, List.mem_cons_self, here, Option.some.inj same⟩
              · rw [slots, List.getElem?_set_ne here] at before
                exact Or.inl before

private theorem filled_origin (entries : List (UInt64 × α)) (filled : Leaf shape)
    (ok : fillLeaf entries (Leaf.new shape) = .ok filled) (slot : Nat) (record : α)
    (found : filled.slots[slot]? = some (some record)) :
    ∃ entry ∈ entries, entry.1.toNat % 2 ^ 48 = slot ∧ entry.2 = record := by
  cases fill_origin entries _ filled ok slot record found with
  | inl before =>
      rw [Leaf.new, List.getElem?_replicate] at before
      split at before
      · cases before
      · cases before
  | inr placed => exact placed

theorem fill_within (entries : List (UInt64 × α))
    (within : ∀ entry ∈ entries, entry.1.toNat % 2 ^ 48 < shape.records) :
    ∀ leaf : Leaf shape, ∃ filled, fillLeaf entries leaf = .ok filled := by
  induction entries with
  | nil =>
      intro leaf
      exact ⟨leaf, rfl⟩
  | cons entry rest ih =>
      intro leaf
      have inside : (localNumber entry.1).toNat < shape.records := by
        rw [local_number_to_nat]
        exact within entry List.mem_cons_self
      have placed : ∃ next, leaf.set (localNumber entry.1) entry.2 = .ok next := by
        rw [Leaf.set, radix_path_of_leaf _ _ shape.some_slot shape.few_slots, if_pos inside]
        exact ⟨_, rfl⟩
      obtain ⟨next, set_⟩ := placed
      obtain ⟨filled, later⟩ := ih (fun other member =>
        within other (List.mem_cons_of_mem _ member)) next
      refine ⟨filled, ?_⟩
      simp only [fillLeaf, bind, Except.bind, set_, later]

/-- A table within the leaf is flushed to a healthy device. -/
theorem flush_within (entries : List (UInt64 × α))
    (within : ∀ entry ∈ entries, entry.1.toNat % 2 ^ 48 < shape.records) (offset : Nat) (d : Device)
    (healthy : d.Healthy) (room : offset + regionSize ≤ d.capacity) :
    ∃ after, (do
      let leaf ← DeviceM.lift (fillLeaf entries (Leaf.new shape))
      leaf.write offset : DeviceM MetaError Unit) d = (.ok (), after) := by
  obtain ⟨filled, built⟩ := fill_within entries within (Leaf.new shape)
  have inside : offset + filled.serialise.length ≤ d.capacity := by
    rw [filled.length_serialise]
    exact room
  have written := d.write_at_healthy offset filled.serialise healthy inside
  refine ⟨{ d with
    bytes := ByteStore.overwrite d.bytes offset filled.serialise
    faults := d.faults.tail }, ?_⟩
  rw [built]
  change (DeviceM.writeAt offset filled.serialise).mapError MetaError.storage d = _
  rw [DeviceM.mapError, DeviceM.writeAt, written]

end

def LocalsApart {ν : Type} (table : FMap UInt64 ν) : Prop :=
  ∀ left right, left ∈ table → right ∈ table →
    left.toNat % 2 ^ 48 = right.toNat % 2 ^ 48 → left = right

/-- A loaded object is in the slot of its local number. -/
theorem loaded_object_slot (table : FMap UInt64 ObjectRecord)
    (keyed : ∀ key record, table.lookup key = some record → record.id = key)
    (filled : Leaf objectLeaf)
    (built : fillLeaf (toSorted table) (Leaf.new objectLeaf) = .ok filled) (key : UInt64)
    (member : key ∈ ofEntries ((filled.storedSlots.filterMap id).map fun record =>
      (record.id, record))) :
    ∃ record, filled.slots[key.toNat % 2 ^ 48]? = some (some record) ∧ record.id = key := by
  obtain ⟨loaded, found⟩ := Finmap.mem_iff.mp member
  obtain ⟨record, present, same⟩ := List.mem_map.mp
    (mem_of_lookup_of_entries _ _ _ found)
  obtain ⟨content, listed, image⟩ := List.mem_filterMap.mp present
  obtain ⟨before, inside, stored⟩ := List.mem_map.mp listed
  cases before with
  | none =>
      rw [← stored] at image
      cases image
  | some old =>
      obtain ⟨slot, place⟩ := List.mem_iff_getElem?.mp inside
      obtain ⟨entry, entryMember, number, entrySame⟩ :=
        filled_origin (toSorted table) filled built slot old place
      have own := keyed entry.1 entry.2 ((mem_to_sorted _ _ _).mp entryMember)
      rw [entrySame] at own
      have identifier : record.id = old.id := by
        rw [← stored] at image
        have bytes : objectLeaf.ofBytes (objectLeaf.toBytes old) = storedRecord old :=
          congrArg ofRecordFields (recordFieldsLayout.of_to_bytes (recordFields old))
        rw [Option.map_some, bytes] at image
        cases image
        rfl
      have keys : entry.1 = key := by
        rw [← own, ← identifier]
        exact congrArg Prod.fst same
      rw [keys] at number own
      rw [number]
      exact ⟨old, place, own⟩

/-- The objects are read back just when no two of them have one local number. -/
theorem objects_read_back_iff (table : FMap UInt64 ObjectRecord)
    (keyed : ∀ key record, table.lookup key = some record → record.id = key)
    (offset : Nat) (d after : Device) (ok : flushObjectTable table offset d = (.ok (), after)) :
    (∃ loaded, loadObjectTable after offset = .ok loaded ∧
        SameImages recordImage loaded table) ↔ LocalsApart table := by
  constructor
  · intro returned left right leftMember rightMember same
    obtain ⟨loaded, read, images⟩ := returned
    obtain ⟨-, back⟩ := flushed_leaf objectLeaf (toSorted table) offset d after ok
    obtain ⟨filled, found, built, leaf, slots⟩ := back after (agrees_refl _ _ after)
    rw [loadObjectTable, leaf] at read
    simp only [bind, Except.bind, Except.ok.injEq, slots] at read
    subst read
    obtain ⟨leftRecord, leftPlace, leftId⟩ := loaded_object_slot table keyed filled built left
      (mem_of_same_images recordImage _ _ images left leftMember)
    obtain ⟨rightRecord, rightPlace, rightId⟩ := loaded_object_slot table keyed filled built right
      (mem_of_same_images recordImage _ _ images right rightMember)
    rw [same, rightPlace] at leftPlace
    cases leftPlace
    exact leftId.symm.trans rightId
  · intro apart
    obtain ⟨-, back⟩ := object_table_read_back table keyed apart offset d after ok
    exact ⟨_, back after (agrees_refl _ _ after),
      same_images_of_map recordImage storedRecord record_image_stored table⟩

theorem node_and_local (oid : UInt64) (nodeId : UInt16)
    (own : (ObjectId.fromU64 oid).nodeId = nodeId) :
    (ObjectId.fromParts nodeId (oid.toNat % 2 ^ 48)).toU64 = oid := by
  apply UInt64.toNat_inj.mp
  have node := congrArg UInt16.toNat own
  rw [ObjectId.nodeId, UInt16.toNat_ofNat'] at node
  have bound := oid.toNat_lt
  have whole := Nat.div_add_mod' oid.toNat (2 ^ 48)
  have quotient : oid.toNat / 2 ^ 48 < 2 ^ 16 := by omega
  rw [ObjectId.fromU64, Nat.mod_eq_of_lt quotient] at node
  rw [ObjectId.toU64, ObjectId.raw_from_parts, ← node, Nat.mod_mod]
  exact whole

/-- The slots of a filled leaf give back the entries it was filled with. -/
theorem mem_slot_entries_iff (table : FMap UInt64 (List UInt8)) (nodeId : UInt16)
    (own : ∀ oid ∈ table, (ObjectId.fromU64 oid).nodeId = nodeId)
    (numbers : ((toSorted table).map fun entry => entry.1.toNat % 2 ^ 48).Nodup)
    (filled : Leaf locationLeaf)
    (built : fillLeaf (toSorted table) (Leaf.new locationLeaf) = .ok filled) (oid : UInt64)
    (bytes : List UInt8) :
    (oid, bytes) ∈ slotEntries nodeId filled.storedSlots ↔
      ∃ location, table.lookup oid = some location ∧ locationImage location = bytes := by
  have slot := filled_slot (toSorted table) numbers filled built
  rw [slotEntries, List.mem_filterMap]
  constructor
  · intro present
    obtain ⟨content, member, same⟩ := present
    obtain ⟨index, place⟩ := List.mem_iff_getElem?.mp member
    rw [List.getElem?_mapIdx, Leaf.storedSlots, List.getElem?_map, Option.map_map] at place
    obtain ⟨before, inside, pair⟩ := Option.map_eq_some_iff.mp place
    cases before with
    | none =>
        rw [← pair] at same
        cases same
    | some location =>
        obtain ⟨entry, entryMember, number, entrySame⟩ := (slot index location).mp inside
        have located := (mem_to_sorted table entry.1 entry.2).mp entryMember
        have key := node_and_local entry.1 nodeId
          (own entry.1 (Finmap.mem_of_lookup_eq_some located))
        rw [number] at key
        rw [← pair] at same
        cases same
        rw [key, ← entrySame]
        exact ⟨entry.2, located, rfl⟩
  · intro known
    obtain ⟨location, located, image⟩ := known
    have member := (mem_to_sorted table oid location).mpr located
    have place := (slot _ location).mpr ⟨(oid, location), member, rfl, rfl⟩
    have key := node_and_local oid nodeId (own oid (Finmap.mem_of_lookup_eq_some located))
    refine ⟨some (oid, bytes), ?_, rfl⟩
    rw [List.mem_iff_getElem?]
    refine ⟨oid.toNat % 2 ^ 48, ?_⟩
    rw [List.getElem?_mapIdx, Leaf.storedSlots, List.getElem?_map, place]
    simp only [Option.map_some, key]
    rw [← image]
    rfl

/-- The locations of one node are read back. -/
theorem location_table_read_back (table : FMap UInt64 (List UInt8)) (nodeId : UInt16)
    (own : ∀ oid ∈ table, (ObjectId.fromU64 oid).nodeId = nodeId) (offset : Nat) (d after : Device)
    (ok : flushLocationTable table offset d = (.ok (), after)) :
    ∀ e, AgreesOn offset regionSize after e →
      loadLocationTable e offset nodeId = .ok (mapVals locationImage table) := by
  have numbers : ((toSorted table).map fun entry => entry.1.toNat % 2 ^ 48).Nodup := by
    apply locals_apart
    intro left right leftMember rightMember same
    rw [← node_and_local left nodeId (own left leftMember), same]
    exact node_and_local right nodeId (own right rightMember)
  obtain ⟨-, back⟩ := flushed_leaf locationLeaf (toSorted table) offset d after ok
  intro e agrees
  obtain ⟨filled, found, built, read, slots⟩ := back e agrees
  have listed := mem_slot_entries_iff table nodeId own numbers filled built
  rw [loadLocationTable, read]
  simp only [bind, Except.bind, Except.ok.injEq, slots]
  apply of_entries_covering
  · intro entry member
    obtain ⟨location, located, image⟩ := (listed entry.1 entry.2).mp member
    rw [lookup_map_vals, located, Option.map_some, image]
  · intro key value located
    rw [lookup_map_vals, Option.map_eq_some_iff] at located
    exact (listed key value).mpr located

/-- The locations of a node are read back whatever they are, the objects just when no two of them,
of different nodes, have one local number. -/
theorem tables_survive_iff (objects : FMap UInt64 ObjectRecord)
    (keyed : ∀ key record, objects.lookup key = some record → record.id = key)
    (locations : FMap UInt64 (List UInt8)) (nodeId : UInt16)
    (own : ∀ oid ∈ locations, (ObjectId.fromU64 oid).nodeId = nodeId)
    (objectOffset locationOffset : Nat) (objectDevice locationDevice objectsAfter locationsAfter : Device)
    (objectsFlushed :
      flushObjectTable objects objectOffset objectDevice = (.ok (), objectsAfter))
    (locationsFlushed :
      flushLocationTable locations locationOffset locationDevice = (.ok (), locationsAfter)) :
    ((∃ loaded, loadObjectTable objectsAfter objectOffset = .ok loaded ∧
        SameImages recordImage loaded objects) ∧
      ∃ loaded, loadLocationTable locationsAfter locationOffset nodeId = .ok loaded ∧
        SameImages locationImage loaded locations) ↔
      LocalsApart objects := by
  have located := location_table_read_back locations nodeId own locationOffset locationDevice
    locationsAfter locationsFlushed locationsAfter (agrees_refl _ _ locationsAfter)
  have same : SameImages locationImage (mapVals locationImage locations) locations :=
    same_images_of_map locationImage locationImage location_image_image locations
  rw [objects_read_back_iff objects keyed objectOffset objectDevice objectsAfter objectsFlushed]
  constructor
  · intro both
    exact both.1
  · intro apart
    exact ⟨apart, _, located, same⟩

def newRecords (oids : List UInt64) : FMap UInt64 ObjectRecord :=
  ofEntries (oids.map fun oid => (oid, ObjectRecord.new oid))

theorem new_records_keyed (oids : List UInt64) (key : UInt64) (record : ObjectRecord)
    (found : (newRecords oids).lookup key = some record) : record.id = key := by
  obtain ⟨oid, -, same⟩ := List.mem_map.mp (mem_of_lookup_of_entries _ _ _ found)
  cases same
  rfl

theorem new_records_listed (oids : List UInt64) (key : UInt64) (record : ObjectRecord)
    (found : (newRecords oids).lookup key = some record) : key ∈ oids := by
  obtain ⟨oid, listed, same⟩ := List.mem_map.mp (mem_of_lookup_of_entries _ _ _ found)
  have equal : oid = key := congrArg Prod.fst same
  rw [← equal]
  exact listed

/-- A device of one leaf. -/
def leafDevice : Device :=
  { bytes := fun _ => 0
    capacity := regionSize
    readOnly := false
    faults := [] }

theorem leaf_device_healthy : leafDevice.Healthy := ⟨rfl, fun _ member => by cases member⟩

theorem new_records_flushed (oids : List UInt64)
    (few : ∀ oid ∈ oids, oid.toNat % 2 ^ 48 < leafRecords) :
    ∃ after, flushObjectTable (newRecords oids) 0 leafDevice = (.ok (), after) := by
  apply @flush_within _ objectLeaf _ _ 0 leafDevice leaf_device_healthy (by decide)
  intro entry member
  have found := (mem_to_sorted (newRecords oids) entry.1 entry.2).mp member
  exact few entry.1 (new_records_listed oids entry.1 entry.2 found)

/-- Two objects of node 1 and the location of one of them. -/
theorem tables_of_one_node_survive :
    let objects := newRecords [281474976710657, 281474976710658]
    let locations : FMap UInt64 (List UInt8) := ofEntries [(281474976710657, List.replicate 48 7)]
    LocalsApart objects ∧ ∃ objectsAfter locationsAfter,
      flushObjectTable objects 0 leafDevice = (.ok (), objectsAfter) ∧
      flushLocationTable locations 0 leafDevice = (.ok (), locationsAfter) ∧
      (∃ loaded, loadObjectTable objectsAfter 0 = .ok loaded ∧
        SameImages recordImage loaded objects) ∧
      ∃ loaded, loadLocationTable locationsAfter 0 1 = .ok loaded ∧
        SameImages locationImage loaded locations := by
  intro objects locations
  have apart : LocalsApart objects := by
    have either (oid : UInt64) (member : oid ∈ objects) :
        oid = 281474976710657 ∨ oid = 281474976710658 := by
      obtain ⟨record, found⟩ := Finmap.mem_iff.mp member
      exact List.mem_pair.mp (new_records_listed _ oid record found)
    intro left right leftMember rightMember same
    rcases either left leftMember with rfl | rfl
    · rcases either right rightMember with rfl | rfl
      · rfl
      · exact absurd same (by decide)
    · rcases either right rightMember with rfl | rfl
      · exact absurd same (by decide)
      · rfl
  obtain ⟨objectsAfter, objectsFlushed⟩ :=
    new_records_flushed [281474976710657, 281474976710658] (by
      intro oid listed
      rcases List.mem_pair.mp listed with rfl | rfl
      · decide
      · decide)
  have one (oid : UInt64) (location : List UInt8) (found : locations.lookup oid = some location) :
      oid = 281474976710657 := by
    have listed := mem_of_lookup_of_entries _ _ _ found
    exact congrArg Prod.fst (List.mem_singleton.mp listed)
  obtain ⟨locationsAfter, locationsFlushed⟩ : ∃ after,
      flushLocationTable locations 0 leafDevice = (.ok (), after) := by
    apply @flush_within _ locationLeaf _ _ 0 leafDevice leaf_device_healthy (by decide)
    intro entry member
    rw [one entry.1 entry.2 ((mem_to_sorted locations entry.1 entry.2).mp member)]
    decide
  have own : ∀ oid ∈ locations, (ObjectId.fromU64 oid).nodeId = 1 := by
    intro oid member
    obtain ⟨location, found⟩ := Finmap.mem_iff.mp member
    rw [one oid location found]
    decide
  refine ⟨apart, objectsAfter, locationsAfter, objectsFlushed, locationsFlushed, ?_⟩
  exact (tables_survive_iff objects (new_records_keyed _) locations 1 own 0 0 leafDevice leafDevice
    objectsAfter locationsAfter objectsFlushed locationsFlushed).mpr apart

/-- The object 1 of node 0 and the object 1 of node 1 are flushed without an error, and loading
does not bring back both. -/
theorem shared_slot_loses_object :
    let objects := newRecords [1, 281474976710657]
    (∀ key record, objects.lookup key = some record → record.id = key) ∧
      ∃ after, flushObjectTable objects 0 leafDevice = (.ok (), after) ∧
        ¬ ∃ loaded, loadObjectTable after 0 = .ok loaded ∧
          SameImages recordImage loaded objects := by
  intro objects
  obtain ⟨after, flushed⟩ := new_records_flushed [1, 281474976710657] (by
    intro oid listed
    rcases List.mem_pair.mp listed with rfl | rfl
    · decide
    · decide)
  refine ⟨new_records_keyed _, after, flushed, ?_⟩
  rw [objects_read_back_iff objects (new_records_keyed _) 0 leafDevice after flushed]
  intro apart
  have first : 1 ∈ objects := Finmap.mem_keys.mp (by decide +kernel)
  have second : 281474976710657 ∈ objects := Finmap.mem_keys.mp (by decide +kernel)
  exact absurd (apart 1 281474976710657 first second (by decide)) (by decide)

end Mimisbrunnr.Meta
