import Mimisbrunnr.Meta.TableRoundTrip

/-!
# Objects that share a slot

A table is flushed in the order of its identifiers, so that of the objects with
one local number the largest keeps the slot. These are the objects that a load
finds.
-/

namespace Mimisbrunnr.Meta

set_option autoImplicit false

open Mimisbrunnr.Lib.FiniteMap
open Mimisbrunnr.Lib.Layout
open Mimisbrunnr.Lib.MachineOrder
open Mimisbrunnr.Storage
open Mimisbrunnr.Types

section

variable {α : Type} {shape : LeafShape α}

/-- A slot that is filled keeps the last entry of its number, or what it held before. -/
theorem fill_last (entries : List (UInt64 × α)) :
    ∀ leaf filled : Leaf shape, fillLeaf entries leaf = .ok filled →
      ∀ (slot : Nat) (record : α), filled.slots[slot]? = some (some record) →
        (leaf.slots[slot]? = some (some record) ∧
            ∀ entry ∈ entries, entry.1.toNat % 2 ^ 48 ≠ slot) ∨
          ∃ before entry after, entries = before ++ entry :: after ∧
            entry.1.toNat % 2 ^ 48 = slot ∧ entry.2 = record ∧
            ∀ other ∈ after, other.1.toNat % 2 ^ 48 ≠ slot := by
  induction entries with
  | nil =>
      intro leaf filled ok slot record found
      cases ok
      exact Or.inl ⟨found, by simp⟩
  | cons entry rest ih =>
      intro leaf filled ok slot record found
      simp only [fillLeaf, bind, Except.bind] at ok
      split at ok
      · cases ok
      · next next placed =>
          obtain ⟨-, -, -, slots⟩ := set_ok leaf next _ _ placed
          rw [local_number_to_nat] at slots
          cases ih next filled ok slot record found with
          | inr later =>
              obtain ⟨before, other, after, same, number, stored, free⟩ := later
              refine Or.inr ⟨entry :: before, other, after, ?_, number, stored, free⟩
              rw [same, List.cons_append]
          | inl earlier =>
              obtain ⟨before, free⟩ := earlier
              by_cases here : entry.1.toNat % 2 ^ 48 = slot
              · rw [slots, here, List.getElem?_set_self'] at before
                obtain ⟨old, -, same⟩ := Option.map_eq_some_iff.mp before
                exact Or.inr ⟨[], entry, rest, rfl, here, Option.some.inj same, free⟩
              · rw [slots, List.getElem?_set_ne here] at before
                refine Or.inl ⟨before, ?_⟩
                intro other member
                cases List.mem_cons.mp member with
                | inl same =>
                    rw [same]
                    exact here
                | inr inside => exact free other inside

/-- The slot of every entry holds something. -/
theorem fill_some (entries : List (UInt64 × α)) :
    ∀ leaf filled : Leaf shape, fillLeaf entries leaf = .ok filled → ∀ slot,
      ((∃ record, leaf.slots[slot]? = some (some record)) ∨
        ∃ entry ∈ entries, entry.1.toNat % 2 ^ 48 = slot) →
      ∃ record, filled.slots[slot]? = some (some record) := by
  induction entries with
  | nil =>
      intro leaf filled ok slot used
      cases ok
      simpa using used
  | cons entry rest ih =>
      intro leaf filled ok slot used
      simp only [fillLeaf, bind, Except.bind] at ok
      split at ok
      · cases ok
      · next next placed =>
          obtain ⟨inside, -, -, slots⟩ := set_ok leaf next _ _ placed
          rw [local_number_to_nat] at slots inside
          apply ih next filled ok slot
          by_cases here : entry.1.toNat % 2 ^ 48 = slot
          · refine Or.inl ⟨entry.2, ?_⟩
            rw [slots, here, List.getElem?_set_self]
            rw [leaf.length_slots, ← here]
            exact inside
          · cases used with
            | inl before =>
                obtain ⟨record, found⟩ := before
                refine Or.inl ⟨record, ?_⟩
                rw [slots, List.getElem?_set_ne here]
                exact found
            | inr listed =>
                obtain ⟨other, member, number⟩ := listed
                cases List.mem_cons.mp member with
                | inl same =>
                    rw [same] at number
                    exact absurd number here
                | inr later => exact Or.inr ⟨other, later, number⟩

private theorem filled_last (entries : List (UInt64 × α)) (filled : Leaf shape)
    (built : fillLeaf entries (Leaf.new shape) = .ok filled) (slot : Nat) (record : α)
    (found : filled.slots[slot]? = some (some record)) :
    ∃ before entry after, entries = before ++ entry :: after ∧
      entry.1.toNat % 2 ^ 48 = slot ∧ entry.2 = record ∧
      ∀ other ∈ after, other.1.toNat % 2 ^ 48 ≠ slot := by
  cases fill_last entries _ filled built slot record found with
  | inl before =>
      have member := List.mem_of_getElem? before.1
      rw [Leaf.new, List.mem_replicate] at member
      cases member.2
  | inr later => exact later

theorem fill_inside (entries : List (UInt64 × α)) :
    ∀ leaf filled : Leaf shape, fillLeaf entries leaf = .ok filled →
      ∀ entry ∈ entries, entry.1.toNat % 2 ^ 48 < shape.records := by
  induction entries with
  | nil => simp
  | cons entry rest ih =>
      intro leaf filled ok other member
      simp only [fillLeaf, bind, Except.bind] at ok
      split at ok
      · cases ok
      · next next placed =>
          obtain ⟨inside, -, -, -⟩ := set_ok leaf next _ _ placed
          rw [local_number_to_nat] at inside
          cases List.mem_cons.mp member with
          | inl same =>
              rw [same]
              exact inside
          | inr later => exact ih next filled ok other later

end

def KeepsSlot (table : FMap UInt64 ObjectRecord) (key : UInt64) : Prop :=
  key ∈ table ∧ ∀ other ∈ table, other.toNat % 2 ^ 48 = key.toNat % 2 ^ 48 → other ≤ key

/-- What is loaded of a table that was flushed. -/
structure ReadBack (table loaded : FMap UInt64 ObjectRecord) : Prop where
  keyed : ∀ key record, loaded.lookup key = some record → record.id = key
  keeps : ∀ key, key ∈ loaded ↔ KeepsSlot table key
  small : ∀ key ∈ table, key.toNat % 2 ^ 48 < objectLeaf.records

/-- The last entry of a number is the largest with it. -/
theorem largest_of_last (table : FMap UInt64 ObjectRecord) (entry : UInt64 × ObjectRecord)
    (before after : List (UInt64 × ObjectRecord))
    (split : toSorted table = before ++ entry :: after)
    (free : ∀ other ∈ after, other.1.toNat % 2 ^ 48 ≠ entry.1.toNat % 2 ^ 48) :
    KeepsSlot table entry.1 := by
  have increasing := increasing_to_sorted table
  rw [split, List.map_append, List.map_cons, List.pairwise_append] at increasing
  have member : (entry.1, entry.2) ∈ toSorted table := by
    rw [split]
    simp
  refine ⟨Finmap.mem_of_lookup_eq_some ((mem_to_sorted _ _ _).mp member), ?_⟩
  intro other known same
  obtain ⟨record, found⟩ := Finmap.mem_iff.mp known
  have listed := (mem_to_sorted _ _ _).mpr found
  rw [split, List.mem_append, List.mem_cons] at listed
  obtain earlier | here | later := listed
  · exact le_of_lt (increasing.2.2 other (List.mem_map_of_mem earlier) entry.1 List.mem_cons_self)
  · cases here
    exact le_rfl
  · exact absurd same (free _ later)

theorem object_slot_loaded (filled : Leaf objectLeaf) (slot : Nat) (record : ObjectRecord)
    (place : filled.slots[slot]? = some (some record)) :
    record.id ∈ ofEntries ((filled.storedSlots.filterMap id).map fun record =>
      (record.id, record)) := by
  have bytes : objectLeaf.ofBytes (objectLeaf.toBytes record) = storedRecord record :=
    congrArg ofRecordFields (recordFieldsLayout.of_to_bytes (recordFields record))
  rw [mem_of_entries_iff]
  refine ⟨storedRecord record, List.mem_map.mpr ⟨storedRecord record, ?_, rfl⟩⟩
  rw [List.mem_filterMap]
  refine ⟨some (storedRecord record), ?_, rfl⟩
  rw [Leaf.storedSlots, List.mem_map]
  exact ⟨some record, List.mem_of_getElem? place, congrArg some bytes⟩

theorem object_table_kept (table : FMap UInt64 ObjectRecord)
    (keyed : ∀ key record, table.lookup key = some record → record.id = key)
    (offset : Nat) (d after : Device) (ok : flushObjectTable table offset d = (.ok (), after))
    (loaded : FMap UInt64 ObjectRecord) (read : loadObjectTable after offset = .ok loaded) :
    ReadBack table loaded := by
  obtain ⟨-, back⟩ := flushed_leaf objectLeaf (toSorted table) offset d after ok
  obtain ⟨filled, found, built, leaf, slots⟩ := back after (agrees_refl _ _ after)
  rw [loadObjectTable, leaf] at read
  simp only [bind, Except.bind, Except.ok.injEq, slots] at read
  subst read
  -- the object that has a slot is the largest of its number
  have largest (slot : Nat) (record : ObjectRecord)
      (place : filled.slots[slot]? = some (some record)) :
      KeepsSlot table record.id ∧ record.id.toNat % 2 ^ 48 = slot := by
    obtain ⟨before, entry, after, split, number, stored, free⟩ :=
      filled_last (toSorted table) filled built slot record place
    have listed : (entry.1, entry.2) ∈ toSorted table := by
      rw [split]
      simp
    have own := keyed entry.1 entry.2 ((mem_to_sorted _ _ _).mp listed)
    rw [stored] at own
    rw [own]
    refine ⟨largest_of_last table entry before after split ?_, number⟩
    rw [number]
    exact free
  refine ⟨?_, ?_, ?_⟩
  · intro key record stored
    obtain ⟨other, -, same⟩ := List.mem_map.mp (mem_of_lookup_of_entries _ _ _ stored)
    cases same
    rfl
  · intro key
    constructor
    · intro member
      obtain ⟨record, place, same⟩ := loaded_object_slot table keyed filled built key member
      rw [← same]
      exact (largest _ record place).1
    · intro keeps
      obtain ⟨record, stored⟩ := Finmap.mem_iff.mp keeps.1
      have listed := (mem_to_sorted _ _ _).mpr stored
      obtain ⟨last, place⟩ := fill_some (toSorted table) (Leaf.new objectLeaf) filled built
        (key.toNat % 2 ^ 48) (Or.inr ⟨_, listed, rfl⟩)
      obtain ⟨kept, number⟩ := largest _ last place
      have same : last.id = key :=
        le_antisymm (keeps.2 last.id kept.1 number) (kept.2 key keeps.1 number.symm)
      rw [← same]
      exact object_slot_loaded filled _ last place
  · intro key known
    obtain ⟨record, stored⟩ := Finmap.mem_iff.mp known
    exact fill_inside (toSorted table) (Leaf.new objectLeaf) filled built _
      ((mem_to_sorted _ _ _).mpr stored)

end Mimisbrunnr.Meta
