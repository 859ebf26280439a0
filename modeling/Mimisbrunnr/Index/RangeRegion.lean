import Mathlib.Data.List.Lex
import Mimisbrunnr.Index.Attribute
import Mimisbrunnr.Index.BitmapPage
import Mimisbrunnr.Lib.SortedEntries
import Mimisbrunnr.Storage.BtreeRoundTrip

/-!
# The range index on the device

The entries of the index are one run of a region, under the CBOR codec, in the
order of the tags and the normalised keys; the value of an entry is the image of
its bitmap. A flush that succeeds writes to the region only, and from there the
index is read back.
-/

namespace Mimisbrunnr.Index

set_option autoImplicit false

open Mimisbrunnr.Lib
open Mimisbrunnr.Lib.FiniteMap
open Mimisbrunnr.Storage
open Mimisbrunnr.Types

structure RangeIndexKey where
  tagId : UInt32
  normKey : NormalisedKey
  snapshot : UInt32
deriving DecidableEq

namespace RangeIndexKey

def rank (key : RangeIndexKey) : UInt32 ×ₗ (List UInt8) ×ₗ UInt32 :=
  toLex (key.tagId, toLex (key.normKey.bytes, key.snapshot))

private theorem rank_injective : Function.Injective rank := by
  intro left right same
  cases left with
  | mk tagId normKey snapshot =>
      cases right with
      | mk otherTag otherKey otherSnapshot =>
          cases normKey
          cases otherKey
          cases same
          rfl

instance : LinearOrder RangeIndexKey := LinearOrder.lift' rank rank_injective

end RangeIndexKey

def rangeRank (key : TagId × NormalisedKey) : Nat ×ₗ List UInt8 := toLex (key.1, key.2.bytes)

private theorem range_rank_injective : Function.Injective rangeRank := by
  intro left right same
  cases left with
  | mk tag key =>
      cases right with
      | mk otherTag otherKey =>
          cases key
          cases otherKey
          cases same
          rfl

@[reducible] def rangeOrder : LinearOrder (TagId × NormalisedKey) :=
  orderBy rangeRank range_rank_injective

structure RangeRegionEnv where
  crc : Crc
  roaring : Roaring
  cbor : Cbor (List (RangeIndexKey × List UInt8))

def rangeLeaf (roaring : Roaring) (entry : (TagId × NormalisedKey) × Finset Nat) :
    RangeIndexKey × List UInt8 :=
  ({ tagId := UInt32.ofNat entry.1.1, normKey := entry.1.2, snapshot := 0 },
    roaring.serialise entry.2)

/-- The map of the leaves. An empty bitmap reads like an absent key. -/
def fromRangeLeaves (roaring : Roaring) :
    List (RangeIndexKey × List UInt8) → Bitmaps.BitmapMap (TagId × NormalisedKey) →
      Except IndexError (Bitmaps.BitmapMap (TagId × NormalisedKey))
  | [], found => .ok found
  | (key, bytes) :: rest, found => do
      let bitmap ← (roaring.deserialise bytes).mapError .roaring
      fromRangeLeaves roaring rest (Bitmaps.replace found (key.tagId.toNat, key.normKey) bitmap)

namespace RangeIndex

def sortedEntries (index : RangeIndex) : List ((TagId × NormalisedKey) × Finset Nat) :=
  @toSorted _ _ rangeOrder index.map.sets

def flushToRegion (env : RangeRegionEnv) (index : RangeIndex) (offset : Nat) :
    DeviceM IndexError Unit :=
  (flushTable env.crc (.cbor env.cbor) .range (index.sortedEntries.map (rangeLeaf env.roaring))
    offset).mapError .storage

def loadFromRegion (env : RangeRegionEnv) (d : Device) (offset : Nat) :
    Except IndexError RangeIndex := do
  let leaves ← (loadTable env.crc (.cbor env.cbor) .range d offset).mapError .storage
  let map ← fromRangeLeaves env.roaring leaves Bitmaps.empty
  .ok { map := map }

end RangeIndex

private theorem range_leaves_read_back (roaring : Roaring)
    (entries : List ((TagId × NormalisedKey) × Finset Nat))
    (narrow : ∀ entry ∈ entries, entry.1.1 < 2 ^ 32) :
    ∀ found, fromRangeLeaves roaring (entries.map (rangeLeaf roaring)) found =
      .ok (entries.foldl (fun m entry => Bitmaps.replace m entry.1 entry.2) found) := by
  induction entries with
  | nil =>
      intro found
      rfl
  | cons entry entries ih =>
      intro found
      have number : (UInt32.ofNat entry.1.1).toNat = entry.1.1 := by
        rw [UInt32.toNat_ofNat']
        exact Nat.mod_eq_of_lt (narrow entry List.mem_cons_self)
      have rest := ih (fun other member => narrow other (List.mem_cons_of_mem entry member))
      rw [List.map_cons, rangeLeaf, fromRangeLeaves, roaring.back]
      simp only [Except.mapError, bind, Except.bind]
      rw [number, rest]
      rfl

private theorem range_keys_nodup (index : RangeIndex) : (index.sortedEntries.map Prod.fst).Nodup :=
  (@increasing_to_sorted _ _ rangeOrder index.map.sets).imp fun less =>
    @ne_of_lt _ rangeOrder.toPreorder _ _ less

private theorem mem_range_entries (index : RangeIndex) (key : TagId × NormalisedKey)
    (set : Finset Nat) :
    (key, set) ∈ index.sortedEntries ↔ index.map.sets.lookup key = some set :=
  @mem_to_sorted _ _ rangeOrder index.map.sets key set

theorem range_leaves_increasing (roaring : Roaring) (index : RangeIndex)
    (narrow : ∀ entry ∈ index.sortedEntries, entry.1.1 < 2 ^ 32) :
    ((index.sortedEntries.map (rangeLeaf roaring)).map Prod.fst).Pairwise (· < ·) := by
  rw [List.map_map, List.pairwise_map]
  have sorted := @increasing_to_sorted _ _ rangeOrder index.map.sets
  rw [List.pairwise_map] at sorted
  apply List.Pairwise.imp_of_mem _ sorted
  intro left right leftMember rightMember less
  have before : rangeRank left.1 < rangeRank right.1 := less
  have leftSmall := narrow left leftMember
  have rightSmall := narrow right rightMember
  have leftNumber : (UInt32.ofNat left.1.1).toNat = left.1.1 := by
    rw [UInt32.toNat_ofNat']
    exact Nat.mod_eq_of_lt leftSmall
  have rightNumber : (UInt32.ofNat right.1.1).toNat = right.1.1 := by
    rw [UInt32.toNat_ofNat']
    exact Nat.mod_eq_of_lt rightSmall
  show RangeIndexKey.rank (rangeLeaf roaring left).1 < RangeIndexKey.rank (rangeLeaf roaring right).1
  apply Prod.Lex.lt_iff.mpr
  cases Prod.Lex.lt_iff.mp before with
  | inl tags =>
      left
      show UInt32.ofNat left.1.1 < UInt32.ofNat right.1.1
      rw [UInt32.lt_iff_toNat_lt, leftNumber, rightNumber]
      exact tags
  | inr keys =>
      right
      constructor
      · exact congrArg UInt32.ofNat keys.1
      · exact Prod.Lex.lt_iff.mpr (Or.inl keys.2)

/-- A range index that was flushed is read back where the bytes are the same. -/
theorem range_index_read_back (env : RangeRegionEnv) (index : RangeIndex)
    (narrow : ∀ tag key set, index.map.sets.lookup (tag, key) = some set → tag < 2 ^ 32)
    (offset : Nat) (d after : Device)
    (ok : index.flushToRegion env offset d = (.ok (), after)) :
    ChangesWithin offset regionSize d after ∧
      ∀ e, AgreesOn offset regionSize after e →
        RangeIndex.loadFromRegion env e offset = .ok index := by
  have small : ∀ entry ∈ index.sortedEntries, entry.1.1 < 2 ^ 32 := by
    intro entry member
    exact narrow entry.1.1 entry.1.2 entry.2 ((mem_range_entries index _ _).mp member)
  have table := cbor_table_read_back env.crc env.cbor _ _ offset d after
    (DeviceM.map_error_ok _ _ _ _ _ ok) (range_leaves_increasing env.roaring index small)
  refine ⟨table.1, ?_⟩
  intro e agrees
  have whole : Bitmaps.ofEntries index.sortedEntries = index.map :=
    Bitmaps.of_entries_listed index.map index.sortedEntries (range_keys_nodup index)
      (mem_range_entries index)
  rw [RangeIndex.loadFromRegion, table.2 e agrees]
  simp only [Except.mapError, bind, Except.bind]
  rw [range_leaves_read_back env.roaring index.sortedEntries small]
  rw [Bitmaps.ofEntries] at whole
  dsimp only
  rw [whole]

end Mimisbrunnr.Index
