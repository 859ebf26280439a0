import Mimisbrunnr.Lib.MachineOrder
import Mimisbrunnr.Lib.SortedEntries
import Mimisbrunnr.Storage.BtreeRoundTrip

/-!
# The allocation tables

The allocation records of the buckets and the order in which buckets are used
again, each one CBOR run in a region. The key on the device names a disk; the
table in memory is that of the whole pool and forgets it.
-/

namespace Mimisbrunnr.Storage

set_option autoImplicit false

open Mimisbrunnr.Lib
open Mimisbrunnr.Lib.FiniteMap
open Mimisbrunnr.Lib.MachineOrder

structure BucketAllocEntry where
  generation : UInt32
  dataType : UInt8
  flags : UInt8
  dirtySectors : UInt16
  lastModifyLsn : UInt64
deriving DecidableEq, Repr

structure BucketAllocKey where
  diskId : UInt16
  bucketNo : UInt32
deriving DecidableEq, Repr

namespace BucketAllocKey

def rank (key : BucketAllocKey) : UInt16 ×ₗ UInt32 := toLex (key.diskId, key.bucketNo)

theorem rank_injective : Function.Injective rank := by
  intro left right same
  cases left
  cases right
  cases same
  rfl

instance : LinearOrder BucketAllocKey := LinearOrder.lift' rank rank_injective

end BucketAllocKey

abbrev BucketAllocTable := FMap UInt32 BucketAllocEntry

structure BucketRegionEnv where
  crc : Crc
  cbor : Cbor (List (BucketAllocKey × BucketAllocEntry))

namespace BucketAllocTable

def keyed (table : BucketAllocTable) (diskId : UInt16) :
    List (BucketAllocKey × BucketAllocEntry) :=
  (toSorted table).map fun row => ({ diskId := diskId, bucketNo := row.1 }, row.2)

def flushToRegion (env : BucketRegionEnv) (table : BucketAllocTable) (offset : Nat)
    (diskId : UInt16) : DeviceM StorageError Unit :=
  flushTable env.crc (.cbor env.cbor) .bucketAlloc (table.keyed diskId) offset

def loadFromRegion (env : BucketRegionEnv) (d : Device) (offset : Nat) :
    Except StorageError BucketAllocTable := do
  let entries ← loadTable env.crc (.cbor env.cbor) .bucketAlloc d offset
  .ok (ofEntries (entries.map fun row => (row.1.bucketNo, row.2)))

private theorem keyed_increasing (table : BucketAllocTable) (diskId : UInt16) :
    ((table.keyed diskId).map Prod.fst).Pairwise (· < ·) := by
  have sorted := increasing_to_sorted table
  rw [List.pairwise_map] at sorted
  rw [keyed, List.map_map, List.pairwise_map]
  apply sorted.imp
  intro left right less
  exact Prod.Lex.lt_iff.mpr (Or.inr ⟨rfl, less⟩)

end BucketAllocTable

theorem bucket_alloc_read_back (env : BucketRegionEnv) (table : BucketAllocTable) (offset : Nat)
    (diskId : UInt16) (d after : Device)
    (ok : table.flushToRegion env offset diskId d = (.ok (), after)) :
    ChangesWithin offset regionSize d after ∧
      ∀ e, AgreesOn offset regionSize after e →
        BucketAllocTable.loadFromRegion env e offset = .ok table := by
  obtain ⟨changes, back⟩ := cbor_table_read_back env.crc env.cbor _ _ offset d after ok
    (table.keyed_increasing diskId)
  refine ⟨changes, ?_⟩
  intro e agrees
  have rows : ((table.keyed diskId).map fun row => (row.1.bucketNo, row.2)) = toSorted table := by
    rw [BucketAllocTable.keyed, List.map_map]
    exact List.map_id _
  rw [BucketAllocTable.loadFromRegion, back e agrees]
  simp only [bind, Except.bind]
  rw [rows, of_entries_to_sorted]

structure FreespaceLruKey where
  fragmentationBand : UInt8
  diskId : UInt16
  bucketNo : UInt32
deriving DecidableEq, Repr

namespace FreespaceLruKey

def rank (key : FreespaceLruKey) : UInt8 ×ₗ UInt16 ×ₗ UInt32 :=
  toLex (key.fragmentationBand, toLex (key.diskId, key.bucketNo))

theorem rank_injective : Function.Injective rank := by
  intro left right same
  cases left
  cases right
  cases same
  rfl

instance : LinearOrder FreespaceLruKey := LinearOrder.lift' rank rank_injective

end FreespaceLruKey

abbrev FreespaceLru := FMap FreespaceLruKey Unit

structure FreespaceRegionEnv where
  crc : Crc
  cbor : Cbor (List (FreespaceLruKey × Unit))

namespace FreespaceLru

def flushToRegion (env : FreespaceRegionEnv) (lru : FreespaceLru) (offset : Nat) :
    DeviceM StorageError Unit :=
  flushTable env.crc (.cbor env.cbor) .freespaceLru (toSorted lru) offset

def loadFromRegion (env : FreespaceRegionEnv) (d : Device) (offset : Nat) :
    Except StorageError FreespaceLru := do
  let entries ← loadTable env.crc (.cbor env.cbor) .freespaceLru d offset
  .ok (ofEntries entries)

end FreespaceLru

theorem freespace_lru_read_back (env : FreespaceRegionEnv) (lru : FreespaceLru) (offset : Nat)
    (d after : Device) (ok : lru.flushToRegion env offset d = (.ok (), after)) :
    ChangesWithin offset regionSize d after ∧
      ∀ e, AgreesOn offset regionSize after e →
        FreespaceLru.loadFromRegion env e offset = .ok lru := by
  obtain ⟨changes, back⟩ := cbor_table_read_back env.crc env.cbor _ _ offset d after ok
    (increasing_to_sorted lru)
  refine ⟨changes, ?_⟩
  intro e agrees
  rw [FreespaceLru.loadFromRegion, back e agrees]
  exact congrArg Except.ok (of_entries_to_sorted lru)

end Mimisbrunnr.Storage
