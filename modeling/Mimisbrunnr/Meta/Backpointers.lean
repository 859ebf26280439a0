import Mimisbrunnr.Lib.MachineOrder
import Mimisbrunnr.Lib.SortedEntries
import Mimisbrunnr.Meta.Radix
import Mimisbrunnr.Storage.BtreeRoundTrip

/-!
# Backpointers

The owners of extents under their places on the disks, one CBOR run in a region.
-/

namespace Mimisbrunnr.Meta

set_option autoImplicit false

open Mimisbrunnr.Lib
open Mimisbrunnr.Lib.FiniteMap
open Mimisbrunnr.Lib.MachineOrder
open Mimisbrunnr.Storage

structure BackpointerKey where
  diskId : UInt16
  bucketNo : UInt32
  sectorOffset : UInt16
deriving DecidableEq, Repr

namespace BackpointerKey

def rank (key : BackpointerKey) : UInt16 ×ₗ UInt32 ×ₗ UInt16 :=
  toLex (key.diskId, toLex (key.bucketNo, key.sectorOffset))

private theorem rank_injective : Function.Injective rank := by
  intro left right same
  cases left
  cases right
  cases same
  rfl

instance : LinearOrder BackpointerKey := LinearOrder.lift' rank rank_injective

end BackpointerKey

structure BackpointerValue where
  ownerKind : UInt8
  pad : UInt8
  lengthSectors : UInt16
  bucketGen : UInt32
  ownerKey : List.Vector UInt8 16
deriving DecidableEq

abbrev BackpointerTable := FMap BackpointerKey BackpointerValue

structure BackpointerRegionEnv where
  crc : Crc
  cbor : Cbor (List (BackpointerKey × BackpointerValue))

namespace BackpointerTable

def flushToRegion (env : BackpointerRegionEnv) (table : BackpointerTable) (offset : Nat) :
    DeviceM MetaError Unit :=
  (flushTable env.crc (.cbor env.cbor) .backpointer (toSorted table) offset).mapError .storage

def loadFromRegion (env : BackpointerRegionEnv) (d : Device) (offset : Nat) :
    Except MetaError BackpointerTable := do
  let entries ← (loadTable env.crc (.cbor env.cbor) .backpointer d offset).mapError .storage
  .ok (ofEntries entries)

end BackpointerTable

theorem backpointer_table_read_back (env : BackpointerRegionEnv) (table : BackpointerTable)
    (offset : Nat) (d after : Device)
    (ok : table.flushToRegion env offset d = (.ok (), after)) :
    ChangesWithin offset regionSize d after ∧
      ∀ e, AgreesOn offset regionSize after e →
        BackpointerTable.loadFromRegion env e offset = .ok table := by
  obtain ⟨changes, back⟩ := cbor_table_read_back env.crc env.cbor _ _ offset d after
    (DeviceM.map_error_ok _ _ _ _ _ ok) (increasing_to_sorted table)
  refine ⟨changes, ?_⟩
  intro e agrees
  rw [BackpointerTable.loadFromRegion, back e agrees]
  exact congrArg Except.ok (of_entries_to_sorted table)

end Mimisbrunnr.Meta
