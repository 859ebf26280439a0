import Mimisbrunnr.Index.BitmapPage
import Mimisbrunnr.Lib.MachineOrder
import Mimisbrunnr.Lib.SortedEntries
import Mimisbrunnr.Storage.BtreeRoundTrip

/-!
# The chunk index on the device

The reference counts and extents of chunks under their hashes, in a table of
packed keys. A hash is kept as its four big-endian words: the packed key has
them as its fields, and their order is the order of the bytes.
-/

namespace Mimisbrunnr.Index

set_option autoImplicit false

open Mimisbrunnr.Lib
open Mimisbrunnr.Lib.FiniteMap
open Mimisbrunnr.Lib.Layout
open Mimisbrunnr.Lib.MachineOrder
open Mimisbrunnr.Storage

structure ChunkHashKey where
  first : UInt64
  second : UInt64
  third : UInt64
  fourth : UInt64
deriving DecidableEq, Repr

namespace ChunkHashKey

def rank (key : ChunkHashKey) : UInt64 ×ₗ UInt64 ×ₗ UInt64 ×ₗ UInt64 :=
  toLex (key.first, toLex (key.second, toLex (key.third, key.fourth)))

private theorem rank_injective : Function.Injective rank := by
  intro left right same
  cases left
  cases right
  cases same
  rfl

instance : LinearOrder ChunkHashKey := LinearOrder.lift' rank rank_injective

def packable : PackableKey ChunkHashKey where
  nrFields := 4
  keyHeaderBytes := 0
  fieldHints :=
    [FieldHints.unsignedMsb, FieldHints.unsignedMsb, FieldHints.unsignedMsb, FieldHints.unsignedMsb]
  keyHeader _ := 0
  fieldValues key := [key.first, key.second, key.third, key.fourth]
  fromComponents _ fields :=
    match fields with
    | [first, second, third, fourth] => .ok { first, second, third, fourth }
    | _ => .error (.malformed "ChunkHashKey: wrong field count")

private theorem packable_lawful : packable.Lawful where
  some_field := by decide
  few_fields := by decide
  short_header := by decide
  length_hints := rfl
  length_fields _ := rfl
  header_fits _ := Nat.zero_lt_one
  inverse _ := rfl

end ChunkHashKey

structure BlobRef where
  diskId : UInt16
  pad : UInt16
  blockNo : UInt32
  length : UInt64
deriving DecidableEq, Repr

structure ChunkIndexValue where
  refCount : UInt32
  length : UInt32
  blobRef : BlobRef
deriving DecidableEq, Repr

def chunkIndexValueSize : Nat := 24

namespace ChunkIndexValue

def layout : Pod ChunkIndexValue :=
  (Pod.u32.prod <| Pod.u32.prod <| Pod.u16.prod <| Pod.u16.prod <| Pod.u32.prod Pod.u64).map
    (fun (refCount, length, diskId, pad, blockNo, blobLength) =>
      { refCount, length, blobRef := { diskId, pad, blockNo, length := blobLength } })
    (fun value => (value.refCount, value.length, value.blobRef.diskId, value.blobRef.pad,
      value.blobRef.blockNo, value.blobRef.length))
    (fun _ => rfl)

end ChunkIndexValue

abbrev ChunkIndex := FMap ChunkHashKey ChunkIndexValue

structure ChunkRegionEnv where
  crc : Crc
  cbor : Cbor (List (ChunkHashKey × ChunkIndexValue))

def ChunkRegionEnv.codec (env : ChunkRegionEnv) : RunCodec ChunkHashKey ChunkIndexValue :=
  .packed ChunkHashKey.packable (.ofPod ChunkIndexValue.layout) chunkIndexValueSize false env.cbor

namespace ChunkIndex

def flushToRegion (env : ChunkRegionEnv) (index : ChunkIndex) (offset : Nat) :
    DeviceM IndexError Unit :=
  (flushTable env.crc env.codec .chunkIndex (toSorted index) offset).mapError .storage

def loadFromRegion (env : ChunkRegionEnv) (d : Device) (offset : Nat) :
    Except IndexError ChunkIndex := do
  let entries ← (loadTable env.crc env.codec .chunkIndex d offset).mapError .storage
  .ok (ofEntries entries)

end ChunkIndex

theorem chunk_index_read_back (env : ChunkRegionEnv) (index : ChunkIndex) (offset : Nat)
    (d after : Device) (ok : index.flushToRegion env offset d = (.ok (), after)) :
    ChangesWithin offset regionSize d after ∧
      ∀ e, AgreesOn offset regionSize after e →
        ChunkIndex.loadFromRegion env e offset = .ok index := by
  have back : ∀ entry ∈ toSorted index, (ValueBytes.ofPod ChunkIndexValue.layout).fromBytes
      ((ValueBytes.ofPod ChunkIndexValue.layout).toBytes entry.2) = entry.2 := by
    intro entry _
    exact Pod.of_bytes_take ChunkIndexValue.layout entry.2 _
  have size : ∀ entry ∈ toSorted index,
      ((ValueBytes.ofPod ChunkIndexValue.layout).toBytes entry.2).length = chunkIndexValueSize := by
    intro entry _
    exact ChunkIndexValue.layout.length_to_bytes entry.2
  have short : ∀ entry ∈ toSorted index,
      ((ValueBytes.ofPod ChunkIndexValue.layout).toBytes entry.2).length < 2 ^ 64 := by
    intro entry member
    rw [size entry member]
    decide
  have table := packed_table_read_back env.crc _ ChunkHashKey.packable_lawful _ _ _ _ _
    (toSorted index) offset d after (DeviceM.map_error_ok _ _ _ _ _ ok)
    (increasing_to_sorted index) back short (fun _ => size)
  refine ⟨table.1, ?_⟩
  intro e agrees
  have loaded : loadTable env.crc env.codec .chunkIndex e offset = .ok (toSorted index) :=
    table.2 e agrees
  rw [ChunkIndex.loadFromRegion, loaded]
  exact congrArg Except.ok (of_entries_to_sorted index)

end Mimisbrunnr.Index
