import Mimisbrunnr.Index.BitmapPage
import Mimisbrunnr.Index.Tag
import Mimisbrunnr.Lib.SortedEntries
import Mimisbrunnr.Lib.Vec
import Mimisbrunnr.Storage.BtreeRoundTrip

/-!
# The tag index on the device

The bitmap of each tag is a chain of pages in the bitmap area, and a directory
of packed keys names the first page of each chain. The pages of a chain have
consecutive slots and are written from the last to the first.
-/

namespace Mimisbrunnr.Index

set_option autoImplicit false

open Mimisbrunnr.Lib.ByteStore
open Mimisbrunnr.Lib.FiniteMap
open Mimisbrunnr.Lib.Layout
open Mimisbrunnr.Lib.Vec
open Mimisbrunnr.Storage
open Mimisbrunnr.Types

def pageChunks (bytes : List UInt8) : List (List UInt8) :=
  if bytes = [] then [[]] else chunks tagBitmapPageMaxBytes bytes

/-- Writes the pieces to consecutive slots, the last first, and returns the
reference to the first. -/
def writeChunks (crc : Crc) (area : Nat) : Nat → List (List UInt8) → DeviceM IndexError BlockRef
  | _, [] => pure BlockRef.zero
  | slot, chunk :: rest => do
      let next ← writeChunks crc area (slot + 1) rest
      let offset := area + slot * blockSize
      ((TagBitmapPage.fromBytesChunk chunk next).write crc offset).mapError .page
      pure (BlockRef.at_ offset)

/-- Writes the chain of a bitmap and returns the first page and the next free slot. -/
def writeBitmapChain (crc : Crc) (roaring : Roaring) (area cap slot : Nat) (bitmap : Finset Nat) :
    DeviceM IndexError (BlockRef × Nat) := do
  let chunks := pageChunks (roaring.serialise bitmap)
  let neededEnd := slot + chunks.length
  if cap < neededEnd then DeviceM.lift (.error (.bitmapAreaExhausted neededEnd cap))
  else do
    let head ← writeChunks crc area slot chunks
    pure (head, neededEnd)

/-- The bytes of the pages from a reference on; `none` while the chain is longer
than the fuel. -/
def readChunks (crc : Crc) (d : Device) : Nat → BlockRef → Option (Except IndexError (List UInt8))
  | 0, _ => none
  | fuel + 1, current =>
      if current = BlockRef.zero then some (.ok [])
      else
        match TagBitmapPage.read crc d current.offset with
        | .error err => some (.error (.page err))
        | .ok page =>
            (readChunks crc d fuel page.nextPage).map fun rest => rest.map (page.bitmapSlice ++ ·)

def readBitmapChain (crc : Crc) (roaring : Roaring) (d : Device) (fuel : Nat) (head : BlockRef) :
    Option (Except IndexError (Finset Nat)) :=
  (readChunks crc d fuel head).map fun bytes => bytes.bind fun bytes =>
    if bytes = [] then .ok ∅ else (roaring.deserialise bytes).mapError .roaring

structure TagIndexKey where
  tagId : UInt32
  snapshot : UInt32
deriving DecidableEq, Repr

namespace TagIndexKey

def rank (key : TagIndexKey) : UInt32 ×ₗ UInt32 := toLex (key.tagId, key.snapshot)

private theorem rank_injective : Function.Injective rank := by
  intro left right same
  cases left
  cases right
  cases same
  rfl

instance : LinearOrder TagIndexKey := LinearOrder.lift' rank rank_injective

def packable : PackableKey TagIndexKey where
  nrFields := 2
  keyHeaderBytes := 0
  fieldHints := [FieldHints.unsigned, FieldHints.unsigned]
  keyHeader _ := 0
  fieldValues key := [key.tagId.toUInt64, key.snapshot.toUInt64]
  fromComponents _ fields :=
    match fields with
    | [tagId, snapshot] =>
        if 2 ^ 32 ≤ tagId.toNat ∨ 2 ^ 32 ≤ snapshot.toNat then
          .error (.malformed "TagIndexKey: field overflow")
        else .ok { tagId := tagId.toUInt32, snapshot := snapshot.toUInt32 }
    | _ => .error (.malformed "TagIndexKey: wrong field count")

theorem packable_lawful : packable.Lawful where
  some_field := by decide
  few_fields := by decide
  short_header := by decide
  length_hints := rfl
  length_fields _ := rfl
  header_fits _ := Nat.zero_lt_one
  inverse key := by
    have first : ¬ 2 ^ 32 ≤ key.tagId.toUInt64.toNat := by
      rw [UInt32.toNat_toUInt64]
      exact Nat.not_le.mpr key.tagId.toNat_lt
    have second : ¬ 2 ^ 32 ≤ key.snapshot.toUInt64.toNat := by
      rw [UInt32.toNat_toUInt64]
      exact Nat.not_le.mpr key.snapshot.toNat_lt
    simp only [packable]
    rw [if_neg (by omega)]
    simp

end TagIndexKey

structure TagIndexValue where
  lastModifyLsn : UInt64
  storeRoot : BlockRef
  cardinality : UInt32
  generation : UInt32
  storeKind : UInt8
  pad : List.Vector UInt8 7
deriving DecidableEq

def TagIndexValue.layout : Pod TagIndexValue :=
  (Pod.u64.prod <| BlockRef.layout.prod <| Pod.u32.prod <| Pod.u32.prod <| Pod.u8.prod
    (Pod.array 7)).map
    (fun (lastModifyLsn, storeRoot, cardinality, generation, storeKind, pad) =>
      { lastModifyLsn, storeRoot, cardinality, generation, storeKind, pad })
    (fun value => (value.lastModifyLsn, value.storeRoot, value.cardinality, value.generation,
      value.storeKind, value.pad))
    (fun _ => rfl)

def tagIndexValueSize : Nat := 40

def TagStore.kind : TagStore → UInt8
  | .simple _ => 0
  | .ordered _ _ => 1
  | .ranked _ _ => 2

/-- The first store that is not simple, as an error. -/
def checkSimple : List (TagId × TagStore) → Except IndexError Unit
  | [] => .ok ()
  | (_, .simple _) :: rest => checkSimple rest
  | (_, store) :: _ => .error (.unsupportedStoreKind store.kind)

/-- Writes the chains one after another and returns their directory entries. -/
def writeStores (crc : Crc) (roaring : Roaring) (area cap : Nat) :
    Nat → List (TagId × TagStore) → DeviceM IndexError (List (TagIndexKey × TagIndexValue) × Nat)
  | slot, [] => pure ([], slot)
  | slot, (tag, store) :: rest => do
      let bitmap := store.members
      if 2 ^ 32 ≤ bitmap.card then DeviceM.lift (.error (.cardinalityOverflow bitmap.card))
      else do
        let (storeRoot, slot) ← writeBitmapChain crc roaring area cap slot bitmap
        let (leaves, slot) ← writeStores crc roaring area cap slot rest
        let key : TagIndexKey := { tagId := UInt32.ofNat tag, snapshot := 0 }
        let value : TagIndexValue :=
          { lastModifyLsn := 0
            storeRoot := storeRoot
            cardinality := UInt32.ofNat bitmap.card
            generation := 1
            storeKind := 0
            pad := List.Vector.replicate 7 0 }
        pure ((key, value) :: leaves, slot)

/-- What the codecs of the directory need. -/
structure TagRegionEnv where
  crc : Crc
  roaring : Roaring
  cbor : Cbor (List (TagIndexKey × TagIndexValue))

def TagRegionEnv.codec (env : TagRegionEnv) : RunCodec TagIndexKey TagIndexValue :=
  .packed TagIndexKey.packable (.ofPod TagIndexValue.layout) tagIndexValueSize false env.cbor

namespace TagIndex

def flushToRegion (env : TagRegionEnv) (index : TagIndex) (dirOffset area cap : Nat) :
    DeviceM IndexError Nat := do
  let sorted := toSorted index.stores
  DeviceM.lift (checkSimple sorted)
  let (leaves, slots) ← writeStores env.crc env.roaring area cap 0 sorted
  (flushTable env.crc env.codec .tagDirectory leaves dirOffset).mapError .storage
  pure slots

/-- The index of the directory entries, with the bitmaps read from their chains. -/
def fromLeafEntries (env : TagRegionEnv) (d : Device) (fuel : Nat) :
    List (TagIndexKey × TagIndexValue) → FMap TagId TagStore → Option (Except IndexError TagIndex)
  | [], stores => some (.ok { stores := stores })
  | (key, value) :: rest, stores =>
      if value.storeKind ≠ 0 then some (.error (.unsupportedStoreKind value.storeKind))
      else
        match readBitmapChain env.crc env.roaring d fuel value.storeRoot with
        | none => none
        | some (.error err) => some (.error err)
        | some (.ok bitmap) =>
            fromLeafEntries env d fuel rest (stores.insert key.tagId.toNat (.simple bitmap))

def loadFromRegion (env : TagRegionEnv) (fuel : Nat) (d : Device) (dirOffset : Nat) :
    Option (Except IndexError TagIndex) :=
  match loadTable env.crc env.codec .tagDirectory d dirOffset with
  | .error err => some (.error (.storage err))
  | .ok entries => fromLeafEntries env d fuel entries ∅

end TagIndex

end Mimisbrunnr.Index
