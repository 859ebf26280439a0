import Mimisbrunnr.Index.KvRegion
import Mimisbrunnr.Lib.MachineOrder
import Mimisbrunnr.Ontology.Image
import Mimisbrunnr.Storage.BtreeRoundTrip

/-!
# The ontology on the device

The image of the registry is the only entry of a CBOR run, under snapshot zero.
Loading takes the entry with the highest snapshot; a region without entries is
an empty registry. Failures of the device come back as the text of the error.
-/

namespace Mimisbrunnr.Storage

set_option autoImplicit false

open Mimisbrunnr.Index

def hex (value : Nat) : String := String.ofList ('0' :: 'x' :: Nat.toDigits 16 value)

def PackError.text : PackError → String
  | tooManyFields count => "too many fields: " ++ toString count ++ " (max 8)"
  | fieldOverflow value bitWidth =>
      "field width overflow: value " ++ hex value.toNat ++ " exceeds bit_width " ++
        toString bitWidth
  | malformed message => "malformed packed payload: " ++ message
  | invalidPrefix length => "invalid common value prefix: " ++ toString length
  | invalidKeyHeaderBytes count =>
      "invalid key_header_bytes: " ++ toString count ++ " (must be 0..=4)"

def StorageError.text : StorageError → String
  | io message => "I/O error: " ++ message
  | invalidMagic expected actual =>
      "invalid magic: expected " ++ toString expected ++ ", got " ++ toString actual
  | invalidFullMagic => "invalid full magic for superblock"
  | invalidBlockKind kind => "invalid block kind: " ++ toString kind
  | invalidBtreeKind kind => "invalid btree kind: " ++ toString kind
  | invalidBucketDataType kind => "invalid bucket data type: " ++ toString kind
  | invalidMediaType kind => "invalid media type discriminant: " ++ toString kind
  | invalidStorageTier kind => "invalid storage tier discriminant: " ++ toString kind
  | crcMismatch expected actual =>
      "crc mismatch: expected " ++ hex32 expected ++ ", got " ++ hex32 actual
  | unsupportedFormatVersion version => "unsupported format version: " ++ toString version
  | bufferTooSmall need have_ =>
      "buffer too small: need " ++ toString need ++ " bytes, have " ++ toString have_
  | deviceTooSmall need have_ =>
      "device too small: need " ++ toString need ++ " bytes, have " ++ toString have_
  | outOfBounds offset length capacity =>
      "offset " ++ toString offset ++ " + length " ++ toString length ++
        " exceeds device capacity " ++ toString capacity
  | noValidSuperblock => "no valid superblock copy found"
  | readOnly => "device opened read-only; writes are not permitted"
  | cborEncode message => "CBOR encode error: " ++ message
  | cborDecode message => "CBOR decode error: " ++ message
  | invalidSortedRunMagic expected actual =>
      "invalid sorted-run magic: expected " ++ hex32 expected ++ ", got " ++ hex32 actual
  | regionFull used size =>
      "region payload exhausted: payload_used=" ++ toString used ++
        " would exceed region_size=" ++ toString size
  | pack err => "packed-key codec error: " ++ err.text
  | allocatorExhausted requested =>
      "bucket allocator exhausted (requested kind " ++ toString requested ++ ")"
  | staleBlockRef expected actual =>
      "stale BlockRef: expected generation " ++ toString expected ++ ", actual " ++ toString actual
  | crossDiskBlockRef expectedDisk gotDisk =>
      "cross-disk BlockRef: expected disk " ++ toString expectedDisk ++ ", got " ++ toString gotDisk
  | freeOfUnallocatedBucket bucketNo => "free of unallocated bucket " ++ toString bucketNo

end Mimisbrunnr.Storage

namespace Mimisbrunnr.Ontology

set_option autoImplicit false

open Mimisbrunnr.Lib.Digraph
open Mimisbrunnr.Lib.MachineOrder
open Mimisbrunnr.Storage
open Mimisbrunnr.Types

structure OntologyRegionEnv where
  crc : Crc
  topo : Toposort TagId
  cbor : Cbor (List (UInt32 × OntologyImage))

/-- The entry with the highest snapshot, the later of two equal ones. -/
def latestImage (entries : List (UInt32 × OntologyImage)) : Option (UInt32 × OntologyImage) :=
  entries.foldl
    (fun latest entry =>
      match latest with
      | none => some entry
      | some best => if best.1 ≤ entry.1 then some entry else some best)
    none

def storageFailure (err : StorageError) : OntologyError := .cbor err.text

namespace OntologyState

def flushToRegion (env : OntologyRegionEnv) (s : OntologyState) (offset : Nat) :
    DeviceM OntologyError Unit :=
  (flushTable env.crc (.cbor env.cbor) .ontology [(0, s.toImage)] offset).mapError storageFailure

def loadFromRegion (env : OntologyRegionEnv) (d : Device) (offset : Nat) :
    Except OntologyError OntologyState := do
  let entries ← (loadTable env.crc (.cbor env.cbor) .ontology d offset).mapError storageFailure
  match latestImage entries with
  | some (_, image) => image.intoState env.topo
  | none => .ok OntologyState.new

/-- Loading after a flush is loading the image. -/
theorem flushed_ontology (env : OntologyRegionEnv) (s : OntologyState) (offset : Nat)
    (d after : Device) (ok : s.flushToRegion env offset d = (.ok (), after)) :
    ChangesWithin offset regionSize d after ∧
      ∀ e, AgreesOn offset regionSize after e →
        loadFromRegion env e offset = s.toImage.intoState env.topo := by
  obtain ⟨changes, back⟩ := cbor_table_read_back env.crc env.cbor _ _ offset d after
    (DeviceM.map_error_ok _ _ _ _ _ ok) (List.pairwise_singleton _ _)
  refine ⟨changes, ?_⟩
  intro e agrees
  rw [loadFromRegion, back e agrees]
  rfl

end OntologyState

end Mimisbrunnr.Ontology
