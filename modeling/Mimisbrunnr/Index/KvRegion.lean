import Mimisbrunnr.Index.Attribute
import Mimisbrunnr.Index.BitmapPage
import Mimisbrunnr.Lib.SortedEntries
import Mimisbrunnr.Storage.Btree

/-!
# The equality index on the device

The region of 64 blocks holds an extendible hash table: the directory, its
buckets, and one bitmap page for each entry. A directory entry names the bucket
of the values whose hash starts with the bits of its number. All entries have to
fit the region, so that the table never grows beyond one bucket.
-/

namespace Mimisbrunnr.Index

set_option autoImplicit false

open Mimisbrunnr.Lib
open Mimisbrunnr.Lib.ByteStore
open Mimisbrunnr.Lib.FiniteMap
open Mimisbrunnr.Lib.Layout
open Mimisbrunnr.Storage
open Mimisbrunnr.Types

def setAt {α : Type} {n : Nat} (values : List.Vector α n) (index : Nat) (value : α) :
    List.Vector α n :=
  ⟨values.toList.set index value, by rw [List.length_set, values.toList_length]⟩

def hex32 (value : UInt32) : String :=
  let digits := Nat.toDigits 16 value.toNat
  String.ofList ('0' :: 'x' :: (List.replicate (8 - digits.length) '0' ++ digits))

structure KvBucketEntry where
  tagId : UInt32
  valueHash : UInt64
  bitmapRef : BlockRef
deriving DecidableEq, Repr

namespace KvBucketEntry

def layout : Pod KvBucketEntry :=
  (Pod.u32.prod <| Pod.u64.prod BlockRef.layout).map
    (fun (tagId, valueHash, bitmapRef) => { tagId, valueHash, bitmapRef })
    (fun entry => (entry.tagId, entry.valueHash, entry.bitmapRef))
    (fun _ => rfl)

def default : KvBucketEntry := { tagId := 0, valueHash := 0, bitmapRef := BlockRef.zero }

end KvBucketEntry

def kvBucketMaxEntries : Nat := 144

def kvBucketFormatVersion : UInt16 := 1

/-- The fields before the checksum. -/
structure KvBucketBlock where
  header : BlockHeader
  localDepth : UInt8
  entryCount : UInt16
  pad : UInt8
  entries : List.Vector KvBucketEntry kvBucketMaxEntries
  padTail : List.Vector UInt8 24

inductive KvBucketError where
  | crcMismatch (expected actual : UInt32)
  | invalidMagic (actual : List UInt8)
  | invalidBlockKind (kind : UInt16)
  | invalidFormatVersion (version : UInt16)
  | overCapacity (count : UInt16)
  | bucketFull
deriving DecidableEq, Repr

def KvBucketError.text : KvBucketError → String
  | crcMismatch expected actual =>
      "KvBucket CRC mismatch: expected " ++ hex32 expected ++ ", got " ++ hex32 actual
  | invalidMagic actual => "invalid magic: expected MIMR, got " ++ toString actual
  | invalidBlockKind kind => "invalid block kind for KvBucket: got " ++ toString kind
  | invalidFormatVersion version =>
      "invalid format version for KvBucket: got " ++ toString version
  | overCapacity count =>
      "entry_count " ++ toString count ++ " exceeds bucket capacity " ++
        toString kvBucketMaxEntries
  | bucketFull =>
      "KvBucket is full (" ++ toString kvBucketMaxEntries ++ " entries) and needs a split"

namespace KvBucketBlock

def body : Pod KvBucketBlock :=
  (BlockHeader.layout.prod <| Pod.u8.prod <| Pod.u16.prod <| Pod.u8.prod <|
    (KvBucketEntry.layout.row kvBucketMaxEntries).prod (Pod.array 24)).map
    (fun (header, localDepth, entryCount, pad, entries, padTail) =>
      { header, localDepth, entryCount, pad, entries, padTail })
    (fun block => (block.header, block.localDepth, block.entryCount, block.pad, block.entries,
      block.padTail))
    (fun _ => rfl)

theorem body_size : body.size = 4092 := rfl

def new (localDepth : UInt8) : KvBucketBlock :=
  { header := BlockHeader.new .kvHashBucket kvBucketFormatVersion 4060
    localDepth := localDepth
    entryCount := 0
    pad := 0
    entries := List.Vector.replicate kvBucketMaxEntries KvBucketEntry.default
    padTail := List.Vector.replicate 24 0 }

def iter (block : KvBucketBlock) : List KvBucketEntry :=
  block.entries.toList.take (min block.entryCount.toNat kvBucketMaxEntries)

/-- Inserts an entry or overwrites that of the same tag and hash. -/
def upsert (block : KvBucketBlock) (tagId : UInt32) (valueHash : UInt64) (bitmapRef : BlockRef) :
    Except KvBucketError KvBucketBlock :=
  match block.iter.findIdx? fun entry => entry.tagId = tagId && entry.valueHash = valueHash with
  | some index =>
      .ok { block with entries := setAt block.entries index { tagId, valueHash, bitmapRef } }
  | none =>
      if kvBucketMaxEntries ≤ block.entryCount.toNat then .error .bucketFull
      else
        .ok
          { block with
            entries :=
              setAt block.entries block.entryCount.toNat { tagId, valueHash, bitmapRef }
            entryCount := block.entryCount + 1 }

def validate (block : KvBucketBlock) : Except KvBucketError Unit :=
  if block.header.magic ≠ blockMagic then .error (.invalidMagic block.header.magic.toList)
  else if block.header.kind ≠ BlockKind.kvHashBucket.toU16 then
    .error (.invalidBlockKind block.header.kind)
  else if block.header.formatVersion ≠ kvBucketFormatVersion then
    .error (.invalidFormatVersion block.header.formatVersion)
  else if kvBucketMaxEntries < block.entryCount.toNat then .error (.overCapacity block.entryCount)
  else .ok ()

def write (crc : Crc) (block : KvBucketBlock) (offset : Nat) : DeviceM KvBucketError Unit :=
  (DeviceM.writeAt offset (sealed crc body block)).mapError fun _ => .crcMismatch 0 0

def read (crc : Crc) (d : Device) (offset : Nat) : Except KvBucketError KvBucketBlock :=
  match d.readAt offset blockSize with
  | .error _ => .error (.crcMismatch 0 0)
  | .ok bytes => do
      validate (bodyOf body bytes)
      match brokenSeal crc body bytes with
      | some (expected, actual) => .error (.crcMismatch expected actual)
      | none => .ok (bodyOf body bytes)

end KvBucketBlock

def kvDirectoryInlineEntries : Nat := 252

def kvDirectoryMaxInlineDepth : Nat := 7

def kvDirectoryFormatVersion : UInt16 := 1

/-- The fields before the checksum. -/
structure KvDirectoryBlock where
  header : BlockHeader
  globalDepth : UInt8
  pad0 : List.Vector UInt8 3
  bucketCount : UInt32
  entries : List.Vector BlockRef kvDirectoryInlineEntries
  spilloverRoot : BlockRef
  padTail : List.Vector UInt8 4

inductive KvDirectoryError where
  | crcMismatch (expected actual : UInt32)
  | invalidMagic (actual : List UInt8)
  | invalidBlockKind (kind : UInt16)
  | invalidFormatVersion (version : UInt16)
  | spilloverUnsupported (depth : UInt8)
  | inconsistentBucketCount (got expected : UInt32)
deriving DecidableEq, Repr

def KvDirectoryError.text : KvDirectoryError → String
  | crcMismatch expected actual =>
      "KvDirectory CRC mismatch: expected " ++ hex32 expected ++ ", got " ++ hex32 actual
  | invalidMagic actual => "invalid magic: expected MIMR, got " ++ toString actual
  | invalidBlockKind kind => "invalid block kind for KvDirectory: got " ++ toString kind
  | invalidFormatVersion version =>
      "invalid format version for KvDirectory: got " ++ toString version
  | spilloverUnsupported depth =>
      "global_depth " ++ toString depth ++ " exceeds inline cap " ++
        toString kvDirectoryMaxInlineDepth ++ "; spillover is not yet implemented"
  | inconsistentBucketCount got expected =>
      "bucket_count " ++ toString got ++ " doesn't match 1 << global_depth = " ++ toString expected

namespace KvDirectoryBlock

def body : Pod KvDirectoryBlock :=
  (BlockHeader.layout.prod <| Pod.u8.prod <| (Pod.array 3).prod <| Pod.u32.prod <|
    (BlockRef.layout.row kvDirectoryInlineEntries).prod <| BlockRef.layout.prod
    (Pod.array 4)).map
    (fun (header, globalDepth, pad0, bucketCount, entries, spilloverRoot, padTail) =>
      { header, globalDepth, pad0, bucketCount, entries, spilloverRoot, padTail })
    (fun block => (block.header, block.globalDepth, block.pad0, block.bucketCount, block.entries,
      block.spilloverRoot, block.padTail))
    (fun _ => rfl)

theorem body_size : body.size = 4092 := rfl

def new (globalDepth : UInt8) : Except KvDirectoryError KvDirectoryBlock :=
  if kvDirectoryMaxInlineDepth < globalDepth.toNat then
    .error (.spilloverUnsupported globalDepth)
  else
    .ok
      { header := BlockHeader.new .kvHashDirectory kvDirectoryFormatVersion 4060
        globalDepth := globalDepth
        pad0 := List.Vector.replicate 3 0
        bucketCount := UInt32.ofNat (2 ^ globalDepth.toNat)
        entries := List.Vector.replicate kvDirectoryInlineEntries BlockRef.zero
        spilloverRoot := BlockRef.zero
        padTail := List.Vector.replicate 4 0 }

/-- An entry beyond the buckets is ignored. -/
def setEntry (block : KvDirectoryBlock) (index : Nat) (ref : BlockRef) : KvDirectoryBlock :=
  if index < min block.bucketCount.toNat kvDirectoryInlineEntries then
    { block with entries := setAt block.entries index ref }
  else block

def getEntry (block : KvDirectoryBlock) (index : Nat) : BlockRef :=
  if index < min block.bucketCount.toNat kvDirectoryInlineEntries then
    block.entries.toList.getD index BlockRef.zero
  else BlockRef.zero

def validate (block : KvDirectoryBlock) : Except KvDirectoryError Unit :=
  if block.header.magic ≠ blockMagic then .error (.invalidMagic block.header.magic.toList)
  else if block.header.kind ≠ BlockKind.kvHashDirectory.toU16 then
    .error (.invalidBlockKind block.header.kind)
  else if block.header.formatVersion ≠ kvDirectoryFormatVersion then
    .error (.invalidFormatVersion block.header.formatVersion)
  else if kvDirectoryMaxInlineDepth < block.globalDepth.toNat then
    .error (.spilloverUnsupported block.globalDepth)
  else if block.bucketCount ≠ UInt32.ofNat (2 ^ block.globalDepth.toNat) then
    .error (.inconsistentBucketCount block.bucketCount (UInt32.ofNat (2 ^ block.globalDepth.toNat)))
  else .ok ()

def write (crc : Crc) (block : KvDirectoryBlock) (offset : Nat) : DeviceM KvDirectoryError Unit :=
  (DeviceM.writeAt offset (sealed crc body block)).mapError fun _ => .crcMismatch 0 0

def read (crc : Crc) (d : Device) (offset : Nat) : Except KvDirectoryError KvDirectoryBlock :=
  match d.readAt offset blockSize with
  | .error _ => .error (.crcMismatch 0 0)
  | .ok bytes => do
      validate (bodyOf body bytes)
      match brokenSeal crc body bytes with
      | some (expected, actual) => .error (.crcMismatch expected actual)
      | none => .ok (bodyOf body bytes)

end KvDirectoryBlock

def slotsPerRegion : Nat := 64

def directoryIndex (valueHash : UInt64) (globalDepth : Nat) : Nat :=
  if globalDepth = 0 then 0 else valueHash.toNat / 2 ^ (64 - globalDepth)

/-- Raises the depth until the buckets suffice, a number of times at most. -/
def growDepth (bucketsNeeded : Nat) : Nat → Nat → Nat
  | 0, depth => depth
  | steps + 1, depth =>
      if 2 ^ depth < bucketsNeeded then growDepth bucketsNeeded steps (depth + 1) else depth

/-- The depth for a number of entries, at most one above what the directory holds. -/
def selectGlobalDepth (entryCount : Nat) : Nat :=
  if entryCount ≤ kvBucketMaxEntries then 0
  else
    growDepth ((entryCount + kvBucketMaxEntries - 1) / kvBucketMaxEntries)
      (kvDirectoryMaxInlineDepth + 1) 0

@[reducible] def kvOrder : LinearOrder (TagId × UInt64) := orderBy toLex toLex.injective

structure KvRegionEnv where
  crc : Crc
  roaring : Roaring

/-- Writes the bitmap pages to consecutive slots and enters them in the buckets. -/
def writeKvPages (env : KvRegionEnv) (offset globalDepth : Nat) :
    Nat → List ((TagId × UInt64) × Finset Nat) → List KvBucketBlock →
      DeviceM IndexError (List KvBucketBlock)
  | _, [], buckets => pure buckets
  | slot, ((tag, valueHash), bitmap) :: rest, buckets => do
      let place := offset + slot * blockSize
      let page ← DeviceM.lift ((TagBitmapPage.fromBitmap env.roaring bitmap).mapError .page)
      (page.write env.crc place).mapError .page
      let index := directoryIndex valueHash globalDepth
      let bucket ← DeviceM.lift
        (((buckets.getD index (.new (UInt8.ofNat globalDepth))).upsert (UInt32.ofNat tag) valueHash
          (BlockRef.at_ place)).mapError fun err => IndexError.roaring err.text)
      writeKvPages env offset globalDepth (slot + 1) rest (buckets.set index bucket)

def writeKvBuckets (env : KvRegionEnv) (offset : Nat) :
    Nat → List KvBucketBlock → DeviceM IndexError Unit
  | _, [] => pure ()
  | slot, bucket :: rest => do
      (bucket.write env.crc (offset + slot * blockSize)).mapError fun err => .roaring err.text
      writeKvBuckets env offset (slot + 1) rest

/-- Reads the bitmaps of the entries of a bucket; an entry without a page is skipped.
An empty bitmap reads like an absent key. -/
def readKvEntries (env : KvRegionEnv) (d : Device) :
    List KvBucketEntry → Bitmaps.BitmapMap (TagId × UInt64) →
      Except IndexError (Bitmaps.BitmapMap (TagId × UInt64))
  | [], found => .ok found
  | entry :: rest, found =>
      if entry.bitmapRef.blockNo = 0 then readKvEntries env d rest found
      else do
        let page ← (TagBitmapPage.read env.crc d entry.bitmapRef.offset).mapError .page
        let bitmap ← (page.toBitmap env.roaring).mapError .page
        readKvEntries env d rest
          (Bitmaps.replace found (entry.tagId.toNat, entry.valueHash) bitmap)

/-- Reads the buckets of the directory entries; an unused entry and one for a
bucket already read are skipped. -/
def readKvBuckets (env : KvRegionEnv) (d : Device) (directory : KvDirectoryBlock) :
    List Nat → List UInt32 → Bitmaps.BitmapMap (TagId × UInt64) →
      Except IndexError (Bitmaps.BitmapMap (TagId × UInt64))
  | [], _, found => .ok found
  | index :: rest, seen, found =>
      let ref := directory.getEntry index
      if ref.blockNo = 0 then readKvBuckets env d directory rest seen found
      else if ref.blockNo ∈ seen then readKvBuckets env d directory rest seen found
      else do
        let bucket ← (KvBucketBlock.read env.crc d ref.offset).mapError fun err =>
          IndexError.roaring err.text
        let found ← readKvEntries env d bucket.iter found
        readKvBuckets env d directory rest (ref.blockNo :: seen) found

namespace KvIndex

def sortedEntries (index : KvIndex) : List ((TagId × UInt64) × Finset Nat) :=
  @toSorted _ _ kvOrder index.entries.sets

def flushToRegion (env : KvRegionEnv) (index : KvIndex) (offset : Nat) :
    DeviceM IndexError Unit := do
  let sorted := index.sortedEntries
  let entryCount := sorted.length
  let globalDepth := selectGlobalDepth entryCount
  if kvDirectoryMaxInlineDepth < globalDepth then
    DeviceM.lift (.error (.roaring ("KvIndex needs global_depth " ++ toString globalDepth ++
      " which exceeds the inline cap " ++ toString kvDirectoryMaxInlineDepth ++
      "; add buckets via the bucket allocator (INDEX4) to expand")))
  else
    let bucketCount := 2 ^ globalDepth
    if slotsPerRegion < 1 + bucketCount + entryCount then
      DeviceM.lift (.error (.roaring ("KvIndex region too small: directory(1) + buckets(" ++
        toString bucketCount ++ ") + bitmaps(" ++ toString entryCount ++ ") > " ++
        toString slotsPerRegion ++ " slots; INDEX4 moves bitmaps out of the region")))
    else do
      let buckets ← writeKvPages env offset globalDepth (1 + bucketCount) sorted
        (List.replicate bucketCount (.new (UInt8.ofNat globalDepth)))
      writeKvBuckets env offset 1 buckets
      let blank ← DeviceM.lift ((KvDirectoryBlock.new (UInt8.ofNat globalDepth)).mapError
        fun err => IndexError.roaring err.text)
      let directory := (List.range bucketCount).foldl
        (fun directory index =>
          directory.setEntry index (BlockRef.at_ (offset + (1 + index) * blockSize))) blank
      (directory.write env.crc offset).mapError fun err => .roaring err.text

def loadFromRegion (env : KvRegionEnv) (d : Device) (offset : Nat) : Except IndexError KvIndex := do
  if ← (isBlank d offset).mapError .storage then .ok KvIndex.new
  else do
    let directory ← (KvDirectoryBlock.read env.crc d offset).mapError fun err =>
      IndexError.roaring err.text
    let entries ← readKvBuckets env d directory (List.range directory.bucketCount.toNat) []
      Bitmaps.empty
    .ok { entries := entries }

end KvIndex

end Mimisbrunnr.Index
