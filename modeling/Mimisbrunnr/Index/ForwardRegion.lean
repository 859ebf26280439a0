import Mimisbrunnr.Index.Attribute
import Mimisbrunnr.Index.BitmapPage
import Mimisbrunnr.Index.Forward
import Mimisbrunnr.Lib.SortedEntries
import Mimisbrunnr.Lib.Vec
import Mimisbrunnr.Storage.BtreeRoundTrip

/-!
# The forward index on the device

An assertion is stored in sixteen bytes; of an attribute only the hash of the
value is kept. A directory of packed keys holds the assertions of an object
inline when there are at most eight of them, and otherwise the reference to a
chain of overflow regions of 256 KiB.
-/

namespace Mimisbrunnr.Index

set_option autoImplicit false

open Mimisbrunnr.Lib.ByteStore
open Mimisbrunnr.Lib.FiniteMap
open Mimisbrunnr.Lib.Layout
open Mimisbrunnr.Lib.Vec
open Mimisbrunnr.Storage
open Mimisbrunnr.Types

def packedAssertionKindTag : UInt8 := 0

def packedAssertionKindAttr : UInt8 := 1

def packedAssertionKindRelation : UInt8 := 2

def packedAssertionOriginDirect : UInt8 := 0

def packedAssertionOriginMaterialized : UInt8 := 1

structure PackedAssertion where
  kind : UInt8
  origin : UInt8
  pad : UInt16
  a : UInt32
  b : UInt64
deriving DecidableEq, Repr

namespace PackedAssertion

def layout : Pod PackedAssertion :=
  (Pod.u8.prod <| Pod.u8.prod <| Pod.u16.prod <| Pod.u32.prod Pod.u64).map
    (fun (kind, origin, pad, a, b) => { kind, origin, pad, a, b })
    (fun packed => (packed.kind, packed.origin, packed.pad, packed.a, packed.b))
    (fun _ => rfl)

def originByte : TagOrigin → UInt8
  | .direct => packedAssertionOriginDirect
  | .materialized => packedAssertionOriginMaterialized

def fromLogical (assertion : Assertion) (origin : TagOrigin) (valueHash : UInt64) :
    PackedAssertion :=
  match assertion with
  | .tag tag =>
      { kind := packedAssertionKindTag
        origin := originByte origin
        pad := 0
        a := UInt32.ofNat tag
        b := 0 }
  | .attr key _ =>
      { kind := packedAssertionKindAttr
        origin := originByte origin
        pad := 0
        a := UInt32.ofNat key
        b := valueHash }
  | .relation predicate target =>
      { kind := packedAssertionKindRelation
        origin := originByte origin
        pad := 0
        a := UInt32.ofNat predicate
        b := target.toU64 }

def originOf (packed : PackedAssertion) : Except IndexError TagOrigin :=
  if packed.origin = packedAssertionOriginDirect then .ok .direct
  else if packed.origin = packedAssertionOriginMaterialized then .ok .materialized
  else .error (.invalidAssertionOrigin packed.origin)

/-- The value of an attribute is not stored; without one the number zero stands
in its place. -/
def toLogical (packed : PackedAssertion) (attrValue : Option Value) :
    Except IndexError (Assertion × TagOrigin) := do
  let origin ← packed.originOf
  if packed.kind = packedAssertionKindTag then .ok (.tag packed.a.toNat, origin)
  else if packed.kind = packedAssertionKindAttr then
    .ok (.attr packed.a.toNat (attrValue.getD (.int 0)), origin)
  else if packed.kind = packedAssertionKindRelation then
    .ok (.relation packed.a.toNat (.fromU64 packed.b), origin)
  else .error (.invalidAssertionKind packed.kind)

end PackedAssertion

def packAssertions (hash : ValueHash) (assertions : List (Assertion × TagOrigin)) :
    List PackedAssertion :=
  assertions.map fun entry =>
    let valueHash :=
      match entry.1 with
      | .attr _ value => hash value
      | _ => 0
    PackedAssertion.fromLogical entry.1 entry.2 valueHash

def leafEntrySpillFlag : UInt16 := 0x8000

def leafEntryTotalMask : UInt16 := 0x7fff

def leafEntryInlineSpillThreshold : Nat := 8

def forwardOverflowRegionCapacity : Nat := 16379

def forwardOverflowEntriesOffset : Nat := 64

def forwardOverflowNextPageOffset : Nat := regionSize - BlockRef.layout.size

def overflowHeader (entries : List PackedAssertion) : BtreeNodeHeader :=
  { BtreeNodeHeader.new .forwardOverflow 1 0 regionSizeLog2 with
    payloadUsed := UInt32.ofNat (entries.length * PackedAssertion.layout.size) }

/-- The bytes of an overflow region: header, entries, zeros and the link. -/
def overflowImage (entries : List PackedAssertion) (nextPage : BlockRef) : List UInt8 :=
  BtreeNodeHeader.layout.toBytes (overflowHeader entries) ++
    PackedAssertion.layout.packAll entries ++
    List.replicate ((forwardOverflowRegionCapacity - entries.length) *
      PackedAssertion.layout.size) 0 ++
    BlockRef.layout.toBytes nextPage

def writeOverflowRegion (byteOffset : Nat) (entries : List PackedAssertion) (nextPage : BlockRef) :
    DeviceM IndexError Unit :=
  (DeviceM.writeAt byteOffset (overflowImage entries nextPage)).mapError .storage

/-- Writes the pieces to consecutive slots, the last first, and returns the
reference to the first. -/
def writeOverflowRegions (area : Nat) :
    Nat → List (List PackedAssertion) → DeviceM IndexError BlockRef
  | _, [] => pure BlockRef.zero
  | slot, chunk :: rest => do
      let next ← writeOverflowRegions area (slot + 1) rest
      let byteOffset := area + slot * regionSize
      writeOverflowRegion byteOffset chunk next
      pure (BlockRef.at_ byteOffset)

/-- Writes a chain and returns its first region and the next free slot. -/
def writeOverflowChain (area cap slot : Nat) (packed : List PackedAssertion) :
    DeviceM IndexError (BlockRef × Nat) := do
  let chunks := chunks forwardOverflowRegionCapacity packed
  let neededEnd := slot + chunks.length
  if cap < neededEnd then DeviceM.lift (.error (.overflowAreaExhausted neededEnd cap))
  else do
    let head ← writeOverflowRegions area slot chunks
    pure (head, neededEnd)

/-- The entries of one region and the reference to the next. -/
def readOverflowRegion (d : Device) (current : BlockRef) :
    Except IndexError (List PackedAssertion × BlockRef) := do
  let bytes ← (d.readAt current.offset regionSize).mapError .storage
  let header ← (BtreeNodeHeader.parse bytes).mapError .storage
  let payloadUsed := header.payloadUsed.toNat
  if header.kind ≠ BtreeKind.forwardOverflow.toU16 then
    .error (.corruptOverflowChain "non-ForwardOverflow region in chain")
  else if payloadUsed % PackedAssertion.layout.size ≠ 0 then
    .error (.corruptOverflowChain "payload_used not a multiple of PackedAssertion size")
  else if forwardOverflowRegionCapacity < payloadUsed / PackedAssertion.layout.size then
    .error (.corruptOverflowChain "payload_used exceeds region capacity")
  else
    .ok (PackedAssertion.layout.unpackAll (payloadUsed / PackedAssertion.layout.size)
        (bytes.drop forwardOverflowEntriesOffset),
      BlockRef.layout.ofBytes (bytes.drop forwardOverflowNextPageOffset))

/-- The entries from a reference on, in at most the given number of regions. -/
def readOverflowRegions (d : Device) : Nat → BlockRef → Except IndexError (List PackedAssertion)
  | 0, current =>
      if current = BlockRef.zero then .ok []
      else .error (.corruptOverflowChain "chain exceeds expected length")
  | allowance + 1, current =>
      if current = BlockRef.zero then .ok []
      else do
        let (entries, next) ← readOverflowRegion d current
        let rest ← readOverflowRegions d allowance next
        .ok (entries ++ rest)

def readOverflowChain (d : Device) (head : BlockRef) (expectedTotal : Nat) :
    Except IndexError (List PackedAssertion) := do
  let found ← readOverflowRegions d (expectedTotal / forwardOverflowRegionCapacity + 2) head
  if found.length ≠ expectedTotal then
    .error (.corruptOverflowChain "chain entry count != leaf entry total")
  else .ok found

structure ForwardIndexKey where
  oid : UInt64
  snapshot : UInt32
deriving DecidableEq, Repr

namespace ForwardIndexKey

def rank (key : ForwardIndexKey) : UInt64 ×ₗ UInt32 := toLex (key.oid, key.snapshot)

private theorem rank_injective : Function.Injective rank := by
  intro left right same
  cases left
  cases right
  cases same
  rfl

instance : LinearOrder ForwardIndexKey := LinearOrder.lift' rank rank_injective

def packable : PackableKey ForwardIndexKey where
  nrFields := 2
  keyHeaderBytes := 0
  fieldHints := [FieldHints.unsigned, FieldHints.unsigned]
  keyHeader _ := 0
  fieldValues key := [key.oid, key.snapshot.toUInt64]
  fromComponents _ fields :=
    match fields with
    | [oid, snapshot] =>
        if 2 ^ 32 ≤ snapshot.toNat then .error (.malformed "ForwardIndexKey: snapshot overflow")
        else .ok { oid := oid, snapshot := snapshot.toUInt32 }
    | _ => .error (.malformed "ForwardIndexKey: wrong field count")

theorem packable_lawful : packable.Lawful where
  some_field := by decide
  few_fields := by decide
  short_header := by decide
  length_hints := rfl
  length_fields _ := rfl
  header_fits _ := Nat.zero_lt_one
  inverse key := by
    have narrow : ¬ 2 ^ 32 ≤ key.snapshot.toUInt64.toNat := by
      rw [UInt32.toNat_toUInt64]
      exact Nat.not_le.mpr key.snapshot.toNat_lt
    simp only [packable]
    rw [if_neg narrow]
    simp

end ForwardIndexKey

def rawBytes : ValueBytes (List UInt8) where
  toBytes bytes := bytes
  fromBytes bytes := bytes

def inlineTail (packed : List PackedAssertion) : List UInt8 :=
  Pod.u16.toBytes (UInt16.ofNat packed.length &&& leafEntryTotalMask) ++
    PackedAssertion.layout.packAll packed

def spillTail (total : Nat) (head : BlockRef) : List UInt8 :=
  Pod.u16.toBytes ((UInt16.ofNat total &&& leafEntryTotalMask) ||| leafEntrySpillFlag) ++
    BlockRef.layout.toBytes head

/-- The value of one object, with its chain written when it has to spill. -/
def writeLeaf (area cap slot : Nat) (packed : List PackedAssertion) :
    DeviceM IndexError (List UInt8 × Nat) :=
  if leafEntryTotalMask.toNat < packed.length then
    DeviceM.lift (.error (.assertionCountOverflow packed.length))
  else if packed.length ≤ leafEntryInlineSpillThreshold then pure (inlineTail packed, slot)
  else do
    let (head, slot) ← writeOverflowChain area cap slot packed
    pure (spillTail packed.length head, slot)

def writeLeaves (hash : ValueHash) (area cap : Nat) :
    Nat → List (UInt64 × List (Assertion × TagOrigin)) →
      DeviceM IndexError (List (ForwardIndexKey × List UInt8) × Nat)
  | slot, [] => pure ([], slot)
  | slot, (oid, assertions) :: rest => do
      let (tail, slot) ← writeLeaf area cap slot (packAssertions hash assertions)
      let (leaves, slot) ← writeLeaves hash area cap slot rest
      pure ((⟨oid, 0⟩, tail) :: leaves, slot)

/-- What the directory and its values need. -/
structure ForwardRegionEnv where
  crc : Crc
  hash : ValueHash
  cbor : Cbor (List (ForwardIndexKey × List UInt8))

def forwardMaxValueSize : Nat := 2 + leafEntryInlineSpillThreshold * 16

def ForwardRegionEnv.codec (env : ForwardRegionEnv) : RunCodec ForwardIndexKey (List UInt8) :=
  .packed ForwardIndexKey.packable rawBytes forwardMaxValueSize true env.cbor

def readLeaf (d : Device) (bytes : List UInt8) : Except IndexError (List PackedAssertion) :=
  if bytes.length < 2 then .error (.bufferTooSmall 2 bytes.length)
  else
    let header := Pod.u16.ofBytes (bytes.take 2)
    let total := (header &&& leafEntryTotalMask).toNat
    let body := bytes.drop 2
    if header &&& leafEntrySpillFlag ≠ 0 then
      if body.length < BlockRef.layout.size then
        .error (.bufferTooSmall BlockRef.layout.size body.length)
      else
        readOverflowChain d (BlockRef.layout.ofBytes (body.take BlockRef.layout.size)) total
    else
      if body.length < total * PackedAssertion.layout.size then
        .error (.bufferTooSmall (total * PackedAssertion.layout.size) body.length)
      else .ok (PackedAssertion.layout.unpackAll total body)

namespace ForwardIndex

def flushToRegion (env : ForwardRegionEnv) (index : ForwardIndex) (dirOffset area cap : Nat) :
    DeviceM IndexError Nat := do
  let (leaves, slots) ← writeLeaves env.hash area cap 0 (toSorted index.entries)
  (flushTable env.crc env.codec .forward leaves dirOffset).mapError .storage
  pure slots

def fromLeafEntries (d : Device) :
    List (ForwardIndexKey × List UInt8) → FMap UInt64 (List (Assertion × TagOrigin)) →
      Except IndexError ForwardIndex
  | [], entries => .ok { entries := entries }
  | (key, value) :: rest, entries => do
      let packed ← readLeaf d value
      let assertions ← packed.mapM fun assertion => assertion.toLogical none
      fromLeafEntries d rest (entries.insert key.oid assertions)

def loadFromRegion (env : ForwardRegionEnv) (d : Device) (dirOffset : Nat) :
    Except IndexError ForwardIndex := do
  let leaves ← (loadTable env.crc env.codec .forward d dirOffset).mapError .storage
  fromLeafEntries d leaves ∅

end ForwardIndex

end Mimisbrunnr.Index
