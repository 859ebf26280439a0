import Mathlib.Algebra.Group.Nat.Defs
import Mathlib.Data.Int.Basic

/-!
# Object identifiers, records and timestamps

An object identifier packs a 16-bit node and a 48-bit local sequence number
into 64 bits. The low 32 bits of the packed number are what the bitmaps store.
`ObjectRecord` has the fields of the 128-byte record in their order; the state
is the raw discriminant, as in the record.
-/

namespace Mimisbrunnr.Types

set_option autoImplicit false

structure ObjectId where
  raw : UInt64
deriving DecidableEq, Repr

namespace ObjectId

def fromParts (node : UInt16) (localSeq : Nat) : ObjectId :=
  { raw := UInt64.ofNat (node.toNat * 2 ^ 48 + localSeq % 2 ^ 48) }

def toU64 (oid : ObjectId) : UInt64 := oid.raw

def fromU64 (raw : UInt64) : ObjectId := { raw := raw }

def nodeId (oid : ObjectId) : UInt16 := UInt16.ofNat (oid.raw.toNat / 2 ^ 48)

def localSeq (oid : ObjectId) : Nat := oid.raw.toNat % 2 ^ 48

def low32 (oid : ObjectId) : Nat := oid.raw.toNat % 2 ^ 32

@[simp] theorem from_u64_to_u64 (oid : ObjectId) : fromU64 oid.toU64 = oid := rfl

theorem raw_from_parts (node : UInt16) (localSeq : Nat) :
    (fromParts node localSeq).raw.toNat = node.toNat * 2 ^ 48 + localSeq % 2 ^ 48 := by
  have nodeBound : node.toNat < 2 ^ 16 := node.toNat_lt
  have localBound : localSeq % 2 ^ 48 < 2 ^ 48 := Nat.mod_lt _ (by decide)
  simp only [fromParts, UInt64.toNat_ofNat']
  apply Nat.mod_eq_of_lt
  omega

theorem low32_from_parts (node : UInt16) (localSeq : Nat) (small : localSeq < 2 ^ 32) :
    (fromParts node localSeq).low32 = localSeq := by
  rw [low32, raw_from_parts]
  omega

theorem local_seq_from_parts (node : UInt16) (localSeq : Nat) (small : localSeq < 2 ^ 48) :
    (fromParts node localSeq).localSeq = localSeq := by
  rw [ObjectId.localSeq, raw_from_parts]
  omega

theorem from_parts_injective (node : UInt16) (left right : Nat) (leftSmall : left < 2 ^ 48)
    (rightSmall : right < 2 ^ 48) (same : (fromParts node left).raw = (fromParts node right).raw) :
    left = right := by
  have numbers := congrArg UInt64.toNat same
  rw [raw_from_parts, raw_from_parts] at numbers
  omega

end ObjectId

inductive ObjectState where
  | active
  | tombstoned
  | blobReclaim
  | cleared
deriving DecidableEq, Repr

namespace ObjectState

def toU8 : ObjectState → UInt8
  | .active => 0
  | .tombstoned => 1
  | .blobReclaim => 2
  | .cleared => 3

def fromU8 (byte : UInt8) : Option ObjectState :=
  if byte = 0 then some .active
  else if byte = 1 then some .tombstoned
  else if byte = 2 then some .blobReclaim
  else if byte = 3 then some .cleared
  else none

end ObjectState

structure ObjectRecord where
  id : UInt64
  generation : UInt32
  state : UInt8
  flags : UInt8
  recordVersion : UInt16
  contentHash : List UInt8
  blobOffset : UInt64
  blobLength : UInt64
  createdNs : Int64
  modifiedNs : Int64
  tagCount : UInt16
  attrCount : UInt16
  compression : UInt8
  encryption : UInt8
  relationCount : UInt16
  inlineTags : List UInt32
  overflowOffset : UInt64
  storedSize : UInt64
  lastModifyLsn : UInt64
deriving DecidableEq, Repr

namespace ObjectRecord

def new (id : UInt64) : ObjectRecord :=
  { id := id
    generation := 0
    state := 0
    flags := 0
    recordVersion := 0
    contentHash := List.replicate 32 0
    blobOffset := 0
    blobLength := 0
    createdNs := 0
    modifiedNs := 0
    tagCount := 0
    attrCount := 0
    compression := 0
    encryption := 0
    relationCount := 0
    inlineTags := List.replicate 4 0
    overflowOffset := 0
    storedSize := 0
    lastModifyLsn := 0 }

def setState (record : ObjectRecord) (state : ObjectState) : ObjectRecord :=
  { record with state := state.toU8 }

end ObjectRecord

def saturatingAdd16 (a b : UInt16) : UInt16 :=
  if a.toNat + b.toNat < 2 ^ 16 then a + b else 65535

def saturatingSub16 (a b : UInt16) : UInt16 := if b ≤ a then a - b else 0

structure HybridTimestamp where
  physicalNs : Int64
  logical : UInt16
  nodeId : UInt16
deriving DecidableEq, Repr

namespace HybridTimestamp

def tick (last : HybridTimestamp) (nowNs : Int64) : HybridTimestamp :=
  if last.physicalNs < nowNs then
    { last with
      physicalNs := nowNs
      logical := 0 }
  else { last with logical := saturatingAdd16 last.logical 1 }

end HybridTimestamp

end Mimisbrunnr.Types
