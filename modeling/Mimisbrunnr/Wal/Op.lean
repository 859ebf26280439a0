import Mimisbrunnr.Lib.Vec
import Mimisbrunnr.Storage.Device
import Mimisbrunnr.Types.Value

/-!
# Log operations and their codec

The operations the engine writes to the log, with their payload fields, and the
discriminants of the log entry header. Operations of other subsystems carry
only their discriminant here: the engine ignores them on replay.

The payload encoding is external. `WalCodec` is the encoder and the decoder
together with the one fact about them that is used: what was encoded decodes to
itself.
-/

namespace Mimisbrunnr.Wal

set_option autoImplicit false

open Mimisbrunnr.Lib.Vec
open Mimisbrunnr.Storage
open Mimisbrunnr.Types

/-- `panic` stands for the abort of the program, which no caller sees as an error. -/
inductive WalError where
  | storage (err : StorageError)
  | cborEncode (message : String)
  | cborDecode (message : String)
  | invalidMagic (expected actual : List UInt8)
  | crcMismatch (expected actual : UInt32)
  | invalidOpKind (kind : UInt8)
  | payloadTooLarge (size max : Nat)
  | ringFull (used capacity : Nat)
  | lsnOverflow
  | noValidHeader
  | unsupportedFormatVersion (version : UInt16)
  | invalidSize (size : Nat)
  | encryptionUnsupported
  | compressionUnsupported
  | readOnly
  | panic (message : String)
deriving DecidableEq, Repr

inductive WalOpKind where
  | createObject
  | deleteObject
  | addTag
  | removeTag
  | setAttr
  | removeAttr
  | addRelation
  | removeRelation
  | writeBlob
  | chunkInsertBatch
  | chunkListAppend
  | chunkListReplace
  | chunkListShrink
  | chunkObjectFinalize
  | bucketAlloc
  | bucketWrite
  | bucketGenBump
  | bucketDiscard
  | backpointerInsert
  | backpointerRemove
  | tagBitmapGrow
  | tagBitmapShrink
  | snapshotCreate
  | snapshotDelete
  | snapshotUnlink
  | snapshotDepthUpdate
  | reconcileEnqueue
  | reconcileDequeue
  | reconcileMove
  | reconcileScanStep
  | formatPromote
  | checkpoint
deriving DecidableEq, Repr

namespace WalOpKind

/-- The kinds in the order of their discriminants. -/
def all : List WalOpKind :=
  [createObject, deleteObject, addTag, removeTag, setAttr, removeAttr, addRelation,
    removeRelation, writeBlob, chunkInsertBatch, chunkListAppend, chunkListReplace,
    chunkListShrink, chunkObjectFinalize, bucketAlloc, bucketWrite, bucketGenBump, bucketDiscard,
    backpointerInsert, backpointerRemove, tagBitmapGrow, tagBitmapShrink, snapshotCreate,
    snapshotDelete, snapshotUnlink, snapshotDepthUpdate, reconcileEnqueue, reconcileDequeue,
    reconcileMove, reconcileScanStep, formatPromote, checkpoint]

def toU8 (kind : WalOpKind) : UInt8 := UInt8.ofNat (all.idxOf kind)

def fromU8 (value : UInt8) : Except WalError WalOpKind :=
  match all[value.toNat]? with
  | some kind => .ok kind
  | none => .error (.invalidOpKind value)

theorem from_to_u8 (kind : WalOpKind) : fromU8 kind.toU8 = .ok kind := by
  cases kind <;> decide

end WalOpKind

structure BlockRefWire where
  diskId : UInt16
  blockNo : UInt32
  generation : UInt64
deriving DecidableEq, Repr

inductive WalOp where
  | createObject (oid : UInt64) (generation : UInt32) (createdNs : Int64)
  | deleteObject (oid : UInt64) (lsn : Nat)
  | addTag (oid : UInt64) (tag : TagId) (origin : UInt8)
  | removeTag (oid : UInt64) (tag : TagId)
  | setAttr (oid : UInt64) (key : TagId) (value : Value)
  | removeAttr (oid : UInt64) (key : TagId) (valueHash : UInt64)
  | addRelation (oid : UInt64) (predicate : TagId) (target : UInt64)
  | removeRelation (oid : UInt64) (predicate : TagId) (target : UInt64)
  | writeBlob (oid : UInt64) (contentHash : List UInt8) (extent : BlockRefWire) (size : Nat)
  | foreign (kind : WalOpKind)
deriving DecidableEq, Repr

def WalOp.kind : WalOp → WalOpKind
  | .createObject .. => .createObject
  | .deleteObject .. => .deleteObject
  | .addTag .. => .addTag
  | .removeTag .. => .removeTag
  | .setAttr .. => .setAttr
  | .removeAttr .. => .removeAttr
  | .addRelation .. => .addRelation
  | .removeRelation .. => .removeRelation
  | .writeBlob .. => .writeBlob
  | .foreign kind => kind

structure WalCodec where
  encode : WalOp → Except WalError (List UInt8)
  decode : WalOpKind → List UInt8 → Except WalError WalOp
  decode_encode : ∀ op payload, encode op = .ok payload → decode op.kind payload = .ok op

/-- A codec that knows the encodings of finitely many operations. -/
def WalCodec.ofTable (table : List (WalOp × List UInt8))
    (distinct : (table.filterMap fun row => some (row.1.kind, row.2)).Nodup) : WalCodec where
  encode op :=
    match table.find? fun row => row.1 = op with
    | some row => .ok row.2
    | none => .error (.cborEncode "unknown operation")
  decode kind payload :=
    match table.find? fun row => row.1.kind = kind ∧ row.2 = payload with
    | some row => .ok row.1
    | none => .error (.cborDecode "unknown payload")
  decode_encode := by
    intro op payload encoded
    cases found : table.find? fun row => row.1 = op with
    | none => simp [found] at encoded
    | some row =>
        simp only [found, Except.ok.injEq] at encoded
        have named : row.1 = op := by simpa using List.find?_some found
        have member := List.mem_of_find?_eq_some found
        cases decoded : table.find? fun row => row.1.kind = op.kind ∧ row.2 = payload with
        | none =>
            have rejected := List.find?_eq_none.mp decoded row member
            simp [named, encoded] at rejected
        | some other =>
            have hit : other.1.kind = op.kind ∧ other.2 = payload := by
              simpa using List.find?_some decoded
            have same := eq_of_same_key (fun row => some (row.1.kind, row.2)) table
              (op.kind, payload) other row distinct (List.mem_of_find?_eq_some decoded) member
              (by simp [hit]) (by simp [named, encoded])
            simp only [same, named]

end Mimisbrunnr.Wal
