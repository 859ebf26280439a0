import Mimisbrunnr.Storage.BtreeRoundTrip
import Mimisbrunnr.Storage.PackSafety

/-!
# Faults of reading a region of packed keys

The reader of a region with the machine numbers of its header and of its runs.
A checksum does not keep a payload from holding numbers that take the decoder
too far, so that the reader stops at such a payload; everywhere else it reads
what the reader without faults reads.
-/

namespace Mimisbrunnr.Storage

set_option autoImplicit false

open Mimisbrunnr.Lib
open Mimisbrunnr.Lib.ByteStore
open Mimisbrunnr.Lib.Layout

variable {κ ν : Type}

/-- The parameters under which a region of packed keys is read. -/
structure PackedReader (κ ν : Type) where
  crc : Crc
  shape : PackableKey κ
  values : ValueBytes ν
  valueSize : Nat
  cbor : Cbor (List (κ × ν))

namespace PackedReader

def codec (reader : PackedReader κ ν) : RunCodec κ ν :=
  .packed reader.shape reader.values reader.valueSize false reader.cbor

section

variable (reader : PackedReader κ ν)

def decodeRun (header : SortedRunHeader) (payload : List UInt8) :
    Checked StorageError (List (κ × ν)) :=
  if header.flags &&& sortedRunFlagPackedKeys ≠ 0 then do
    let (entries, _, _) ←
      (Cursor.decodePackedRun reader.shape payload reader.valueSize header.entryCount).mapError .pack
    .returns (entries.map fun entry => (entry.1, reader.values.fromBytes entry.2))
  else Checked.lift (decodeCbor reader.cbor payload)

def readRuns (d : Device) (offset payloadEnd : Nat) :
    Nat → Nat → Checked StorageError (List (SortedRun κ ν))
  | 0, _ => .returns []
  | count + 1, cursor =>
      if payloadEnd ≤ cursor then .returns []
      else do
        let bytes ← Checked.lift (d.readAt (offset + cursor) SortedRunHeader.layout.size)
        let header := SortedRunHeader.layout.ofBytes bytes
        if header.magic ≠ sortedRunMagic then .returns []
        else do
          let payload ← Checked.lift
            (d.readAt (offset + cursor + SortedRunHeader.layout.size) header.payloadLength.toNat)
          if header.verify reader.crc payload then do
            let entries ← reader.decodeRun header payload
            let runTotal := SortedRunHeader.layout.size + header.payloadLength.toNat
            let later ← readRuns d offset payloadEnd count (alignUpToSector (cursor + runTotal))
            .returns (⟨header.seq, header.journalSeq, header.flags, entries⟩ :: later)
          else .returns []

/-- `read_packed`; the size of the region is a shift by a byte of its header. -/
def readPacked (d : Device) (offset : Nat) (kind : BtreeKind) :
    Checked StorageError (LoadedNode κ ν) := do
  let sector ← Checked.lift (d.readAt offset blockSize)
  let header ← Checked.lift (BtreeNodeHeader.parse sector)
  if header.kind ≠ kind.toU16 then .fails (.invalidBtreeKind header.kind)
  else do
    let regionSize ← Checked.shiftLeft64 1 header.regionSizeLog2.toNat
    if regionSize.toNat < header.payloadUsed.toNat then
      .fails (.regionFull header.payloadUsed.toNat regionSize.toNat)
    else do
      let runs ← reader.readRuns d offset (blockSize + header.payloadUsed.toNat)
        header.sortedRunCount.toNat blockSize
      .returns
        { header := header
          sortedRuns := runs
          mergedView := none
          pendingJournal := []
          dirty := false
          pin := JournalPin.default }

def loadTable [LinearOrder κ] (kind : BtreeKind) (d : Device) (offset : Nat) :
    Checked StorageError (List (κ × ν)) := do
  let blank ← Checked.lift (isBlank d offset)
  if blank then .returns []
  else do
    let node ← reader.readPacked d offset kind
    .returns node.mergeIter

end

end PackedReader

end Mimisbrunnr.Storage
