import Mimisbrunnr.Lib.MachineOrder
import Mimisbrunnr.Storage.Pack

/-!
# B+ tree regions

A region is a header sector followed by sorted runs, each of which starts at a
sector boundary. The entries of a run are stored under one of two codecs, CBOR
or packed keys; the writer and the reader of a region are the same for both but
for the codec.
-/

namespace Mimisbrunnr.Storage

set_option autoImplicit false

open Mimisbrunnr.Lib
open Mimisbrunnr.Lib.Layout

inductive BtreeKind where
  | objectTable
  | objectHistory
  | locationTable
  | locationHistory
  | forward
  | forwardOverflow
  | tagDirectory
  | range
  | kvDirectory
  | valueSpill
  | chunkIndex
  | chunkList
  | backpointer
  | ontology
  | subscriptions
  | snapshots
  | bucketAlloc
  | freespaceLru
  | diskDescriptors
  | placementRules
  | clusterPeers
  | reconcileWork
  | reconcileHighPrio
  | reconcileWorkPhys
  | reconcileHighPrioPhys
  | reconcilePending
  | reconcileScan
deriving DecidableEq, Repr

def BtreeKind.all : List BtreeKind :=
  [objectTable, objectHistory, locationTable, locationHistory, forward, forwardOverflow,
    tagDirectory, range, kvDirectory, valueSpill, chunkIndex, chunkList, backpointer, ontology,
    subscriptions, snapshots, bucketAlloc, freespaceLru, diskDescriptors, placementRules,
    clusterPeers, reconcileWork, reconcileHighPrio, reconcileWorkPhys, reconcileHighPrioPhys,
    reconcilePending, reconcileScan]

def BtreeKind.toU16 (kind : BtreeKind) : UInt16 := UInt16.ofNat (all.idxOf kind)

def btreeMagic : List.Vector UInt8 4 := ⟨[0x4d, 0x49, 0x4d, 0x42], rfl⟩

structure BtreeNodeHeader where
  magic : List.Vector UInt8 4
  kind : UInt16
  formatVersion : UInt16
  seq : UInt64
  lastPersistedLsn : UInt64
  regionSizeLog2 : UInt8
  level : UInt8
  sortedRunCount : UInt8
  flags : UInt8
  payloadUsed : UInt32
  minKey : List.Vector UInt8 16
  maxKey : List.Vector UInt8 16
deriving DecidableEq

namespace BtreeNodeHeader

def new (kind : BtreeKind) (formatVersion : UInt16) (level regionSizeLog2 : UInt8) :
    BtreeNodeHeader :=
  { magic := btreeMagic
    kind := kind.toU16
    formatVersion := formatVersion
    seq := 0
    lastPersistedLsn := 0
    regionSizeLog2 := regionSizeLog2
    level := level
    sortedRunCount := 0
    flags := 0
    payloadUsed := 0
    minKey := List.Vector.replicate 16 0
    maxKey := List.Vector.replicate 16 0 }

def layout : Pod BtreeNodeHeader :=
  ((Pod.array 4).prod <| Pod.u16.prod <| Pod.u16.prod <| Pod.u64.prod <| Pod.u64.prod <|
    Pod.u8.prod <| Pod.u8.prod <| Pod.u8.prod <| Pod.u8.prod <| Pod.u32.prod <|
    (Pod.array 16).prod (Pod.array 16)).map
    (fun (magic, kind, formatVersion, seq, lastPersistedLsn, regionSizeLog2, level,
        sortedRunCount, flags, payloadUsed, minKey, maxKey) =>
      { magic, kind, formatVersion, seq, lastPersistedLsn, regionSizeLog2, level, sortedRunCount,
        flags, payloadUsed, minKey, maxKey })
    (fun h => (h.magic, h.kind, h.formatVersion, h.seq, h.lastPersistedLsn, h.regionSizeLog2,
      h.level, h.sortedRunCount, h.flags, h.payloadUsed, h.minKey, h.maxKey))
    (fun _ => rfl)

def parse (bytes : List UInt8) : Except StorageError BtreeNodeHeader :=
  if bytes.length < layout.size then .error (.bufferTooSmall layout.size bytes.length)
  else
    let header := layout.ofBytes (bytes.take layout.size)
    if header.magic ≠ btreeMagic then
      .error (.invalidMagic btreeMagic.toList header.magic.toList)
    else .ok header

def regionSize (header : BtreeNodeHeader) : Nat := 2 ^ header.regionSizeLog2.toNat

def sector (header : BtreeNodeHeader) : List UInt8 :=
  layout.toBytes header ++ List.replicate (blockSize - layout.size) 0

end BtreeNodeHeader

def sortedRunFlagPackedKeys : UInt32 := 1

def sortedRunMagic : UInt32 := 0x54455342

structure SortedRunHeader where
  magic : UInt32
  seq : UInt32
  journalSeq : UInt64
  entryCount : UInt32
  payloadLength : UInt32
  flags : UInt32
  crc : UInt32
deriving DecidableEq, Repr

namespace SortedRunHeader

def layout : Pod SortedRunHeader :=
  (Pod.u32.prod <| Pod.u32.prod <| Pod.u64.prod <| Pod.u32.prod <| Pod.u32.prod <|
    Pod.u32.prod Pod.u32).map
    (fun (magic, seq, journalSeq, entryCount, payloadLength, flags, crc) =>
      { magic, seq, journalSeq, entryCount, payloadLength, flags, crc })
    (fun h => (h.magic, h.seq, h.journalSeq, h.entryCount, h.payloadLength, h.flags, h.crc))
    (fun _ => rfl)

def computeCrc (crc : Crc) (header : SortedRunHeader) (payload : List UInt8) : UInt32 :=
  crc (layout.toBytes { header with crc := 0 } ++ payload)

def verify (crc : Crc) (header : SortedRunHeader) (payload : List UInt8) : Bool :=
  header.crc = computeCrc crc header payload

end SortedRunHeader

structure JournalPin where
  lsnMin : UInt64
  lsnMax : UInt64
  count : UInt32
deriving DecidableEq, Repr

def JournalPin.default : JournalPin := { lsnMin := 0, lsnMax := 0, count := 0 }

section

variable {κ ν : Type}

structure SortedRun (κ ν : Type) where
  seq : UInt32
  journalSeq : UInt64
  flags : UInt32
  entries : List (κ × ν)

def SortedRun.fromSorted (seq : UInt32) (journalSeq : UInt64) (entries : List (κ × ν)) :
    SortedRun κ ν :=
  { seq, journalSeq, flags := 0, entries }

inductive JournalOp (κ ν : Type) where
  | insert (key : κ) (value : ν)
  | remove (key : κ)
  | whiteout (key : κ)

def JournalOp.key : JournalOp κ ν → κ
  | insert key _ => key
  | remove key => key
  | whiteout key => key

def JournalOp.value? : JournalOp κ ν → Option ν
  | insert _ value => some value
  | _ => none

structure JournalEntry (κ ν : Type) where
  lsn : UInt64
  op : JournalOp κ ν

structure LoadedNode (κ ν : Type) where
  header : BtreeNodeHeader
  sortedRuns : List (SortedRun κ ν)
  mergedView : Option (List (κ × ν))
  pendingJournal : List (JournalEntry κ ν)
  dirty : Bool
  pin : JournalPin

namespace LoadedNode

def new (kind : BtreeKind) (level regionSizeLog2 : UInt8) : LoadedNode κ ν :=
  { header := BtreeNodeHeader.new kind 1 level regionSizeLog2
    sortedRuns := []
    mergedView := none
    pendingJournal := []
    dirty := false
    pin := JournalPin.default }

end LoadedNode

/-- One entry of the merge; tombstones carry no value. -/
structure MergeRow (κ ν : Type) where
  key : κ
  layer : Nat
  value : Option ν
  lsn : UInt64

variable [LinearOrder κ]

def MergeRow.rank (row : MergeRow κ ν) : κ ×ₗ Nat ×ₗ UInt64 :=
  toLex (row.key, toLex (row.layer, row.lsn))

namespace LoadedNode

/-- The rows of the runs, oldest first, and those of the journal. -/
def mergeRows (node : LoadedNode κ ν) : List (MergeRow κ ν) :=
  (node.sortedRuns.mapIdx fun layer run =>
      run.entries.map fun entry => ⟨entry.1, layer, some entry.2, 0⟩).flatten ++
    node.pendingJournal.map fun entry =>
      ⟨entry.op.key, node.sortedRuns.length, entry.op.value?, entry.lsn⟩

/-- The last row of each group of equal keys, without the tombstones. -/
def newestRows : List (MergeRow κ ν) → List (κ × ν)
  | [] => []
  | [row] => row.value.toList.map fun value => (row.key, value)
  | row :: next :: rest =>
      if next.key = row.key then newestRows (next :: rest)
      else (row.value.toList.map fun value => (row.key, value)) ++ newestRows (next :: rest)

def mergeIter (node : LoadedNode κ ν) : List (κ × ν) :=
  newestRows (node.mergeRows.mergeSort fun left right => decide (left.rank ≤ right.rank))

end LoadedNode

end

/-- Serialisation of a type by the CBOR library. -/
structure Cbor (α : Type) where
  encode : α → Except String (List UInt8)
  decode : List UInt8 → Except String α
  decode_encode : ∀ value bytes, encode value = .ok bytes → decode bytes = .ok value

/-- How the entries of a run become its payload, with the flags that say so, and
how they are read back. A reader may refuse a run for its flags alone. -/
structure RunCodec (κ ν : Type) where
  flags : UInt32
  encode : List (κ × ν) → Except StorageError (List UInt8)
  refuse : UInt32 → Option StorageError
  decode : SortedRunHeader → List UInt8 → Except StorageError (List (κ × ν))

section

variable {κ ν : Type}

def decodeCbor (cbor : Cbor (List (κ × ν))) (payload : List UInt8) :
    Except StorageError (List (κ × ν)) :=
  (cbor.decode payload).mapError .cborDecode

/-- The codec of `write_full` and `read`. -/
def RunCodec.cbor (cbor : Cbor (List (κ × ν))) : RunCodec κ ν where
  flags := 0
  encode entries := (cbor.encode entries).mapError .cborEncode
  refuse flags :=
    if flags &&& sortedRunFlagPackedKeys ≠ 0 then some (.unsupportedFormatVersion 0) else none
  decode _ payload := decodeCbor cbor payload

/-- How values are stored as bytes. -/
structure ValueBytes (ν : Type) where
  toBytes : ν → List UInt8
  fromBytes : List UInt8 → ν

/-- Values of one size; a shorter byte string is filled up with zeros, a longer
one cut off. -/
def ValueBytes.ofPod (layout : Pod ν) : ValueBytes ν where
  toBytes := layout.toBytes
  fromBytes bytes := layout.ofBytes ((bytes ++ List.replicate layout.size 0).take layout.size)

/-- The codec of `write_full_packed_with_hint` and `read_packed`. -/
def RunCodec.packed (shape : PackableKey κ) (values : ValueBytes ν) (valueSize : Nat)
    (forceVarint : Bool) (cbor : Cbor (List (κ × ν))) : RunCodec κ ν where
  flags := sortedRunFlagPackedKeys
  encode entries := do
    let entries := entries.map fun entry => (entry.1, values.toBytes entry.2)
    let (head, fields, valuePrefix) ←
      (selectFormatWithHint shape entries forceVarint).mapError .pack
    (encodePackedRun shape entries head fields valuePrefix).mapError .pack
  refuse _ := none
  decode header payload :=
    if header.flags &&& sortedRunFlagPackedKeys ≠ 0 then do
      let (entries, _, _) ←
        (decodePackedRun shape payload valueSize header.entryCount.toNat).mapError .pack
      .ok (entries.map fun entry => (entry.1, values.fromBytes entry.2))
    else decodeCbor cbor payload

def alignUpToSector (value : Nat) : Nat := (value + (blockSize - 1)) / blockSize * blockSize

def encodeRun (crc : Crc) (codec : RunCodec κ ν) (run : SortedRun κ ν) :
    Except StorageError (SortedRunHeader × List UInt8) := do
  let payload ← codec.encode run.entries
  let header : SortedRunHeader :=
    { magic := sortedRunMagic
      seq := run.seq
      journalSeq := run.journalSeq
      entryCount := UInt32.ofNat run.entries.length
      payloadLength := UInt32.ofNat payload.length
      flags := run.flags ||| codec.flags
      crc := 0 }
  .ok ({ header with crc := header.computeCrc crc payload }, payload)

/-- Writes the runs from a cursor on and returns the cursor behind the last. -/
def writeRuns (crc : Crc) (codec : RunCodec κ ν) (offset regionSize : Nat) :
    List (SortedRun κ ν) → Nat → DeviceM StorageError Nat
  | [], cursor => pure cursor
  | run :: runs, cursor => do
      let (header, payload) ← DeviceM.lift (encodeRun crc codec run)
      let runTotal := SortedRunHeader.layout.size + payload.length
      if regionSize < cursor + runTotal then
        DeviceM.lift (.error (.regionFull (cursor + runTotal) regionSize))
      else do
        DeviceM.writeAt (offset + cursor) (SortedRunHeader.layout.toBytes header)
        DeviceM.writeAt (offset + cursor + SortedRunHeader.layout.size) payload
        writeRuns crc codec offset regionSize runs (alignUpToSector (cursor + runTotal))

def writtenHeader (node : LoadedNode κ ν) (payloadUsed : Nat) : BtreeNodeHeader :=
  { node.header with
    payloadUsed := UInt32.ofNat payloadUsed
    sortedRunCount := UInt8.ofNat node.sortedRuns.length
    seq := node.header.seq + 1 }

/-- Rewrites a whole region, the header sector last. -/
def writeFullWith (crc : Crc) (codec : RunCodec κ ν) (offset : Nat) (node : LoadedNode κ ν) :
    DeviceM StorageError (LoadedNode κ ν) := do
  let cursor ← writeRuns crc codec offset node.header.regionSize node.sortedRuns blockSize
  let payloadUsed := cursor - blockSize
  if 2 ^ 32 ≤ payloadUsed then
    DeviceM.lift (.error (.regionFull payloadUsed node.header.regionSize))
  else do
    let header := writtenHeader node payloadUsed
    DeviceM.writeAt offset header.sector
    pure { node with header := header, dirty := false }

/-- The header of a region after a run was appended. -/
def appendedHeader (header : BtreeNodeHeader) (run : SortedRun κ ν) (payloadUsed : Nat) :
    BtreeNodeHeader :=
  { header with
    payloadUsed := UInt32.ofNat payloadUsed
    sortedRunCount := header.sortedRunCount + 1
    seq := header.seq + 1
    lastPersistedLsn :=
      if header.lastPersistedLsn < run.journalSeq then run.journalSeq
      else header.lastPersistedLsn }

/-- Writes a run behind the others and then the header sector. -/
def appendSortedRunWith (crc : Crc) (codec : RunCodec κ ν) (offset : Nat)
    (header : BtreeNodeHeader) (run : SortedRun κ ν) : DeviceM StorageError BtreeNodeHeader := do
  let cursor := blockSize + header.payloadUsed.toNat
  let (runHeader, payload) ← DeviceM.lift (encodeRun crc codec run)
  let runTotal := SortedRunHeader.layout.size + payload.length
  if header.regionSize < cursor + runTotal then
    DeviceM.lift (.error (.regionFull (cursor + runTotal) header.regionSize))
  else do
    DeviceM.writeAt (offset + cursor) (SortedRunHeader.layout.toBytes runHeader)
    DeviceM.writeAt (offset + cursor + SortedRunHeader.layout.size) payload
    let payloadUsed := alignUpToSector (cursor + runTotal) - blockSize
    if 2 ^ 32 ≤ payloadUsed then
      DeviceM.lift (.error (.regionFull payloadUsed header.regionSize))
    else do
      let header := appendedHeader header run payloadUsed
      DeviceM.writeAt offset header.sector
      pure header

/-- Reads runs up to a number of them or the end of the payload; a torn run ends
the reading. -/
def readRuns (crc : Crc) (codec : RunCodec κ ν) (d : Device) (offset payloadEnd : Nat) :
    Nat → Nat → Except StorageError (List (SortedRun κ ν))
  | 0, _ => .ok []
  | count + 1, cursor =>
      if payloadEnd ≤ cursor then .ok []
      else do
        let bytes ← d.readAt (offset + cursor) SortedRunHeader.layout.size
        let header := SortedRunHeader.layout.ofBytes bytes
        if header.magic ≠ sortedRunMagic then .ok []
        else
          match codec.refuse header.flags with
          | some err => .error err
          | none => do
              let payload ← d.readAt (offset + cursor + SortedRunHeader.layout.size)
                header.payloadLength.toNat
              if header.verify crc payload then do
                let entries ← codec.decode header payload
                let runTotal := SortedRunHeader.layout.size + header.payloadLength.toNat
                let later ← readRuns crc codec d offset payloadEnd count
                  (alignUpToSector (cursor + runTotal))
                .ok (⟨header.seq, header.journalSeq, header.flags, entries⟩ :: later)
              else .ok []

def readWith (crc : Crc) (codec : RunCodec κ ν) (d : Device) (offset : Nat) (kind : BtreeKind) :
    Except StorageError (LoadedNode κ ν) := do
  let sector ← d.readAt offset blockSize
  let header ← BtreeNodeHeader.parse sector
  if header.kind ≠ kind.toU16 then .error (.invalidBtreeKind header.kind)
  else if header.regionSize < header.payloadUsed.toNat then
    .error (.regionFull header.payloadUsed.toNat header.regionSize)
  else do
    let runs ← readRuns crc codec d offset (blockSize + header.payloadUsed.toNat)
      header.sortedRunCount.toNat blockSize
    .ok
      { header := header
        sortedRuns := runs
        mergedView := none
        pendingJournal := []
        dirty := false
        pin := JournalPin.default }

def regionSizeLog2 : UInt8 := 18

/-- A table is stored as a region of 256 KiB with its entries as one run, or with no
run when it has none. A region of zeros is an empty table. -/
def tableNode (kind : BtreeKind) (entries : List (κ × ν)) : LoadedNode κ ν :=
  let node := LoadedNode.new kind 0 regionSizeLog2
  if entries.isEmpty then node
  else
    { node with
      sortedRuns := [SortedRun.fromSorted 0 0 entries]
      header := { node.header with sortedRunCount := 1 } }

def flushTable (crc : Crc) (codec : RunCodec κ ν) (kind : BtreeKind) (entries : List (κ × ν))
    (offset : Nat) : DeviceM StorageError Unit := do
  let _ ← writeFullWith crc codec offset (tableNode kind entries)
  pure ()

def isBlank (d : Device) (offset : Nat) : Except StorageError Bool := do
  let probe ← d.readAt offset 8
  .ok (probe.all fun byte => byte = 0)

/-- The decoder of packed keys is the one without its faults: where a payload makes
the source panic, this reads something or fails. `PackedReader.loadTable` stops
there and reads the same elsewhere. -/
def loadTable [LinearOrder κ] (crc : Crc) (codec : RunCodec κ ν) (kind : BtreeKind) (d : Device)
    (offset : Nat) : Except StorageError (List (κ × ν)) := do
  if ← isBlank d offset then .ok []
  else do
    let node ← readWith crc codec d offset kind
    .ok node.mergeIter

end

end Mimisbrunnr.Storage
