import Mimisbrunnr.Wal.Op

/-!
# The log ring

The write-ahead log on the device: two header blocks, of which the one with the
larger generation counts, and a ring of sectors with one entry each. Cursors and
sizes are byte counts, always multiples of the sector size. The checksum is an
external function and a parameter.
-/

namespace Mimisbrunnr.Wal

set_option autoImplicit false

open Mimisbrunnr.Lib.ByteStore
open Mimisbrunnr.Lib.Layout
open Mimisbrunnr.Storage
open Mimisbrunnr.Types

def walHeaderFormatVersion : UInt16 := 1

/-- The key id and the reserved bytes of the header are always zero and left out. -/
structure WalHeader where
  header : BlockHeader
  nextLsn : UInt64
  writeCursor : UInt64
  readCursor : UInt64
  usedBytes : UInt64
  lastCheckpointLsn : UInt64
  segmentSize : UInt32
  crc : UInt32
deriving DecidableEq

namespace WalHeader

def default : WalHeader :=
  { header := BlockHeader.new .walSegment walHeaderFormatVersion 0
    nextLsn := 1
    writeCursor := 0
    readCursor := 0
    usedBytes := 0
    lastCheckpointLsn := 0
    segmentSize := 1024 * 1024
    crc := 0 }

/-- Everything before the checksum. -/
def body :
    Pod (BlockHeader × UInt64 × UInt64 × UInt64 × UInt64 × UInt64 × UInt32 × Unit) :=
  BlockHeader.layout.prod <| Pod.u64.prod <| Pod.u64.prod <| Pod.u64.prod <| Pod.u64.prod <|
    Pod.u64.prod <| Pod.u32.prod (Pod.padding 4016)

def layout : Pod WalHeader :=
  (body.prod Pod.u32).map
    (fun ((header, nextLsn, writeCursor, readCursor, usedBytes, lastCheckpointLsn, segmentSize, _),
        crc) =>
      { header, nextLsn, writeCursor, readCursor, usedBytes, lastCheckpointLsn, segmentSize, crc })
    (fun h =>
      ((h.header, h.nextLsn, h.writeCursor, h.readCursor, h.usedBytes, h.lastCheckpointLsn,
        h.segmentSize, ()), h.crc))
    (fun _ => rfl)

theorem layout_size : layout.size = blockSize := rfl

def crcOffset : Nat := blockSize - 4

def recomputeCrc (crc : Crc) (h : WalHeader) : WalHeader :=
  { h with crc := crc ((layout.toBytes h).take crcOffset) }

/-- The stored checksum against the one of the bytes before it. -/
def verifyCrc (crc : Crc) (block : List UInt8) : Except WalError Unit :=
  let expected := (layout.ofBytes block).crc
  let actual := crc (block.take crcOffset)
  if expected = actual then .ok () else .error (.crcMismatch expected actual)

def verifyKind (h : WalHeader) : Except WalError Unit :=
  match BlockKind.fromU16 h.header.kind with
  | .error err => .error (.storage err)
  | .ok kind =>
      if kind ≠ .walSegment then .error (.invalidMagic [0x57, 0x41, 0x4c, 0x52] [0, 0, 0, 0])
      else if h.header.formatVersion ≠ walHeaderFormatVersion then
        .error (.unsupportedFormatVersion h.header.formatVersion)
      else .ok ()

end WalHeader

/-- The magic of an entry, `WALR`. -/
def walEntryMagic : List.Vector UInt8 4 := ⟨[0x57, 0x41, 0x4c, 0x52], rfl⟩

def walEntryFormatVersion : UInt8 := 1

def walSectorSize : Nat := 4096

def walFramingCrcLen : Nat := 4

def walEntryFlagEncrypted : UInt16 := 1

def walEntryFlagCompressed : UInt16 := 2

def timestampLayout : Pod HybridTimestamp :=
  (Pod.i64.prod <| Pod.u16.prod <| Pod.u16.prod (Pod.padding 4)).map
    (fun (physicalNs, logical, nodeId, _) => { physicalNs, logical, nodeId })
    (fun ts => (ts.physicalNs, ts.logical, ts.nodeId, ()))
    (fun _ => rfl)

structure WalEntryHeader where
  magic : List.Vector UInt8 4
  opKind : UInt8
  formatVersion : UInt8
  flags : UInt16
  lsn : UInt64
  timestamp : HybridTimestamp
  payloadLength : UInt32
  payloadCrc : UInt32
deriving DecidableEq

namespace WalEntryHeader

def new (kind : WalOpKind) (flags : UInt16) (lsn : UInt64) (timestamp : HybridTimestamp)
    (payloadLength : UInt32) : WalEntryHeader :=
  { magic := walEntryMagic
    opKind := kind.toU8
    formatVersion := walEntryFormatVersion
    flags := flags
    lsn := lsn
    timestamp := timestamp
    payloadLength := payloadLength
    payloadCrc := 0 }

def layout : Pod WalEntryHeader :=
  ((Pod.array 4).prod <| Pod.u8.prod <| Pod.u8.prod <| Pod.u16.prod <| Pod.u64.prod <|
    timestampLayout.prod <| Pod.u32.prod Pod.u32).map
    (fun (magic, opKind, formatVersion, flags, lsn, timestamp, payloadLength, payloadCrc) =>
      { magic, opKind, formatVersion, flags, lsn, timestamp, payloadLength, payloadCrc })
    (fun h =>
      (h.magic, h.opKind, h.formatVersion, h.flags, h.lsn, h.timestamp, h.payloadLength,
        h.payloadCrc))
    (fun _ => rfl)

theorem layout_size : layout.size = 40 := rfl

def checkMagic (h : WalEntryHeader) : Except WalError Unit :=
  if h.magic = walEntryMagic then .ok ()
  else .error (.invalidMagic walEntryMagic.toList h.magic.toList)

end WalEntryHeader

def walMaxPayloadPlaintext : Nat := walSectorSize - WalEntryHeader.layout.size - walFramingCrcLen

structure WalEntry where
  header : WalEntryHeader
  payload : List UInt8
deriving DecidableEq

namespace WalEntry

def frame (crc : Crc) (entry : WalEntry) : List UInt8 :=
  let covered := WalEntryHeader.layout.toBytes entry.header ++ entry.payload
  covered ++ Pod.u32.toBytes (crc covered)

def sector (crc : Crc) (entry : WalEntry) : List UInt8 :=
  entry.frame crc ++ List.replicate (walSectorSize - (entry.frame crc).length) 0

def headerOf (sector : List UInt8) : WalEntryHeader :=
  WalEntryHeader.layout.ofBytes (sector.take WalEntryHeader.layout.size)

def decode (crc : Crc) (sector : List UInt8) : Except WalError WalEntry :=
  let header := headerOf sector
  let headerSize := WalEntryHeader.layout.size
  let length := header.payloadLength.toNat
  match header.checkMagic with
  | .error err => .error err
  | .ok _ =>
      if walSectorSize < headerSize + length + walFramingCrcLen then
        .error (.payloadTooLarge length walMaxPayloadPlaintext)
      else
        let frameEnd := headerSize + length
        let stored := Pod.u32.ofBytes ((sector.drop frameEnd).take walFramingCrcLen)
        let computed := crc (sector.take frameEnd)
        if stored ≠ computed then .error (.crcMismatch stored computed)
        else
          let payload := (sector.drop headerSize).take length
          if header.payloadCrc ≠ crc payload then
            .error (.crcMismatch header.payloadCrc (crc payload))
          else if header.flags &&& walEntryFlagEncrypted ≠ 0 then .error .encryptionUnsupported
          else if header.flags &&& walEntryFlagCompressed ≠ 0 then .error .compressionUnsupported
          else .ok { header := header, payload := payload }

end WalEntry

inductive HeaderSlot where
  | a
  | b
deriving DecidableEq, Repr

namespace HeaderSlot

def index : HeaderSlot → Nat
  | a => 0
  | b => 1

def other : HeaderSlot → HeaderSlot
  | a => b
  | b => a

end HeaderSlot

end Mimisbrunnr.Wal

namespace Mimisbrunnr

set_option autoImplicit false

open Mimisbrunnr.Lib.Layout
open Mimisbrunnr.Storage
open Mimisbrunnr.Types
open Mimisbrunnr.Wal

structure Wal where
  base : Nat
  size : Nat
  header : WalHeader
  activeSlot : HeaderSlot
  readOnly : Bool

namespace Wal

def dataSectors (wal : Wal) : Nat := (wal.size - 2 * blockSize) / blockSize

def dataCapacity (wal : Wal) : Nat := wal.dataSectors * blockSize

def dataOffset (wal : Wal) : Nat := wal.base + 2 * blockSize

def headerSlotOffset (wal : Wal) (slot : HeaderSlot) : Nat := wal.base + slot.index * blockSize

def validSize (size : Nat) : Bool := size ≠ 0 && size % blockSize = 0 && 3 * blockSize ≤ size

def writeHeaderTo (wal : Wal) (d : Device) (slot : HeaderSlot) :
    Except StorageError Unit × Device :=
  d.writeAt (wal.headerSlotOffset slot) (WalHeader.layout.toBytes wal.header)

/-- The ring in memory after a format. -/
def formatted (crc : Crc) (offset size : Nat) : Wal :=
  { base := offset
    size := size
    header :=
      WalHeader.recomputeCrc crc
        { WalHeader.default with
          header := { WalHeader.default.header with generation := 1 } }
    activeSlot := .a
    readOnly := false }

/-- The second copy gets an older generation. -/
def format (crc : Crc) (d : Device) (offset size : Nat) : Except WalError Wal × Device :=
  if validSize size then
    let wal := formatted crc offset size
    match wal.writeHeaderTo d .a with
    | (.error err, d) => (.error (.storage err), d)
    | (.ok _, d) =>
        let mirror : WalHeader :=
          { wal.header with
            header := { wal.header.header with generation := 0 } }
        match d.writeAt (wal.headerSlotOffset .b)
            (WalHeader.layout.toBytes (mirror.recomputeCrc crc)) with
        | (.error err, d) => (.error (.storage err), d)
        | (.ok _, d) =>
            match d.sync with
            | (.error err, d) => (.error (.storage err), d)
            | (.ok _, d) => (.ok wal, d)
  else (.error (.invalidSize size), d)

/-- The header copy in a block, if its kind and its checksum are right. -/
def candidate (crc : Crc) (block : List UInt8) : Option WalHeader :=
  let header := WalHeader.layout.ofBytes block
  match header.verifyKind, WalHeader.verifyCrc crc block with
  | .ok _, .ok _ => some header
  | _, _ => none

/-- The copy with the larger generation, the first of two equals. -/
def pick : Option WalHeader → Option WalHeader → Option (WalHeader × HeaderSlot)
  | some a, some b =>
      if a.header.generation < b.header.generation then some (b, .b) else some (a, .a)
  | some a, none => some (a, .a)
  | none, some b => some (b, .b)
  | none, none => none

def «open» (crc : Crc) (d : Device) (offset size : Nat) : Except WalError Wal :=
  if validSize size then
    match d.readAt offset blockSize with
    | .error err => .error (.storage err)
    | .ok blockA =>
        match d.readAt (offset + blockSize) blockSize with
        | .error err => .error (.storage err)
        | .ok blockB =>
            match pick (candidate crc blockA) (candidate crc blockB) with
            | none => .error .noValidHeader
            | some (header, slot) =>
                .ok
                  { base := offset
                    size := size
                    header := header
                    activeSlot := slot
                    readOnly := false }
  else .error (.invalidSize size)

/-- The generation has grown in memory even when the write fails. -/
def flushHeader (crc : Crc) (wal : Wal) (d : Device) : Except WalError Unit × Wal × Device :=
  if wal.header.header.generation.toNat + 1 < 2 ^ 64 then
    let bumped : WalHeader :=
      { wal.header with
        header := { wal.header.header with generation := wal.header.header.generation + 1 } }
    let flushed := { wal with header := bumped.recomputeCrc crc }
    match flushed.writeHeaderTo d wal.activeSlot.other with
    | (.error err, d) => (.error (.storage err), flushed, d)
    | (.ok _, d) => (.ok (), { flushed with activeSlot := wal.activeSlot.other }, d)
  else (.error .lsnOverflow, wal, d)

/-- The header is flushed and the device synchronised. -/
def settle {α : Type} (crc : Crc) (wal : Wal) (d : Device) (result : α) :
    Except WalError α × Wal × Device :=
  match wal.flushHeader crc d with
  | (.error err, wal, d) => (.error err, wal, d)
  | (.ok _, wal, d) =>
      match d.sync with
      | (.error err, d) => (.error (.storage err), wal, d)
      | (.ok _, d) => (.ok result, wal, d)

/-- The checks before anything is written, in the order of the source. -/
def refusal (wal : Wal) (payload : List UInt8) (flags : UInt16) : Option WalError :=
  if wal.readOnly then some .readOnly
  else if flags &&& walEntryFlagEncrypted ≠ 0 then some .encryptionUnsupported
  else if flags &&& walEntryFlagCompressed ≠ 0 then some .compressionUnsupported
  else if walMaxPayloadPlaintext < payload.length then
    some (.payloadTooLarge payload.length walMaxPayloadPlaintext)
  else if wal.dataCapacity < wal.header.usedBytes.toNat + blockSize then
    some (.ringFull wal.header.usedBytes.toNat wal.dataCapacity)
  else if 2 ^ 64 ≤ wal.header.nextLsn.toNat + 1 then some (.panic "WAL next_lsn overflow")
  else none

def entryFor (crc : Crc) (wal : Wal) (kind : WalOpKind) (payload : List UInt8)
    (ts : HybridTimestamp) (flags : UInt16) : WalEntry :=
  { header :=
      { WalEntryHeader.new kind flags wal.header.nextLsn ts (UInt32.ofNat payload.length) with
        payloadCrc := crc payload }
    payload := payload }

/-- The ring with one more sector in use. -/
def advanced (wal : Wal) : Wal :=
  { wal with
    header :=
      { wal.header with
        writeCursor :=
          UInt64.ofNat ((wal.header.writeCursor.toNat + blockSize) % wal.dataCapacity)
        usedBytes := wal.header.usedBytes + UInt64.ofNat blockSize
        nextLsn := wal.header.nextLsn + 1 } }

def appendRaw (crc : Crc) (wal : Wal) (d : Device) (kind : WalOpKind) (payload : List UInt8)
    (ts : HybridTimestamp) (flags : UInt16) : Except WalError UInt64 × Wal × Device :=
  match wal.refusal payload flags with
  | some err => (.error err, wal, d)
  | none =>
      let sector := (wal.entryFor crc kind payload ts flags).sector crc
      match d.writeAt (wal.dataOffset + wal.header.writeCursor.toNat) sector with
      | (.error err, d) => (.error (.storage err), wal, d)
      | (.ok _, d) => wal.advanced.settle crc d wal.header.nextLsn

/-- The entries of `count` sectors from a cursor on, up to the first that is
refused; those below the first sequence number are skipped. -/
def scan (crc : Crc) (wal : Wal) (d : Device) (start : Nat) :
    Nat → Nat → List (Except WalError WalEntry)
  | 0, _ => []
  | count + 1, cursor =>
      match d.readAt (wal.dataOffset + cursor) walSectorSize with
      | .error err => [.error (.storage err)]
      | .ok sector =>
          match WalEntry.decode crc sector with
          | .error err => [.error err]
          | .ok entry =>
              let later := scan crc wal d start count ((cursor + blockSize) % wal.dataCapacity)
              if entry.header.lsn.toNat < start then later else .ok entry :: later

def iterFrom (crc : Crc) (wal : Wal) (d : Device) (start : Nat) :
    List (Except WalError WalEntry) :=
  wal.scan crc d start (wal.header.usedBytes.toNat / blockSize) wal.header.readCursor.toNat

/-- The ring without its oldest sector. -/
def reclaimed (wal : Wal) : Wal :=
  { wal with
    header :=
      { wal.header with
        readCursor := UInt64.ofNat ((wal.header.readCursor.toNat + blockSize) % wal.dataCapacity)
        usedBytes := wal.header.usedBytes - UInt64.ofNat blockSize } }

/-- Drops the sectors whose entry is not beyond the checkpoint. -/
def trim (d : Device) (lsn : UInt64) : Nat → Wal → Except WalError Nat × Wal
  | 0, wal => (.ok 0, wal)
  | count + 1, wal =>
      match d.readAt (wal.dataOffset + wal.header.readCursor.toNat) walSectorSize with
      | .error err => (.error (.storage err), wal)
      | .ok sector =>
          match (WalEntry.headerOf sector).checkMagic with
          | .error _ => (.ok 0, wal)
          | .ok _ =>
              if lsn < (WalEntry.headerOf sector).lsn then (.ok 0, wal)
              else
                let outcome := trim d lsn count wal.reclaimed
                (outcome.1.map Nat.succ, outcome.2)

def checkpoint (crc : Crc) (wal : Wal) (d : Device) (lsn : UInt64) :
    Except WalError Nat × Wal × Device :=
  if wal.readOnly then (.error .readOnly, wal, d)
  else
    match trim d lsn (wal.header.usedBytes.toNat / blockSize) wal with
    | (.error err, wal) => (.error err, wal, d)
    | (.ok count, wal) =>
        settle crc { wal with header := { wal.header with lastCheckpointLsn := lsn } } d count

end Wal

end Mimisbrunnr
