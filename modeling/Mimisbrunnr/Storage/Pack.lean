import Mimisbrunnr.Lib.BitStream
import Mimisbrunnr.Storage.Device

/-!
# The packed-key codec

The keys of a sorted run are tuples of 64-bit fields. A run is written under a
format chosen for it: each field as its distance from the least value of the
run, in as many bits as the greatest distance needs, and each value without the
bytes that all values start with.
-/

namespace Mimisbrunnr.Storage

set_option autoImplicit false

open Mimisbrunnr.Lib
open Mimisbrunnr.Lib.Layout

structure FieldHints where
  signed : Bool
  msbFirst : Bool
deriving DecidableEq, Repr

def FieldHints.unsigned : FieldHints := { signed := false, msbFirst := false }

def FieldHints.unsignedMsb : FieldHints := { signed := false, msbFirst := true }

def FieldHints.toFlags (hints : FieldHints) : UInt8 :=
  (if hints.signed then 1 else 0) ||| (if hints.msbFirst then 2 else 0)

structure FieldFormat where
  bitWidth : UInt8
  flags : UInt8
  base : UInt64
deriving DecidableEq, Repr

def FieldFormat.layout : Pod FieldFormat :=
  (Pod.u8.prod <| Pod.u8.prod <| (Pod.padding 2).prod <| Pod.u64.prod (Pod.padding 4)).map
    (fun (bitWidth, flags, _, base, _) => { bitWidth, flags, base })
    (fun field => (field.bitWidth, field.flags, (), field.base, ()))
    (fun _ => rfl)

inductive ValueSizeKind where
  | fixed
  | varint
deriving DecidableEq, Repr

def ValueSizeKind.toU8 : ValueSizeKind → UInt8
  | fixed => 0
  | varint => 1

structure SortedRunKeyFormat where
  nrFields : UInt8
  keyHeaderBytes : UInt8
  commonValuePrefix : UInt8
  valueSizeKind : UInt8
  sumBitWidth : UInt32
deriving DecidableEq, Repr

namespace SortedRunKeyFormat

def layout : Pod SortedRunKeyFormat :=
  (Pod.u8.prod <| Pod.u8.prod <| Pod.u8.prod <| Pod.u8.prod Pod.u32).map
    (fun (nrFields, keyHeaderBytes, commonValuePrefix, valueSizeKind, sumBitWidth) =>
      { nrFields, keyHeaderBytes, commonValuePrefix, valueSizeKind, sumBitWidth })
    (fun head => (head.nrFields, head.keyHeaderBytes, head.commonValuePrefix, head.valueSizeKind,
      head.sumBitWidth))
    (fun _ => rfl)

def fieldsEnd (head : SortedRunKeyFormat) : Nat :=
  layout.size + head.nrFields.toNat * FieldFormat.layout.size

def totalSize (head : SortedRunKeyFormat) : Nat := head.fieldsEnd + head.commonValuePrefix.toNat

def serialise (head : SortedRunKeyFormat) (fields : List FieldFormat) (valuePrefix : List UInt8) :
    List UInt8 :=
  layout.toBytes head ++ fields.flatMap FieldFormat.layout.toBytes ++ valuePrefix

/-- The field descriptors of a packed slice. -/
def parseFields : Nat → List UInt8 → List FieldFormat
  | 0, _ => []
  | count + 1, bytes =>
      FieldFormat.layout.ofBytes (bytes.take FieldFormat.layout.size) ::
        parseFields count (bytes.drop FieldFormat.layout.size)

def parse (bytes : List UInt8) :
    Except StorageError (SortedRunKeyFormat × List FieldFormat × List UInt8) :=
  if bytes.length < layout.size then .error (.bufferTooSmall layout.size bytes.length)
  else
    let head := layout.ofBytes (bytes.take layout.size)
    if bytes.length < head.totalSize then .error (.bufferTooSmall head.totalSize bytes.length)
    else
      .ok (head, parseFields head.nrFields.toNat (bytes.drop layout.size),
        (bytes.drop head.fieldsEnd).take head.commonValuePrefix.toNat)

end SortedRunKeyFormat

/-- How a type of keys is taken apart into fields, and put together again. -/
structure PackableKey (κ : Type) where
  nrFields : Nat
  keyHeaderBytes : Nat
  fieldHints : List FieldHints
  keyHeader : κ → UInt32
  fieldValues : κ → List UInt64
  fromComponents : UInt32 → List UInt64 → Except PackError κ

/-- What an implementation of the trait has to satisfy. -/
structure PackableKey.Lawful {κ : Type} (shape : PackableKey κ) : Prop where
  some_field : 1 ≤ shape.nrFields
  few_fields : shape.nrFields ≤ 8
  short_header : shape.keyHeaderBytes ≤ 4
  length_hints : shape.fieldHints.length = shape.nrFields
  length_fields : ∀ key, (shape.fieldValues key).length = shape.nrFields
  header_fits : ∀ key, (shape.keyHeader key).toNat < 256 ^ shape.keyHeaderBytes
  inverse : ∀ key, shape.fromComponents (shape.keyHeader key) (shape.fieldValues key) = .ok key

/-- Plain numbers as keys. -/
def PackableKey.u64 : PackableKey UInt64 where
  nrFields := 1
  keyHeaderBytes := 0
  fieldHints := [FieldHints.unsigned]
  keyHeader _ := 0
  fieldValues key := [key]
  fromComponents _ fields :=
    match fields with
    | [key] => .ok key
    | _ => .error (.malformed "u64: wrong field count")

theorem PackableKey.u64_lawful : PackableKey.u64.Lawful where
  some_field := Nat.le_refl 1
  few_fields := by decide
  short_header := by decide
  length_hints := rfl
  length_fields _ := rfl
  header_fits _ := Nat.zero_lt_one
  inverse _ := rfl

section

variable {κ : Type}

/-- A bound of every field over the keys of a run. -/
def fieldBounds (shape : PackableKey κ) (pick : UInt64 → UInt64 → UInt64) (start : UInt64)
    (keys : List κ) : List UInt64 :=
  keys.foldl (fun bounds key => List.zipWith pick (shape.fieldValues key) bounds)
    (List.replicate shape.nrFields start)

def spanWidth (span : UInt64) : UInt8 := UInt8.ofNat (span.toNat.log2 + 1)

def fieldFormat (hints : FieldHints) (least greatest : UInt64) : FieldFormat :=
  { bitWidth := if least = greatest then 0 else spanWidth (greatest - least)
    flags := hints.toFlags
    base := least }

def selectFields (shape : PackableKey κ) (keys : List κ) : List FieldFormat :=
  if keys.isEmpty then
    shape.fieldHints.map fun hints => { bitWidth := 0, flags := hints.toFlags, base := 0 }
  else
    let mins := fieldBounds shape (fun value bound => if value < bound then value else bound)
      (UInt64.ofNat (2 ^ 64 - 1)) keys
    let maxs := fieldBounds shape (fun value bound => if bound < value then value else bound) 0 keys
    List.zipWith (fun hints bounds => fieldFormat hints bounds.1 bounds.2) shape.fieldHints
      (mins.zip maxs)

/-- The bytes every value of a run starts with, at most 255 of them. -/
def commonPrefix (values : List (List UInt8)) : List UInt8 :=
  match values with
  | [] => []
  | first :: rest =>
      let maxLen := min ((rest.map List.length).foldl min first.length) 255
      let count := ((List.range maxLen).takeWhile fun j =>
        rest.all fun value => value[j]? == first[j]?).length
      first.take count

def selectKind (values : List (List UInt8)) (forceVarint : Bool) : ValueSizeKind :=
  if forceVarint && !values.isEmpty then .varint
  else
    match values with
    | [] => .fixed
    | [_] => .fixed
    | first :: rest => if rest.all fun value => value.length == first.length then .fixed else .varint

def dataBitsPerKey (fields : List FieldFormat) : Nat :=
  (fields.map fun field => field.bitWidth.toNat).sum

def selectFormatWithHint (shape : PackableKey κ) (entries : List (κ × List UInt8))
    (forceVarint : Bool) :
    Except PackError (SortedRunKeyFormat × List FieldFormat × List UInt8) :=
  if shape.nrFields = 0 ∨ 8 < shape.nrFields then .error (.tooManyFields shape.nrFields)
  else if 4 < shape.keyHeaderBytes then
    .error (.invalidKeyHeaderBytes (UInt8.ofNat shape.keyHeaderBytes))
  else if shape.fieldHints.length ≠ shape.nrFields then
    .error (.malformed "PackableKey: hints length != nr_fields")
  else
    let fields := selectFields shape (entries.map Prod.fst)
    let valuePrefix := commonPrefix (entries.map Prod.snd)
    let head : SortedRunKeyFormat :=
      { nrFields := UInt8.ofNat shape.nrFields
        keyHeaderBytes := UInt8.ofNat shape.keyHeaderBytes
        commonValuePrefix := UInt8.ofNat valuePrefix.length
        valueSizeKind := (selectKind (entries.map Prod.snd) forceVarint).toU8
        sumBitWidth := UInt32.ofNat (shape.keyHeaderBytes * 8 + dataBitsPerKey fields) }
    .ok (head, fields, valuePrefix)

def bytesPerKey (head : SortedRunKeyFormat) (fields : List FieldFormat) : Nat :=
  head.keyHeaderBytes.toNat + (dataBitsPerKey fields + 7) / 8

/-- The bits of one field: none of a constant field, else its distance from the
base. -/
def fieldBits (field : FieldFormat) (value : UInt64) : Except PackError (List Bool) :=
  if field.bitWidth = 0 then
    if value ≠ field.base then .error (.fieldOverflow value 0) else .ok []
  else if 2 ^ field.bitWidth.toNat ≤ (value - field.base).toNat then
    .error (.fieldOverflow value field.bitWidth)
  else .ok (BitStream.bitsOf (value - field.base).toNat field.bitWidth.toNat)

def keyBits : List FieldFormat → List UInt64 → Except PackError (List Bool)
  | field :: fields, value :: values => do
      let bits ← fieldBits field value
      let rest ← keyBits fields values
      .ok (bits ++ rest)
  | _, _ => .ok []

def encodeEntry (shape : PackableKey κ) (head : SortedRunKeyFormat) (fields : List FieldFormat)
    (entry : κ × List UInt8) : Except PackError (List UInt8) := do
  let bits ← keyBits fields (shape.fieldValues entry.1)
  let tail := entry.2.drop head.commonValuePrefix.toNat
  let length :=
    if head.valueSizeKind = ValueSizeKind.varint.toU8 then BitStream.varint tail.length else []
  .ok (leBytes head.keyHeaderBytes.toNat (shape.keyHeader entry.1).toNat ++
    BitStream.toBytes bits ++ length ++ tail)

def encodeEntries (shape : PackableKey κ) (head : SortedRunKeyFormat) (fields : List FieldFormat) :
    List (κ × List UInt8) → Except PackError (List UInt8)
  | [] => .ok []
  | entry :: rest => do
      let bytes ← encodeEntry shape head fields entry
      let later ← encodeEntries shape head fields rest
      .ok (bytes ++ later)

def knownKind (kind : UInt8) : Bool :=
  kind = ValueSizeKind.fixed.toU8 || kind = ValueSizeKind.varint.toU8

/-- The first value that does not start with the prefix, as an error. -/
def checkPrefix (valuePrefix : List UInt8) : List (List UInt8) → Except PackError Unit
  | [] => .ok ()
  | value :: rest =>
      if value.length < valuePrefix.length then .error (.invalidPrefix valuePrefix.length)
      else if value.take valuePrefix.length ≠ valuePrefix then
        .error (.malformed "encode: common_value_prefix does not match every value")
      else checkPrefix valuePrefix rest

def uniformLengths : List (List UInt8) → Bool
  | [] => true
  | first :: rest => rest.all fun value => value.length == first.length

def encodePackedRun (shape : PackableKey κ) (entries : List (κ × List UInt8))
    (head : SortedRunKeyFormat) (fields : List FieldFormat) (valuePrefix : List UInt8) :
    Except PackError (List UInt8) :=
  if fields.length ≠ shape.nrFields then
    .error (.malformed "encode: format field count mismatch with PackableKey")
  else if valuePrefix.length ≠ head.commonValuePrefix.toNat then
    .error (.invalidPrefix valuePrefix.length)
  else if !knownKind head.valueSizeKind then .error (.malformed "encode: unknown value_size_kind")
  else if entries.isEmpty then .ok (head.serialise fields valuePrefix)
  else if head.valueSizeKind = ValueSizeKind.fixed.toU8 ∧
      !uniformLengths (entries.map Prod.snd) then
    .error (.malformed
      "encode: fixed mode requires uniform value lengths; select_format should have chosen VARINT")
  else do
    checkPrefix valuePrefix (entries.map Prod.snd)
    let body ← encodeEntries shape head fields entries
    .ok (head.serialise fields valuePrefix ++ body)

def readBits (packed : List UInt8) (position : Nat) (width : UInt8) :
    Except PackError (UInt64 × Nat) :=
  if width = 0 then .ok (0, position)
  else if 8 * packed.length < position + width.toNat then
    .error (.malformed "read_bits: out of range")
  else
    .ok (UInt64.ofNat (BitStream.ofBits
      (((BitStream.ofBytes packed).drop position).take width.toNat)), position + width.toNat)

def decodeFields (packed : List UInt8) :
    List FieldFormat → Nat → Except PackError (List UInt64)
  | [], _ => .ok []
  | field :: fields, position => do
      let (delta, position) ← readBits packed position field.bitWidth
      let rest ← decodeFields packed fields position
      .ok ((field.base + delta) :: rest)

/-- The length of the next value's tail, and the bytes behind it. -/
def readTailLength (head : SortedRunKeyFormat) (valueSize : Nat) (bytes : List UInt8) :
    Except PackError (Nat × List UInt8) :=
  if head.valueSizeKind = ValueSizeKind.fixed.toU8 then
    .ok (valueSize - head.commonValuePrefix.toNat, bytes)
  else
    match BitStream.readVarint 0 bytes with
    | .ok found => .ok found
    | .error .truncated => .error (.malformed "varint: truncated")
    | .error .tooWide => .error (.malformed "varint: too wide for u64")

def decodeEntry (shape : PackableKey κ) (head : SortedRunKeyFormat) (fields : List FieldFormat)
    (valuePrefix : List UInt8) (valueSize : Nat) (bytes : List UInt8) :
    Except PackError ((κ × List UInt8) × List UInt8) :=
  let headerBytes := head.keyHeaderBytes.toNat
  let bodySize := bytesPerKey head fields
  if bytes.length < bodySize then .error (.malformed "decode: entry body truncated")
  else do
    let keyHeader := UInt32.ofNat (leValue (bytes.take headerBytes))
    let packed := (bytes.drop headerBytes).take (bodySize - headerBytes)
    let values ← decodeFields packed fields 0
    let (tailLength, rest) ← readTailLength head valueSize (bytes.drop bodySize)
    if rest.length < tailLength then .error (.malformed "decode: value tail truncated")
    else do
      let key ← shape.fromComponents keyHeader values
      .ok ((key, valuePrefix ++ rest.take tailLength), rest.drop tailLength)

def decodeEntries (shape : PackableKey κ) (head : SortedRunKeyFormat) (fields : List FieldFormat)
    (valuePrefix : List UInt8) (valueSize : Nat) :
    Nat → List UInt8 → Except PackError (List (κ × List UInt8))
  | 0, _ => .ok []
  | count + 1, bytes => do
      let (entry, rest) ← decodeEntry shape head fields valuePrefix valueSize bytes
      let later ← decodeEntries shape head fields valuePrefix valueSize count rest
      .ok (entry :: later)

def decodePackedRun (shape : PackableKey κ) (payload : List UInt8) (valueSize entryCount : Nat) :
    Except PackError (List (κ × List UInt8) × SortedRunKeyFormat × List FieldFormat) :=
  match SortedRunKeyFormat.parse payload with
  | .error _ => .error (.malformed "decode: format header truncated")
  | .ok (head, fields, valuePrefix) =>
      if head.nrFields.toNat ≠ shape.nrFields then
        .error (.malformed "decode: descriptor nr_fields mismatch with PackableKey")
      else
        let entriesBytes := payload.drop head.totalSize
        let stride := bytesPerKey head fields + (valueSize - head.commonValuePrefix.toNat)
        if head.valueSizeKind = ValueSizeKind.fixed.toU8 ∧
            valueSize < head.commonValuePrefix.toNat then
          .error (.invalidPrefix head.commonValuePrefix.toNat)
        else if head.valueSizeKind = ValueSizeKind.fixed.toU8 ∧
            entriesBytes.length < entryCount * stride then
          .error (.malformed "decode: entries truncated")
        else if !knownKind head.valueSizeKind then
          .error (.malformed "decode: unknown value_size_kind")
        else do
          let entries ← decodeEntries shape head fields valuePrefix valueSize entryCount entriesBytes
          .ok (entries, head, fields)

end

end Mimisbrunnr.Storage
