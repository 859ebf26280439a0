import Mimisbrunnr.Lib.Bitmaps
import Mimisbrunnr.Types.Value

/-!
# The attribute indices

Two inverted indices over attribute values. The key of the first is the 64-bit
hash of the value, a parameter here since the hash function and the encoding it
reads are external; the key of the second is a 16-byte normalised key that the
range scans compare byte by byte.
-/

namespace Mimisbrunnr.Index

set_option autoImplicit false

open Mimisbrunnr.Lib
open Mimisbrunnr.Types

abbrev ValueHash := Value → UInt64

/-- The bytes of a number from the most significant one down, `width` of them. -/
def bigEndian : Nat → Nat → List UInt8
  | 0, _ => []
  | width + 1, n => UInt8.ofNat (n / 256 ^ width) :: bigEndian width n

/-- `bytes` cut or filled with zeros to exactly `width` bytes. -/
def padTo (width : Nat) (bytes : List UInt8) : List UInt8 :=
  bytes.take width ++ List.replicate (width - bytes.length) 0

def shiftSigned (number : Int64) : Nat := (number.toInt + 2 ^ 63).toNat

def flipFloat (bits : UInt64) : UInt64 :=
  if bits < 0x8000000000000000 then bits ^^^ 0x8000000000000000 else ~~~bits

def truncatedKey (tag : UInt8) (bytes : List UInt8) : List UInt8 :=
  tag :: padTo 13 bytes ++ [if 13 < bytes.length then 1 else 0, UInt8.ofNat (min bytes.length 255)]

structure NormalisedKey where
  bytes : List UInt8
deriving DecidableEq

namespace NormalisedKey

def bytesOf : Value → List UInt8
  | .text string => truncatedKey 0 string.toUTF8.toList
  | .int number => 1 :: padTo 15 (bigEndian 8 (shiftSigned number))
  | .float bits => 2 :: padTo 15 (bigEndian 8 (flipFloat bits).toNat)
  | .timestamp ns => 3 :: padTo 15 (bigEndian 8 (shiftSigned ns))
  | .blob bytes => truncatedKey 4 bytes
  | .scoped context inner =>
      5 :: bigEndian 4 context ++ ((bytesOf inner).drop 1).take 11

def fromValue (value : Value) : NormalisedKey := { bytes := bytesOf value }

@[simp] theorem length_big_endian (width n : Nat) : (bigEndian width n).length = width := by
  induction width with
  | zero => rfl
  | succ width ih => simp [bigEndian, ih]

@[simp] private theorem length_pad_to (width : Nat) (bytes : List UInt8) :
    (padTo width bytes).length = width := by
  simp only [padTo, List.length_append, List.length_take, List.length_replicate]
  omega

@[simp] theorem length_bytes_of (value : Value) : (bytesOf value).length = 16 := by
  induction value with
  | text string => simp [bytesOf, truncatedKey]
  | int number => simp [bytesOf]
  | float bits => simp [bytesOf]
  | timestamp ns => simp [bytesOf]
  | blob bytes => simp [bytesOf, truncatedKey]
  | «scoped» context inner ih => simp [bytesOf, ih]

end NormalisedKey

structure KvIndex where
  entries : Bitmaps.BitmapMap (TagId × UInt64)

namespace KvIndex

def new : KvIndex := { entries := Bitmaps.empty }

def insert (hash : ValueHash) (index : KvIndex) (tag : TagId) (value : Value) (oidLocal : Nat) :
    KvIndex :=
  { entries := Bitmaps.insert index.entries (tag, hash value) oidLocal }

def remove (hash : ValueHash) (index : KvIndex) (tag : TagId) (value : Value) (oidLocal : Nat) :
    KvIndex :=
  { entries := Bitmaps.remove index.entries (tag, hash value) oidLocal }

def lookup (hash : ValueHash) (index : KvIndex) (tag : TagId) (value : Value) : Finset Nat :=
  Bitmaps.members index.entries (tag, hash value)

@[simp] theorem lookup_new (hash : ValueHash) (tag : TagId) (value : Value) :
    new.lookup hash tag value = ∅ := by
  simp [new, lookup]

theorem mem_lookup_insert (hash : ValueHash) (index : KvIndex) (tag other : TagId)
    (value w : Value) (oidLocal entry : Nat) :
    entry ∈ (index.insert hash tag value oidLocal).lookup hash other w ↔
      (other = tag ∧ hash w = hash value ∧ entry = oidLocal) ∨
        entry ∈ index.lookup hash other w := by
  simp only [insert, lookup, Bitmaps.mem_insert, Prod.mk.injEq, and_assoc]

theorem mem_lookup_remove (hash : ValueHash) (index : KvIndex) (tag other : TagId)
    (value w : Value) (oidLocal entry : Nat) :
    entry ∈ (index.remove hash tag value oidLocal).lookup hash other w ↔
      ¬ (other = tag ∧ hash w = hash value ∧ entry = oidLocal) ∧
        entry ∈ index.lookup hash other w := by
  simp only [remove, lookup, Bitmaps.mem_remove, Prod.mk.injEq, and_assoc]

end KvIndex

structure RangeIndex where
  map : Bitmaps.BitmapMap (TagId × NormalisedKey)

namespace RangeIndex

def new : RangeIndex := { map := Bitmaps.empty }

def insert (index : RangeIndex) (tag : TagId) (value : Value) (oidLocal : Nat) : RangeIndex :=
  { map := Bitmaps.insert index.map (tag, NormalisedKey.fromValue value) oidLocal }

def remove (index : RangeIndex) (tag : TagId) (value : Value) (oidLocal : Nat) : RangeIndex :=
  { map := Bitmaps.remove index.map (tag, NormalisedKey.fromValue value) oidLocal }

def lookup (index : RangeIndex) (tag : TagId) (value : Value) : Finset Nat :=
  Bitmaps.members index.map (tag, NormalisedKey.fromValue value)

@[simp] theorem lookup_new (tag : TagId) (value : Value) : new.lookup tag value = ∅ := by
  simp [new, lookup]

theorem mem_lookup_insert (index : RangeIndex) (tag other : TagId) (value w : Value)
    (oidLocal entry : Nat) :
    entry ∈ (index.insert tag value oidLocal).lookup other w ↔
      (other = tag ∧ NormalisedKey.fromValue w = NormalisedKey.fromValue value ∧
        entry = oidLocal) ∨ entry ∈ index.lookup other w := by
  simp only [insert, lookup, Bitmaps.mem_insert, Prod.mk.injEq, and_assoc]

theorem mem_lookup_remove (index : RangeIndex) (tag other : TagId) (value w : Value)
    (oidLocal entry : Nat) :
    entry ∈ (index.remove tag value oidLocal).lookup other w ↔
      ¬ (other = tag ∧ NormalisedKey.fromValue w = NormalisedKey.fromValue value ∧
        entry = oidLocal) ∧ entry ∈ index.lookup other w := by
  simp only [remove, lookup, Bitmaps.mem_remove, Prod.mk.injEq, and_assoc]

end RangeIndex

end Mimisbrunnr.Index
