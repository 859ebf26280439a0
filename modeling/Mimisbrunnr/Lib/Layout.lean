import Mathlib.Data.Vector.Basic
import Mathlib.Tactic.Ring

/-!
# Fixed-size byte layouts

A `Pod` is a type whose values have a byte image of one size, from which they
are read back. Layouts of structures are built from little-endian integers and
byte arrays by concatenation, in the order of the fields.
-/

namespace Mimisbrunnr.Lib.Layout

set_option autoImplicit false

def leBytes : Nat → Nat → List UInt8
  | 0, _ => []
  | width + 1, value => UInt8.ofNat (value % 256) :: leBytes width (value / 256)

def leValue : List UInt8 → Nat
  | [] => 0
  | byte :: rest => byte.toNat + 256 * leValue rest

@[simp] theorem length_le_bytes (width : Nat) : ∀ value, (leBytes width value).length = width := by
  induction width with
  | zero =>
      intro value
      rfl
  | succ width ih =>
      intro value
      simp [leBytes, ih]

theorem le_value_bytes (width : Nat) :
    ∀ value, leValue (leBytes width value) = value % 256 ^ width := by
  induction width with
  | zero =>
      intro value
      simp [leBytes, leValue, Nat.mod_one]
  | succ width ih =>
      intro value
      have low : (UInt8.ofNat (value % 256)).toNat = value % 256 := by
        simp
      have split : value % 256 ^ (width + 1) = value % 256 + 256 * (value / 256 % 256 ^ width) := by
        rw [pow_succ', Nat.mod_mul]
      rw [leBytes, leValue, low, ih, split]

theorem le_value_of_lt {width value : Nat} (fits : value < 256 ^ width) :
    leValue (leBytes width value) = value := by
  rw [le_value_bytes, Nat.mod_eq_of_lt fits]

structure Pod (α : Type) where
  size : Nat
  toBytes : α → List UInt8
  ofBytes : List UInt8 → α
  length_to_bytes : ∀ value, (toBytes value).length = size
  of_to_bytes : ∀ value, ofBytes (toBytes value) = value

namespace Pod

def u8 : Pod UInt8 where
  size := 1
  toBytes value := leBytes 1 value.toNat
  ofBytes bytes := UInt8.ofNat (leValue bytes)
  length_to_bytes _ := length_le_bytes 1 _
  of_to_bytes value := by
    rw [le_value_of_lt value.toNat_lt, UInt8.ofNat_toNat]

def u16 : Pod UInt16 where
  size := 2
  toBytes value := leBytes 2 value.toNat
  ofBytes bytes := UInt16.ofNat (leValue bytes)
  length_to_bytes _ := length_le_bytes 2 _
  of_to_bytes value := by
    rw [le_value_of_lt value.toNat_lt, UInt16.ofNat_toNat]

def u32 : Pod UInt32 where
  size := 4
  toBytes value := leBytes 4 value.toNat
  ofBytes bytes := UInt32.ofNat (leValue bytes)
  length_to_bytes _ := length_le_bytes 4 _
  of_to_bytes value := by
    rw [le_value_of_lt value.toNat_lt, UInt32.ofNat_toNat]

def u64 : Pod UInt64 where
  size := 8
  toBytes value := leBytes 8 value.toNat
  ofBytes bytes := UInt64.ofNat (leValue bytes)
  length_to_bytes _ := length_le_bytes 8 _
  of_to_bytes value := by
    rw [le_value_of_lt value.toNat_lt, UInt64.ofNat_toNat]

/-- A byte array of one length; reading fills up with zeros. -/
def array (n : Nat) : Pod (List.Vector UInt8 n) where
  size := n
  toBytes value := value.toList
  ofBytes bytes := ⟨(bytes ++ List.replicate n 0).take n, by simp⟩
  length_to_bytes value := value.toList_length
  of_to_bytes value := by
    apply Subtype.ext
    simp only [List.take_append, value.toList_length, Nat.sub_self, List.take_zero,
      List.append_nil]
    exact List.take_of_length_le (le_of_eq value.toList_length)

/-- Bytes that are written as zeros and ignored when read. -/
def padding (n : Nat) : Pod Unit where
  size := n
  toBytes _ := List.replicate n 0
  ofBytes _ := ()
  length_to_bytes _ := List.length_replicate
  of_to_bytes _ := rfl

section

variable {α β : Type}

def prod (first : Pod α) (second : Pod β) : Pod (α × β) where
  size := first.size + second.size
  toBytes value := first.toBytes value.1 ++ second.toBytes value.2
  ofBytes bytes := (first.ofBytes (bytes.take first.size), second.ofBytes (bytes.drop first.size))
  length_to_bytes value := by
    rw [List.length_append, first.length_to_bytes, second.length_to_bytes]
  of_to_bytes value := by
    rw [List.take_left' (first.length_to_bytes value.1),
      List.drop_left' (first.length_to_bytes value.1), first.of_to_bytes, second.of_to_bytes]

/-- The layout of a structure is that of the tuple of its fields. -/
def map (layout : Pod α) (build : α → β) (fields : β → α)
    (inverse : ∀ value, build (fields value) = value) : Pod β where
  size := layout.size
  toBytes value := layout.toBytes (fields value)
  ofBytes bytes := build (layout.ofBytes bytes)
  length_to_bytes value := layout.length_to_bytes (fields value)
  of_to_bytes value := by
    rw [layout.of_to_bytes, inverse]

def i64 : Pod Int64 :=
  u64.map UInt64.toInt64 Int64.toUInt64 (fun value => by simp)

theorem take_prod (first : Pod α) (second : Pod β) (value : α × β) :
    ((first.prod second).toBytes value).take first.size = first.toBytes value.1 :=
  List.take_left' (first.length_to_bytes value.1)

theorem of_bytes_take (layout : Pod α) (value : α) (rest : List UInt8) :
    layout.ofBytes ((layout.toBytes value ++ rest).take layout.size) = value := by
  rw [List.take_left' (layout.length_to_bytes value), layout.of_to_bytes]

def packAll (layout : Pod α) (values : List α) : List UInt8 := values.flatMap layout.toBytes

/-- A number of values from the start of the bytes. -/
def unpackAll (layout : Pod α) : Nat → List UInt8 → List α
  | 0, _ => []
  | count + 1, bytes =>
      layout.ofBytes (bytes.take layout.size) :: unpackAll layout count (bytes.drop layout.size)

@[simp] theorem length_pack_all (layout : Pod α) (values : List α) :
    (layout.packAll values).length = values.length * layout.size := by
  induction values with
  | nil => simp [packAll]
  | cons value values ih =>
      have first := layout.length_to_bytes value
      rw [packAll] at ih ⊢
      rw [List.flatMap_cons, List.length_append, first, ih, List.length_cons]
      ring

theorem unpack_pack_all (layout : Pod α) (values : List α) (rest : List UInt8) :
    layout.unpackAll values.length (layout.packAll values ++ rest) = values := by
  induction values with
  | nil => rfl
  | cons value values ih =>
      have first := layout.length_to_bytes value
      rw [packAll, List.flatMap_cons, List.append_assoc, List.length_cons, unpackAll,
        List.take_left' first, List.drop_left' first, layout.of_to_bytes]
      exact congrArg (value :: ·) ih

@[simp] theorem length_unpack_all (layout : Pod α) (count : Nat) :
    ∀ bytes, (layout.unpackAll count bytes).length = count := by
  induction count with
  | zero =>
      intro bytes
      rfl
  | succ count ih =>
      intro bytes
      rw [unpackAll, List.length_cons, ih]

/-- An array of values of one length. -/
def row (layout : Pod α) (n : Nat) : Pod (List.Vector α n) where
  size := n * layout.size
  toBytes values := layout.packAll values.toList
  ofBytes bytes := ⟨layout.unpackAll n bytes, layout.length_unpack_all n bytes⟩
  length_to_bytes values := by
    rw [length_pack_all, values.toList_length]
  of_to_bytes values := by
    have back := layout.unpack_pack_all values.toList []
    rw [values.toList_length, List.append_nil] at back
    exact Subtype.ext back

end

end Pod

end Mimisbrunnr.Lib.Layout
