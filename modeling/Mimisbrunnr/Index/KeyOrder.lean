import Mimisbrunnr.Index.Attribute
import Mimisbrunnr.Lib.LexOrder
import Mimisbrunnr.Lib.MachineOrder

/-!
# The order of normalised keys

Keys are compared byte by byte. Their first byte is the variant of the value, and
numbers compare as they do themselves. Of a text or a blob the key keeps thirteen
bytes, whether there are more, and the length up to 255: long strings that share
these bytes are ordered by length.
-/

namespace Mimisbrunnr.Index

set_option autoImplicit false

open Mimisbrunnr.Lib.LexOrder
open Mimisbrunnr.Lib.MachineOrder
open Mimisbrunnr.Types

def typeTag : Value → UInt8
  | .text _ => 0
  | .int _ => 1
  | .float _ => 2
  | .timestamp _ => 3
  | .blob _ => 4
  | .scoped _ _ => 5

def KeyLe (left right : Value) : Prop := NormalisedKey.bytesOf left ≤ NormalisedKey.bytesOf right

def KeyLt (left right : Value) : Prop := NormalisedKey.bytesOf left < NormalisedKey.bytesOf right

theorem key_starts_with_tag (value : Value) :
    ∃ rest, NormalisedKey.bytesOf value = typeTag value :: rest := by
  cases value <;> exact ⟨_, rfl⟩

theorem key_lt_of_tags (left right : Value) (different : typeTag left ≠ typeTag right) :
    KeyLt left right ↔ typeTag left < typeTag right := by
  obtain ⟨rest, key⟩ := key_starts_with_tag left
  obtain ⟨rest', key'⟩ := key_starts_with_tag right
  rw [KeyLt, key, key', List.cons_lt_cons_iff]
  constructor
  · intro less
    cases less with
    | inl first => exact first
    | inr both => exact absurd both.1 different
  · intro less
    exact Or.inl less

theorem digit_lt_iff (unit high high' low low' : Nat) (small : low < unit) (small' : low' < unit) :
    low + unit * high < low' + unit * high' ↔ high < high' ∨ high = high' ∧ low < low' := by
  constructor
  · intro less
    rcases Nat.lt_trichotomy high high' with below | same | above
    · exact Or.inl below
    · subst same
      exact Or.inr ⟨rfl, Nat.lt_of_add_lt_add_right less⟩
    · have step : unit * (high' + 1) ≤ unit * high := Nat.mul_le_mul_left _ above
      rw [Nat.mul_succ] at step
      omega
  · intro either
    cases either with
    | inl below =>
        have step : unit * (high + 1) ≤ unit * high' := Nat.mul_le_mul_left _ below
        rw [Nat.mul_succ] at step
        omega
    | inr both =>
        rw [both.1]
        exact Nat.add_lt_add_right both.2 _

theorem big_endian_lt_iff (width left right : Nat) :
    bigEndian width left < bigEndian width right ↔ left % 256 ^ width < right % 256 ^ width := by
  induction width with
  | zero =>
      rw [Nat.pow_zero, Nat.mod_one, Nat.mod_one]
      exact ⟨fun less => absurd less (List.lt_irrefl _), fun less => absurd less (Nat.lt_irrefl _)⟩
  | succ width ih =>
      have positive : 0 < 256 ^ width := Nat.pow_pos (by decide)
      have digit (number : Nat) : (UInt8.ofNat (number / 256 ^ width)).toNat =
          number / 256 ^ width % 256 := UInt8.toNat_ofNat'
      rw [bigEndian, bigEndian, List.cons_lt_cons_iff, ih, UInt8.lt_iff_toNat_lt,
        ← UInt8.toNat_inj, digit, digit, Nat.mod_pow_succ, Nat.mod_pow_succ,
        digit_lt_iff _ _ _ _ _ (Nat.mod_lt _ positive) (Nat.mod_lt _ positive)]

theorem shift_signed_small (number : Int64) : shiftSigned number < 2 ^ 64 := by
  have high := number.toInt_lt
  unfold shiftSigned
  omega

private theorem shift_signed_lt_iff (left right : Int64) :
    shiftSigned left < shiftSigned right ↔ left < right := by
  have low := left.le_toInt
  have low' := right.le_toInt
  rw [Int64.lt_iff_toInt_lt, shiftSigned, shiftSigned]
  omega

theorem number_key_lt_iff (left right : Int64) :
    padTo 15 (bigEndian 8 (shiftSigned left)) < padTo 15 (bigEndian 8 (shiftSigned right)) ↔
      left < right := by
  have size : (256 : Nat) ^ 8 = 2 ^ 64 := by decide
  have same : (bigEndian 8 (shiftSigned left)).length = (bigEndian 8 (shiftSigned right)).length := by
    rw [NormalisedKey.length_big_endian, NormalisedKey.length_big_endian]
  rw [padTo, padTo, List.take_of_length_le (by rw [NormalisedKey.length_big_endian]; decide),
    List.take_of_length_le (by rw [NormalisedKey.length_big_endian]; decide),
    NormalisedKey.length_big_endian, NormalisedKey.length_big_endian,
    append_lt_append_iff _ _ _ _ same, big_endian_lt_iff, size,
    Nat.mod_eq_of_lt (shift_signed_small left), Nat.mod_eq_of_lt (shift_signed_small right),
    shift_signed_lt_iff]
  simp

/-- Long strings with the same first thirteen bytes of which the smaller one is longer. -/
def LongerFirst (left right : List UInt8) : Prop :=
  13 < left.length ∧ 13 < right.length ∧ left.take 13 = right.take 13 ∧
    min right.length 255 < min left.length 255

instance (left right : List UInt8) : Decidable (LongerFirst left right) :=
  inferInstanceAs (Decidable (_ ∧ _))

theorem pad_to_eq_fill (width : Nat) (bytes : List UInt8) : padTo width bytes = fill 0 width bytes :=
  (fill_eq 0 width bytes).symm

theorem take_eq_of_fill_eq (left right : List UInt8) (long : 13 < left.length)
    (long' : 13 < right.length) :
    fill 0 13 left = fill 0 13 right ↔ left.take 13 = right.take 13 := by
  rw [fill_eq, fill_eq, Nat.sub_eq_zero_of_le (Nat.le_of_lt long),
    Nat.sub_eq_zero_of_le (Nat.le_of_lt long'), List.replicate_zero, List.append_nil,
    List.append_nil]

private theorem length_byte_le_iff (left right : Nat) :
    UInt8.ofNat (min left 255) ≤ UInt8.ofNat (min right 255) ↔ min left 255 ≤ min right 255 := by
  rw [UInt8.le_iff_toNat_le, UInt8.toNat_ofNat', UInt8.toNat_ofNat',
    Nat.mod_eq_of_lt (by omega), Nat.mod_eq_of_lt (by omega)]

theorem flags_le_iff (left right : Nat) (ends : right ≤ 13 → left ≤ right) :
    [if 13 < left then (1 : UInt8) else 0, UInt8.ofNat (min left 255)] ≤
        [if 13 < right then 1 else 0, UInt8.ofNat (min right 255)] ↔
      ¬ (13 < left ∧ 13 < right ∧ min right 255 < min left 255) := by
  have last (first second : UInt8) : [first] ≤ [second] ↔ first ≤ second := by
    rw [cons_le_cons_iff]
    constructor
    · intro either
      cases either with
      | inl less => exact le_of_lt less
      | inr both => exact le_of_eq both.1
    · intro le
      cases lt_or_eq_of_le le with
      | inl less => exact Or.inl less
      | inr same => exact Or.inr ⟨same, le_refl _⟩
  rw [cons_le_cons_iff, last, length_byte_le_iff]
  by_cases long : 13 < left
  · by_cases long' : 13 < right
    · rw [if_pos long, if_pos long']
      constructor
      · intro either longer
        cases either with
        | inl less => exact absurd less (lt_irrefl _)
        | inr both => exact absurd longer.2.2 (Nat.not_lt.mpr both.2)
      · intro shorter
        exact Or.inr ⟨rfl, Nat.not_lt.mp fun less => shorter ⟨long, long', less⟩⟩
    · have short := ends (Nat.not_lt.mp long')
      omega
  · rw [if_neg long]
    constructor
    · intro _ longer
      exact long longer.1
    · intro _
      by_cases long' : 13 < right
      · rw [if_pos long']
        exact Or.inl (by decide)
      · rw [if_neg long']
        have short := ends (Nat.not_lt.mp long')
        exact Or.inr ⟨rfl, by omega⟩

theorem truncated_key_le_iff (tag : UInt8) (left right : List UInt8) (le : left ≤ right) :
    truncatedKey tag left ≤ truncatedKey tag right ↔ ¬ LongerFirst left right := by
  have filled := fill_le_fill 0 (fun byte : UInt8 => UInt8.zero_le) 13 left right le
  rw [truncatedKey, truncatedKey, List.cons_append, List.cons_append, cons_le_cons_iff,
    pad_to_eq_fill, pad_to_eq_fill,
    append_le_append_iff _ _ _ _ (by rw [length_fill, length_fill])]
  cases lt_or_eq_of_le filled with
  | inl less =>
      constructor
      · intro _ longer
        have same := (take_eq_of_fill_eq left right longer.1 longer.2.1).mpr longer.2.2.1
        rw [same] at less
        exact absurd less (lt_irrefl _)
      · intro _
        exact Or.inr ⟨rfl, Or.inl less⟩
  | inr same =>
      rw [flags_le_iff left.length right.length (length_le_of_fill_eq 0 13 left right le same)]
      constructor
      · intro either longer
        cases either with
        | inl less => exact absurd less (lt_irrefl _)
        | inr both =>
            cases both.2 with
            | inl less =>
                rw [same] at less
                exact absurd less (lt_irrefl _)
            | inr flags => exact flags.2 ⟨longer.1, longer.2.1, longer.2.2.2⟩
      · intro shorter
        refine Or.inr ⟨rfl, Or.inr ⟨same, ?_⟩⟩
        intro longer
        exact shorter ⟨longer.1, longer.2.1,
          (take_eq_of_fill_eq left right longer.1 longer.2.1).mp same, longer.2.2⟩

/-- The bytes of a text or a blob. -/
def stringOf : Value → Option (List UInt8)
  | .text string => some string.toUTF8.toList
  | .blob bytes => some bytes
  | _ => none

/-- Two texts or two blobs in order of which the first is the longer one. -/
def Misordered (left right : Value) : Prop :=
  typeTag left = typeTag right ∧ left.le right = true ∧
    ∃ bytes bytes', stringOf left = some bytes ∧ stringOf right = some bytes' ∧
      LongerFirst bytes bytes'

/-- The variants whose values are promised to keep their order. -/
def Ordered : Value → Bool
  | .text _ => true
  | .int _ => true
  | .timestamp _ => true
  | .blob _ => true
  | _ => false

theorem compare_lt_iff {α : Type} [LT α] [DecidableEq α] (left right : α)
    [Decidable (left < right)] :
    some (compareOfLessAndEq left right) = some Ordering.lt ↔ left < right := by
  unfold compareOfLessAndEq
  split
  · next less => exact ⟨fun _ => less, fun _ => rfl⟩
  · next other =>
      split
      · exact ⟨fun found => (by cases found), fun less => absurd less other⟩
      · exact ⟨fun found => (by cases found), fun less => absurd less other⟩

theorem compare_eq_iff {α : Type} [LT α] [DecidableEq α] (left right : α)
    [Decidable (left < right)] :
    some (compareOfLessAndEq left right) = some Ordering.eq ↔ ¬ left < right ∧ left = right := by
  unfold compareOfLessAndEq
  split
  · next less => exact ⟨fun found => (by cases found), fun both => absurd less both.1⟩
  · next other =>
      split
      · next same => exact ⟨fun _ => ⟨other, same⟩, fun _ => rfl⟩
      · next different => exact ⟨fun found => (by cases found), fun both => absurd both.2 different⟩

theorem bytes_le_iff (left right : List UInt8) :
    (decide (some (compareOfLessAndEq left right) = some Ordering.lt) ||
      decide (some (compareOfLessAndEq left right) = some Ordering.eq)) = true ↔ left ≤ right := by
  rw [Bool.or_eq_true, decide_eq_true_iff, decide_eq_true_iff, compare_lt_iff, compare_eq_iff]
  constructor
  · intro either
    cases either with
    | inl less => exact le_of_lt less
    | inr both => exact le_of_eq both.2
  · intro le
    cases lt_or_eq_of_le le with
    | inl less => exact Or.inl less
    | inr same => exact Or.inr ⟨not_lt.mpr (le_of_eq same.symm), same⟩

theorem numbers_le_iff (left right : Int64) :
    (decide (some (compareOfLessAndEq left right) = some Ordering.lt) ||
      decide (some (compareOfLessAndEq left right) = some Ordering.eq)) = true ↔
      ¬ right < left := by
  rw [Bool.or_eq_true, decide_eq_true_iff, decide_eq_true_iff, compare_lt_iff, compare_eq_iff,
    Int64.lt_iff_toInt_lt, Int64.lt_iff_toInt_lt, ← Int64.toInt_inj]
  omega

theorem number_key_le_iff (tag : UInt8) (left right : Int64) :
    tag :: padTo 15 (bigEndian 8 (shiftSigned left)) ≤
        tag :: padTo 15 (bigEndian 8 (shiftSigned right)) ↔ ¬ right < left := by
  rw [← not_lt, List.cons_lt_cons_iff, number_key_lt_iff]
  simp

/-- Keys keep the order of texts, numbers, timestamps and blobs, except for long strings of which
the smaller one is longer; keys of different variants are ordered by their first bytes. -/
theorem key_order_iff (left right : Value) :
    ((typeTag left = typeTag right → Ordered left = true → left.le right = true →
          KeyLe left right) ∧
        (typeTag left ≠ typeTag right → (KeyLt left right ↔ typeTag left < typeTag right))) ↔
      ¬ Misordered left right := by
  constructor
  · intro kept misordered
    obtain ⟨tags, le, bytes, bytes', found, found', longer⟩ := misordered
    cases left with
    | text string =>
        cases right with
        | text string' =>
            cases found
            cases found'
            exact (truncated_key_le_iff 0 _ _ ((bytes_le_iff _ _).mp le)).mp
              (kept.1 tags rfl le) longer
        | _ => cases tags
    | blob content =>
        cases right with
        | blob content' =>
            cases found
            cases found'
            exact (truncated_key_le_iff 4 _ _ ((bytes_le_iff _ _).mp le)).mp
              (kept.1 tags rfl le) longer
        | _ => cases tags
    | _ => cases found
  · intro ordered
    refine ⟨?_, key_lt_of_tags left right⟩
    intro tags promised le
    cases left with
    | text string =>
        cases right with
        | text string' =>
            apply (truncated_key_le_iff 0 _ _ ((bytes_le_iff _ _).mp le)).mpr
            intro longer
            exact ordered ⟨tags, le, _, _, rfl, rfl, longer⟩
        | _ => cases tags
    | int number =>
        cases right with
        | int number' => exact (number_key_le_iff 1 _ _).mpr ((numbers_le_iff _ _).mp le)
        | _ => cases tags
    | timestamp ns =>
        cases right with
        | timestamp ns' => exact (number_key_le_iff 3 _ _).mpr ((numbers_le_iff _ _).mp le)
        | _ => cases tags
    | blob content =>
        cases right with
        | blob content' =>
            apply (truncated_key_le_iff 4 _ _ ((bytes_le_iff _ _).mp le)).mpr
            intro longer
            exact ordered ⟨tags, le, _, _, rfl, rfl, longer⟩
        | _ => cases tags
    | float bits => cases promised
    | «scoped» context inner => cases promised

/-- Two blobs with thirteen bytes in common. -/
theorem long_blobs_out_of_order :
    let left := Value.blob (List.replicate 13 7 ++ [1, 1])
    let right := Value.blob (List.replicate 13 7 ++ [2])
    left.le right = true ∧ ¬ KeyLe left right := by
  constructor
  · decide
  · unfold KeyLe
    decide

end Mimisbrunnr.Index
