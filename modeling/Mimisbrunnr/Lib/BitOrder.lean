import Mimisbrunnr.Lib.BitStream

/-!
# The order of bit strings

Lists are compared element by element. Numbers of one width compare as their
bits do, and bit strings of one length as their bytes do: filling up with zeros
does not change the order.
-/

namespace Mimisbrunnr.Lib.BitStream

set_option autoImplicit false

theorem compare_append {α : Type} [Ord α] (left right : List α) :
    ∀ (left' right' : List α), left.length = left'.length →
      compare (left ++ right) (left' ++ right') =
        (compare left left').then (compare right right') := by
  induction left with
  | nil =>
      intro left' right' same
      rw [List.length_nil] at same
      rw [List.eq_nil_of_length_eq_zero same.symm, List.nil_append, List.nil_append,
        List.compare_nil_nil, Ordering.eq_then]
  | cons head left ih =>
      intro left' right' same
      cases left' with
      | nil => cases same
      | cons head' left' =>
          rw [List.length_cons, List.length_cons] at same
          rw [List.cons_append, List.cons_append, List.compare_cons_cons, List.compare_cons_cons,
            ih left' right' (by omega), Ordering.then_assoc]

theorem compare_self {α : Type} [Ord α] (refl : ∀ a : α, compare a a = .eq) (list : List α) :
    compare list list = .eq := by
  induction list with
  | nil => exact List.compare_nil_nil
  | cons head rest ih => rw [List.compare_cons_cons, refl, ih, Ordering.eq_then]

theorem compare_bool_self (bit : Bool) : compare bit bit = .eq := by
  cases bit <;> rfl

theorem compare_digit (unit high high' low low' : Nat) (small : low < unit) (small' : low' < unit) :
    compare (unit * high + low) (unit * high' + low') =
      (compare high high').then (compare low low') := by
  rcases Nat.lt_trichotomy high high' with less | same | greater
  · have whole : unit * high + low < unit * high' + low' := by
      have step : unit * (high + 1) ≤ unit * high' := Nat.mul_le_mul_left _ less
      rw [Nat.mul_succ] at step
      omega
    rw [Nat.compare_eq_lt.mpr less, Nat.compare_eq_lt.mpr whole]
    rfl
  · subst same
    rw [Nat.compare_eq_eq.mpr rfl, Ordering.eq_then]
    rcases Nat.lt_trichotomy low low' with less | same | greater
    · rw [Nat.compare_eq_lt.mpr less, Nat.compare_eq_lt.mpr (by omega)]
    · rw [same, Nat.compare_eq_eq.mpr rfl, Nat.compare_eq_eq.mpr rfl]
    · rw [Nat.compare_eq_gt.mpr greater, Nat.compare_eq_gt.mpr (by omega)]
  · have whole : unit * high' + low' < unit * high + low := by
      have step : unit * (high' + 1) ≤ unit * high := Nat.mul_le_mul_left _ greater
      rw [Nat.mul_succ] at step
      omega
    rw [Nat.compare_eq_gt.mpr greater, Nat.compare_eq_gt.mpr whole]
    rfl

theorem compare_bits_of (value value' width : Nat) :
    compare (bitsOf value width) (bitsOf value' width) =
      compare (value % 2 ^ width) (value' % 2 ^ width) := by
  induction width with
  | zero =>
      rw [Nat.pow_zero, Nat.mod_one, Nat.mod_one]
      rfl
  | succ width ih =>
      have top (number : Nat) : number % 2 ^ (width + 1) =
          2 ^ width * (number.testBit width).toNat + number % 2 ^ width := by
        rw [Nat.mod_pow_succ, Nat.toNat_testBit, Nat.add_comm]
      have bits (left right : Bool) : compare left right = compare left.toNat right.toNat := by
        cases left <;> cases right <;> rfl
      have below (number : Nat) : number % 2 ^ width < 2 ^ width :=
        Nat.mod_lt _ (Nat.two_pow_pos _)
      rw [bitsOf, bitsOf, List.compare_cons_cons, ih, top, top,
        compare_digit _ _ _ _ _ (below value) (below value'), bits]

theorem compare_of_bits (bits bits' : List Bool) (same : bits.length = bits'.length) :
    compare (ofBits bits) (ofBits bits') = compare bits bits' := by
  have order := compare_bits_of (ofBits bits) (ofBits bits') bits.length
  have small := of_bits_lt bits
  have small' := of_bits_lt bits'
  rw [← same] at small'
  rw [Nat.mod_eq_of_lt small, Nat.mod_eq_of_lt small', bits_of_of_bits, same,
    bits_of_of_bits] at order
  exact order.symm

theorem compare_byte (left right : Nat) (small : left < 256) (small' : right < 256) :
    compare (UInt8.ofNat left) (UInt8.ofNat right) = compare left right := by
  have value : (UInt8.ofNat left).toNat = left := by
    rw [UInt8.toNat_ofNat']
    exact Nat.mod_eq_of_lt small
  have value' : (UInt8.ofNat right).toNat = right := by
    rw [UInt8.toNat_ofNat']
    exact Nat.mod_eq_of_lt small'
  have order : compare (UInt8.ofNat left) (UInt8.ofNat right) =
      compareOfLessAndEq (UInt8.ofNat left) (UInt8.ofNat right) := rfl
  have number : compare left right = compareOfLessAndEq left right := rfl
  rw [order, number, compareOfLessAndEq, compareOfLessAndEq]
  simp only [UInt8.lt_iff_toNat_lt, ← UInt8.toNat_inj, value, value']

theorem compare_groups (count : Nat) :
    ∀ bits bits' : List Bool, bits.length = bits'.length → bits.length ≤ 8 * count →
      compare (groups count bits) (groups count bits') = compare bits bits' := by
  induction count with
  | zero =>
      intro bits bits' same short
      have none : bits = [] := List.eq_nil_of_length_eq_zero (by omega)
      have none' : bits' = [] := List.eq_nil_of_length_eq_zero (by omega)
      rw [none, none']
      rfl
  | succ count ih =>
      intro bits bits' same short
      -- the first byte of a bit string
      let lead (string : List Bool) := (string ++ List.replicate 8 false).take 8
      have eight (string : List Bool) : (lead string).length = 8 := by
        simp only [lead, List.length_take, List.length_append, List.length_replicate]
        omega
      have small (string : List Bool) : ofBits (lead string) < 256 := by
        have bound := of_bits_lt (lead string)
        rw [eight] at bound
        exact bound
      have parts (string : List Bool) :
          lead string = string.take 8 ++ List.replicate (8 - string.length) false := by
        simp only [lead, List.take_append, List.take_replicate]
        congr 2
        omega
      have leads : compare (lead bits) (lead bits') = compare (bits.take 8) (bits'.take 8) := by
        rw [parts, parts, compare_append _ _ _ _ (by simp [same]), same,
          compare_self compare_bool_self, Ordering.then_eq]
      have first : compare (UInt8.ofNat (ofBits (lead bits))) (UInt8.ofNat (ofBits (lead bits'))) =
          compare (bits.take 8) (bits'.take 8) := by
        rw [compare_byte _ _ (small bits) (small bits'),
          compare_of_bits _ _ ((eight bits).trans (eight bits').symm), leads]
      have rest := ih (bits.drop 8) (bits'.drop 8) (by simp [same])
        (by rw [List.length_drop]; omega)
      rw [groups, groups, List.compare_cons_cons, rest]
      rw [show compare (UInt8.ofNat (ofBits ((bits ++ List.replicate 8 false).take 8)))
        (UInt8.ofNat (ofBits ((bits' ++ List.replicate 8 false).take 8))) = _ from first]
      rw [← compare_append _ _ _ _ (by simp [same]), List.take_append_drop, List.take_append_drop]

theorem compare_to_bytes (bits bits' : List Bool) (same : bits.length = bits'.length) :
    compare (toBytes bits) (toBytes bits') = compare bits bits' := by
  rw [toBytes, toBytes, ← same]
  exact compare_groups _ bits bits' same (by omega)

end Mimisbrunnr.Lib.BitStream
