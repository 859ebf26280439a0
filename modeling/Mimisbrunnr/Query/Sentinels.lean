import Mimisbrunnr.Query.SetSemantics
import Mimisbrunnr.Query.RangeScan

/-!
# Values beyond the sentinels

A comparison scans from the least value of a variant or up to the greatest one.
A value beyond these makes the bounds of its scan reversed, and the ordered map
refuses them by a panic. An evaluation reads its comparisons in the order of the
query and ends at the first that fails.
-/

namespace Mimisbrunnr.Query

set_option autoImplicit false

open Mimisbrunnr.Index
open Mimisbrunnr.Lib
open Mimisbrunnr.Lib.LexOrder
open Mimisbrunnr.Types

/-- The bounds of the scan that a comparison makes. -/
def scanBounds (op : CmpOp) (value : Value) : Option (Value × Value) :=
  match op with
  | .lt => some (typeMin value, value)
  | .le => some (typeMin value, value)
  | .gt => some (value, typeMax value)
  | .ge => some (value, typeMax value)
  | _ => none

def ownComparisons : Types.Query → List (CmpOp × Value)
  | .hasAttr _ op value => [(op, value)]
  | _ => []

/-- The comparisons in front of the first `Contains`, which fails. -/
def reached (query : Types.Query) : List (CmpOp × Value) :=
  (query.collect ownComparisons).takeWhile fun comparison => comparison.1 ≠ .contains

/-- How one comparison fails, if it does. -/
def failure (comparison : CmpOp × Value) : Option Failure :=
  if comparison.1 = .contains then some (.query (.unsupportedCmpOp "Contains"))
  else
    match scanBounds comparison.1 comparison.2 with
    | some (low, high) =>
        if NormalisedKey.bytesOf high < NormalisedKey.bytesOf low then some .panicked else none
    | none => none

def failureOf {α : Type} : Except Failure α → Option Failure
  | .error err => some err
  | .ok _ => none

theorem failure_of_map {α β : Type} (f : α → β) (outcome : Except Failure α) :
    failureOf (outcome.map f) = failureOf outcome := by
  cases outcome with
  | error err => rfl
  | ok result => rfl

private theorem failure_of_scan (index : RangeIndex) (key : TagId) (low high : Value) :
    failureOf (rangeScan index key low high) =
      if NormalisedKey.bytesOf high < NormalisedKey.bytesOf low then some .panicked else none := by
  by_cases reversed : NormalisedKey.bytesOf high < NormalisedKey.bytesOf low
  · rw [range_scan_reversed index key low high reversed, if_pos reversed]
    rfl
  · obtain ⟨set, found⟩ := range_scan_ordered index key low high reversed
    rw [found, if_neg reversed]
    rfl

namespace QueryExecutor

variable (x : QueryExecutor)

private theorem failure_of_comparison (key : TagId) (op : CmpOp) (value : Value) :
    failureOf (x.evaluate (.hasAttr key op value)) = failure (op, value) := by
  rw [evaluate]
  cases op with
  | eq => rfl
  | ne => rfl
  | lt => exact failure_of_scan x.rangeIndex key (typeMin value) value
  | le => exact (failure_of_map _ _).trans (failure_of_scan x.rangeIndex key (typeMin value) value)
  | gt => exact (failure_of_map _ _).trans (failure_of_scan x.rangeIndex key value (typeMax value))
  | ge => exact (failure_of_map _ _).trans (failure_of_scan x.rangeIndex key value (typeMax value))
  | prefix_ => rfl
  | contains => rfl

/-- Children are evaluated in order up to the first that fails. -/
theorem failure_of_all (children : List Types.Query)
    (each : ∀ child ∈ children,
      failureOf (x.evaluate child) = (child.collect ownComparisons).findSome? failure) :
    failureOf (x.evaluateAll children) =
      (Types.Query.collectIn ownComparisons children).findSome? failure := by
  induction children with
  | nil => rfl
  | cons child rest ih =>
      have here := each child List.mem_cons_self
      have later := ih fun other member => each other (List.mem_cons_of_mem child member)
      rw [Types.Query.collectIn, List.findSome?_append, ← here, ← later, evaluateAll]
      cases x.evaluate child with
      | error err => rfl
      | ok bitmap =>
          cases x.evaluateAll rest with
          | error err => rfl
          | ok bitmaps => rfl

theorem failure_of_evaluate (query : Types.Query) :
    failureOf (x.evaluate query) = (query.collect ownComparisons).findSome? failure := by
  induction query using Types.Query.tree_induction with
  | hasTag tag => rfl
  | hasAttr key op value =>
      have own : (Types.Query.hasAttr key op value).collect ownComparisons = [(op, value)] := rfl
      rw [failure_of_comparison, own, List.findSome?_singleton]
  | related predicate target => rfl
  | and children ih =>
      have nothing : ownComparisons (.and children) = [] := rfl
      rw [Types.Query.collect, nothing, List.nil_append, ← x.failure_of_all children ih, evaluate]
      cases x.evaluateAll children with
      | error err => rfl
      | ok bitmaps => rfl
  | or children ih =>
      have nothing : ownComparisons (.or children) = [] := rfl
      rw [Types.Query.collect, nothing, List.nil_append, ← x.failure_of_all children ih, evaluate,
        evaluate_or_eq, failure_of_map]
  | not child ih =>
      have nothing : ownComparisons (.not child) = [] := rfl
      rw [Types.Query.collect, nothing, List.nil_append, ← ih, evaluate]
      cases x.evaluate child with
      | error err => rfl
      | ok inner => rfl
  | isA tag => rfl

end QueryExecutor

/-- The first comparison that fails is a reversed one just when one in front of every `Contains`
is reversed. -/
theorem first_failure_panics_iff (comparisons : List (CmpOp × Value)) :
    comparisons.findSome? failure = some .panicked ↔
      ∃ comparison ∈ comparisons.takeWhile (fun comparison => comparison.1 ≠ .contains),
        failure comparison = some .panicked := by
  induction comparisons with
  | nil => simp
  | cons comparison rest ih =>
      by_cases contains : comparison.1 = .contains
      · have fails : failure comparison = some (.query (.unsupportedCmpOp "Contains")) :=
          if_pos contains
        simp [contains, fails]
      · cases failed : failure comparison with
        | none => simp [contains, failed, ih]
        | some err =>
            have crash : err = .panicked := by
              unfold failure at failed
              rw [if_neg contains] at failed
              split at failed
              · split at failed
                · exact (Option.some.inj failed).symm
                · cases failed
              · cases failed
            simp [contains, failed, crash]

def payload (value : Value) : List UInt8 := (NormalisedKey.bytesOf value).drop 1

theorem key_lt_iff_payload (left right : Value) (same : typeTag left = typeTag right) :
    KeyLt left right ↔ (payload left).take 15 < (payload right).take 15 := by
  obtain ⟨rest, key⟩ := key_starts_with_tag left
  obtain ⟨rest', key'⟩ := key_starts_with_tag right
  have size : rest.length = 15 := by
    have whole := NormalisedKey.length_bytes_of left
    rw [key] at whole
    exact Nat.succ.inj whole
  have size' : rest'.length = 15 := by
    have whole := NormalisedKey.length_bytes_of right
    rw [key'] at whole
    exact Nat.succ.inj whole
  rw [KeyLt, payload, payload, key, key', List.cons_lt_cons_iff, List.drop_one, List.drop_one,
    List.tail_cons, List.tail_cons, List.take_of_length_le (Nat.le_of_eq size),
    List.take_of_length_le (Nat.le_of_eq size'), same]
  simp

theorem scoped_payload_lt_iff (width : Nat) (narrow : width ≤ 15) (context : TagId)
    (left right : Value) :
    (payload (.scoped context left)).take width < (payload (.scoped context right)).take width ↔
      (payload left).take (width - 4) < (payload right).take (width - 4) := by
  have parts (inner : Value) : (payload (.scoped context inner)).take width =
      (bigEndian 4 context).take width ++ (payload inner).take (width - 4) := by
    have key : payload (.scoped context inner) =
        bigEndian 4 context ++ (payload inner).take 11 := rfl
    rw [key, List.take_append, NormalisedKey.length_big_endian, List.take_take,
      Nat.min_eq_left (by omega)]
  rw [parts, parts, append_lt_append_iff _ _ _ _ rfl]
  simp

theorem take_big_endian (width more number : Nat) :
    (bigEndian (width + more) number).take width = bigEndian width (number / 256 ^ more) := by
  induction width with
  | zero => rfl
  | succ width ih =>
      rw [Nat.succ_add, bigEndian, bigEndian, List.take_succ_cons, ih, Nat.div_div_eq_div_mul,
        ← Nat.pow_add, Nat.add_comm more width]

theorem number_payload_lt_iff (width left right : Nat) (small : left < 2 ^ 64)
    (small' : right < 2 ^ 64) :
    (padTo 15 (bigEndian 8 left)).take width < (padTo 15 (bigEndian 8 right)).take width ↔
      left / 256 ^ (8 - width) < right / 256 ^ (8 - width) := by
  have parts (number : Nat) : (padTo 15 (bigEndian 8 number)).take width =
      (bigEndian 8 number).take width ++ (List.replicate 7 0).take (width - 8) := by
    have whole : (bigEndian 8 number).take 15 = bigEndian 8 number :=
      List.take_of_length_le (by rw [NormalisedKey.length_big_endian]; decide)
    rw [padTo, whole, List.take_append, NormalisedKey.length_big_endian]
  have digits : (bigEndian 8 left).take width < (bigEndian 8 right).take width ↔
      left / 256 ^ (8 - width) < right / 256 ^ (8 - width) := by
    have size : (256 : Nat) ^ 8 = 2 ^ 64 := by decide
    by_cases wide : 8 ≤ width
    · rw [List.take_of_length_le (by rw [NormalisedKey.length_big_endian]; exact wide),
        List.take_of_length_le (by rw [NormalisedKey.length_big_endian]; exact wide),
        big_endian_lt_iff, size, Nat.mod_eq_of_lt small, Nat.mod_eq_of_lt small',
        Nat.sub_eq_zero_of_le wide, Nat.pow_zero, Nat.div_one, Nat.div_one]
    · obtain ⟨more, split⟩ := Nat.exists_eq_add_of_le (Nat.le_of_not_le wide)
      have fits (number : Nat) (below : number < 2 ^ 64) : number / 256 ^ more < 256 ^ width := by
        apply Nat.div_lt_of_lt_mul
        rw [← Nat.pow_add, Nat.add_comm, ← split, size]
        exact below
      rw [split, Nat.add_sub_cancel_left, take_big_endian, take_big_endian, big_endian_lt_iff,
        Nat.mod_eq_of_lt (fits left small), Nat.mod_eq_of_lt (fits right small')]
  rw [parts, parts, append_lt_append_iff _ _ _ _ (by simp),
    digits]
  simp

/-- Long strings of which the first is not cut in its length are compared by thirteen bytes, then
by their lengths. -/
theorem string_payload_lt_iff (tag : UInt8) (width : Nat) (sized : width = 15 ∨ width ≤ 13)
    (top bytes : List UInt8) (long : 13 < top.length) (fits : top.length < 255) :
    ((truncatedKey tag top).drop 1).take width < ((truncatedKey tag bytes).drop 1).take width ↔
      top.take (min width 13) < bytes.take (min width 13) ∨
        width = 15 ∧ bytes.take 13 = top.take 13 ∧ top.length < bytes.length := by
  have bottom : ∀ byte : UInt8, 0 ≤ byte := fun byte => UInt8.zero_le
  have plain (more : Nat) (whole : more ≤ 13) : fill 0 more top = top.take more := by
    rw [fill_eq, Nat.sub_eq_zero_of_le (by omega), List.replicate_zero, List.append_nil]
  have parts (string : List UInt8) : (truncatedKey tag string).drop 1 = fill 0 13 string ++
      [if 13 < string.length then 1 else 0, UInt8.ofNat (min string.length 255)] := by
    rw [← pad_to_eq_fill]
    rfl
  rw [parts, parts]
  cases sized with
  | inl whole =>
      have front : fill 0 13 top < fill 0 13 bytes ↔ top.take 13 < bytes.take 13 := by
        rw [plain 13 (Nat.le_refl _), take_lt_fill_iff 0 bottom 13 top bytes (Nat.le_of_lt long)]
      have flags := (flags_le_iff bytes.length top.length (by omega)).not
      rw [not_le] at flags
      rw [whole, List.take_of_length_le (by simp), List.take_of_length_le (by simp),
        append_lt_append_iff _ _ _ _ (by simp), front, flags]
      apply or_congr_right
      constructor
      · intro both
        obtain ⟨same, flagged⟩ := both
        have longer : top.length < bytes.length := by omega
        exact ⟨rfl, ((take_eq_of_fill_eq top bytes long (by omega)).mp same).symm, longer⟩
      · intro both
        obtain ⟨-, same, longer⟩ := both
        refine ⟨(take_eq_of_fill_eq top bytes long (by omega)).mpr same.symm, ?_⟩
        omega
  | inr short =>
      obtain ⟨more, split⟩ := Nat.exists_eq_add_of_le short
      have first (string : List UInt8) (rest : List UInt8) :
          (fill 0 13 string ++ rest).take width = fill 0 width string := by
        rw [List.take_append_of_le_length (by rw [length_fill]; exact short), split, take_fill]
      rw [first, first, plain width short, Nat.min_eq_left short,
        take_lt_fill_iff 0 bottom width top bytes (by omega)]
      constructor
      · exact Or.inl
      · intro either
        cases either with
        | inl less => exact less
        | inr whole => omega

theorem not_greatest_bytes_lt (width : Nat) :
    ∀ bytes : List UInt8, ¬ List.replicate width 0xFF < bytes.take width := by
  induction width with
  | zero =>
      intro bytes
      exact List.not_lt_nil _
  | succ width ih =>
      intro bytes
      cases bytes with
      | nil => exact List.not_lt_nil _
      | cons head rest =>
          rw [List.replicate_succ, List.take_succ_cons, List.cons_lt_cons_iff]
          intro either
          cases either with
          | inl less => exact absurd less (UInt8.not_lt.mpr (UInt8.le_iff_toNat_le.mpr
              (Nat.le_of_lt_succ head.toNat_lt)))
          | inr both => exact ih rest both.2

theorem flip_positive (bits : UInt64) (positive : bits.toNat < 2 ^ 63) :
    (flipFloat bits).toNat = bits.toNat + 2 ^ 63 := by
  have top : (0x8000000000000000 : UInt64).toNat = 2 ^ 63 := by decide
  have below : bits < 0x8000000000000000 := by
    rw [UInt64.lt_iff_toNat_lt, top]
    exact positive
  have high : (bits.toNat ^^^ 2 ^ 63) / 2 ^ 63 = 1 := by
    rw [Nat.xor_div_two_pow, Nat.div_eq_of_lt positive, Nat.div_self (by decide)]
    rfl
  have low : (bits.toNat ^^^ 2 ^ 63) % 2 ^ 63 = bits.toNat := by
    rw [Nat.xor_mod_two_pow, Nat.mod_eq_of_lt positive, Nat.mod_self, Nat.xor_zero]
  rw [flipFloat, if_pos below, UInt64.toNat_xor, top]
  omega

theorem flip_negative (bits : UInt64) (negative : 2 ^ 63 ≤ bits.toNat) :
    (flipFloat bits).toNat = 2 ^ 64 - (bits.toNat + 1) := by
  have top : (0x8000000000000000 : UInt64).toNat = 2 ^ 63 := by decide
  have above : ¬ bits < 0x8000000000000000 := by
    rw [UInt64.lt_iff_toNat_lt, top]
    exact Nat.not_lt.mpr negative
  have size : UInt64.size = 2 ^ 64 := by decide
  rw [flipFloat, if_neg above, UInt64.toNat_not, size]
  omega

theorem groups (width : Nat) : ∃ group count, 256 ^ (8 - width) = group ∧ group * count = 2 ^ 64 ∧
    0 < group ∧ (width = 0 ∨ group * (count / 2) = 2 ^ 63) := by
  have size : (256 : Nat) ^ (8 - width) * 256 ^ (8 - (8 - width)) = 2 ^ 64 := by
    rw [← Nat.pow_add, Nat.add_sub_cancel' (Nat.sub_le 8 width)]
    rfl
  refine ⟨256 ^ (8 - width), 256 ^ (8 - (8 - width)), rfl, size, Nat.pow_pos (by decide), ?_⟩
  cases Nat.eq_zero_or_pos width with
  | inl none_ => exact Or.inl none_
  | inr some_ =>
      have even : 256 ^ (8 - (8 - width)) = 2 * (256 ^ (8 - (8 - width)) / 2) := by
        obtain ⟨less, more⟩ := Nat.exists_eq_succ_of_ne_zero (by omega : 8 - (8 - width) ≠ 0)
        rw [more, Nat.pow_succ]
        omega
      rw [even, Nat.mul_left_comm] at size
      exact Or.inr (by omega)

theorem flipped_positive_lt_iff (width : Nat) (left right : UInt64) (positive : left.toNat < 2 ^ 63)
    (positive' : right.toNat < 2 ^ 63) :
    (flipFloat left).toNat / 256 ^ (8 - width) < (flipFloat right).toNat / 256 ^ (8 - width) ↔
      left.toNat / 256 ^ (8 - width) < right.toNat / 256 ^ (8 - width) := by
  obtain ⟨group, count, same, size, some_, halves⟩ := groups width
  rw [flip_positive left positive, flip_positive right positive', same]
  cases halves with
  | inl none_ =>
      have all : group = 2 ^ 64 := by
        rw [← same, none_]
        rfl
      rw [all]
      omega
  | inr half =>
      rw [← half, Nat.add_mul_div_left _ _ some_, Nat.add_mul_div_left _ _ some_]
      omega

private theorem flipped_negative_lt_iff (width : Nat) (left right : UInt64)
    (negative : 2 ^ 63 ≤ left.toNat)
    (negative' : 2 ^ 63 ≤ right.toNat) :
    (flipFloat left).toNat / 256 ^ (8 - width) < (flipFloat right).toNat / 256 ^ (8 - width) ↔
      right.toNat / 256 ^ (8 - width) < left.toNat / 256 ^ (8 - width) := by
  obtain ⟨group, count, same, size, some_, -⟩ := groups width
  have within (bits : UInt64) : bits.toNat / group < count := by
    apply Nat.div_lt_of_lt_mul
    rw [size]
    exact bits.toNat_lt
  have below (bits : UInt64) : (2 ^ 64 - (bits.toNat + 1)) / group =
      count - (bits.toNat / group + 1) := by
    rw [← size, Nat.mul_sub_div _ _ _ (size ▸ bits.toNat_lt)]
  have first := within left
  have second := within right
  rw [flip_negative left negative, flip_negative right negative', same, below, below]
  omega

theorem flipped_negative_not_above (width : Nat) (left right : UInt64)
    (positive : left.toNat < 2 ^ 63) (negative : 2 ^ 63 ≤ right.toNat) :
    ¬ (flipFloat left).toNat / 256 ^ (8 - width) < (flipFloat right).toNat / 256 ^ (8 - width) := by
  rw [flip_positive left positive, flip_negative right negative]
  exact Nat.not_lt.mpr (Nat.div_le_div_right (by omega))

def greatestText : List UInt8 := (List.replicate 32 [0xEF, 0xBF, 0xBD]).flatten

/-- The value is beyond the greatest one of its variant in the first bytes of its key: a text above
replacement characters, or one of more than 96 bytes that starts with them; a blob of more than 32
bytes that starts with thirteen bytes 0xFF; a positive pattern that is no number. -/
def aboveGreatest (width : Nat) : Value → Bool
  | .text string =>
      let bytes := string.toUTF8.toList
      decide (greatestText.take (min width 13) < bytes.take (min width 13) ∨
        width = 15 ∧ bytes.take 13 = greatestText.take 13 ∧ 96 < bytes.length)
  | .blob bytes => decide (width = 15 ∧ bytes.take 13 = List.replicate 13 0xFF ∧ 32 < bytes.length)
  | .float bits =>
      decide (bits.toNat < 2 ^ 63 ∧
        0x7ff0000000000000 / 256 ^ (8 - width) < bits.toNat / 256 ^ (8 - width))
  | .int _ => false
  | .timestamp _ => false
  -- the context takes four bytes of the key
  | .scoped _ inner => aboveGreatest (width - 4) inner

/-- The value is beyond the least one of its variant: a negative pattern that is no number. -/
def belowLeast (width : Nat) : Value → Bool
  | .float bits =>
      decide (0xfff0000000000000 / 256 ^ (8 - width) < bits.toNat / 256 ^ (8 - width))
  | .scoped _ inner => belowLeast (width - 4) inner
  | _ => false

theorem not_greatest_number_lt (width : Nat) (number : Int64) :
    ¬ (padTo 15 (bigEndian 8 (shiftSigned Int64.maxValue))).take width <
      (padTo 15 (bigEndian 8 (shiftSigned number))).take width := by
  have most : shiftSigned number ≤ shiftSigned Int64.maxValue := by
    have high := number.toInt_lt
    have greatest : Int64.maxValue.toInt = 2 ^ 63 - 1 := by decide
    unfold shiftSigned
    omega
  rw [number_payload_lt_iff width _ _ (shift_signed_small Int64.maxValue)
    (shift_signed_small number)]
  exact Nat.not_lt.mpr (Nat.div_le_div_right most)

theorem not_lt_zeros (width : Nat) :
    ∀ bytes : List UInt8, bytes.length = width → ¬ bytes < List.replicate width 0 := by
  induction width with
  | zero =>
      intro bytes _
      exact List.not_lt_nil _
  | succ width ih =>
      intro bytes size
      cases bytes with
      | nil => cases size
      | cons head rest =>
          rw [List.replicate_succ, List.cons_lt_cons_iff]
          intro either
          cases either with
          | inl less => exact UInt8.not_lt_zero less
          | inr both => exact ih rest (Nat.succ.inj size) both.2

theorem not_below_zeros (width : Nat) (narrow : width ≤ 15) (value : Value)
    (zeros : payload (typeMin value) = List.replicate 15 0) :
    ¬ (payload value).take width < (payload (typeMin value)).take width := by
  rw [zeros, List.take_replicate, Nat.min_eq_left narrow]
  apply not_lt_zeros
  rw [payload, List.length_take, List.length_drop, NormalisedKey.length_bytes_of]
  omega

theorem type_tag_of_ends (value : Value) :
    typeTag (typeMin value) = typeTag value ∧ typeTag (typeMax value) = typeTag value := by
  cases value <;> exact ⟨rfl, rfl⟩

theorem above_greatest_iff (value : Value) :
    ∀ width, width = 15 ∨ width ≤ 13 →
      ((payload (typeMax value)).take width < (payload value).take width ↔
        aboveGreatest width value = true) := by
  induction value with
  | text string =>
      intro width sized
      have greatest : (String.ofList (List.replicate 32 '\uFFFD')).toUTF8.toList = greatestText := by
        decide +kernel
      have compared := string_payload_lt_iff 0 width sized greatestText string.toUTF8.toList
        (by decide) (by decide)
      have key : payload (typeMax (.text string)) = (truncatedKey 0 greatestText).drop 1 := by
        rw [← greatest]
        rfl
      rw [aboveGreatest, decide_eq_true_iff, key]
      exact compared
  | int number =>
      intro width _
      exact iff_of_false (not_greatest_number_lt width number) Bool.false_ne_true
  | timestamp ns =>
      intro width _
      exact iff_of_false (not_greatest_number_lt width ns) Bool.false_ne_true
  | float bits =>
      intro width _
      have infinite : (0x7ff0000000000000 : UInt64).toNat < 2 ^ 63 := by decide
      have compared := number_payload_lt_iff width (flipFloat 0x7ff0000000000000).toNat
        (flipFloat bits).toNat (UInt64.toNat_lt _) (UInt64.toNat_lt _)
      rw [aboveGreatest, decide_eq_true_iff]
      apply compared.trans
      cases Nat.lt_or_ge bits.toNat (2 ^ 63) with
      | inl positive =>
          rw [flipped_positive_lt_iff width _ _ infinite positive]
          exact (and_iff_right positive).symm
      | inr negative =>
          apply iff_of_false (flipped_negative_not_above width _ _ infinite negative)
          intro both
          exact absurd both.1 (Nat.not_lt.mpr negative)
  | blob bytes =>
      intro width sized
      have compared := string_payload_lt_iff 4 width sized (List.replicate 32 0xFF) bytes
        (by decide) (by decide)
      have none_ : ¬ (List.replicate 32 0xFF).take (min width 13) < bytes.take (min width 13) := by
        rw [List.take_replicate, Nat.min_eq_left (by omega)]
        exact not_greatest_bytes_lt (min width 13) bytes
      rw [or_iff_right none_] at compared
      rw [aboveGreatest, decide_eq_true_iff]
      exact compared
  | «scoped» context inner ih =>
      intro width sized
      have narrow : width ≤ 15 := by omega
      rw [typeMax, aboveGreatest, scoped_payload_lt_iff width narrow context]
      exact ih (width - 4) (Or.inr (by omega))

theorem below_least_iff (value : Value) :
    ∀ width, width ≤ 15 →
      ((payload value).take width < (payload (typeMin value)).take width ↔
        belowLeast width value = true) := by
  induction value with
  | text string =>
      intro width narrow
      have zeros : payload (.text "") = List.replicate 15 0 := by decide +kernel
      exact iff_of_false (not_below_zeros width narrow (.text string) zeros) Bool.false_ne_true
  | int number =>
      intro width narrow
      have zeros : payload (.int Int64.minValue) = List.replicate 15 0 := by decide +kernel
      exact iff_of_false (not_below_zeros width narrow (.int number) zeros) Bool.false_ne_true
  | timestamp ns =>
      intro width narrow
      have zeros : payload (.timestamp Int64.minValue) = List.replicate 15 0 := by decide +kernel
      exact iff_of_false (not_below_zeros width narrow (.timestamp ns) zeros) Bool.false_ne_true
  | blob bytes =>
      intro width narrow
      have zeros : payload (.blob []) = List.replicate 15 0 := by decide +kernel
      exact iff_of_false (not_below_zeros width narrow (.blob bytes) zeros) Bool.false_ne_true
  | float bits =>
      intro width _
      have infinite : 2 ^ 63 ≤ (0xfff0000000000000 : UInt64).toNat := by decide
      have compared := number_payload_lt_iff width (flipFloat bits).toNat
        (flipFloat 0xfff0000000000000).toNat (UInt64.toNat_lt _) (UInt64.toNat_lt _)
      rw [belowLeast, decide_eq_true_iff]
      apply compared.trans
      cases Nat.lt_or_ge bits.toNat (2 ^ 63) with
      | inl positive =>
          apply iff_of_false (flipped_negative_not_above width _ _ positive infinite)
          exact Nat.not_lt.mpr (Nat.div_le_div_right (by omega))
      | inr negative => exact flipped_negative_lt_iff width _ _ negative infinite
  | «scoped» context inner ih =>
      intro width narrow
      rw [typeMin, belowLeast, scoped_payload_lt_iff width narrow context]
      exact ih (width - 4) (by omega)

/-- The bounds of the scan of a comparison are reversed. -/
def crosses (comparison : CmpOp × Value) : Bool :=
  match comparison.1 with
  | .lt => belowLeast 15 comparison.2
  | .le => belowLeast 15 comparison.2
  | .gt => aboveGreatest 15 comparison.2
  | .ge => aboveGreatest 15 comparison.2
  | _ => false

theorem crosses_iff (comparison : CmpOp × Value) :
    crosses comparison = true ↔ ∃ low high,
      scanBounds comparison.1 comparison.2 = some (low, high) ∧ KeyLt high low := by
  obtain ⟨op, value⟩ := comparison
  have below : KeyLt value (typeMin value) ↔ belowLeast 15 value = true := by
    rw [key_lt_iff_payload _ _ (type_tag_of_ends value).1.symm]
    exact below_least_iff value 15 (Nat.le_refl _)
  have above : KeyLt (typeMax value) value ↔ aboveGreatest 15 value = true := by
    rw [key_lt_iff_payload _ _ (type_tag_of_ends value).2]
    exact above_greatest_iff value 15 (Or.inl rfl)
  cases op with
  | lt => simp [crosses, scanBounds, below]
  | le => simp [crosses, scanBounds, below]
  | gt => simp [crosses, scanBounds, above]
  | ge => simp [crosses, scanBounds, above]
  | _ => simp [crosses, scanBounds]

theorem failure_panics_iff (comparison : CmpOp × Value) :
    failure comparison = some .panicked ↔ crosses comparison = true := by
  rw [crosses_iff]
  obtain ⟨op, value⟩ := comparison
  by_cases contains : op = .contains
  · rw [contains]
    simp [failure, scanBounds]
  · unfold failure
    rw [if_neg contains]
    cases bounds : scanBounds op value with
    | none => simp
    | some ends =>
        obtain ⟨low, high⟩ := ends
        simp [KeyLt]

/-- An evaluation scans between bounds in order, and returns or gives an error, just when no
comparison that it reaches is beyond the sentinels. -/
theorem evaluation_returns_iff (x : QueryExecutor) (query : Types.Query) :
    ((∀ comparison ∈ reached query, ∀ low high,
          scanBounds comparison.1 comparison.2 = some (low, high) → KeyLe low high) ∧
        ((∃ result, x.evaluate query = .ok result) ∨
          ∃ err, x.evaluate query = .error (.query err))) ↔
      ∀ comparison ∈ reached query, crosses comparison = false := by
  have scans : (∀ comparison ∈ reached query, ∀ low high,
        scanBounds comparison.1 comparison.2 = some (low, high) → KeyLe low high) ↔
      ∀ comparison ∈ reached query, crosses comparison = false := by
    apply forall_congr'
    intro comparison
    apply imp_congr_right
    intro _
    rw [← Bool.not_eq_true, crosses_iff]
    simp only [not_exists, not_and, KeyLt, KeyLe, not_lt]
  have crash : x.evaluate query = .error .panicked ↔
      ∃ comparison ∈ reached query, crosses comparison = true := by
    have first : x.evaluate query = .error .panicked ↔
        failureOf (x.evaluate query) = some .panicked := by
      cases x.evaluate query with
      | error err => simp [failureOf]
      | ok result => simp [failureOf]
    rw [first, x.failure_of_evaluate, first_failure_panics_iff]
    simp only [failure_panics_iff, reached]
  rw [scans]
  constructor
  · exact And.left
  · intro inside
    refine ⟨inside, ?_⟩
    cases outcome : x.evaluate query with
    | ok result => exact Or.inl ⟨result, rfl⟩
    | error err =>
        cases err with
        | query err => exact Or.inr ⟨err, rfl⟩
        | panicked =>
            obtain ⟨comparison, member, crossing⟩ := crash.mp outcome
            rw [inside comparison member] at crossing
            cases crossing

/-- What is above a text of one character outside the basic plane, of an index with a number. -/
theorem text_above_greatest_panics :
    let query := Types.Query.hasAttr 7 .gt (.text "😀")
    KeyLt (typeMax (.text "😀")) (.text "😀") ∧
      QueryExecutor.shelf.evaluate query = .error .panicked ∧
      ¬ ((∃ result, QueryExecutor.shelf.evaluate query = .ok result) ∨
        ∃ err, QueryExecutor.shelf.evaluate query = .error (.query err)) := by
  intro query
  have panics : QueryExecutor.shelf.evaluate query = .error .panicked := by decide +kernel
  refine ⟨by unfold KeyLt; decide +kernel, panics, ?_⟩
  rw [panics]
  simp

end Mimisbrunnr.Query
