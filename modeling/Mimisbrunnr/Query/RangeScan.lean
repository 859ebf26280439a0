import Mimisbrunnr.Index.KeyOrder
import Mimisbrunnr.Query.Executor

/-!
# Scans of the range index

An index of numbers and timestamps holds what was inserted and not removed. A
scan finds what lies between its bounds, in the order of the variants and, within
one variant, of the values. It does not return when its bounds are reversed.
-/

namespace Mimisbrunnr.Query

set_option autoImplicit false

open Mimisbrunnr.Index
open Mimisbrunnr.Lib
open Mimisbrunnr.Lib.FiniteMap
open Mimisbrunnr.Types

def ScanLe (left right : Value) : Prop :=
  typeTag left < typeTag right ∨ typeTag left = typeTag right ∧ left.le right = true

def ScanLt (left right : Value) : Prop :=
  typeTag left < typeTag right ∨ typeTag left = typeTag right ∧ left.lt right = true

def Numeric : Value → Bool
  | .int _ => true
  | .timestamp _ => true
  | _ => false

private theorem number_key_lt (tag : UInt8) (left right : Int64) :
    tag :: padTo 15 (bigEndian 8 (shiftSigned left)) <
        tag :: padTo 15 (bigEndian 8 (shiftSigned right)) ↔ left < right := by
  rw [List.cons_lt_cons_iff, number_key_lt_iff]
  simp

theorem numeric_key_lt (left right : Value) (numeric : Numeric left = true)
    (same : typeTag left = typeTag right) : KeyLt left right ↔ left.lt right = true := by
  cases left with
  | int number =>
      cases right with
      | int number' =>
          apply Iff.trans (number_key_lt 1 number number')
          exact (compare_lt_iff number number').symm.trans decide_eq_true_iff.symm
      | _ => cases same
  | timestamp ns =>
      cases right with
      | timestamp ns' =>
          apply Iff.trans (number_key_lt 3 ns ns')
          exact (compare_lt_iff ns ns').symm.trans decide_eq_true_iff.symm
      | _ => cases same
  | _ => cases numeric

private theorem key_lt_iff_scan_lt (left right : Value)
    (numeric : Numeric left = true ∨ Numeric right = true) :
    KeyLt left right ↔ ScanLt left right := by
  by_cases same : typeTag left = typeTag right
  · have both : Numeric left = true := by
      cases numeric with
      | inl first => exact first
      | inr second =>
          cases right with
          | int number =>
              cases left with
              | int number' => rfl
              | _ => cases same
          | timestamp ns =>
              cases left with
              | timestamp ns' => rfl
              | _ => cases same
          | _ => cases second
    rw [numeric_key_lt left right both same, ScanLt, same]
    simp
  · rw [key_lt_of_tags left right same, ScanLt]
    simp [same]

theorem scan_le_iff_not_lt (left right : Value) (numeric : Numeric right = true) :
    ScanLe left right ↔ ¬ ScanLt right left := by
  unfold ScanLe ScanLt
  by_cases same : typeTag left = typeTag right
  · rw [same]
    cases right with
    | int number =>
        cases left with
        | int number' =>
            have le : (Value.int number').le (Value.int number) = true ↔ ¬ number < number' :=
              numbers_le_iff number' number
            have lt : (Value.int number).lt (Value.int number') = true ↔ number < number' :=
              decide_eq_true_iff.trans (compare_lt_iff number number')
            rw [le, lt]
            simp
        | _ => cases same
    | timestamp ns =>
        cases left with
        | timestamp ns' =>
            have le : (Value.timestamp ns').le (Value.timestamp ns) = true ↔ ¬ ns < ns' :=
              numbers_le_iff ns' ns
            have lt : (Value.timestamp ns).lt (Value.timestamp ns') = true ↔ ns < ns' :=
              decide_eq_true_iff.trans (compare_lt_iff ns ns')
            rw [le, lt]
            simp
        | _ => cases same
    | _ => cases numeric
  · have other : typeTag right ≠ typeTag left := fun equal => same equal.symm
    simp only [same, other, false_and, or_false, UInt8.not_lt]
    constructor
    · exact UInt8.le_of_lt
    · intro le
      exact UInt8.lt_of_le_of_ne le same

inductive RangeOp where
  | insert (tag : TagId) (value : Value) (oidLocal : Nat)
  | remove (tag : TagId) (value : Value) (oidLocal : Nat)
deriving DecidableEq, Repr

namespace RangeOp

def value : RangeOp → Value
  | insert _ value _ => value
  | remove _ value _ => value

def apply (index : RangeIndex) : RangeOp → RangeIndex
  | insert tag value oidLocal => index.insert tag value oidLocal
  | remove tag value oidLocal => index.remove tag value oidLocal

def run (ops : List RangeOp) : RangeIndex := ops.foldl apply RangeIndex.new

def hold (held : Finset (TagId × Value × Nat)) : RangeOp → Finset (TagId × Value × Nat)
  | insert tag value oidLocal => Insert.insert (tag, value, oidLocal) held
  | remove tag value oidLocal => held.erase (tag, value, oidLocal)

def held (ops : List RangeOp) : Finset (TagId × Value × Nat) := ops.foldl hold ∅

end RangeOp

private theorem tag_of_key (left right : Value)
    (same : NormalisedKey.fromValue left = NormalisedKey.fromValue right) :
    typeTag left = typeTag right := by
  obtain ⟨rest, key⟩ := key_starts_with_tag left
  obtain ⟨rest', key'⟩ := key_starts_with_tag right
  have bytes := congrArg NormalisedKey.bytes same
  simp only [NormalisedKey.fromValue] at bytes
  rw [key, key', List.cons.injEq] at bytes
  exact bytes.1

theorem key_injective (left right : Value) (numeric : Numeric left = true)
    (same : NormalisedKey.fromValue left = NormalisedKey.fromValue right) : left = right := by
  have tags := tag_of_key left right same
  have bytes : NormalisedKey.bytesOf left = NormalisedKey.bytesOf right :=
    congrArg NormalisedKey.bytes same
  cases left with
  | int number =>
      cases right with
      | int number' =>
          have above := (number_key_le_iff 1 number number').mp (le_of_eq bytes)
          have below := (number_key_le_iff 1 number' number).mp (le_of_eq bytes.symm)
          rw [Int64.lt_iff_toInt_lt] at above below
          rw [Int64.toInt_inj.mp (by omega : number.toInt = number'.toInt)]
      | _ => cases tags
  | timestamp ns =>
      cases right with
      | timestamp ns' =>
          have above := (number_key_le_iff 3 ns ns').mp (le_of_eq bytes)
          have below := (number_key_le_iff 3 ns' ns).mp (le_of_eq bytes.symm)
          rw [Int64.lt_iff_toInt_lt] at above below
          rw [Int64.toInt_inj.mp (by omega : ns.toInt = ns'.toInt)]
      | _ => cases tags
  | _ => cases numeric

/-- The sets of an index are what is held under the keys of the values. -/
def Holds (index : RangeIndex) (held : Finset (TagId × Value × Nat)) : Prop :=
  ∀ tag key oidLocal, oidLocal ∈ Bitmaps.members index.map (tag, key) ↔
    ∃ value, Numeric value = true ∧ key = NormalisedKey.fromValue value ∧
      (tag, value, oidLocal) ∈ held

private theorem holds_new : Holds RangeIndex.new ∅ := by
  intro tag key oidLocal
  simp [RangeIndex.new]

private theorem apply_holds (index : RangeIndex) (held : Finset (TagId × Value × Nat))
    (op : RangeOp)
    (numeric : Numeric op.value = true) (holds : Holds index held) :
    Holds (op.apply index) (op.hold held) := by
  intro tag key oidLocal
  cases op with
  | insert tag' value oid =>
      simp only [RangeOp.apply, RangeIndex.insert, Bitmaps.mem_insert, RangeOp.hold,
        Finset.mem_insert, Prod.mk.injEq, holds tag key oidLocal]
      constructor
      · intro found
        cases found with
        | inl new =>
            obtain ⟨⟨tags, keys⟩, ids⟩ := new
            exact ⟨value, numeric, keys, Or.inl ⟨tags, rfl, ids⟩⟩
        | inr old =>
            obtain ⟨other, plain, keys, listed⟩ := old
            exact ⟨other, plain, keys, Or.inr listed⟩
      · intro found
        obtain ⟨other, plain, keys, listed⟩ := found
        cases listed with
        | inl new =>
            obtain ⟨tags, values, ids⟩ := new
            rw [values] at keys
            exact Or.inl ⟨⟨tags, keys⟩, ids⟩
        | inr old => exact Or.inr ⟨other, plain, keys, old⟩
  | remove tag' value oid =>
      simp only [RangeOp.apply, RangeIndex.remove, Bitmaps.mem_remove, RangeOp.hold,
        Finset.mem_erase, Prod.mk.injEq, holds tag key oidLocal, ne_eq]
      constructor
      · intro found
        obtain ⟨kept, other, plain, keys, listed⟩ := found
        refine ⟨other, plain, keys, ?_, listed⟩
        intro removed
        obtain ⟨tags, values, ids⟩ := removed
        rw [values] at keys
        exact kept ⟨⟨tags, keys⟩, ids⟩
      · intro found
        obtain ⟨other, plain, keys, kept, listed⟩ := found
        refine ⟨?_, other, plain, keys, listed⟩
        intro removed
        obtain ⟨⟨tags, same⟩, ids⟩ := removed
        exact kept ⟨tags, key_injective other value plain (keys.symm.trans same), ids⟩

theorem run_holds (ops : List RangeOp) (numeric : ∀ op ∈ ops, Numeric op.value = true) :
    Holds (RangeOp.run ops) (RangeOp.held ops) := by
  have all : ∀ (rest : List RangeOp) (index : RangeIndex) (held : Finset (TagId × Value × Nat)),
      (∀ op ∈ rest, Numeric op.value = true) → Holds index held →
      Holds (rest.foldl RangeOp.apply index) (rest.foldl RangeOp.hold held) := by
    intro rest
    induction rest with
    | nil =>
        intro index held _ holds
        exact holds
    | cons op rest ih =>
        intro index held plain holds
        exact ih _ _ (fun other member => plain other (List.mem_cons_of_mem op member))
          (apply_holds index held op (plain op List.mem_cons_self) holds)
  exact all ops RangeIndex.new ∅ numeric holds_new

theorem held_numeric (ops : List RangeOp) (numeric : ∀ op ∈ ops, Numeric op.value = true) :
    ∀ entry ∈ RangeOp.held ops, Numeric entry.2.1 = true := by
  have all : ∀ (rest : List RangeOp) (held : Finset (TagId × Value × Nat)),
      (∀ op ∈ rest, Numeric op.value = true) → (∀ entry ∈ held, Numeric entry.2.1 = true) →
      ∀ entry ∈ rest.foldl RangeOp.hold held, Numeric entry.2.1 = true := by
    intro rest
    induction rest with
    | nil =>
        intro held _ plain
        exact plain
    | cons op rest ih =>
        intro held numbers plain
        apply ih _ (fun other member => numbers other (List.mem_cons_of_mem op member))
        intro entry listed
        have number := numbers op List.mem_cons_self
        cases op with
        | insert tag value oid =>
            cases Finset.mem_insert.mp listed with
            | inl new =>
                rw [new]
                exact number
            | inr old => exact plain entry old
        | remove tag value oid => exact plain entry (Finset.mem_of_mem_erase listed)
  exact all ops ∅ numeric (fun entry listed => by cases listed)

/-- A scan whose bounds are not reversed finds the members of the keys between them. -/
theorem mem_range_scan (index : RangeIndex) (tag : TagId) (low high : Value)
    (set : Finset Nat) (found : rangeScan index tag low high = .ok set) (oidLocal : Nat) :
    oidLocal ∈ set ↔ ∃ key : NormalisedKey,
      ¬ key.bytes < NormalisedKey.bytesOf low ∧ key.bytes < NormalisedKey.bytesOf high ∧
        oidLocal ∈ Bitmaps.members index.map (tag, key) := by
  unfold rangeScan at found
  dsimp only at found
  split at found
  · cases found
  · cases found
    simp only [Finset.mem_biUnion, Finset.mem_filter]
    constructor
    · intro located
      obtain ⟨key, ⟨-, same, above, below⟩, member⟩ := located
      refine ⟨key.2, above, below, ?_⟩
      rw [← same]
      exact member
    · intro located
      obtain ⟨key, above, below, member⟩ := located
      refine ⟨(tag, key), ⟨?_, rfl, above, below⟩, member⟩
      unfold Bitmaps.members at member
      cases stored : index.map.sets.lookup (tag, key) with
      | none =>
          rw [stored] at member
          cases member
      | some content => exact mem_of_lookup _ _ _ stored

theorem range_scan_ordered (index : RangeIndex) (tag : TagId) (low high : Value)
    (ordered : ¬ KeyLt high low) : ∃ set, rangeScan index tag low high = .ok set := by
  unfold rangeScan
  dsimp only
  exact ⟨_, if_neg ordered⟩

theorem range_scan_reversed (index : RangeIndex) (tag : TagId) (low high : Value)
    (reversed : KeyLt high low) : rangeScan index tag low high = .error .panicked := by
  unfold rangeScan
  dsimp only
  exact if_pos reversed

theorem key_between_iff (low high value : Value) (numeric : Numeric value = true) :
    ¬ KeyLt value low ∧ KeyLt value high ↔ ScanLe low value ∧ ScanLt value high := by
  rw [scan_le_iff_not_lt low value numeric, key_lt_iff_scan_lt value low (Or.inl numeric),
    key_lt_iff_scan_lt value high (Or.inl numeric)]

/-- A scan returns what was inserted and not removed between its bounds just when their keys are
not reversed. -/
theorem range_scan_exact_iff (ops : List RangeOp) (numeric : ∀ op ∈ ops, Numeric op.value = true)
    (tag : TagId) (low high : Value) :
    (∃ set, rangeScan (RangeOp.run ops) tag low high = .ok set ∧
        ∀ oidLocal, oidLocal ∈ set ↔ ∃ value, (tag, value, oidLocal) ∈ RangeOp.held ops ∧
          ScanLe low value ∧ ScanLt value high) ↔
      ¬ KeyLt high low := by
  have holds := run_holds ops numeric
  have plain := held_numeric ops numeric
  constructor
  · intro exact reversed
    obtain ⟨set, found, -⟩ := exact
    rw [range_scan_reversed _ tag low high reversed] at found
    cases found
  · intro ordered
    obtain ⟨set, found⟩ := range_scan_ordered (RangeOp.run ops) tag low high ordered
    refine ⟨set, found, fun oidLocal => ?_⟩
    rw [mem_range_scan _ tag low high set found oidLocal]
    constructor
    · intro located
      obtain ⟨key, above, below, member⟩ := located
      obtain ⟨value, number, same, listed⟩ := (holds tag key oidLocal).mp member
      rw [same] at above below
      exact ⟨value, listed, (key_between_iff low high value number).mp ⟨above, below⟩⟩
    · intro located
      obtain ⟨value, listed, between⟩ := located
      have number := plain _ listed
      have keys := (key_between_iff low high value number).mpr between
      exact ⟨NormalisedKey.fromValue value, keys.1, keys.2,
        (holds tag _ oidLocal).mpr ⟨value, number, rfl, listed⟩⟩

/-- Bounds in order over numbers below, within and above them. -/
theorem scan_between_bounds :
    let ops : List RangeOp := [.insert 7 (.int 3) 1, .insert 7 (.int 9) 2, .insert 7 (.int 4) 3,
      .remove 7 (.int 4) 3]
    (∀ op ∈ ops, Numeric op.value = true) ∧ ¬ KeyLt (.int 5) (.int 0) ∧
      ∃ set, rangeScan (RangeOp.run ops) 7 (.int 0) (.int 5) = .ok set ∧
        ∀ oidLocal, oidLocal ∈ set ↔ ∃ value, (7, value, oidLocal) ∈ RangeOp.held ops ∧
          ScanLe (.int 0) value ∧ ScanLt value (.int 5) :=
  ⟨by decide, by unfold KeyLt; decide, (range_scan_exact_iff _ (by decide) 7 (.int 0) (.int 5)).mpr
    (by unfold KeyLt; decide)⟩

/-- Bounds the other way round stop the scan of an index. -/
theorem reversed_scan_panics :
    ScanLt (.int 1) (.int 5) ∧
      rangeScan (RangeOp.run [.insert 7 (.int 3) 1]) 7 (.int 5) (.int 1) = .error .panicked ∧
      ¬ ∃ set, rangeScan (RangeOp.run [.insert 7 (.int 3) 1]) 7 (.int 5) (.int 1) = .ok set := by
  have panics := range_scan_reversed (RangeOp.run [.insert 7 (.int 3) 1]) 7 (.int 5) (.int 1)
    (by unfold KeyLt; decide)
  refine ⟨Or.inr ⟨rfl, by decide⟩, panics, ?_⟩
  intro returned
  obtain ⟨set, found⟩ := returned
  rw [panics] at found
  cases found

end Mimisbrunnr.Query
