import Mimisbrunnr.Query.RangeScan
import Mimisbrunnr.Query.SetSemantics

/-!
# Range comparisons of numbers

A comparison is a scan up to the bound, or from the bound up to the greatest
number of the variant, which a half-open scan leaves out. Strictness above the
bound takes away every object that holds the bound, whatever else it holds. The
comparisons below the bound are exact; those above it are so for the states that
`BoundsFit` describes.
-/

namespace Mimisbrunnr.Query

set_option autoImplicit false

open Mimisbrunnr.Index
open Mimisbrunnr.Lib
open Mimisbrunnr.Types

/-- The number of a value of a numeric variant. -/
def rank : Value → Int
  | .int number => number.toInt
  | .timestamp ns => ns.toInt
  | _ => 0

theorem numeric_lt_iff (left right : Value) (numeric : Numeric left = true) :
    left.lt right = true ↔ typeTag left = typeTag right ∧ rank left < rank right := by
  cases left with
  | int number =>
      cases right with
      | int number' =>
          have less : (Value.int number).lt (.int number') = true ↔ number < number' :=
            decide_eq_true_iff.trans (compare_lt_iff number number')
          rw [less, Int64.lt_iff_toInt_lt]
          exact (and_iff_right rfl).symm
      | _ => exact iff_of_false Bool.false_ne_true (fun both => by cases both.1)
  | timestamp ns =>
      cases right with
      | timestamp ns' =>
          have less : (Value.timestamp ns).lt (.timestamp ns') = true ↔ ns < ns' :=
            decide_eq_true_iff.trans (compare_lt_iff ns ns')
          rw [less, Int64.lt_iff_toInt_lt]
          exact (and_iff_right rfl).symm
      | _ => exact iff_of_false Bool.false_ne_true (fun both => by cases both.1)
  | _ => cases numeric

theorem numeric_le_iff (left right : Value) (numeric : Numeric left = true) :
    left.le right = true ↔ typeTag left = typeTag right ∧ rank left ≤ rank right := by
  cases left with
  | int number =>
      cases right with
      | int number' =>
          have least : (Value.int number).le (.int number') = true ↔ ¬ number' < number :=
            numbers_le_iff number number'
          rw [least, Int64.lt_iff_toInt_lt, Int.not_lt]
          exact (and_iff_right rfl).symm
      | _ => exact iff_of_false Bool.false_ne_true (fun both => by cases both.1)
  | timestamp ns =>
      cases right with
      | timestamp ns' =>
          have least : (Value.timestamp ns).le (.timestamp ns') = true ↔ ¬ ns' < ns :=
            numbers_le_iff ns ns'
          rw [least, Int64.lt_iff_toInt_lt, Int.not_lt]
          exact (and_iff_right rfl).symm
      | _ => exact iff_of_false Bool.false_ne_true (fun both => by cases both.1)
  | _ => cases numeric

theorem numeric_eq_iff (left right : Value) (numeric : Numeric left = true) :
    left = right ↔ typeTag left = typeTag right ∧ rank left = rank right := by
  constructor
  · intro same
    rw [same]
    exact ⟨rfl, rfl⟩
  · intro both
    obtain ⟨tags, ranks⟩ := both
    cases left with
    | int number =>
        cases right with
        | int number' => rw [Int64.toInt_inj.mp ranks]
        | _ => cases tags
    | timestamp ns =>
        cases right with
        | timestamp ns' => rw [Int64.toInt_inj.mp ranks]
        | _ => cases tags
    | _ => cases numeric

/-- The sentinels are the ends of the variant. -/
theorem sentinels (bound : Value) (numeric : Numeric bound = true) :
    typeTag (typeMin bound) = typeTag bound ∧ typeTag (typeMax bound) = typeTag bound ∧
      Numeric (typeMin bound) = true ∧ Numeric (typeMax bound) = true ∧
      ∀ value, Numeric value = true →
        rank (typeMin bound) ≤ rank value ∧ rank value ≤ rank (typeMax bound) := by
  have low : Int64.minValue.toInt = -2 ^ 63 := by decide
  have high : Int64.maxValue.toInt = 2 ^ 63 - 1 := by decide
  have within (value : Value) (plain : Numeric value = true) :
      Int64.minValue.toInt ≤ rank value ∧ rank value ≤ Int64.maxValue.toInt := by
    rw [low, high]
    cases value with
    | int number =>
        have above := number.le_toInt
        have below := number.toInt_lt
        simp only [rank]
        omega
    | timestamp ns =>
        have above := ns.le_toInt
        have below := ns.toInt_lt
        simp only [rank]
        omega
    | _ => cases plain
  cases bound with
  | int number => exact ⟨rfl, rfl, rfl, rfl, within⟩
  | timestamp ns => exact ⟨rfl, rfl, rfl, rfl, within⟩
  | _ => cases numeric

/-- The stored value stands in the relation to the bound; values of other variants never do. -/
def compares (op : CmpOp) (stored bound : Value) : Bool :=
  match op with
  | .lt => stored.lt bound
  | .le => stored.le bound
  | .gt => bound.lt stored
  | .ge => bound.le stored
  | _ => false

/-- What must hold of the values under a key for a comparison with a bound to be exact: an object
with the greatest number of the variant has another number that the scan finds, and an object with
a number above a strict bound does not have the bound as well. -/
def BoundsFit (held : Finset (TagId × Value × Nat)) (key : TagId) (op : CmpOp) (bound : Value) :
    Prop :=
  match op with
  | .ge =>
      ∀ oid, (key, typeMax bound, oid) ∈ held → bound = typeMax bound ∨
        ∃ other, (key, other, oid) ∈ held ∧ bound.le other = true ∧ other.lt (typeMax bound) = true
  | .gt =>
      ∀ oid stored, (key, stored, oid) ∈ held → bound.lt stored = true →
        (key, bound, oid) ∉ held ∧
          ∃ other, (key, other, oid) ∈ held ∧ bound.lt other = true ∧
            other.lt (typeMax bound) = true
  | _ => True

section

variable {index : RangeIndex} {held : Finset (TagId × Value × Nat)} (holds : Holds index held)
  (plain : ∀ entry ∈ held, Numeric entry.2.1 = true)

include holds plain

private theorem mem_lookup_held (key : TagId) (bound : Value) (oid : Nat) :
    oid ∈ index.lookup key bound ↔ (key, bound, oid) ∈ held := by
  rw [RangeIndex.lookup, holds]
  constructor
  · intro found
    obtain ⟨value, numeric, same, listed⟩ := found
    rw [← key_injective value bound numeric same.symm]
    exact listed
  · intro listed
    exact ⟨bound, plain _ listed, rfl, listed⟩

/-- A scan between bounds of one variant finds the numbers between them. -/
theorem scan_of_ranks (key : TagId) (low high : Value) (highNumeric : Numeric high = true)
    (same : typeTag low = typeTag high)
    (ordered : rank low ≤ rank high) :
    ∃ set, rangeScan index key low high = .ok set ∧
      ∀ oid, oid ∈ set ↔ ∃ stored, (key, stored, oid) ∈ held ∧ typeTag stored = typeTag low ∧
        rank low ≤ rank stored ∧ rank stored < rank high := by
  have inOrder : ¬ KeyLt high low := by
    rw [numeric_key_lt high low highNumeric same.symm, numeric_lt_iff high low highNumeric]
    omega
  obtain ⟨set, found⟩ := range_scan_ordered index key low high inOrder
  refine ⟨set, found, ?_⟩
  have between (stored : Value) (numeric : Numeric stored = true) :
      ¬ KeyLt stored low ∧ KeyLt stored high ↔ typeTag stored = typeTag low ∧
        rank low ≤ rank stored ∧ rank stored < rank high := by
    by_cases tags : typeTag stored = typeTag low
    · rw [numeric_key_lt stored low numeric tags, numeric_lt_iff stored low numeric,
        numeric_key_lt stored high numeric (tags.trans same), numeric_lt_iff stored high numeric]
      simp only [tags, same, true_and, Int.not_lt]
    · rw [key_lt_of_tags stored low tags, key_lt_of_tags stored high (same ▸ tags), ← same]
      constructor
      · intro both
        exact absurd both.2 both.1
      · intro both
        exact absurd both.1 tags
  intro oid
  rw [mem_range_scan index key low high set found]
  constructor
  · intro located
    obtain ⟨each, above, below, member⟩ := located
    obtain ⟨stored, numeric, sameKey, listed⟩ := (holds key each oid).mp member
    rw [sameKey] at above below
    exact ⟨stored, listed, (between stored numeric).mp ⟨above, below⟩⟩
  · intro located
    obtain ⟨stored, listed, inside⟩ := located
    have numeric := plain _ listed
    have keys := (between stored numeric).mpr inside
    exact ⟨NormalisedKey.fromValue stored, keys.1, keys.2,
      (holds key _ oid).mpr ⟨stored, numeric, rfl, listed⟩⟩

theorem scan_below (key : TagId) (bound : Value) (numeric : Numeric bound = true) :
    ∃ set, rangeScan index key (typeMin bound) bound = .ok set ∧
      ∀ oid, oid ∈ set ↔ ∃ stored, (key, stored, oid) ∈ held ∧ stored.lt bound = true := by
  obtain ⟨lowTag, -, -, -, ends⟩ := sentinels bound numeric
  obtain ⟨set, found, members⟩ := scan_of_ranks holds plain key (typeMin bound) bound numeric
    lowTag (ends bound numeric).1
  refine ⟨set, found, ?_⟩
  intro oid
  rw [members]
  apply exists_congr
  intro stored
  apply and_congr_right
  intro listed
  have stays := plain _ listed
  rw [numeric_lt_iff stored bound stays, lowTag]
  constructor
  · intro both
    exact ⟨both.1, both.2.2⟩
  · intro both
    exact ⟨both.1, (ends stored stays).1, both.2⟩

theorem scan_above (key : TagId) (bound : Value) (numeric : Numeric bound = true) :
    ∃ set, rangeScan index key bound (typeMax bound) = .ok set ∧
      ∀ oid, oid ∈ set ↔ ∃ stored, (key, stored, oid) ∈ held ∧ bound.le stored = true ∧
        stored.lt (typeMax bound) = true := by
  obtain ⟨-, highTag, -, highNumeric, ends⟩ := sentinels bound numeric
  obtain ⟨set, found, members⟩ := scan_of_ranks holds plain key bound (typeMax bound) highNumeric
    highTag.symm (ends bound numeric).2
  refine ⟨set, found, ?_⟩
  intro oid
  rw [members]
  apply exists_congr
  intro stored
  apply and_congr_right
  intro listed
  rw [numeric_lt_iff stored _ (plain _ listed), numeric_le_iff bound stored numeric, highTag]
  constructor
  · intro both
    exact ⟨⟨both.1.symm, both.2.1⟩, both.1, both.2.2⟩
  · intro both
    exact ⟨both.2.1, both.1.2, both.2.2⟩

end

theorem below_or_greatest (bound stored : Value) (numeric : Numeric bound = true)
    (stays : Numeric stored = true) (least : bound.le stored = true) :
    stored.lt (typeMax bound) = true ∨ stored = typeMax bound := by
  obtain ⟨-, highTag, -, -, ends⟩ := sentinels bound numeric
  rw [numeric_le_iff bound stored numeric] at least
  rw [numeric_lt_iff stored _ stays, numeric_eq_iff stored _ stays, highTag]
  have above := (ends stored stays).2
  have tags : typeTag stored = typeTag bound := least.1.symm
  simp only [tags, true_and]
  omega

private theorem le_greatest (bound : Value) (numeric : Numeric bound = true) :
    bound.le (typeMax bound) = true := by
  obtain ⟨-, highTag, -, -, ends⟩ := sentinels bound numeric
  rw [numeric_le_iff bound _ numeric]
  exact ⟨highTag.symm, (ends bound numeric).2⟩

theorem le_iff_eq_or_lt (bound stored : Value) (numeric : Numeric bound = true) :
    bound.le stored = true ↔ bound = stored ∨ bound.lt stored = true := by
  rw [numeric_le_iff bound stored numeric, numeric_lt_iff bound stored numeric,
    numeric_eq_iff bound stored numeric]
  constructor
  · intro both
    cases Int.le_iff_eq_or_lt.mp both.2 with
    | inl same => exact Or.inl ⟨both.1, same⟩
    | inr less => exact Or.inr ⟨both.1, less⟩
  · intro either
    cases either with
    | inl same => exact ⟨same.1, Int.le_of_eq same.2⟩
    | inr less => exact ⟨less.1, Int.le_of_lt less.2⟩

theorem le_refl_of_numeric (bound : Value) (numeric : Numeric bound = true) :
    bound.le bound = true :=
  (le_iff_eq_or_lt bound bound numeric).mpr (Or.inl rfl)

/-- A set has exactly the objects with a stored value in the relation to the bound. -/
def Exact (held : Finset (TagId × Value × Nat)) (key : TagId) (op : CmpOp) (bound : Value)
    (result : Finset Nat) : Prop :=
  ∀ oid, oid ∈ result ↔ ∃ stored, (key, stored, oid) ∈ held ∧ compares op stored bound = true

section

variable {held : Finset (TagId × Value × Nat)} (plain : ∀ entry ∈ held, Numeric entry.2.1 = true)
  {key : TagId} {bound : Value} (numeric : Numeric bound = true) {scanned equal : Finset Nat}
  (equals : ∀ oid, oid ∈ equal ↔ (key, bound, oid) ∈ held)

include equals numeric plain

theorem at_most_exact
    (below : ∀ oid, oid ∈ scanned ↔ ∃ stored, (key, stored, oid) ∈ held ∧ stored.lt bound = true) :
    Exact held key .le bound (scanned ∪ equal) := by
  intro oid
  rw [Finset.mem_union, below, equals]
  constructor
  · intro either
    cases either with
    | inl found =>
        obtain ⟨stored, listed, less⟩ := found
        exact ⟨stored, listed, (le_iff_eq_or_lt stored bound (plain _ listed)).mpr (Or.inr less)⟩
    | inr listed => exact ⟨bound, listed, le_refl_of_numeric bound numeric⟩
  · intro found
    obtain ⟨stored, listed, least⟩ := found
    cases (le_iff_eq_or_lt stored bound (plain _ listed)).mp least with
    | inl same => exact Or.inr (same ▸ listed)
    | inr less => exact Or.inl ⟨stored, listed, less⟩

variable (above : ∀ oid, oid ∈ scanned ↔ ∃ stored, (key, stored, oid) ∈ held ∧
  bound.le stored = true ∧ stored.lt (typeMax bound) = true)

include above

omit plain in
theorem above_exact_iff :
    Exact held key .gt bound (scanned \ equal) ↔ BoundsFit held key .gt bound := by
  have strict (oid : Nat) : oid ∈ scanned \ equal ↔ (key, bound, oid) ∉ held ∧
      ∃ stored, (key, stored, oid) ∈ held ∧ bound.lt stored = true ∧
        stored.lt (typeMax bound) = true := by
    rw [Finset.mem_sdiff, above, equals, and_comm]
    apply and_congr_right
    intro free
    apply exists_congr
    intro stored
    apply and_congr_right
    intro listed
    rw [le_iff_eq_or_lt bound stored numeric]
    apply and_congr_left'
    constructor
    · intro either
      cases either with
      | inl same => exact absurd (same ▸ listed) free
      | inr less => exact less
    · exact Or.inr
  constructor
  · intro exact_ oid stored listed less
    exact (strict oid).mp ((exact_ oid).mpr ⟨stored, listed, less⟩)
  · intro fits oid
    rw [strict]
    constructor
    · intro found
      obtain ⟨-, stored, listed, less, -⟩ := found
      exact ⟨stored, listed, less⟩
    · intro found
      obtain ⟨stored, listed, less⟩ := found
      exact fits oid stored listed less

private theorem at_least_exact_iff :
    Exact held key .ge bound (scanned ∪ equal) ↔ BoundsFit held key .ge bound := by
  have inclusive (oid : Nat) : oid ∈ scanned ∪ equal ↔
      (∃ stored, (key, stored, oid) ∈ held ∧ bound.le stored = true ∧
        stored.lt (typeMax bound) = true) ∨ (key, bound, oid) ∈ held := by
    rw [Finset.mem_union, above, equals]
  constructor
  · intro exact_ oid greatest
    cases (inclusive oid).mp ((exact_ oid).mpr ⟨_, greatest, le_greatest bound numeric⟩) with
    | inl found => exact Or.inr found
    | inr listed =>
        have itself := le_refl_of_numeric bound numeric
        cases below_or_greatest bound bound numeric numeric itself with
        | inl less => exact Or.inr ⟨bound, listed, itself, less⟩
        | inr same => exact Or.inl same
  · intro fits oid
    rw [inclusive]
    constructor
    · intro either
      cases either with
      | inl found =>
          obtain ⟨stored, listed, least, -⟩ := found
          exact ⟨stored, listed, least⟩
      | inr listed => exact ⟨bound, listed, le_refl_of_numeric bound numeric⟩
    · intro found
      obtain ⟨stored, listed, least⟩ := found
      cases below_or_greatest bound stored numeric (plain _ listed) least with
      | inl less => exact Or.inl ⟨stored, listed, least, less⟩
      | inr same =>
          rw [same] at listed
          cases fits oid listed with
          | inl greatest => exact Or.inr (greatest ▸ listed)
          | inr other => exact Or.inl other

end

/-- A range comparison of an index of numbers and timestamps returns the objects with a stored
value in the relation to the bound just when `BoundsFit`. -/
theorem range_comparison_exact_iff (x : QueryExecutor) (ops : List RangeOp)
    (numbers : ∀ op ∈ ops, Numeric op.value = true) (key : TagId) (op : CmpOp)
    (ranged : op ∈ [CmpOp.lt, .le, .gt, .ge]) (bound : Value) (numeric : Numeric bound = true) :
    (∃ result,
      QueryExecutor.evaluate { x with rangeIndex := RangeOp.run ops } (.hasAttr key op bound) =
        .ok result ∧ Exact (RangeOp.held ops) key op bound result) ↔
      BoundsFit (RangeOp.held ops) key op bound := by
  have holds := run_holds ops numbers
  have plain := held_numeric ops numbers
  have equals := mem_lookup_held holds plain key bound
  obtain ⟨below, foundBelow, membersBelow⟩ := scan_below holds plain key bound numeric
  obtain ⟨above, foundAbove, membersAbove⟩ := scan_above holds plain key bound numeric
  have returns (result : Finset Nat)
      (evaluated : QueryExecutor.evaluate { x with rangeIndex := RangeOp.run ops }
        (.hasAttr key op bound) = .ok result) :
      (∃ set, QueryExecutor.evaluate { x with rangeIndex := RangeOp.run ops }
        (.hasAttr key op bound) = .ok set ∧ Exact (RangeOp.held ops) key op bound set) ↔
        Exact (RangeOp.held ops) key op bound result := by
    simp only [evaluated, Except.ok.injEq, exists_eq_left']
  simp only [List.mem_cons, List.not_mem_nil, or_false] at ranged
  rcases ranged with rfl | rfl | rfl | rfl
  · rw [returns below foundBelow]
    exact iff_of_true membersBelow trivial
  · rw [returns (below ∪ (RangeOp.run ops).lookup key bound)
      (congrArg (Except.map _) foundBelow)]
    exact iff_of_true (at_most_exact plain numeric equals membersBelow) trivial
  · rw [returns (above \ (RangeOp.run ops).lookup key bound)
      (congrArg (Except.map _) foundAbove)]
    exact above_exact_iff numeric equals membersAbove
  · rw [returns (above ∪ (RangeOp.run ops).lookup key bound)
      (congrArg (Except.map _) foundAbove)]
    exact at_least_exact_iff plain numeric equals membersAbove

/-- Objects 1, 2 and 3 with the numbers 4, 5 and 6, and what is above 5. -/
theorem above_five_exact :
    let ops : List RangeOp := [.insert 7 (.int 4) 1, .insert 7 (.int 5) 2, .insert 7 (.int 6) 3]
    (∀ op ∈ ops, Numeric op.value = true) ∧ CmpOp.gt ∈ [CmpOp.lt, .le, .gt, .ge] ∧
      Numeric (.int 5) = true ∧
      ∃ result,
        QueryExecutor.evaluate { QueryExecutor.shelf with rangeIndex := RangeOp.run ops }
            (.hasAttr 7 .gt (.int 5)) = .ok result ∧
          Exact (RangeOp.held ops) 7 .gt (.int 5) result := by
  intro ops
  have numbers : ∀ op ∈ ops, Numeric op.value = true := by decide
  refine ⟨numbers, by decide, rfl, ?_⟩
  apply (range_comparison_exact_iff QueryExecutor.shelf ops numbers 7 .gt (by decide) (.int 5)
    rfl).mpr
  have stored : RangeOp.held ops =
      {(7, .int 6, 3), (7, .int 5, 2), (7, .int 4, 1)} := by decide +kernel
  intro oid value listed less
  rw [stored] at listed ⊢
  simp only [Finset.mem_insert, Finset.mem_singleton, Prod.mk.injEq, true_and] at listed
  rcases listed with ⟨rfl, rfl⟩ | ⟨rfl, rfl⟩ | ⟨rfl, rfl⟩
  · exact ⟨by decide, .int 6, by decide, by decide, by decide⟩
  · exact absurd less (by decide)
  · exact absurd less (by decide)

/-- Object 1 has the greatest number and object 2 has 6 besides 5; neither is found above 5. -/
theorem above_five_missed :
    let ops : List RangeOp := [.insert 7 (.int Int64.maxValue) 1, .insert 7 (.int 5) 2,
      .insert 7 (.int 6) 2]
    QueryExecutor.evaluate { QueryExecutor.shelf with rangeIndex := RangeOp.run ops }
          (.hasAttr 7 .gt (.int 5)) = .ok ∅ ∧
      (7, .int Int64.maxValue, 1) ∈ RangeOp.held ops ∧ (7, .int 6, 2) ∈ RangeOp.held ops ∧
      compares .gt (.int Int64.maxValue) (.int 5) = true ∧
      compares .gt (.int 6) (.int 5) = true ∧ ¬ Exact (RangeOp.held ops) 7 .gt (.int 5) ∅ := by
  intro ops
  have listed : (7, .int 6, 2) ∈ RangeOp.held ops := by decide +kernel
  refine ⟨by decide +kernel, by decide +kernel, listed, by decide, by decide, ?_⟩
  intro exact_
  have found := (exact_ 2).mpr ⟨.int 6, listed, by decide⟩
  cases found

end Mimisbrunnr.Query
