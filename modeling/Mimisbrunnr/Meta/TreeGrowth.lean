import Mathlib.Data.List.Lex
import Mimisbrunnr.Meta.RadixPaths

/-!
# Growing a tree

A tree grows when its root becomes the first child of a new root. The child
indices of a path are stored with the lowest level first, so the index that growth
adds comes last and not, as the order from the root to the leaf asks, in front.
-/

namespace Mimisbrunnr.Meta

set_option autoImplicit false

def RadixPath.rootToLeaf (path : RadixPath) : List UInt16 :=
  path.childPath.take path.usedLevels.toNat ++ [path.leafSlot]

theorem child_indices_of_grown (levels : Nat) :
    ∀ idx : UInt64, (childIndices levels idx).2 = 0 →
      childIndices (levels + 1) idx = ((childIndices levels idx).1 ++ [0], 0) := by
  induction levels with
  | zero =>
      intro idx zero
      have none : idx = 0 := zero
      rw [none]
      rfl
  | succ levels ih =>
      intro idx zero
      rw [childIndices, ih (idx / innerFanout) zero]
      rfl

private theorem shifted_iff (children : List UInt16) :
    children ++ [0] = 0 :: children ↔ ∀ child ∈ children, child = 0 := by
  induction children with
  | nil => simp
  | cons child children ih =>
      rw [List.cons_append, List.cons.injEq, List.forall_mem_cons]
      constructor
      · intro same
        have zero : child = 0 := same.1
        have rest := same.2
        rw [zero] at rest
        exact ⟨zero, ih.mp rest⟩
      · intro zero
        rw [zero.1]
        exact ⟨rfl, ih.mpr zero.2⟩

private theorem index_value_zero (children : List UInt16) :
    indexValue children = 0 ↔ ∀ child ∈ children, child = 0 := by
  induction children with
  | nil => simp [indexValue]
  | cons child above ih =>
      rw [indexValue, Nat.add_eq_zero_iff, Nat.mul_eq_zero, inner_fanout_to_nat,
        List.forall_mem_cons, ← ih, ← UInt16.toNat_inj, UInt16.toNat_zero]
      constructor
      · intro both
        cases both.1 with
        | inl above => exact ⟨both.2, above⟩
        | inr impossible => cases impossible
      · intro both
        exact ⟨Or.inl both.2, both.1⟩

/-- What a translation returns, digit by digit. -/
theorem translation_eq (oidLocal : UInt64) (rootLevel : UInt8) (leafFanout : UInt64)
    (path : RadixPath)
    (ok : oidToRadixPathWithLeafFanout oidLocal rootLevel leafFanout = .ok path) :
    rootLevel.toNat ≤ maxLevels ∧ (childIndices rootLevel.toNat (oidLocal / leafFanout)).2 = 0 ∧
      path.leafSlot = (oidLocal % leafFanout).toUInt16 ∧
      path.rootToLeaf = (childIndices rootLevel.toNat (oidLocal / leafFanout)).1 ++
        [(oidLocal % leafFanout).toUInt16] := by
  rw [oidToRadixPathWithLeafFanout] at ok
  split at ok
  · cases ok
  · next low =>
      dsimp only at ok
      split at ok
      · cases ok
      · next zero =>
          have count := (child_indices_spec rootLevel.toNat (oidLocal / leafFanout)).1
          cases ok
          refine ⟨Nat.le_of_not_lt low, not_not.mp zero, rfl, ?_⟩
          rw [RadixPath.rootToLeaf, List.take_left' count]

private theorem translation_of_left (oidLocal : UInt64) (rootLevel : UInt8) (leafFanout : UInt64)
    (low : rootLevel.toNat ≤ maxLevels)
    (zero : (childIndices rootLevel.toNat (oidLocal / leafFanout)).2 = 0) :
    ∃ path, oidToRadixPathWithLeafFanout oidLocal rootLevel leafFanout = .ok path := by
  rw [oidToRadixPathWithLeafFanout, if_neg (Nat.not_lt.mpr low)]
  dsimp only
  rw [if_neg (not_not.mpr zero)]
  exact ⟨_, rfl⟩

/-- In the grown tree, the path of a number is the one that it had, below the first child. -/
def KeepsAddress (leafFanout oidLocal : UInt64) (rootLevel : UInt8) (path : RadixPath) : Prop :=
  ∃ grown, oidToRadixPathWithLeafFanout oidLocal (rootLevel + 1) leafFanout = .ok grown ∧
    grown.rootToLeaf = 0 :: path.rootToLeaf ∧ grown.leafSlot = path.leafSlot

section

variable {leafFanout : UInt64}

private theorem keeps_address_iff (positive : 0 < leafFanout.toNat) (oidLocal : UInt64)
    (rootLevel : UInt8) (path : RadixPath) (low : rootLevel.toNat < maxLevels)
    (ok : oidToRadixPathWithLeafFanout oidLocal rootLevel leafFanout = .ok path) :
    KeepsAddress leafFanout oidLocal rootLevel path ↔ oidLocal.toNat < leafFanout.toNat := by
  obtain ⟨-, zero, slot, route⟩ := translation_eq oidLocal rootLevel leafFanout path ok
  have next : (rootLevel + 1).toNat = rootLevel.toNat + 1 := by
    have three : maxLevels = 3 := rfl
    rw [UInt8.toNat_add]
    exact Nat.mod_eq_of_lt (by change rootLevel.toNat + 1 < 256; omega)
  have indices := child_indices_of_grown rootLevel.toNat (oidLocal / leafFanout) zero
  rw [← next] at indices
  have left : (childIndices (rootLevel + 1).toNat (oidLocal / leafFanout)).2 = 0 := by
    rw [indices]
  obtain ⟨grown, grows⟩ := translation_of_left oidLocal (rootLevel + 1) leafFanout
    (by rw [next]; exact low) left
  obtain ⟨-, -, slot', route'⟩ := translation_eq oidLocal (rootLevel + 1) leafFanout grown grows
  rw [indices] at route'
  have value := (child_indices_spec rootLevel.toNat (oidLocal / leafFanout)).2.2
  rw [zero, UInt64.toNat_zero, Nat.zero_mul, Nat.zero_add, UInt64.toNat_div] at value
  calc
    KeepsAddress leafFanout oidLocal rootLevel path
        ↔ grown.rootToLeaf = 0 :: path.rootToLeaf := by
          constructor
          · intro kept
            obtain ⟨other, again, same, -⟩ := kept
            rw [grows] at again
            cases again
            exact same
          · intro same
            exact ⟨grown, grows, same, slot'.trans slot.symm⟩
    _ ↔ (childIndices rootLevel.toNat (oidLocal / leafFanout)).1 ++ [0] =
          0 :: (childIndices rootLevel.toNat (oidLocal / leafFanout)).1 := by
          rw [route', route, ← List.cons_append]
          exact List.append_left_inj _
    _ ↔ indexValue (childIndices rootLevel.toNat (oidLocal / leafFanout)).1 = 0 := by
          rw [shifted_iff, index_value_zero]
    _ ↔ oidLocal.toNat < leafFanout.toNat := by
          rw [value, Nat.div_eq_zero_iff]
          exact or_iff_right (Nat.ne_of_gt positive)

/-- Two paths are compared by the lowest level first. -/
theorem indices_lt_iff (levels : Nat) (idx other : UInt64) (slot slot' : UInt16) :
    (childIndices (levels + 1) idx).1 ++ [slot] < (childIndices (levels + 1) other).1 ++ [slot'] ↔
      idx.toNat % innerFanout.toNat < other.toNat % innerFanout.toNat ∨
        idx.toNat % innerFanout.toNat = other.toNat % innerFanout.toNat ∧
          (childIndices levels (idx / innerFanout)).1 ++ [slot] <
            (childIndices levels (other / innerFanout)).1 ++ [slot'] := by
  have digit (number : UInt64) :
      (number % innerFanout).toUInt16.toNat = number.toNat % innerFanout.toNat := by
    have below := Nat.mod_lt number.toNat (show 0 < innerFanout.toNat by decide)
    rw [inner_fanout_to_nat] at below
    rw [UInt64.toNat_toUInt16, UInt64.toNat_mod, inner_fanout_to_nat]
    exact Nat.mod_eq_of_lt (by omega)
  simp only [childIndices, List.cons_append, List.cons_lt_cons_iff]
  rw [UInt16.lt_iff_toNat_lt, ← UInt16.toNat_inj, digit, digit]

def levelIndex (leafFanout oidLocal : UInt64) (level : Nat) : Nat :=
  oidLocal.toNat / leafFanout.toNat / innerFanout.toNat ^ level % innerFanout.toNat

/-- The numbers whose paths, read from the root, come in their own order. -/
def InPathOrder (leafFanout : UInt64) (rootLevel : UInt8) (oidLocal other : UInt64) : Prop :=
  rootLevel.toNat ≤ 1 ∨ levelIndex leafFanout oidLocal 0 < levelIndex leafFanout other 0 ∨
    levelIndex leafFanout oidLocal 0 = levelIndex leafFanout other 0 ∧
      (rootLevel.toNat = 2 ∨ levelIndex leafFanout oidLocal 1 ≤ levelIndex leafFanout other 1)

private theorem path_order_iff (positive : 0 < leafFanout.toNat)
    (narrow : leafFanout.toNat ≤ 2 ^ 16)
    (oidLocal other : UInt64) (rootLevel : UInt8) (path path' : RadixPath)
    (ok : oidToRadixPathWithLeafFanout oidLocal rootLevel leafFanout = .ok path)
    (ok' : oidToRadixPathWithLeafFanout other rootLevel leafFanout = .ok path')
    (less : oidLocal < other) :
    path.rootToLeaf < path'.rootToLeaf ↔ InPathOrder leafFanout rootLevel oidLocal other := by
  obtain ⟨low, zero, -, route⟩ := translation_eq oidLocal rootLevel leafFanout path ok
  obtain ⟨-, zero', -, route'⟩ := translation_eq other rootLevel leafFanout path' ok'
  rw [child_indices_left, UInt64.toNat_div] at zero zero'
  have slots (number : UInt64) :
      (number % leafFanout).toUInt16.toNat = number.toNat % leafFanout.toNat := by
    have below := Nat.mod_lt number.toNat positive
    rw [UInt64.toNat_toUInt16, UInt64.toNat_mod]
    exact Nat.mod_eq_of_lt (by omega)
  have leaves : oidLocal.toNat / leafFanout.toNat < other.toNat / leafFanout.toNat ∨
      oidLocal.toNat / leafFanout.toNat = other.toNat / leafFanout.toNat ∧
        oidLocal.toNat % leafFanout.toNat < other.toNat % leafFanout.toNat := by
    have numbers := UInt64.lt_iff_toNat_lt.mp less
    cases Nat.lt_or_eq_of_le (Nat.div_le_div_right (c := leafFanout.toNat) (Nat.le_of_lt numbers)) with
    | inl below => exact Or.inl below
    | inr same =>
        have split := Nat.div_add_mod' oidLocal.toNat leafFanout.toNat
        have split' := Nat.div_add_mod' other.toNat leafFanout.toNat
        rw [same] at split
        exact Or.inr ⟨same, by omega⟩
  have last (left right : UInt64) :
      (childIndices 0 left).1 ++ [(oidLocal % leafFanout).toUInt16] <
          (childIndices 0 right).1 ++ [(other % leafFanout).toUInt16] ↔
        oidLocal.toNat % leafFanout.toNat < other.toNat % leafFanout.toNat := by
    rw [← slots, ← slots, ← UInt16.lt_iff_toNat_lt]
    change [_] < [_] ↔ _
    rw [List.cons_lt_cons_iff]
    exact or_iff_left fun both => absurd both.2 (List.not_lt_nil _)
  have three : maxLevels = 3 := rfl
  have levels : rootLevel.toNat = 0 ∨ rootLevel.toNat = 1 ∨ rootLevel.toNat = 2 ∨
      rootLevel.toNat = 3 := by omega
  have above (number : UInt64) : (number / innerFanout).toNat = number.toNat / innerFanout.toNat :=
    UInt64.toNat_div number innerFanout
  have first := UInt64.toNat_div oidLocal leafFanout
  have second := UInt64.toNat_div other leafFanout
  rw [route, route', InPathOrder, levelIndex, levelIndex, levelIndex, levelIndex, ← first,
    ← second, pow_zero, pow_one, Nat.div_one, Nat.div_one]
  rw [← first] at zero leaves
  rw [← second] at zero' leaves
  rcases levels with level | level | level | level
  · rw [level, inner_fanout_to_nat] at zero zero'
    rw [level, last]
    omega
  · rw [level, inner_fanout_to_nat] at zero zero'
    rw [level, indices_lt_iff, last, inner_fanout_to_nat]
    omega
  · rw [level, inner_fanout_to_nat] at zero zero'
    rw [level, indices_lt_iff, indices_lt_iff, last, above, above, inner_fanout_to_nat]
    omega
  · rw [level, inner_fanout_to_nat] at zero zero'
    rw [level, indices_lt_iff, indices_lt_iff, indices_lt_iff, last]
    simp only [above, inner_fanout_to_nat]
    omega

end

/-- In both tables, growth keeps the address of a number just when the number is in the first leaf,
and two numbers have paths in their own order just when their lowest indices are. -/
theorem growth_keeps_first_leaf (leafFanout : UInt64)
    (table : leafFanout = UInt64.ofNat leafRecords ∨ leafFanout = UInt64.ofNat leafRecordsLocation) :
    (∀ (rootLevel : UInt8) (oidLocal : UInt64) (path : RadixPath), rootLevel.toNat < maxLevels →
      oidToRadixPathWithLeafFanout oidLocal rootLevel leafFanout = .ok path →
        (KeepsAddress leafFanout oidLocal rootLevel path ↔
          oidLocal.toNat < leafFanout.toNat)) ∧
    ∀ (rootLevel : UInt8) (oidLocal other : UInt64) (path path' : RadixPath),
      oidToRadixPathWithLeafFanout oidLocal rootLevel leafFanout = .ok path →
        oidToRadixPathWithLeafFanout other rootLevel leafFanout = .ok path' →
          oidLocal < other →
            (path.rootToLeaf < path'.rootToLeaf ↔
              InPathOrder leafFanout rootLevel oidLocal other) := by
  have few : 0 < leafFanout.toNat ∧ leafFanout.toNat ≤ 2 ^ 16 := by
    cases table with
    | inl objects =>
        rw [objects]
        decide
    | inr locations =>
        rw [locations]
        decide
  constructor
  · intro rootLevel oidLocal path low ok
    exact keeps_address_iff few.1 oidLocal rootLevel path low ok
  · intro rootLevel oidLocal other path path' ok ok' less
    exact path_order_iff few.1 few.2 oidLocal other rootLevel path path' ok ok' less

theorem growth_keeps_first_leaf_objects :
    let path : RadixPath := ⟨7, [0, 0, 0], 1⟩
    oidToRadixPathWithLeafFanout 7 1 (UInt64.ofNat leafRecords) = .ok path ∧
      KeepsAddress (UInt64.ofNat leafRecords) 7 1 path := by
  have ok : oidToRadixPathWithLeafFanout 7 1 (UInt64.ofNat leafRecords) =
      .ok ⟨7, [0, 0, 0], 1⟩ := by decide +kernel
  exact ⟨ok, ((growth_keeps_first_leaf _ (Or.inl rfl)).1 1 7 _ (by decide) ok).mpr (by decide)⟩

/-- The first number of the second leaf goes below the second child of the grown root. -/
theorem growth_moves_second_leaf :
    ∃ path grown,
      oidToRadixPathWithLeafFanout 2044 1 (UInt64.ofNat leafRecords) = .ok path ∧
        oidToRadixPathWithLeafFanout 2044 2 (UInt64.ofNat leafRecords) = .ok grown ∧
          path.rootToLeaf = [1, 0] ∧ grown.rootToLeaf = [1, 0, 0] ∧
            ¬ KeepsAddress (UInt64.ofNat leafRecords) 2044 1 path := by
  have grows : oidToRadixPathWithLeafFanout 2044 2 (UInt64.ofNat leafRecords) =
      .ok ⟨0, [1, 0, 0], 2⟩ := by decide +kernel
  refine ⟨⟨0, [1, 0, 0], 1⟩, ⟨0, [1, 0, 0], 2⟩, by decide +kernel, grows, rfl, rfl, ?_⟩
  rintro ⟨grown, again, route, -⟩
  have same := grows.symm.trans again
  cases same
  cases route

end Mimisbrunnr.Meta
