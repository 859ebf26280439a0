import Mimisbrunnr.Lib.Checked
import Mimisbrunnr.Meta.Radix

/-!
# Addresses and paths

The digits of a number are the slot in the leaf, in the base of the leaf, and the
child indices above it, in the base of the inner nodes. What is left above the
root is zero exactly for the numbers that the tree can address. The digits are
put together from the root down, and no step on the way leaves 64 bits.
-/

namespace Mimisbrunnr.Meta

set_option autoImplicit false

open Mimisbrunnr.Lib

theorem inner_fanout_to_nat : innerFanout.toNat = 16380 := rfl

def indexValue : List UInt16 → Nat
  | [] => 0
  | child :: above => indexValue above * innerFanout.toNat + child.toNat

/-- `join_indices` that stops where a step overflows. -/
def joinIndicesChecked : List UInt16 → Checked MetaError Nat
  | [] => .returns 0
  | child :: above => do
      let idx ← joinIndicesChecked above
      let scaled ← Checked.multiply idx innerFanout.toNat
      Checked.add scaled child.toNat

def radixPathToOidChecked (path : RadixPath) (rootLevel : UInt8) (leafFanout : UInt64) :
    Checked MetaError Nat := do
  let idx ← joinIndicesChecked (path.childPath.take rootLevel.toNat)
  let scaled ← Checked.multiply idx leafFanout.toNat
  Checked.add scaled path.leafSlot.toNat

theorem checked_step (idx base digit : Nat) (small : idx * base + digit < 2 ^ 64) :
    (do
      let scaled ← Checked.multiply idx base
      Checked.add scaled digit : Checked MetaError Nat) = .returns (idx * base + digit) := by
  have scaled : idx * base < 2 ^ 64 := by omega
  rw [Checked.multiply, if_pos scaled, Checked.bind_returns, Checked.add_returns _ _ small]

private theorem join_indices_checked (children : List UInt16)
    (small : indexValue children < 2 ^ 64) :
    joinIndicesChecked children = .returns (indexValue children) := by
  induction children with
  | nil => rfl
  | cons child above ih =>
      have below : indexValue above < 2 ^ 64 := by
        rw [indexValue, inner_fanout_to_nat] at small
        omega
      rw [joinIndicesChecked, ih below, Checked.bind_returns]
      exact checked_step _ _ _ small

private theorem join_indices_to_nat (children : List UInt16)
    (small : indexValue children < 2 ^ 64) :
    (joinIndices children).toNat = indexValue children := by
  induction children with
  | nil => rfl
  | cons child above ih =>
      have below : indexValue above < 2 ^ 64 := by
        rw [indexValue, inner_fanout_to_nat] at small
        omega
      rw [joinIndices, UInt64.toNat_add, UInt64.toNat_mul, ih below, UInt16.toNat_toUInt64,
        Nat.mod_add_mod]
      exact Nat.mod_eq_of_lt small

private theorem path_to_oid_of_small (path : RadixPath) (rootLevel : UInt8) (leafFanout : UInt64)
    (base : 0 < leafFanout.toNat)
    (small : indexValue (path.childPath.take rootLevel.toNat) * leafFanout.toNat +
      path.leafSlot.toNat < 2 ^ 64) :
    radixPathToOidChecked path rootLevel leafFanout =
        .returns (indexValue (path.childPath.take rootLevel.toNat) * leafFanout.toNat +
          path.leafSlot.toNat) ∧
      (radixPathToOidWithLeafFanout path rootLevel leafFanout).toNat =
        indexValue (path.childPath.take rootLevel.toNat) * leafFanout.toNat +
          path.leafSlot.toNat := by
  have below : indexValue (path.childPath.take rootLevel.toNat) < 2 ^ 64 := by
    have scaled := Nat.le_mul_of_pos_right
      (indexValue (path.childPath.take rootLevel.toNat)) base
    omega
  constructor
  · rw [radixPathToOidChecked, join_indices_checked _ below, Checked.bind_returns]
    exact checked_step _ _ _ small
  · rw [radixPathToOidWithLeafFanout, UInt64.toNat_add, UInt64.toNat_mul,
      join_indices_to_nat _ below, UInt16.toNat_toUInt64, Nat.mod_add_mod]
    exact Nat.mod_eq_of_lt small

theorem index_value_lt (children : List UInt16)
    (digits : ∀ child ∈ children, child.toNat < innerFanout.toNat) :
    indexValue children < innerFanout.toNat ^ children.length := by
  induction children with
  | nil => exact Nat.one_pos
  | cons child above ih =>
      have first := digits child List.mem_cons_self
      have rest := ih fun other member => digits other (List.mem_cons_of_mem _ member)
      calc
        indexValue (child :: above) < indexValue above * innerFanout.toNat + innerFanout.toNat := by
          rw [indexValue]
          omega
        _ = (indexValue above + 1) * innerFanout.toNat := (Nat.succ_mul _ _).symm
        _ ≤ innerFanout.toNat ^ above.length * innerFanout.toNat :=
          Nat.mul_le_mul_right _ rest
        _ = innerFanout.toNat ^ (child :: above).length := (Nat.pow_succ ..).symm

/-- The child indices are digits, and with what is left they make up the number. -/
theorem child_indices_spec (levels : Nat) :
    ∀ idx : UInt64, (childIndices levels idx).1.length = levels ∧
      (∀ child ∈ (childIndices levels idx).1, child.toNat < innerFanout.toNat) ∧
      (childIndices levels idx).2.toNat * innerFanout.toNat ^ levels +
        indexValue (childIndices levels idx).1 = idx.toNat := by
  induction levels with
  | zero =>
      intro idx
      refine ⟨rfl, ?_, ?_⟩
      · intro child member
        cases member
      · simp [childIndices, indexValue]
  | succ levels ih =>
      intro idx
      obtain ⟨count, digits, value⟩ := ih (idx / innerFanout)
      have digit : (idx % innerFanout).toUInt16.toNat = idx.toNat % innerFanout.toNat := by
        rw [UInt64.toNat_toUInt16, UInt64.toNat_mod]
        have below := Nat.mod_lt idx.toNat (show 0 < innerFanout.toNat by decide)
        rw [inner_fanout_to_nat] at below ⊢
        exact Nat.mod_eq_of_lt (by omega)
      refine ⟨?_, ?_, ?_⟩
      · simp only [childIndices, List.length_cons, count]
      · intro child member
        cases List.mem_cons.mp member with
        | inl same =>
            rw [same, digit]
            exact Nat.mod_lt _ (by decide)
        | inr later => exact digits child later
      · have split := Nat.div_add_mod' idx.toNat innerFanout.toNat
        rw [UInt64.toNat_div] at value
        simp only [childIndices, indexValue, digit]
        calc
          (childIndices levels (idx / innerFanout)).2.toNat * innerFanout.toNat ^ (levels + 1) +
                (indexValue (childIndices levels (idx / innerFanout)).1 * innerFanout.toNat +
                  idx.toNat % innerFanout.toNat)
              = ((childIndices levels (idx / innerFanout)).2.toNat * innerFanout.toNat ^ levels +
                  indexValue (childIndices levels (idx / innerFanout)).1) * innerFanout.toNat +
                  idx.toNat % innerFanout.toNat := by ring
          _ = idx.toNat := by rw [value, split]

theorem child_indices_left (levels : Nat) (idx : UInt64) :
    (childIndices levels idx).2 = 0 ↔ idx.toNat < innerFanout.toNat ^ levels := by
  obtain ⟨count, digits, value⟩ := child_indices_spec levels idx
  have below := index_value_lt _ digits
  rw [count] at below
  rw [← UInt64.toNat_inj]
  constructor
  · intro zero
    rw [zero, UInt64.toNat_zero, Nat.zero_mul, Nat.zero_add] at value
    rw [← value]
    exact below
  · intro small
    by_contra some_left
    have one : 1 ≤ (childIndices levels idx).2.toNat := Nat.one_le_iff_ne_zero.mpr some_left
    have scaled := Nat.mul_le_mul_right (innerFanout.toNat ^ levels) one
    omega

theorem child_indices_of_value (children : List UInt16)
    (digits : ∀ child ∈ children, child.toNat < innerFanout.toNat) :
    ∀ idx : UInt64, idx.toNat = indexValue children →
      childIndices children.length idx = (children, 0) := by
  induction children with
  | nil =>
      intro idx value
      have zero : idx = 0 := UInt64.toNat_inj.mp value
      rw [zero]
      rfl
  | cons child above ih =>
      intro idx value
      have first := digits child List.mem_cons_self
      rw [indexValue] at value
      have quotient : (idx / innerFanout).toNat = indexValue above := by
        rw [UInt64.toNat_div, value, Nat.mul_comm, Nat.mul_add_div (by decide),
          Nat.div_eq_of_lt first, Nat.add_zero]
      have digit : (idx % innerFanout).toUInt16 = child := by
        apply UInt16.toNat_inj.mp
        rw [UInt64.toNat_toUInt16, UInt64.toNat_mod, value, Nat.mul_comm, Nat.mul_add_mod,
          Nat.mod_eq_of_lt first]
        exact Nat.mod_eq_of_lt child.toNat_lt
      rw [List.length_cons, childIndices,
        ih (fun other member => digits other (List.mem_cons_of_mem _ member)) _ quotient, digit]

/-- The digits of a path in a tree of a level. -/
structure RadixPath.InTree (path : RadixPath) (rootLevel : UInt8) (leafFanout : UInt64) : Prop where
  slot : path.leafSlot.toNat < leafFanout.toNat
  depth : path.childPath.length = maxLevels
  children : ∀ child ∈ path.childPath.take rootLevel.toNat, child.toNat < innerFanout.toNat
  unused : ∀ child ∈ path.childPath.drop rootLevel.toNat, child = 0
  levels : path.usedLevels = rootLevel

def pathValue (path : RadixPath) (rootLevel : UInt8) (leafFanout : UInt64) : Nat :=
  indexValue (path.childPath.take rootLevel.toNat) * leafFanout.toNat + path.leafSlot.toNat

section

variable {leafFanout : UInt64} (positive : 0 < leafFanout.toNat) (narrow : leafFanout.toNat ≤ 2 ^ 16)

include positive

private theorem translated_iff (oidLocal : UInt64) (rootLevel : UInt8) :
    (∃ path, oidToRadixPathWithLeafFanout oidLocal rootLevel leafFanout = .ok path) ↔
      rootLevel.toNat ≤ maxLevels ∧
        oidLocal.toNat < leafFanout.toNat * innerFanout.toNat ^ rootLevel.toNat := by
  have left : (childIndices rootLevel.toNat (oidLocal / leafFanout)).2 = 0 ↔
      oidLocal.toNat < leafFanout.toNat * innerFanout.toNat ^ rootLevel.toNat := by
    rw [child_indices_left, UInt64.toNat_div, Nat.div_lt_iff_lt_mul positive, Nat.mul_comm]
  rw [← left, oidToRadixPathWithLeafFanout]
  by_cases high : maxLevels < rootLevel.toNat
  · rw [if_pos high]
    constructor
    · intro found
      obtain ⟨path, impossible⟩ := found
      cases impossible
    · intro both
      exact absurd both.1 (Nat.not_le.mpr high)
  · rw [if_neg high]
    by_cases zero : (childIndices rootLevel.toNat (oidLocal / leafFanout)).2 = 0
    · simp only [ne_eq, zero, not_true_eq_false, if_false, and_true]
      exact iff_of_true ⟨_, rfl⟩ (Nat.le_of_not_lt high)
    · simp only [ne_eq, zero, not_false_eq_true, if_true, and_false, iff_false]
      intro found
      obtain ⟨path, impossible⟩ := found
      cases impossible

theorem path_translated (oidLocal : UInt64) (rootLevel : UInt8) (path : RadixPath)
    (low : rootLevel.toNat ≤ maxLevels) (inTree : path.InTree rootLevel leafFanout)
    (value : oidLocal.toNat = pathValue path rootLevel leafFanout) :
    oidToRadixPathWithLeafFanout oidLocal rootLevel leafFanout = .ok path := by
  have count : (path.childPath.take rootLevel.toNat).length = rootLevel.toNat := by
    rw [List.length_take, inTree.depth]
    exact Nat.min_eq_left low
  have quotient : (oidLocal / leafFanout).toNat =
      indexValue (path.childPath.take rootLevel.toNat) := by
    rw [UInt64.toNat_div, value, pathValue, Nat.mul_comm, Nat.mul_add_div positive,
      Nat.div_eq_of_lt inTree.slot, Nat.add_zero]
  have slot : (oidLocal % leafFanout).toUInt16 = path.leafSlot := by
    apply UInt16.toNat_inj.mp
    rw [UInt64.toNat_toUInt16, UInt64.toNat_mod, value, pathValue, Nat.mul_comm,
      Nat.mul_add_mod, Nat.mod_eq_of_lt inTree.slot]
    exact Nat.mod_eq_of_lt path.leafSlot.toNat_lt
  have digits := child_indices_of_value _ inTree.children _ quotient
  rw [count] at digits
  have above : path.childPath.drop rootLevel.toNat =
      List.replicate (maxLevels - rootLevel.toNat) 0 := by
    rw [List.eq_replicate_iff]
    refine ⟨?_, inTree.unused⟩
    rw [List.length_drop, inTree.depth]
  have whole := List.take_append_drop rootLevel.toNat path.childPath
  rw [above] at whole
  rw [oidToRadixPathWithLeafFanout, if_neg (Nat.not_lt.mpr low), digits]
  simp only [ne_eq, not_true_eq_false, if_false, slot, whole]
  rw [← inTree.levels]

include narrow

theorem translated_path (oidLocal : UInt64) (rootLevel : UInt8) (path : RadixPath)
    (ok : oidToRadixPathWithLeafFanout oidLocal rootLevel leafFanout = .ok path) :
    path.InTree rootLevel leafFanout ∧ pathValue path rootLevel leafFanout = oidLocal.toNat := by
  rw [oidToRadixPathWithLeafFanout] at ok
  split at ok
  · cases ok
  · next low =>
      obtain ⟨count, digits, value⟩ :=
        child_indices_spec rootLevel.toNat (oidLocal / leafFanout)
      dsimp only at ok
      split at ok
      · cases ok
      · next zero =>
          cases ok
          have slot : (oidLocal % leafFanout).toUInt16.toNat =
              oidLocal.toNat % leafFanout.toNat := by
            rw [UInt64.toNat_toUInt16, UInt64.toNat_mod]
            have below := Nat.mod_lt oidLocal.toNat positive
            exact Nat.mod_eq_of_lt (by omega)
          have used : ((childIndices rootLevel.toNat (oidLocal / leafFanout)).1 ++
              List.replicate (maxLevels - rootLevel.toNat) (0 : UInt16)).take rootLevel.toNat =
                (childIndices rootLevel.toNat (oidLocal / leafFanout)).1 :=
            List.take_left' count
          constructor
          · constructor
            · rw [slot]
              exact Nat.mod_lt _ positive
            · rw [List.length_append, count, List.length_replicate]
              omega
            · rw [used]
              exact digits
            · rw [List.drop_left' count]
              intro child member
              exact List.eq_of_mem_replicate member
            · rfl
          · rw [not_not] at zero
            rw [zero, UInt64.toNat_zero, Nat.zero_mul, Nat.zero_add, UInt64.toNat_div] at value
            rw [pathValue, used, slot, value]
            exact Nat.div_add_mod' _ _

end

/-- Translation and its inverse are a bijection between the numbers that a tree can address and
the paths in it. -/
structure AddressesBijectively (leafFanout : UInt64) : Prop where
  translated : ∀ rootLevel oidLocal,
    (∃ path, oidToRadixPathWithLeafFanout oidLocal rootLevel leafFanout = .ok path) ↔
      rootLevel.toNat ≤ maxLevels ∧
        oidLocal.toNat < leafFanout.toNat * innerFanout.toNat ^ rootLevel.toNat
  digits : ∀ rootLevel oidLocal path,
    oidToRadixPathWithLeafFanout oidLocal rootLevel leafFanout = .ok path →
      path.InTree rootLevel leafFanout
  back : ∀ rootLevel oidLocal path,
    oidToRadixPathWithLeafFanout oidLocal rootLevel leafFanout = .ok path →
      radixPathToOidChecked path rootLevel leafFanout = .returns oidLocal.toNat ∧
        radixPathToOidWithLeafFanout path rootLevel leafFanout = oidLocal
  distinct : ∀ rootLevel oidLocal other path,
    oidToRadixPathWithLeafFanout oidLocal rootLevel leafFanout = .ok path →
      oidToRadixPathWithLeafFanout other rootLevel leafFanout = .ok path → oidLocal = other
  onto : ∀ (rootLevel : UInt8) (path : RadixPath), rootLevel.toNat ≤ maxLevels →
    path.InTree rootLevel leafFanout →
      oidToRadixPathWithLeafFanout (radixPathToOidWithLeafFanout path rootLevel leafFanout)
        rootLevel leafFanout = .ok path
  wide : ∀ oidLocal : UInt64, oidLocal.toNat < 2 ^ 48 →
    ∃ path, oidToRadixPathWithLeafFanout oidLocal 3 leafFanout = .ok path

theorem addresses_bijectively (leafFanout : UInt64) (some_slots : 2044 ≤ leafFanout.toNat)
    (few_slots : leafFanout.toNat ≤ 2 ^ 16) : AddressesBijectively leafFanout := by
  have positive : 0 < leafFanout.toNat := by omega
  have inverse (rootLevel : UInt8) (path : RadixPath)
      (small : pathValue path rootLevel leafFanout < 2 ^ 64) :=
    path_to_oid_of_small path rootLevel leafFanout positive small
  have back (rootLevel : UInt8) (oidLocal : UInt64) (path : RadixPath)
      (ok : oidToRadixPathWithLeafFanout oidLocal rootLevel leafFanout = .ok path) :
      radixPathToOidChecked path rootLevel leafFanout = .returns oidLocal.toNat ∧
        radixPathToOidWithLeafFanout path rootLevel leafFanout = oidLocal := by
    obtain ⟨inTree, value⟩ := translated_path positive few_slots oidLocal rootLevel path ok
    obtain ⟨checked, wrapped⟩ := inverse rootLevel path (by rw [value]; exact oidLocal.toNat_lt)
    rw [pathValue] at value
    rw [value] at checked wrapped
    exact ⟨checked, UInt64.toNat_inj.mp wrapped⟩
  constructor
  · intro rootLevel oidLocal
    exact translated_iff positive oidLocal rootLevel
  · intro rootLevel oidLocal path ok
    exact (translated_path positive few_slots oidLocal rootLevel path ok).1
  · exact back
  · intro rootLevel oidLocal other path first second
    exact (back rootLevel oidLocal path first).2.symm.trans (back rootLevel other path second).2
  · intro rootLevel path low inTree
    have digits := index_value_lt _ inTree.children
    have count : (path.childPath.take rootLevel.toNat).length ≤ maxLevels := by
      rw [List.length_take]
      exact Nat.le_trans (Nat.min_le_left _ _) low
    have bound : indexValue (path.childPath.take rootLevel.toNat) < innerFanout.toNat ^ maxLevels :=
      Nat.lt_of_lt_of_le digits (Nat.pow_le_pow_right (by decide) count)
    have small : pathValue path rootLevel leafFanout < 2 ^ 64 := by
      have slot := inTree.slot
      have product := Nat.mul_le_mul (Nat.le_of_lt bound) few_slots
      have room : innerFanout.toNat ^ maxLevels * 2 ^ 16 + 2 ^ 16 < 2 ^ 64 := by decide
      rw [pathValue]
      omega
    apply path_translated positive _ _ _ low inTree
    exact (inverse rootLevel path small).2
  · intro oidLocal narrow
    rw [translated_iff positive]
    refine ⟨by decide, ?_⟩
    have room : 2 ^ 48 ≤ 2044 * innerFanout.toNat ^ (3 : UInt8).toNat := by decide
    have scaled := Nat.mul_le_mul_right (innerFanout.toNat ^ (3 : UInt8).toNat) some_slots
    omega

/-- The identifiers of both tables are addressed by paths one to one, 48-bit numbers all of them
at the third level. -/
theorem tables_address_bijectively :
    AddressesBijectively (UInt64.ofNat leafRecords) ∧
      AddressesBijectively (UInt64.ofNat leafRecordsLocation) :=
  ⟨addresses_bijectively _ (by decide) (by decide), addresses_bijectively _ (by decide) (by decide)⟩

end Mimisbrunnr.Meta
