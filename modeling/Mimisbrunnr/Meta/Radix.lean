import Mimisbrunnr.Storage.Device

/-!
# Radix addresses

A local number is the slot in a leaf and, above it, one child index for each
level of inner nodes. The tables of objects and of locations differ in the
number of slots of a leaf. Today's tables are single leaves, with no inner node.
-/

namespace Mimisbrunnr.Meta

set_option autoImplicit false

open Mimisbrunnr.Storage

inductive MetaError where
  | storage (err : StorageError)
  | invalidObjectState (value : UInt8)
  | invalidCompressionState (value : UInt8)
  | invalidEncryptionState (value : UInt8)
  | invalidOwnerKind (value : UInt8)
  | bufferTooSmall (needed got : Nat)
  | invalidReplicaCount (count : UInt8)
  | oidOutOfRange (oidLocal : UInt64) (rootLevel : UInt8)
deriving DecidableEq, Repr

def maxLevels : Nat := 3

def leafRecords : Nat := 2044

def leafRecordsLocation : Nat := 5440

def innerFanout : UInt64 := 16380

structure RadixPath where
  leafSlot : UInt16
  childPath : List UInt16
  usedLevels : UInt8
deriving DecidableEq, Repr

/-- The child indices of some levels, and what is left of the number. -/
def childIndices : Nat → UInt64 → List UInt16 × UInt64
  | 0, idx => ([], idx)
  | levels + 1, idx =>
      let (above, left) := childIndices levels (idx / innerFanout)
      ((idx % innerFanout).toUInt16 :: above, left)

def oidToRadixPathWithLeafFanout (oidLocal : UInt64) (rootLevel : UInt8) (leafFanout : UInt64) :
    Except MetaError RadixPath :=
  if maxLevels < rootLevel.toNat then .error (.oidOutOfRange oidLocal rootLevel)
  else
    let (children, left) := childIndices rootLevel.toNat (oidLocal / leafFanout)
    if left ≠ 0 then .error (.oidOutOfRange oidLocal rootLevel)
    else
      .ok
        { leafSlot := (oidLocal % leafFanout).toUInt16
          childPath := children ++ List.replicate (maxLevels - rootLevel.toNat) 0
          usedLevels := rootLevel }

def joinIndices : List UInt16 → UInt64
  | [] => 0
  | child :: above => joinIndices above * innerFanout + child.toUInt64

def radixPathToOidWithLeafFanout (path : RadixPath) (rootLevel : UInt8) (leafFanout : UInt64) :
    UInt64 :=
  joinIndices (path.childPath.take rootLevel.toNat) * leafFanout + path.leafSlot.toUInt64

/-- In a single leaf the slot is the number itself. -/
theorem radix_path_of_leaf (oidLocal : UInt64) (leafFanout : Nat) (some_slot : 0 < leafFanout)
    (few : leafFanout < 2 ^ 16) :
    oidToRadixPathWithLeafFanout oidLocal 0 (UInt64.ofNat leafFanout) =
      if oidLocal.toNat < leafFanout then
        .ok
          { leafSlot := UInt16.ofNat oidLocal.toNat
            childPath := [0, 0, 0]
            usedLevels := 0 }
      else .error (.oidOutOfRange oidLocal 0) := by
  have fanout : (UInt64.ofNat leafFanout).toNat = leafFanout := by
    rw [UInt64.toNat_ofNat']
    exact Nat.mod_eq_of_lt (by omega)
  have level : ¬ maxLevels < (0 : UInt8).toNat := by decide
  have none (idx : UInt64) : childIndices (0 : UInt8).toNat idx = ([], idx) := rfl
  rw [oidToRadixPathWithLeafFanout, if_neg level, none]
  dsimp only
  by_cases inside : oidLocal.toNat < leafFanout
  · have zero : oidLocal / UInt64.ofNat leafFanout = 0 := by
      apply UInt64.toNat_inj.mp
      rw [UInt64.toNat_div, fanout]
      exact Nat.div_eq_of_lt inside
    have slot : (oidLocal % UInt64.ofNat leafFanout).toUInt16 = UInt16.ofNat oidLocal.toNat := by
      apply UInt16.toNat_inj.mp
      rw [UInt64.toNat_toUInt16, UInt64.toNat_mod, fanout, Nat.mod_eq_of_lt inside,
        UInt16.toNat_ofNat']
    rw [if_neg (by simp [zero]), if_pos inside, slot]
    rfl
  · have left : oidLocal / UInt64.ofNat leafFanout ≠ 0 := by
      intro zero
      have value := congrArg UInt64.toNat zero
      rw [UInt64.toNat_div, fanout] at value
      have : 0 < oidLocal.toNat / leafFanout := Nat.div_pos (by omega) some_slot
      rw [value] at this
      exact absurd this (by decide)
    rw [if_pos left, if_neg inside]

end Mimisbrunnr.Meta
