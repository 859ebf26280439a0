import Mathlib.Tactic.TypeStar

/-!
# Disks

The media, tiers and states of the disks of a pool, with the bytes that stand
for them on a disk.
-/

namespace Mimisbrunnr.Types

set_option autoImplicit false

inductive MediaType where
  | nvme
  | ssd
  | hdd
  | smrHdd
  | remote
deriving DecidableEq, Repr

def MediaType.toU8 : MediaType → UInt8
  | nvme => 0
  | ssd => 1
  | hdd => 2
  | smrHdd => 3
  | remote => 4

inductive StorageTier where
  | hot
  | warm
  | cold
  | glacier
deriving DecidableEq, Repr

def StorageTier.toU8 : StorageTier → UInt8
  | hot => 0
  | warm => 1
  | cold => 2
  | glacier => 3

inductive DiskState where
  | online
  | draining
  | removed
  | faulted
deriving DecidableEq, Repr

namespace DiskState

def toU8 : DiskState → UInt8
  | online => 0
  | draining => 1
  | removed => 2
  | faulted => 3

def all : List DiskState := [online, draining, removed, faulted]

def fromU8 (value : UInt8) : Option DiskState := all.find? fun state => state.toU8 = value

theorem from_to_u8 (state : DiskState) : fromU8 state.toU8 = some state := by
  cases state <;> decide

end DiskState

end Mimisbrunnr.Types
