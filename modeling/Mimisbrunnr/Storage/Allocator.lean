import Mimisbrunnr.Storage.Buckets
import Mimisbrunnr.Storage.RootPointer

/-!
# The bucket allocator

Buckets past the pinned ones are handed out in the order of their numbers, the
first free one first. A reference names the first block of its bucket and the
generation the bucket had when it was claimed; the numbers of blocks are words
of 32 bits.
-/

namespace Mimisbrunnr.Storage

set_option autoImplicit false

open Mimisbrunnr.Lib.FiniteMap

inductive BucketDataType where
  | free
  | wal
  | index
  | metadata
  | blob
  | btreeNode
  | stripe
  | needDiscard
  | reserved
deriving DecidableEq, Repr

def BucketDataType.code : BucketDataType → UInt8
  | free => 0
  | wal => 1
  | index => 2
  | metadata => 3
  | blob => 4
  | btreeNode => 5
  | stripe => 6
  | needDiscard => 7
  | reserved => 8

theorem BucketDataType.code_ne_free (dataType : BucketDataType) (other : dataType ≠ free) :
    dataType.code ≠ BucketDataType.free.code := by
  cases dataType <;> first | exact absurd rfl other | decide

def blockSizeLog2 : UInt8 := 12

/-- Shifts of machine words take the amount modulo the width of the word. -/
def blockNoToBucket (blockNo : UInt32) (bucketSizeLog2 : UInt8) : UInt32 × UInt32 :=
  let shift := (bucketSizeLog2 - blockSizeLog2).toUInt32
  (blockNo >>> shift, blockNo &&& (((1 : UInt32) <<< shift) - 1))

structure BucketAllocator where
  table : BucketAllocTable
  bucketSizeLog2 : UInt8
  firstUsableBucket : UInt32
  totalBuckets : UInt32
  diskId : UInt16
  wide : blockSizeLog2 ≤ bucketSizeLog2
  ordered : firstUsableBucket ≤ totalBuckets

namespace BucketAllocator

def bucketSize (a : BucketAllocator) : UInt64 := (1 : UInt64) <<< a.bucketSizeLog2.toUInt64

def blockRefOffset (_a : BucketAllocator) (blockRef : BlockRef) : UInt64 :=
  blockRef.blockNo.toUInt64 <<< blockSizeLog2.toUInt64

def usableBuckets (a : BucketAllocator) : List UInt32 :=
  (List.range' a.firstUsableBucket.toNat
    (a.totalBuckets.toNat - a.firstUsableBucket.toNat)).map UInt32.ofNat

def isFree (a : BucketAllocator) (bucketNo : UInt32) : Bool :=
  match a.table.lookup bucketNo with
  | none => true
  | some entry => entry.dataType == BucketDataType.free.code

def lastGeneration : UInt32 := 4294967295

def prevGeneration (a : BucketAllocator) (bucketNo : UInt32) : UInt32 :=
  ((a.table.lookup bucketNo).map BucketAllocEntry.generation).getD 0

/-- The generation a bucket gets when it is claimed; counting stops at the last
one. -/
def nextGeneration (a : BucketAllocator) (bucketNo : UInt32) : UInt32 :=
  if a.prevGeneration bucketNo = lastGeneration then lastGeneration
  else a.prevGeneration bucketNo + 1

def blockNo (a : BucketAllocator) (bucketNo : UInt32) : UInt32 :=
  bucketNo <<< (a.bucketSizeLog2 - blockSizeLog2).toUInt32

def blockRef (a : BucketAllocator) (bucketNo generation : UInt32) : BlockRef :=
  { diskId := a.diskId, pad := 0, blockNo := a.blockNo bucketNo,
    generation := generation.toUInt64 }

/-- An entry just written, with nothing recorded about its sectors. -/
def freshEntry (generation : UInt32) (dataType : BucketDataType) : BucketAllocEntry :=
  { generation := generation, dataType := dataType.code, flags := 0, dirtySectors := 0,
    lastModifyLsn := 0 }

def setEntry (a : BucketAllocator) (bucketNo : UInt32) (entry : BucketAllocEntry) :
    BucketAllocator :=
  { a with table := a.table.insert bucketNo entry }

def alloc (a : BucketAllocator) (dataType : BucketDataType) :
    Except StorageError BlockRef × BucketAllocator :=
  match a.usableBuckets.find? a.isFree with
  | some bucketNo =>
      let newGen := a.nextGeneration bucketNo
      (.ok (a.blockRef bucketNo newGen), a.setEntry bucketNo (freshEntry newGen dataType))
  | none => (.error (.allocatorExhausted dataType.code), a)

def bucketOf (a : BucketAllocator) (blockRef : BlockRef) : UInt32 :=
  (blockNoToBucket blockRef.blockNo a.bucketSizeLog2).1

def free (a : BucketAllocator) (blockRef : BlockRef) :
    Except StorageError Unit × BucketAllocator :=
  if blockRef.diskId ≠ a.diskId then (.error (.crossDiskBlockRef a.diskId blockRef.diskId), a)
  else
    let bucketNo := a.bucketOf blockRef
    match a.table.lookup bucketNo with
    | none => (.error (.freeOfUnallocatedBucket bucketNo), a)
    | some entry =>
        if blockRef.generation ≠ entry.generation.toUInt64 then
          (.error (.staleBlockRef blockRef.generation entry.generation.toUInt64), a)
        else (.ok (), a.setEntry bucketNo (freshEntry entry.generation .free))

def validate (a : BucketAllocator) (blockRef : BlockRef) : Except StorageError Unit :=
  if blockRef.diskId ≠ a.diskId then .error (.crossDiskBlockRef a.diskId blockRef.diskId)
  else
    match a.table.lookup (a.bucketOf blockRef) with
    | none => .error (.staleBlockRef blockRef.generation 0)
    | some entry =>
        if blockRef.generation ≠ entry.generation.toUInt64 then
          .error (.staleBlockRef blockRef.generation entry.generation.toUInt64)
        else .ok ()

def seedBucket (table : BucketAllocTable) (bucketNo : UInt32) : BucketAllocTable :=
  match table.lookup bucketNo with
  | none => table.insert bucketNo (freshEntry 1 .free)
  | some _ => table

def seedFreelist (a : BucketAllocator) : BucketAllocator :=
  { a with table := a.usableBuckets.foldl seedBucket a.table }

def shift (a : BucketAllocator) : Nat := a.bucketSizeLog2.toNat - blockSizeLog2.toNat

def Usable (a : BucketAllocator) (bucketNo : UInt32) : Prop :=
  a.firstUsableBucket ≤ bucketNo ∧ bucketNo < a.totalBuckets

def HasBlockNo (a : BucketAllocator) (bucketNo : UInt32) : Prop :=
  bucketNo.toNat * 2 ^ a.shift < 2 ^ 32

def Addressable (a : BucketAllocator) : Prop :=
  a.firstUsableBucket < a.totalBuckets →
    (a.totalBuckets.toNat - 1) * 2 ^ a.shift < 2 ^ 32

instance (a : BucketAllocator) : Decidable a.Addressable :=
  inferInstanceAs (Decidable (_ → _))

theorem Addressable.hasBlockNo {a : BucketAllocator} (addressable : a.Addressable)
    {bucketNo : UInt32} (usable : a.Usable bucketNo) : a.HasBlockNo bucketNo := by
  obtain ⟨above, below⟩ := usable
  have some_usable : a.firstUsableBucket < a.totalBuckets := lt_of_le_of_lt above below
  have last := addressable some_usable
  have before : bucketNo.toNat ≤ a.totalBuckets.toNat - 1 := by
    have less := UInt32.lt_iff_toNat_lt.mp below
    omega
  exact lt_of_le_of_lt (Nat.mul_le_mul_right _ before) last

@[simp] theorem mem_usable (a : BucketAllocator) (bucketNo : UInt32) :
    bucketNo ∈ a.usableBuckets ↔ a.Usable bucketNo := by
  rw [usableBuckets, List.mem_map, Usable, UInt32.le_iff_toNat_le, UInt32.lt_iff_toNat_lt]
  constructor
  · intro ⟨number, inside, same⟩
    subst same
    rw [List.mem_range'_1] at inside
    have small : number < 2 ^ 32 := by
      have total := a.totalBuckets.toNat_lt
      omega
    rw [UInt32.toNat_ofNat', Nat.mod_eq_of_lt small]
    have := a.ordered
    omega
  · intro ⟨above, below⟩
    refine ⟨bucketNo.toNat, ?_, UInt32.ofNat_toNat⟩
    rw [List.mem_range'_1]
    omega

private theorem usable_increasing (a : BucketAllocator) : a.usableBuckets.Pairwise (· < ·) := by
  rw [usableBuckets, List.pairwise_map]
  apply List.Pairwise.imp_of_mem _ List.pairwise_lt_range'
  intro left right inside inside' less
  rw [List.mem_range'_1] at inside inside'
  have total := a.totalBuckets.toNat_lt
  rw [UInt32.lt_iff_toNat_lt, UInt32.toNat_ofNat', UInt32.toNat_ofNat',
    Nat.mod_eq_of_lt (by omega), Nat.mod_eq_of_lt (by omega)]
  exact less

theorem shift_word (a : BucketAllocator) :
    (a.bucketSizeLog2 - blockSizeLog2).toUInt32.toNat = a.shift := by
  have below := UInt8.le_iff_toNat_le.mp a.wide
  rw [UInt8.toNat_toUInt32, UInt8.toNat_sub_of_le _ _ a.wide, shift]

theorem HasBlockNo.zero_of_wide {a : BucketAllocator} {bucketNo : UInt32}
    (numbered : a.HasBlockNo bucketNo) (wide : ¬a.shift < 32) : bucketNo.toNat = 0 := by
  rw [HasBlockNo] at numbered
  by_contra positive
  have large : 2 ^ 32 ≤ 2 ^ a.shift := Nat.pow_le_pow_right (by decide) (by omega)
  have more : 1 * 2 ^ a.shift ≤ bucketNo.toNat * 2 ^ a.shift :=
    Nat.mul_le_mul_right _ (by omega)
  omega

theorem block_no_value (a : BucketAllocator) (bucketNo : UInt32)
    (numbered : a.HasBlockNo bucketNo) :
    (a.blockNo bucketNo).toNat = bucketNo.toNat * 2 ^ a.shift := by
  rw [blockNo, UInt32.toNat_shiftLeft, shift_word, Nat.shiftLeft_eq]
  by_cases narrow : a.shift < 32
  · have small : bucketNo.toNat * 2 ^ a.shift < 2 ^ 32 := numbered
    rw [Nat.mod_eq_of_lt narrow, Nat.mod_eq_of_lt small]
  · rw [numbered.zero_of_wide narrow, Nat.zero_mul, Nat.zero_mul, Nat.zero_mod]

theorem bucket_of_block_ref (a : BucketAllocator) (bucketNo generation : UInt32)
    (numbered : a.HasBlockNo bucketNo) :
    a.bucketOf (a.blockRef bucketNo generation) = bucketNo := by
  apply UInt32.toNat_inj.mp
  have value := a.block_no_value bucketNo numbered
  rw [bucketOf, blockNoToBucket, blockRef]
  simp only
  rw [UInt32.toNat_shiftRight, shift_word, Nat.shiftRight_eq_div_pow, value]
  by_cases narrow : a.shift < 32
  · rw [Nat.mod_eq_of_lt narrow, Nat.mul_div_cancel _ (Nat.two_pow_pos _)]
  · rw [numbered.zero_of_wide narrow, Nat.zero_mul, Nat.zero_div]

theorem bucket_size_value (a : BucketAllocator) (fits : a.shift < 52) :
    a.bucketSize.toNat = 2 ^ a.shift * blockSize := by
  have below : 12 ≤ a.bucketSizeLog2.toNat := UInt8.le_iff_toNat_le.mp a.wide
  have twelve : blockSizeLog2.toNat = 12 := rfl
  rw [shift] at fits
  have whole : a.shift + 12 = a.bucketSizeLog2.toNat := by
    rw [shift]
    omega
  have small : 2 ^ a.bucketSizeLog2.toNat < 2 ^ 64 :=
    Nat.pow_lt_pow_right (by decide) (by omega)
  have bytes : 2 ^ a.shift * blockSize = 2 ^ a.bucketSizeLog2.toNat := by
    rw [← whole, Nat.pow_add, blockSize]
  rw [bytes, bucketSize, UInt64.toNat_shiftLeft, UInt8.toNat_toUInt64, Nat.shiftLeft_eq,
    Nat.mod_eq_of_lt (by omega : a.bucketSizeLog2.toNat < 64), UInt64.toNat_one, Nat.one_mul,
    Nat.mod_eq_of_lt small]

theorem offset_value (a : BucketAllocator) (ref : BlockRef) :
    (a.blockRefOffset ref).toNat = ref.blockNo.toNat * blockSize := by
  have small := ref.blockNo.toNat_lt
  rw [blockRefOffset, UInt64.toNat_shiftLeft, UInt32.toNat_toUInt64, Nat.shiftLeft_eq]
  have twelve : blockSizeLog2.toUInt64.toNat % 64 = 12 := by decide
  rw [twelve, Nat.mod_eq_of_lt (by omega), blockSize]

theorem offset_block_ref (a : BucketAllocator) (bucketNo generation : UInt32)
    (numbered : a.HasBlockNo bucketNo) :
    (a.blockRefOffset (a.blockRef bucketNo generation)).toNat =
      bucketNo.toNat * a.bucketSize.toNat := by
  have value : (a.blockRef bucketNo generation).blockNo.toNat = bucketNo.toNat * 2 ^ a.shift :=
    a.block_no_value bucketNo numbered
  rw [offset_value, value]
  by_cases narrow : a.shift < 32
  · rw [a.bucket_size_value (by omega), Nat.mul_assoc]
  · rw [numbered.zero_of_wide narrow, Nat.zero_mul, Nat.zero_mul, Nat.zero_mul]

@[simp] theorem lookup_set_entry (a : BucketAllocator) (bucketNo key : UInt32)
    (entry : BucketAllocEntry) :
    (a.setEntry bucketNo entry).table.lookup key =
      if key = bucketNo then some entry else a.table.lookup key :=
  lookup_insert_eq a.table key bucketNo entry

theorem not_free_iff (a : BucketAllocator) (bucketNo : UInt32) :
    a.isFree bucketNo = false ↔
      ∃ entry, a.table.lookup bucketNo = some entry ∧
        entry.dataType ≠ BucketDataType.free.code := by
  unfold isFree
  cases a.table.lookup bucketNo <;> simp

theorem is_free_set_entry (a : BucketAllocator) (bucketNo key : UInt32)
    (entry : BucketAllocEntry) :
    (a.setEntry bucketNo entry).isFree key =
      if key = bucketNo then entry.dataType == BucketDataType.free.code else a.isFree key := by
  unfold isFree
  rw [lookup_set_entry]
  by_cases here : key = bucketNo
  · rw [if_pos here, if_pos here]
  · rw [if_neg here, if_neg here]

theorem alloc_ok (a after : BucketAllocator) (dataType : BucketDataType) (ref : BlockRef)
    (ok : a.alloc dataType = (.ok ref, after)) :
    ∃ bucketNo, a.Usable bucketNo ∧ a.isFree bucketNo = true ∧
      (∀ lower, a.Usable lower → lower < bucketNo → a.isFree lower = false) ∧
      ref = a.blockRef bucketNo (a.nextGeneration bucketNo) ∧
      after = a.setEntry bucketNo (freshEntry (a.nextGeneration bucketNo) dataType) := by
  unfold alloc at ok
  split at ok
  · next bucketNo found =>
      cases ok
      obtain ⟨free, front, back, split_at, busy⟩ := List.find?_eq_some_iff_append.mp found
      have usable := (a.mem_usable bucketNo).mp (List.mem_of_find?_eq_some found)
      refine ⟨bucketNo, usable, free, ?_, rfl, rfl⟩
      intro lower inside less
      have member := (a.mem_usable lower).mpr inside
      rw [split_at, List.mem_append] at member
      cases member with
      | inl before => simpa using busy lower before
      | inr later =>
          have increasing := a.usable_increasing
          rw [split_at, List.pairwise_append] at increasing
          cases List.mem_cons.mp later with
          | inl same => exact absurd (same ▸ less) (lt_irrefl _)
          | inr behind =>
              have greater := (List.pairwise_cons.mp increasing.2.1).1 lower behind
              exact absurd (lt_trans less greater) (lt_irrefl _)
  · cases ok

theorem alloc_error (a after : BucketAllocator) (dataType : BucketDataType) (err : StorageError)
    (failed : a.alloc dataType = (.error err, after)) :
    err = .allocatorExhausted dataType.code ∧ after = a ∧
      ∀ bucketNo, a.Usable bucketNo → a.isFree bucketNo = false := by
  unfold alloc at failed
  split at failed
  · cases failed
  · next none_found =>
      cases failed
      refine ⟨rfl, rfl, ?_⟩
      intro bucketNo usable
      have busy := List.find?_eq_none.mp none_found bucketNo ((a.mem_usable bucketNo).mpr usable)
      simpa using busy

theorem free_ok (a after : BucketAllocator) (ref : BlockRef)
    (ok : a.free ref = (.ok (), after)) :
    ref.diskId = a.diskId ∧
      ∃ entry, a.table.lookup (a.bucketOf ref) = some entry ∧
        ref.generation = entry.generation.toUInt64 ∧
        after = a.setEntry (a.bucketOf ref) (freshEntry entry.generation .free) := by
  unfold free at ok
  split at ok
  · cases ok
  · next same_disk =>
      simp only at ok
      split at ok
      · cases ok
      · next entry found =>
          split at ok
          · cases ok
          · next same_generation =>
              cases ok
              exact ⟨not_not.mp same_disk, entry, found, not_not.mp same_generation, rfl⟩

theorem free_error (a after : BucketAllocator) (ref : BlockRef) (err : StorageError)
    (failed : a.free ref = (.error err, after)) : after = a := by
  unfold free at failed
  split at failed
  · cases failed
    rfl
  · simp only at failed
    split at failed
    · cases failed
      rfl
    · split at failed
      · cases failed
        rfl
      · cases failed

theorem lookup_seed_buckets (buckets : List UInt32) (table : BucketAllocTable) (key : UInt32) :
    (buckets.foldl seedBucket table).lookup key =
      match table.lookup key with
      | some entry => some entry
      | none => if key ∈ buckets then some (freshEntry 1 .free) else none := by
  induction buckets generalizing table with
  | nil => cases present : table.lookup key <;> simp [present]
  | cons bucketNo rest ih =>
      rw [List.foldl_cons, ih]
      by_cases same : key = bucketNo
      · subst same
        cases present : table.lookup key <;> simp [seedBucket, present]
      · have kept : (seedBucket table bucketNo).lookup key = table.lookup key := by
          unfold seedBucket
          split
          · rw [lookup_insert_eq, if_neg same]
          · rfl
        rw [kept]
        simp [same]

theorem lookup_seed_claimed (a : BucketAllocator) (bucketNo : UInt32)
    (entry : BucketAllocEntry) (claimed : entry.dataType ≠ BucketDataType.free.code) :
    a.seedFreelist.table.lookup bucketNo = some entry ↔ a.table.lookup bucketNo = some entry := by
  rw [seedFreelist, lookup_seed_buckets]
  cases present : a.table.lookup bucketNo with
  | some found => exact Iff.rfl
  | none =>
      simp only
      split
      · constructor
        · intro same
          cases same
          exact absurd rfl claimed
        · intro impossible
          cases impossible
      · exact Iff.rfl

end BucketAllocator

end Mimisbrunnr.Storage
