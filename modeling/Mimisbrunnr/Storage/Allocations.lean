import Mimisbrunnr.Storage.Allocator

/-!
# Allocated space

Runs of the allocator from an empty table. The buckets handed out and not given
back since are remembered beside the allocator; as long as every usable bucket
has a block number they are apart from each other, and with one usable bucket
beyond the block numbers some run hands out space twice or outside the disk's
share.
-/

namespace Mimisbrunnr.Storage

set_option autoImplicit false

open Mimisbrunnr.Lib.FiniteMap

namespace BucketAllocator

/-- Two references that the allocator does not tell apart: the same bucket at
the same generation. -/
def SameAllocation (a : BucketAllocator) (left right : BlockRef) : Prop :=
  left.diskId = right.diskId ∧ a.bucketOf left = a.bucketOf right ∧
    left.generation = right.generation

instance (a : BucketAllocator) (left right : BlockRef) : Decidable (a.SameAllocation left right) :=
  inferInstanceAs (Decidable (_ ∧ _ ∧ _))

end BucketAllocator

namespace Allocations

inductive Call where
  | seedFreelist
  | alloc (dataType : BucketDataType)
  | free (blockRef : BlockRef)
deriving DecidableEq, Repr

/-- What `alloc` asserts about its argument. -/
def Call.Asserted (call : Call) : Prop := call ≠ .alloc .free

instance (call : Call) : Decidable call.Asserted := inferInstanceAs (Decidable (_ ≠ _))

structure Session where
  allocator : BucketAllocator
  /-- Handed out and not freed since. -/
  live : List BlockRef

namespace Session

def start (a : BucketAllocator) : Session := { allocator := a, live := [] }

def call (s : Session) : Call → Session
  | .seedFreelist => { s with allocator := s.allocator.seedFreelist }
  | .alloc dataType =>
      match s.allocator.alloc dataType with
      | (.ok ref, after) => { allocator := after, live := ref :: s.live }
      | (.error _, after) => { s with allocator := after }
  | .free blockRef =>
      match s.allocator.free blockRef with
      | (.ok (), after) =>
          { allocator := after
            live := s.live.filter fun held => !s.allocator.SameAllocation held blockRef }
      | (.error _, after) => { s with allocator := after }

def run (s : Session) (calls : List Call) : Session := calls.foldl call s

def first (s : Session) (ref : BlockRef) : Nat := (s.allocator.blockRefOffset ref).toNat

def stop (s : Session) (ref : BlockRef) : Nat := s.first ref + s.allocator.bucketSize.toNat

structure Sound (s : Session) : Prop where
  apart : s.live.Pairwise fun left right =>
    s.stop left ≤ s.first right ∨ s.stop right ≤ s.first left
  inside : ∀ ref ∈ s.live,
    s.allocator.firstUsableBucket.toNat * s.allocator.bucketSize.toNat ≤ s.first ref ∧
      s.stop ref ≤ s.allocator.totalBuckets.toNat * s.allocator.bucketSize.toNat
  exhausted : ∀ dataType err after, s.allocator.alloc dataType = (.error err, after) →
    err = .allocatorExhausted dataType.code ∧
      ∀ bucketNo, s.allocator.Usable bucketNo →
        ∃ ref ∈ s.live, s.first ref = bucketNo.toNat * s.allocator.bucketSize.toNat

/-- The live references are the claimed usable buckets at their generations. -/
structure Held (s : Session) : Prop where
  addressable : s.allocator.Addressable
  live_iff : ∀ ref, ref ∈ s.live ↔
    ∃ bucketNo entry, s.allocator.Usable bucketNo ∧
      s.allocator.table.lookup bucketNo = some entry ∧
      entry.dataType ≠ BucketDataType.free.code ∧
      ref = s.allocator.blockRef bucketNo entry.generation
  once : s.live.Nodup

private theorem start_held (a : BucketAllocator) (empty : a.table = ∅)
    (addressable : a.Addressable) :
    (start a).Held where
  addressable := addressable
  live_iff := by
    intro ref
    constructor
    · intro member
      cases member
    · intro ⟨bucketNo, entry, usable, present, rest⟩
      have nothing : a.table.lookup bucketNo = some entry := present
      rw [empty, Finmap.lookup_empty] at nothing
      cases nothing
  once := List.nodup_nil

/-- A live reference names the bucket it came from. -/
theorem Held.bucket_of {s : Session} (held : s.Held) {ref : BlockRef} (member : ref ∈ s.live) :
    ref.diskId = s.allocator.diskId ∧
      ∃ entry, s.allocator.table.lookup (s.allocator.bucketOf ref) = some entry ∧
        s.allocator.Usable (s.allocator.bucketOf ref) ∧
        entry.dataType ≠ BucketDataType.free.code ∧
        ref = s.allocator.blockRef (s.allocator.bucketOf ref) entry.generation := by
  obtain ⟨bucketNo, entry, usable, present, claimed, rfl⟩ := (held.live_iff ref).mp member
  have back := s.allocator.bucket_of_block_ref bucketNo entry.generation
    (held.addressable.hasBlockNo usable)
  rw [back]
  exact ⟨rfl, entry, present, usable, claimed, rfl⟩

private theorem Held.claim {s : Session} (held : s.Held) {dataType : BucketDataType}
    {ref : BlockRef}
    {after : BucketAllocator} (claims : dataType.code ≠ BucketDataType.free.code)
    (ok : s.allocator.alloc dataType = (.ok ref, after)) :
    Held { allocator := after, live := ref :: s.live } := by
  obtain ⟨bucketNo, usable, was_free, -, rfl, rfl⟩ := s.allocator.alloc_ok after dataType ref ok
  refine { addressable := held.addressable, live_iff := ?_, once := ?_ }
  · intro ref
    rw [List.mem_cons, held.live_iff]
    constructor
    · intro known
      cases known with
      | inl new =>
          subst new
          exact ⟨bucketNo, BucketAllocator.freshEntry (s.allocator.nextGeneration bucketNo) dataType,
            usable, by simp, claims, rfl⟩
      | inr old =>
          obtain ⟨other, entry, inside, present, claimed, rfl⟩ := old
          have apart : other ≠ bucketNo := by
            intro same
            subst same
            have busy := (s.allocator.not_free_iff other).mpr ⟨entry, present, claimed⟩
            rw [was_free] at busy
            cases busy
          exact ⟨other, entry, inside, by simp [apart, present], claimed, rfl⟩
    · intro ⟨other, entry, inside, present, claimed, same⟩
      rw [BucketAllocator.lookup_set_entry] at present
      split at present
      · next here =>
          subst here
          cases present
          exact Or.inl same
      · exact Or.inr ⟨other, entry, inside, present, claimed, same⟩
  · rw [List.nodup_cons]
    refine ⟨?_, held.once⟩
    intro member
    obtain ⟨-, entry, present, -, claimed, -⟩ := held.bucket_of member
    rw [s.allocator.bucket_of_block_ref _ _ (held.addressable.hasBlockNo usable)] at present
    have busy := (s.allocator.not_free_iff bucketNo).mpr ⟨entry, present, claimed⟩
    rw [was_free] at busy
    cases busy

private theorem Held.release {s : Session} (held : s.Held) {blockRef : BlockRef}
    {after : BucketAllocator} (ok : s.allocator.free blockRef = (.ok (), after)) :
    Held { allocator := after
           live := s.live.filter fun held => !s.allocator.SameAllocation held blockRef } := by
  obtain ⟨same_disk, entry, present, generation, rfl⟩ := s.allocator.free_ok after blockRef ok
  refine { addressable := held.addressable, live_iff := ?_, once := held.once.filter _ }
  intro ref
  rw [List.mem_filter]
  constructor
  · intro ⟨member, other⟩
    obtain ⟨disk, entry', present', usable, claimed, named⟩ := held.bucket_of member
    have apart : s.allocator.bucketOf ref ≠ s.allocator.bucketOf blockRef := by
      intro same
      rw [same, present] at present'
      cases present'
      have equal : s.allocator.SameAllocation ref blockRef := by
        refine ⟨disk.trans same_disk.symm, same, ?_⟩
        rw [generation, named]
        rfl
      simp [equal] at other
    exact ⟨_, entry', usable, by simp [apart, present'], claimed, named⟩
  · intro ⟨bucketNo, entry', usable, present', claimed, named⟩
    rw [BucketAllocator.lookup_set_entry] at present'
    split at present'
    · cases present'
      exact absurd rfl claimed
    · next apart =>
        refine ⟨(held.live_iff ref).mpr ⟨bucketNo, entry', usable, present', claimed, named⟩, ?_⟩
        have back : s.allocator.bucketOf ref = bucketNo := by
          rw [named]
          exact s.allocator.bucket_of_block_ref bucketNo _ (held.addressable.hasBlockNo usable)
        have different : ¬s.allocator.SameAllocation ref blockRef := by
          intro same
          exact apart (back.symm.trans same.2.1)
        simp [different]

private theorem Held.call {s : Session} (held : s.Held) (c : Call) (asserted : c.Asserted) :
    (s.call c).Held := by
  cases c with
  | seedFreelist =>
      refine { addressable := held.addressable, live_iff := ?_, once := held.once }
      intro ref
      rw [Session.call, held.live_iff]
      constructor
      · intro ⟨bucketNo, entry, usable, present, claimed, same⟩
        have kept := (s.allocator.lookup_seed_claimed bucketNo entry claimed).mpr present
        exact ⟨bucketNo, entry, usable, kept, claimed, same⟩
      · intro ⟨bucketNo, entry, usable, present, claimed, same⟩
        have before := (s.allocator.lookup_seed_claimed bucketNo entry claimed).mp present
        exact ⟨bucketNo, entry, usable, before, claimed, same⟩
  | alloc dataType =>
      rcases outcome : s.allocator.alloc dataType with ⟨result, after⟩
      cases result with
      | ok ref =>
          have claimed : dataType.code ≠ BucketDataType.free.code :=
            dataType.code_ne_free fun same => asserted (same ▸ rfl)
          simp only [Session.call, outcome]
          exact held.claim claimed outcome
      | error err =>
          obtain ⟨-, unchanged, -⟩ := s.allocator.alloc_error after dataType err outcome
          simp only [Session.call, outcome]
          rw [unchanged]
          exact held
  | free blockRef =>
      rcases outcome : s.allocator.free blockRef with ⟨result, after⟩
      cases result with
      | ok done =>
          simp only [Session.call, outcome]
          exact held.release outcome
      | error err =>
          have unchanged := s.allocator.free_error after blockRef err outcome
          simp only [Session.call, outcome]
          rw [unchanged]
          exact held

private theorem Held.run {s : Session} (held : s.Held) (calls : List Call)
    (asserted : ∀ c ∈ calls, c.Asserted) : (s.run calls).Held := by
  induction calls generalizing s with
  | nil => exact held
  | cons c rest ih =>
      have next := held.call c (asserted c List.mem_cons_self)
      exact ih next fun later member => asserted later (List.mem_cons_of_mem _ member)

private theorem Held.first_live {s : Session} (held : s.Held) {ref : BlockRef}
    (member : ref ∈ s.live) :
    s.first ref = (s.allocator.bucketOf ref).toNat * s.allocator.bucketSize.toNat := by
  obtain ⟨-, entry, -, usable, -, named⟩ := held.bucket_of member
  have numbered := held.addressable.hasBlockNo usable
  have place := s.allocator.offset_block_ref _ entry.generation numbered
  rw [← named] at place
  exact place

private theorem Held.sound {s : Session} (held : s.Held) : s.Sound where
  apart := by
    apply held.once.pairwise_of_forall_ne
    intro left left_live right right_live different
    have buckets : s.allocator.bucketOf left ≠ s.allocator.bucketOf right := by
      intro same
      obtain ⟨-, entry, present, -, -, named⟩ := held.bucket_of left_live
      obtain ⟨-, entry', present', -, -, named'⟩ := held.bucket_of right_live
      rw [← same, present] at present'
      cases present'
      exact different (named.trans (named'.trans (by rw [same])).symm)
    have numbers : (s.allocator.bucketOf left).toNat ≠ (s.allocator.bucketOf right).toNat :=
      fun same => buckets (UInt32.toNat_inj.mp same)
    rw [stop, stop, held.first_live left_live, held.first_live right_live, ← Nat.succ_mul,
      ← Nat.succ_mul]
    rcases Nat.lt_or_gt_of_ne numbers with less | greater
    · exact Or.inl (Nat.mul_le_mul_right _ less)
    · exact Or.inr (Nat.mul_le_mul_right _ greater)
  inside := by
    intro ref member
    obtain ⟨-, -, -, usable, -, -⟩ := held.bucket_of member
    rw [stop, held.first_live member, ← Nat.succ_mul]
    exact ⟨Nat.mul_le_mul_right _ (UInt32.le_iff_toNat_le.mp usable.1),
      Nat.mul_le_mul_right _ (UInt32.lt_iff_toNat_lt.mp usable.2)⟩
  exhausted := by
    intro dataType err after failed
    obtain ⟨kind, -, busy⟩ := s.allocator.alloc_error after dataType err failed
    refine ⟨kind, ?_⟩
    intro bucketNo usable
    obtain ⟨entry, present, claimed⟩ := (s.allocator.not_free_iff bucketNo).mp (busy bucketNo usable)
    refine ⟨s.allocator.blockRef bucketNo entry.generation, ?_, ?_⟩
    · exact (held.live_iff _).mpr ⟨bucketNo, entry, usable, present, claimed, rfl⟩
    · exact s.allocator.offset_block_ref bucketNo _ (held.addressable.hasBlockNo usable)

def Covered (s : Session) : Prop :=
  ∀ bucketNo, s.allocator.Usable bucketNo → s.allocator.isFree bucketNo = false →
    ∃ generation, s.allocator.blockRef bucketNo generation ∈ s.live

/-- A bucket whose block number lost its upper bits starts inside a bucket of
a smaller number: a claimed one or one that is pinned. -/
theorem unsound_claim (s : Session) (covered : s.Covered) (fits : s.allocator.shift < 52)
    (bucketNo generation : UInt32) (entry : BucketAllocEntry)
    (usable : s.allocator.Usable bucketNo) (unnumbered : ¬s.allocator.HasBlockNo bucketNo)
    (busy : ∀ lower, s.allocator.Usable lower → lower < bucketNo →
      s.allocator.isFree lower = false) :
    ¬Sound { allocator := s.allocator.setEntry bucketNo entry
             live := s.allocator.blockRef bucketNo generation :: s.live } := by
  intro sound
  let ref := s.allocator.blockRef bucketNo generation
  let size := s.allocator.bucketSize.toNat
  have size_value : size = 2 ^ s.allocator.shift * blockSize := s.allocator.bucket_size_value fits
  have blocks : 0 < 2 ^ s.allocator.shift := Nat.two_pow_pos _
  have first_value : s.first ref = ref.blockNo.toNat * blockSize := s.allocator.offset_value ref
  -- The bucket of the byte the reference starts at.
  let number := ref.blockNo.toNat / 2 ^ s.allocator.shift
  have below : number * 2 ^ s.allocator.shift ≤ ref.blockNo.toNat := Nat.div_mul_le_self _ _
  have above : ref.blockNo.toNat < (number + 1) * 2 ^ s.allocator.shift := by
    rw [Nat.mul_comm]
    exact Nat.lt_mul_div_succ _ blocks
  have word : ref.blockNo.toNat < 2 ^ 32 := ref.blockNo.toNat_lt
  have lost : ref.blockNo.toNat < bucketNo.toNat * 2 ^ s.allocator.shift :=
    lt_of_lt_of_le word (not_lt.mp unnumbered)
  have less : number < bucketNo.toNat := Nat.div_lt_of_lt_mul (by rwa [Nat.mul_comm])
  let lower := UInt32.ofNat number
  have lower_value : lower.toNat = number := by
    have small := bucketNo.toNat_lt
    rw [UInt32.toNat_ofNat', Nat.mod_eq_of_lt (by omega)]
  have below_bytes : number * size ≤ s.first ref := by
    rw [size_value, first_value, ← Nat.mul_assoc]
    exact Nat.mul_le_mul_right _ below
  have above_bytes : s.first ref < (number + 1) * size := by
    rw [size_value, first_value, ← Nat.mul_assoc]
    exact Nat.mul_lt_mul_of_pos_right above (by decide)
  have lower_usable : s.allocator.Usable lower := by
    refine ⟨?_, ?_⟩
    · rw [UInt32.le_iff_toNat_le, lower_value]
      have inside : s.allocator.firstUsableBucket.toNat * size ≤ s.first ref :=
        (sound.inside ref List.mem_cons_self).1
      exact Nat.lt_succ_iff.mp (Nat.lt_of_mul_lt_mul_right (lt_of_le_of_lt inside above_bytes))
    · refine lt_trans ?_ usable.2
      rw [UInt32.lt_iff_toNat_lt, lower_value]
      exact less
  have lower_less : lower < bucketNo := by
    rw [UInt32.lt_iff_toNat_lt, lower_value]
    exact less
  obtain ⟨old, live⟩ := covered lower lower_usable (busy lower lower_usable lower_less)
  have numbered : s.allocator.HasBlockNo lower := by
    rw [BucketAllocator.HasBlockNo, lower_value]
    exact lt_of_le_of_lt below word
  have lower_first : s.first (s.allocator.blockRef lower old) = number * size := by
    have place := s.allocator.offset_block_ref lower old numbered
    rw [lower_value] at place
    exact place
  have apart : s.first ref + size ≤ s.first (s.allocator.blockRef lower old) ∨
      s.first (s.allocator.blockRef lower old) + size ≤ s.first ref :=
    (List.pairwise_cons.mp sound.apart).1 _ live
  rw [lower_first] at apart
  rw [Nat.succ_mul] at above_bytes
  omega

private theorem Covered.claim {s : Session} (covered : s.Covered) (bucketNo generation : UInt32)
    (entry : BucketAllocEntry) :
    Covered { allocator := s.allocator.setEntry bucketNo entry
              live := s.allocator.blockRef bucketNo generation :: s.live } := by
  intro other usable busy
  by_cases here : other = bucketNo
  · subst here
    exact ⟨generation, List.mem_cons_self⟩
  · rw [BucketAllocator.is_free_set_entry, if_neg here] at busy
    obtain ⟨old, member⟩ := covered other usable busy
    exact ⟨old, List.mem_cons_of_mem _ member⟩

/-- While the bucket `last` is free, the next claim takes a bucket up to it. -/
theorem next_claim (s : Session) (last : UInt32) (usable : s.allocator.Usable last)
    (last_free : s.allocator.isFree last = true) :
    ∃ bucketNo, bucketNo ≤ last ∧ s.allocator.Usable bucketNo ∧
      s.allocator.isFree bucketNo = true ∧
      (∀ lower, s.allocator.Usable lower → lower < bucketNo →
        s.allocator.isFree lower = false) ∧
      s.call (.alloc .blob) =
        { allocator := s.allocator.setEntry bucketNo
            (BucketAllocator.freshEntry (s.allocator.nextGeneration bucketNo) .blob)
          live := s.allocator.blockRef bucketNo (s.allocator.nextGeneration bucketNo) :: s.live } := by
  rcases outcome : s.allocator.alloc .blob with ⟨result, after⟩
  cases result with
  | error err =>
      obtain ⟨-, -, full⟩ := s.allocator.alloc_error after .blob err outcome
      rw [full last usable] at last_free
      cases last_free
  | ok ref =>
      obtain ⟨bucketNo, inside, was_free, before, rfl, rfl⟩ :=
        s.allocator.alloc_ok after .blob ref outcome
      refine ⟨bucketNo, ?_, inside, was_free, before, ?_⟩
      · by_contra greater
        rw [before last usable (not_le.mp greater)] at last_free
        cases last_free
      · simp only [call, outcome]

/-- Claiming buckets one after the other comes to the one without a block
number. The induction is on how many buckets below it may still be free. -/
theorem unsound_run (last : UInt32) (open_ : Nat) (s : Session) (covered : s.Covered)
    (fits : s.allocator.shift < 52) (usable : s.allocator.Usable last)
    (unnumbered : ¬s.allocator.HasBlockNo last) (last_free : s.allocator.isFree last = true)
    (busy : ∀ lower, s.allocator.Usable lower → lower.toNat + open_ < last.toNat →
      s.allocator.isFree lower = false) :
    ∃ claims, ¬(s.run (List.replicate claims (.alloc .blob))).Sound := by
  induction open_ generalizing s with
  | zero =>
      obtain ⟨bucketNo, upto, inside, was_free, before, called⟩ := s.next_claim last usable last_free
      have reached : bucketNo = last := by
        by_contra other
        have less := UInt32.lt_iff_toNat_lt.mp (lt_of_le_of_ne upto other)
        rw [busy bucketNo inside less] at was_free
        cases was_free
      subst reached
      refine ⟨1, ?_⟩
      rw [run, List.replicate_one, List.foldl_cons, List.foldl_nil, called]
      exact s.unsound_claim covered fits bucketNo _ _ usable unnumbered before
  | succ open_ ih =>
      obtain ⟨bucketNo, upto, inside, was_free, before, called⟩ := s.next_claim last usable last_free
      by_cases reached : bucketNo = last
      · subst reached
        refine ⟨1, ?_⟩
        rw [run, List.replicate_one, List.foldl_cons, List.foldl_nil, called]
        exact s.unsound_claim covered fits bucketNo _ _ usable unnumbered before
      · have less := UInt32.lt_iff_toNat_lt.mp (lt_of_le_of_ne upto reached)
        have still_free : (s.call (.alloc .blob)).allocator.isFree last = true := by
          rw [called, BucketAllocator.is_free_set_entry, if_neg (Ne.symm reached)]
          exact last_free
        have closer : ∀ lower, s.allocator.Usable lower → lower.toNat + open_ < last.toNat →
            (s.call (.alloc .blob)).allocator.isFree lower = false := by
          intro lower lower_usable near
          rw [called, BucketAllocator.is_free_set_entry]
          split
          · rfl
          · next other =>
              by_cases old : lower < bucketNo
              · exact before lower lower_usable old
              · have differ : lower.toNat ≠ bucketNo.toNat :=
                  fun same => other (UInt32.toNat_inj.mp same)
                rw [UInt32.lt_iff_toNat_lt] at old
                rw [busy bucketNo inside (by omega)] at was_free
                cases was_free
        rw [called] at still_free closer
        obtain ⟨claims, unsound⟩ := ih _ (covered.claim bucketNo _ _) fits usable unnumbered
          still_free closer
        refine ⟨claims + 1, ?_⟩
        rw [run, List.replicate_succ, List.foldl_cons, called]
        exact unsound

end Session

open Session

/-- The run of calls that the asserts of the allocator let through keeps the
allocated space disjoint exactly when every usable bucket has a block number. -/
theorem allocated_space_sound (a : BucketAllocator) (empty : a.table = ∅) :
    (a.Addressable →
      ∀ calls : List Call, (∀ c ∈ calls, c.Asserted) → ((start a).run calls).Sound) ∧
    (a.bucketSizeLog2 < 64 →
      (∀ calls : List Call, (∀ c ∈ calls, c.Asserted) → ((start a).run calls).Sound) →
        a.Addressable) := by
  constructor
  · intro addressable calls asserted
    exact ((start_held a empty addressable).run calls asserted).sound
  · intro fits sound some_usable
    by_contra beyond
    have total := a.totalBuckets.toNat_lt
    have less := UInt32.lt_iff_toNat_lt.mp some_usable
    have numbered : (UInt32.ofNat (a.totalBuckets.toNat - 1)).toNat = a.totalBuckets.toNat - 1 := by
      rw [UInt32.toNat_ofNat', Nat.mod_eq_of_lt (by omega)]
    let last := UInt32.ofNat (a.totalBuckets.toNat - 1)
    have usable : a.Usable last := by
      rw [BucketAllocator.Usable, UInt32.le_iff_toNat_le, UInt32.lt_iff_toNat_lt, numbered]
      omega
    have all_free : ∀ bucketNo, a.isFree bucketNo = true := by
      intro bucketNo
      unfold BucketAllocator.isFree
      rw [empty, Finmap.lookup_empty]
    have covered : (start a).Covered := by
      intro bucketNo _ busy
      have free : a.isFree bucketNo = false := busy
      rw [all_free bucketNo] at free
      cases free
    have narrow : a.shift < 52 := by
      have small : a.bucketSizeLog2.toNat < 64 := UInt8.lt_iff_toNat_lt.mp fits
      have twelve : blockSizeLog2.toNat = 12 := rfl
      rw [BucketAllocator.shift]
      omega
    have unnumbered : ¬a.HasBlockNo last := by
      rw [BucketAllocator.HasBlockNo, numbered]
      exact beyond
    obtain ⟨claims, unsound⟩ := unsound_run last last.toNat (start a) covered narrow usable
      unnumbered (all_free last) (by
        intro lower _ near
        omega)
    apply unsound
    apply sound
    intro c member
    rw [List.eq_of_mem_replicate member]
    intro same
    cases same

theorem megabyte_wide : blockSizeLog2 ≤ 20 := by
  decide

def beyondBlockNumbers : BucketAllocator :=
  { table := ∅, bucketSizeLog2 := 20, firstUsableBucket := 16777215, totalBuckets := 16777218,
    diskId := 0, wide := megabyte_wide, ordered := by decide }

theorem allocated_outside_the_disk_share :
    ¬∀ (a : BucketAllocator) (calls : List Call), a.table = ∅ → (∀ c ∈ calls, c.Asserted) →
      ((start a).run calls).Sound := by
  intro claimed
  have sound := claimed beyondBlockNumbers [.alloc .blob, .alloc .blob] rfl (by decide)
  have inside := sound.inside { diskId := 0, pad := 0, blockNo := 0, generation := 1 } (by decide)
  revert inside
  decide

/-- A disk of four buckets, seeded, with one bucket claimed, freed and claimed
again. -/
theorem allocated_space_sound_four_buckets :
    (({ table := ∅, bucketSizeLog2 := 20, firstUsableBucket := 0, totalBuckets := 4, diskId := 0,
        wide := by decide, ordered := by decide : BucketAllocator }) |> start |>.run
      [.seedFreelist, .alloc .btreeNode,
        .free { diskId := 0, pad := 0, blockNo := 0, generation := 2 },
        .alloc .btreeNode]).Sound :=
  (allocated_space_sound _ rfl).1 (by decide) _ (by decide)

end Allocations

end Mimisbrunnr.Storage
