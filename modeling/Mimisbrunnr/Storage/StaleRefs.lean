import Mimisbrunnr.Storage.Allocations

/-!
# Stale references

A reference goes stale when its bucket is claimed again, since only a claim
counts the generation up. Between a free and the next claim of the bucket the
reference still validates and can be freed once more.
-/

namespace Mimisbrunnr.Storage.Allocations

set_option autoImplicit false

open Mimisbrunnr.Lib.FiniteMap

/-- A call that succeeded on a bucket. -/
inductive Event where
  | handedOut (blockRef : BlockRef)
  | givenBack (blockRef : BlockRef)
deriving DecidableEq, Repr

/-- One call and the event it caused. -/
def perform (a : BucketAllocator) : Call → List Event × BucketAllocator
  | .seedFreelist => ([], a.seedFreelist)
  | .alloc dataType =>
      match a.alloc dataType with
      | (.ok ref, after) => ([.handedOut ref], after)
      | (.error _, after) => ([], after)
  | .free blockRef =>
      match a.free blockRef with
      | (.ok (), after) => ([.givenBack blockRef], after)
      | (.error _, after) => ([], after)

/-- The events of a run, oldest first, and the allocator after it. -/
def history (a : BucketAllocator) : List Call → List Event × BucketAllocator
  | [] => ([], a)
  | c :: rest =>
      let (events, after) := perform a c
      let (later, last) := history after rest
      (events ++ later, last)

def Event.givesBack (a : BucketAllocator) (ref : BlockRef) : Event → Bool
  | .handedOut _ => false
  | .givenBack blockRef => a.SameAllocation blockRef ref

def Event.claims (a : BucketAllocator) (ref : BlockRef) : Event → Bool
  | .handedOut blockRef => a.bucketOf blockRef = a.bucketOf ref
  | .givenBack _ => false

def timesFreed (a : BucketAllocator) (ref : BlockRef) (events : List Event) : Nat :=
  events.countP (Event.givesBack a ref)

def claimedAgain (a : BucketAllocator) (ref : BlockRef) (events : List Event) : Bool :=
  events.any (Event.claims a ref)

def Detected (ref : BlockRef) (events : List Event) (a : BucketAllocator) : Prop :=
  (a.validate ref = .ok () ↔ timesFreed a ref events = 0) ∧ timesFreed a ref events ≤ 1

/-- A claim counts the generation of its bucket up. -/
def Renews (a : BucketAllocator) : Call → Prop
  | .alloc _ => ∀ bucketNo ∈ a.usableBuckets.find? a.isFree,
      a.prevGeneration bucketNo ≠ BucketAllocator.lastGeneration
  | _ => True

instance (a : BucketAllocator) : (c : Call) → Decidable (Renews a c)
  | .seedFreelist => isTrue trivial
  | .alloc _ => Option.decidableForallMem (a.usableBuckets.find? a.isFree)
  | .free _ => isTrue trivial

def RenewsThroughout (a : BucketAllocator) : List Call → Prop
  | [] => True
  | c :: rest => Renews a c ∧ RenewsThroughout (perform a c).2 rest

instance decidableRenewsThroughout (a : BucketAllocator) :
    (calls : List Call) → Decidable (RenewsThroughout a calls)
  | [] => isTrue trivial
  | c :: rest =>
      have : Decidable (RenewsThroughout (perform a c).2 rest) :=
        decidableRenewsThroughout (perform a c).2 rest
      inferInstanceAs (Decidable (_ ∧ _))

/-- One for a call of `free` on the allocation of a reference. -/
def named (a : BucketAllocator) (ref : BlockRef) : Call → Nat
  | .free blockRef => if a.SameAllocation blockRef ref then 1 else 0
  | _ => 0

/-- How often `free` is called on the allocation of a reference before its bucket
is handed out again. -/
def freesWhileHeld (a : BucketAllocator) (ref : BlockRef) : List Call → Nat
  | [] => 0
  | c :: rest =>
      let (events, after) := perform a c
      if claimedAgain a ref events then 0
      else named a ref c + freesWhileHeld after ref rest

/-- What a call can do. -/
inductive Performed (a : BucketAllocator) : Call → List Event → BucketAllocator → Prop where
  | seeded : Performed a .seedFreelist [] a.seedFreelist
  | claimed (dataType : BucketDataType) (bucketNo : UInt32)
      (chosen : a.usableBuckets.find? a.isFree = some bucketNo) :
      Performed a (.alloc dataType) [.handedOut (a.blockRef bucketNo (a.nextGeneration bucketNo))]
        (a.setEntry bucketNo (BucketAllocator.freshEntry (a.nextGeneration bucketNo) dataType))
  | full (dataType : BucketDataType) : Performed a (.alloc dataType) [] a
  | freed (blockRef : BlockRef) (entry : BucketAllocEntry) (disk : blockRef.diskId = a.diskId)
      (present : a.table.lookup (a.bucketOf blockRef) = some entry)
      (generation : blockRef.generation = entry.generation.toUInt64) :
      Performed a (.free blockRef) [.givenBack blockRef]
        (a.setEntry (a.bucketOf blockRef) (BucketAllocator.freshEntry entry.generation .free))
  | refused (blockRef : BlockRef)
      (other : blockRef.diskId = a.diskId → ∀ entry,
        a.table.lookup (a.bucketOf blockRef) = some entry →
          blockRef.generation ≠ entry.generation.toUInt64) :
      Performed a (.free blockRef) [] a

theorem performed (a : BucketAllocator) (c : Call) :
    Performed a c (perform a c).1 (perform a c).2 := by
  cases c with
  | seedFreelist => exact .seeded
  | alloc dataType =>
      simp only [perform, BucketAllocator.alloc]
      rcases chosen : a.usableBuckets.find? a.isFree with _ | bucketNo
      · exact .full dataType
      · exact .claimed dataType bucketNo chosen
  | free blockRef =>
      simp only [perform, BucketAllocator.free]
      by_cases disk : blockRef.diskId = a.diskId
      · rw [if_neg (not_not.mpr disk)]
        rcases present : a.table.lookup (a.bucketOf blockRef) with _ | entry
        · refine .refused blockRef ?_
          intro _ entry found
          rw [present] at found
          cases found
        · by_cases generation : blockRef.generation = entry.generation.toUInt64
          · simp only [if_neg (not_not.mpr generation)]
            exact .freed blockRef entry disk present generation
          · simp only [if_pos generation]
            refine .refused blockRef ?_
            intro _ other found
            rw [present] at found
            cases found
            exact generation
      · rw [if_pos disk]
        exact .refused blockRef fun same => absurd same disk

theorem Performed.geometry {a after : BucketAllocator} {c : Call} {events : List Event}
    (step : Performed a c events after) : ∃ table, after = { a with table := table } := by
  cases step <;> exact ⟨_, rfl⟩

theorem generation_lt_iff (left right : UInt32) :
    left.toUInt64 < right.toUInt64 ↔ left < right := by
  rw [UInt64.lt_iff_toNat_lt, UInt32.lt_iff_toNat_lt, UInt32.toNat_toUInt64, UInt32.toNat_toUInt64]

private theorem generation_lt_next (generation : UInt32)
    (unfinished : generation ≠ BucketAllocator.lastGeneration) : generation < generation + 1 := by
  have below : generation.toNat ≠ 4294967295 :=
    fun same => unfinished (UInt32.toNat_inj.mp same)
  have word := generation.toNat_lt
  rw [UInt32.lt_iff_toNat_lt, UInt32.toNat_add, UInt32.toNat_one, Nat.mod_eq_of_lt (by omega)]
  exact Nat.lt_succ_self _

/-- What one call does to the bucket of a reference. -/
structure Moves (a : BucketAllocator) (ref : BlockRef) (c : Call) (events : List Event)
    (entry after : BucketAllocEntry) : Prop where
  claimed : claimedAgain a ref events = true →
    entry.dataType = BucketDataType.free.code ∧ timesFreed a ref events = 0 ∧
      entry.generation < after.generation
  kept : claimedAgain a ref events = false → after.generation = entry.generation
  freed : claimedAgain a ref events = false →
    timesFreed a ref events = if ref.generation = entry.generation.toUInt64 then named a ref c else 0
  untouched : claimedAgain a ref events = false →
    ref.generation = entry.generation.toUInt64 → named a ref c = 0 → after.dataType = entry.dataType

/-- A call that leaves the bucket alone. -/
theorem Moves.still (a : BucketAllocator) (ref : BlockRef) (c : Call) (events : List Event)
    (entry : BucketAllocEntry) (unclaimed : claimedAgain a ref events = false)
    (unfreed : timesFreed a ref events =
      if ref.generation = entry.generation.toUInt64 then named a ref c else 0) :
    Moves a ref c events entry entry where
  claimed := by
    intro claimed
    rw [unclaimed] at claimed
    cases claimed
  kept := fun _ => rfl
  freed := fun _ => unfreed
  untouched := fun _ _ _ => rfl

theorem Performed.moves {a last : BucketAllocator} {c : Call} {events : List Event}
    (step : Performed a c events last) (ref : BlockRef) (entry : BucketAllocEntry)
    (addressable : a.Addressable) (renews : Renews a c) (disk : ref.diskId = a.diskId)
    (present : a.table.lookup (a.bucketOf ref) = some entry) :
    ∃ after, last.table.lookup (a.bucketOf ref) = some after ∧ Moves a ref c events entry after := by
  cases step with
  | seeded =>
      refine ⟨entry, ?_, Moves.still a ref _ _ entry rfl (by simp [timesFreed, named])⟩
      rw [BucketAllocator.seedFreelist]
      simp only
      rw [BucketAllocator.lookup_seed_buckets, present]
  | claimed dataType bucketNo chosen =>
      have usable := (a.mem_usable bucketNo).mp (List.mem_of_find?_eq_some chosen)
      have back := a.bucket_of_block_ref bucketNo (a.nextGeneration bucketNo)
        (addressable.hasBlockNo usable)
      by_cases here : bucketNo = a.bucketOf ref
      · subst here
        have was_free := List.find?_some chosen
        have unfinished := renews _ (Option.mem_def.mpr chosen)
        have entry_free : entry.dataType = BucketDataType.free.code := by
          rw [BucketAllocator.isFree, present] at was_free
          exact eq_of_beq was_free
        have counted : entry.generation < a.nextGeneration (a.bucketOf ref) := by
          have before : a.prevGeneration (a.bucketOf ref) = entry.generation := by
            rw [BucketAllocator.prevGeneration, present]
            rfl
          rw [before] at unfinished
          rw [BucketAllocator.nextGeneration, before, if_neg unfinished]
          exact generation_lt_next entry.generation unfinished
        have claims : claimedAgain a ref
            [.handedOut (a.blockRef (a.bucketOf ref) (a.nextGeneration (a.bucketOf ref)))] = true := by
          simp [claimedAgain, Event.claims, back]
        refine ⟨BucketAllocator.freshEntry (a.nextGeneration (a.bucketOf ref)) dataType, by simp, ?_⟩
        constructor
        · intro _
          exact ⟨entry_free, rfl, counted⟩
        · intro unclaimed
          rw [claims] at unclaimed
          cases unclaimed
        · intro unclaimed
          rw [claims] at unclaimed
          cases unclaimed
        · intro unclaimed
          rw [claims] at unclaimed
          cases unclaimed
      · have elsewhere : ¬a.bucketOf ref = bucketNo := Ne.symm here
        refine ⟨entry, by simp [elsewhere, present], Moves.still a ref _ _ entry ?_ ?_⟩
        · simp [claimedAgain, Event.claims, back, here]
        · simp [timesFreed, Event.givesBack, named]
  | full dataType =>
      exact ⟨entry, present, Moves.still a ref _ _ entry rfl (by simp [timesFreed, named])⟩
  | freed blockRef found disk' present' generation =>
      by_cases here : a.bucketOf blockRef = a.bucketOf ref
      · rw [here, present] at present'
        cases present'
        refine ⟨BucketAllocator.freshEntry entry.generation .free, by simp [here], ?_⟩
        by_cases current : ref.generation = entry.generation.toUInt64
        · have same : a.SameAllocation blockRef ref :=
            ⟨disk'.trans disk.symm, here, generation.trans current.symm⟩
          constructor
          · intro claims
            cases claims
          · exact fun _ => rfl
          · intro _
            simp [timesFreed, Event.givesBack, named, same, current]
          · intro _ _ unnamed
            simp [named, same] at unnamed
        · have other : ¬a.SameAllocation blockRef ref := by
            intro same
            exact current (same.2.2.symm.trans generation)
          constructor
          · intro claims
            cases claims
          · exact fun _ => rfl
          · intro _
            simp [timesFreed, Event.givesBack, other, current]
          · intro _ same
            exact absurd same current
      · have elsewhere : ¬a.bucketOf ref = a.bucketOf blockRef := Ne.symm here
        have other : ¬a.SameAllocation blockRef ref := fun same => here same.2.1
        refine ⟨entry, by simp [elsewhere, present], Moves.still a ref _ _ entry rfl ?_⟩
        simp [timesFreed, Event.givesBack, named, other]
  | refused blockRef other =>
      refine ⟨entry, present, Moves.still a ref _ _ entry rfl ?_⟩
      by_cases same : a.SameAllocation blockRef ref
      · have stale : ref.generation ≠ entry.generation.toUInt64 := by
          rw [← same.2.2]
          exact other (same.1.trans disk) entry (same.2.1 ▸ present)
        rw [if_neg stale]
        rfl
      · simp [timesFreed, named, same]

theorem times_freed_append (a : BucketAllocator) (ref : BlockRef) (front back : List Event) :
    timesFreed a ref (front ++ back) = timesFreed a ref front + timesFreed a ref back :=
  List.countP_append

private theorem claimed_again_append (a : BucketAllocator) (ref : BlockRef)
    (front back : List Event) :
    claimedAgain a ref (front ++ back) = (claimedAgain a ref front || claimedAgain a ref back) :=
  List.any_append

/-- A reference older than its bucket stays so and frees nothing. -/
theorem history_stale (calls : List Call) (a : BucketAllocator) (ref : BlockRef)
    (entry : BucketAllocEntry) (addressable : a.Addressable) (renews : RenewsThroughout a calls)
    (disk : ref.diskId = a.diskId) (present : a.table.lookup (a.bucketOf ref) = some entry)
    (stale : ref.generation < entry.generation.toUInt64) :
    timesFreed a ref (history a calls).1 = 0 ∧
      ∃ last, (history a calls).2.table.lookup (a.bucketOf ref) = some last ∧
        ref.generation < last.generation.toUInt64 := by
  induction calls generalizing a entry with
  | nil => exact ⟨rfl, entry, present, stale⟩
  | cons c rest ih =>
      have step := performed a c
      obtain ⟨after, next, moves⟩ := step.moves ref entry addressable renews.1 disk present
      have not_current : ref.generation ≠ entry.generation.toUInt64 := ne_of_lt stale
      have unfreed : timesFreed a ref (perform a c).1 = 0 := by
        cases claims : claimedAgain a ref (perform a c).1 with
        | true => exact (moves.claimed claims).2.1
        | false => rw [moves.freed claims, if_neg not_current]
      have still_stale : ref.generation < after.generation.toUInt64 := by
        cases claims : claimedAgain a ref (perform a c).1 with
        | true =>
            have newer := (generation_lt_iff _ _).mpr (moves.claimed claims).2.2
            exact lt_trans stale newer
        | false =>
            rw [moves.kept claims]
            exact stale
      obtain ⟨table, same⟩ := step.geometry
      have later := renews.2
      rw [same] at next later
      obtain ⟨rest_unfreed, last, found, newer⟩ :=
        ih { a with table := table } after addressable later disk next still_stale
      simp only [history, same]
      rw [times_freed_append, unfreed]
      exact ⟨(Nat.zero_add _).trans rest_unfreed, last, found, newer⟩

/-- A reference of the age of its bucket: its frees are counted until the bucket
is claimed again, and then it is stale. -/
structure Followed (a : BucketAllocator) (ref : BlockRef) (calls : List Call)
    (entry : BucketAllocEntry) : Prop where
  counted : timesFreed a ref (history a calls).1 = freesWhileHeld a ref calls
  bucket : ∃ last, (history a calls).2.table.lookup (a.bucketOf ref) = some last ∧
    (ref.generation = last.generation.toUInt64 ↔
      claimedAgain a ref (history a calls).1 = false)
  held : entry.dataType ≠ BucketDataType.free.code → freesWhileHeld a ref calls = 0 →
    claimedAgain a ref (history a calls).1 = false

private theorem history_followed (calls : List Call) (a : BucketAllocator) (ref : BlockRef)
    (entry : BucketAllocEntry) (addressable : a.Addressable) (renews : RenewsThroughout a calls)
    (disk : ref.diskId = a.diskId) (present : a.table.lookup (a.bucketOf ref) = some entry)
    (current : ref.generation = entry.generation.toUInt64) : Followed a ref calls entry := by
  induction calls generalizing a entry with
  | nil =>
      constructor
      · rfl
      · exact ⟨entry, present, fun _ => rfl, fun _ => current⟩
      · exact fun _ _ => rfl
  | cons c rest ih =>
      have step := performed a c
      obtain ⟨after, next, moves⟩ := step.moves ref entry addressable renews.1 disk present
      obtain ⟨table, same⟩ := step.geometry
      have later := renews.2
      rw [same] at next later
      cases claims : claimedAgain a ref (perform a c).1 with
      | true =>
          obtain ⟨was_free, unfreed, newer⟩ := moves.claimed claims
          have stale : ref.generation < after.generation.toUInt64 := by
            rw [current]
            exact (generation_lt_iff _ _).mpr newer
          obtain ⟨rest_unfreed, last, found, older⟩ := history_stale rest { a with table := table }
            ref after addressable later disk next stale
          constructor
          · simp only [history, freesWhileHeld, same, claims, if_true]
            rw [times_freed_append, unfreed]
            exact (Nat.zero_add _).trans rest_unfreed
          · simp only [history, same]
            refine ⟨last, found, ?_⟩
            rw [claimed_again_append, claims, Bool.true_or]
            exact ⟨fun equal => absurd equal (ne_of_lt older), fun impossible => by cases impossible⟩
          · intro busy _
            exact absurd was_free busy
      | false =>
          have still_current : ref.generation = after.generation.toUInt64 := by
            rw [moves.kept claims]
            exact current
          have followed := ih { a with table := table } after addressable later disk next still_current
          have freed := moves.freed claims
          rw [if_pos current] at freed
          constructor
          · simp only [history, freesWhileHeld, same, claims]
            rw [times_freed_append, freed]
            exact congrArg (named a ref c + ·) followed.counted
          · obtain ⟨last, found, dated⟩ := followed.bucket
            simp only [history, same]
            refine ⟨last, found, ?_⟩
            rw [claimed_again_append, claims, Bool.false_or]
            exact dated
          · intro busy untouched
            simp only [freesWhileHeld, same, claims] at untouched
            have parts := Nat.add_eq_zero_iff.mp untouched
            have still_busy : after.dataType ≠ BucketDataType.free.code := by
              rw [moves.untouched claims current parts.1]
              exact busy
            simp only [history, same]
            rw [claimed_again_append, claims, Bool.false_or]
            exact followed.held still_busy parts.2

private theorem validate_ok_iff (a : BucketAllocator) (ref : BlockRef) (entry : BucketAllocEntry)
    (disk : ref.diskId = a.diskId) (present : a.table.lookup (a.bucketOf ref) = some entry) :
    a.validate ref = .ok () ↔ ref.generation = entry.generation.toUInt64 := by
  rw [BucketAllocator.validate, if_neg (not_not.mpr disk), present]
  by_cases current : ref.generation = entry.generation.toUInt64
  · simp [current]
  · simp [current]

private theorem history_geometry (calls : List Call) (a : BucketAllocator) :
    ∃ table, (history a calls).2 = { a with table := table } := by
  induction calls generalizing a with
  | nil => exact ⟨a.table, rfl⟩
  | cons c rest ih =>
      obtain ⟨table, same⟩ := (performed a c).geometry
      simp only [history, same]
      exact ih { a with table := table }

/-- From any table, after any calls: the frees of a reference handed out are
detected exactly when there was none or when there was one and the bucket was
handed out again since. -/
theorem stale_refs_detected_iff (a claimed : BucketAllocator) (dataType : BucketDataType)
    (ref : BlockRef) (calls : List Call) (addressable : a.Addressable)
    (asserted : Call.Asserted (.alloc dataType)) (ok : a.alloc dataType = (.ok ref, claimed))
    (renews : RenewsThroughout claimed calls) :
    Detected ref (history claimed calls).1 (history claimed calls).2 ↔
      freesWhileHeld claimed ref calls = 0 ∨
        (freesWhileHeld claimed ref calls = 1 ∧
          claimedAgain claimed ref (history claimed calls).1 = true) := by
  obtain ⟨bucketNo, usable, -, -, named, grown⟩ := a.alloc_ok claimed dataType ref ok
  have back : claimed.bucketOf ref = bucketNo := by
    rw [named, grown]
    exact a.bucket_of_block_ref bucketNo _ (addressable.hasBlockNo usable)
  let entry := BucketAllocator.freshEntry (a.nextGeneration bucketNo) dataType
  have present : claimed.table.lookup (claimed.bucketOf ref) = some entry := by
    rw [back, grown, BucketAllocator.lookup_set_entry, if_pos rfl]
  have disk : ref.diskId = claimed.diskId := by
    rw [named, grown]
    rfl
  have current : ref.generation = entry.generation.toUInt64 := by
    rw [named]
    rfl
  have busy : entry.dataType ≠ BucketDataType.free.code :=
    dataType.code_ne_free fun same => asserted (same ▸ rfl)
  have numbered : claimed.Addressable := by
    rw [grown]
    exact addressable
  have followed := history_followed calls claimed ref entry numbered renews disk present current
  obtain ⟨last, found, dated⟩ := followed.bucket
  obtain ⟨table, same⟩ := history_geometry calls claimed
  have valid : (history claimed calls).2.validate ref = .ok () ↔
      claimedAgain claimed ref (history claimed calls).1 = false := by
    rw [same] at found ⊢
    rw [validate_ok_iff { claimed with table := table } ref last disk found]
    exact dated
  have counted : timesFreed (history claimed calls).2 ref (history claimed calls).1 =
      freesWhileHeld claimed ref calls := by
    rw [same]
    exact followed.counted
  have never_claimed := followed.held busy
  rw [Detected, valid, counted]
  constructor
  · intro ⟨told, once⟩
    by_cases unfreed : freesWhileHeld claimed ref calls = 0
    · exact Or.inl unfreed
    · refine Or.inr ⟨by omega, ?_⟩
      rw [← Bool.not_eq_false]
      exact fun unclaimed => unfreed (told.mp unclaimed)
  · intro settled
    cases settled with
    | inl unfreed =>
        exact ⟨⟨fun _ => unfreed, fun _ => never_claimed unfreed⟩, by omega⟩
    | inr settled =>
        obtain ⟨once, again⟩ := settled
        rw [again, once]
        simp

def fourBuckets : BucketAllocator :=
  { table := ∅, bucketSizeLog2 := 20, firstUsableBucket := 0, totalBuckets := 4, diskId := 0,
    wide := megabyte_wide, ordered := by decide }

theorem freed_ref_still_valid :
    ¬∀ (a claimed : BucketAllocator) (dataType : BucketDataType) (ref : BlockRef)
      (calls : List Call), a.table = ∅ → Call.Asserted (.alloc dataType) →
      a.alloc dataType = (.ok ref, claimed) →
      Detected ref (history claimed calls).1 (history claimed calls).2 := by
  intro told
  let ref : BlockRef := { diskId := 0, pad := 0, blockNo := 0, generation := 1 }
  have detected := told fourBuckets (fourBuckets.alloc .btreeNode).2 .btreeNode ref [.free ref]
    rfl (by decide) rfl
  revert detected
  unfold Detected
  decide

/-- The bucket is freed and claimed again: the first reference is refused. -/
theorem stale_refs_detected_once_claimed :
    let ref : BlockRef := { diskId := 0, pad := 0, blockNo := 0, generation := 1 }
    let claimed := (fourBuckets.alloc .btreeNode).2
    let calls : List Call := [.free ref, .alloc .blob]
    Detected ref (history claimed calls).1 (history claimed calls).2 :=
  (stale_refs_detected_iff fourBuckets _ .btreeNode _ _ (by decide) (by decide) rfl (by decide)).mpr
    (Or.inr (by decide))

end Mimisbrunnr.Storage.Allocations
