import Mimisbrunnr.Index.ChunkIndex
import Mimisbrunnr.Lib.Runs

/-!
# References of chunks

A chunk is counted once for each insertion and given back with each decrement.
The stored count has 32 bits and stays at its limit, so references beyond the
limit are forgotten. What is stored lags behind the references by what the
highest count since the chunk was created had too many.
-/

namespace Mimisbrunnr.Index

set_option autoImplicit false

open Mimisbrunnr.Lib
open Mimisbrunnr.Lib.FiniteMap

def saturatingAdd32 (a b : UInt32) : UInt32 :=
  if a.toNat + b.toNat < 2 ^ 32 then a + b else UInt32.ofNat (2 ^ 32 - 1)

inductive ChunkCall where
  | insertOrBump (hash : ChunkHashKey) (blob : BlobRef) (length : UInt32)
  | decrement (hash : ChunkHashKey)
deriving DecidableEq, Repr

namespace ChunkIndex

def new : ChunkIndex := ∅

def entry (index : ChunkIndex) (hash : ChunkHashKey) : Option (BlobRef × UInt32 × UInt32) :=
  (index.lookup hash).map fun value => (value.blobRef, value.refCount, value.length)

def insertOrBump (index : ChunkIndex) (hash : ChunkHashKey) (blob : BlobRef) (length : UInt32) :
    BlobRef × ChunkIndex :=
  let entry := (index.lookup hash).getD { refCount := 0, length, blobRef := blob }
  (entry.blobRef, index.insert hash { entry with refCount := saturatingAdd32 entry.refCount 1 })

def decrement (index : ChunkIndex) (hash : ChunkHashKey) : Bool × ChunkIndex :=
  match index.lookup hash with
  | some entry =>
      if entry.refCount ≤ 1 then (true, index.erase hash)
      else (false, index.insert hash { entry with refCount := entry.refCount - 1 })
  | none => (false, index)

def call (index : ChunkIndex) : ChunkCall → ChunkIndex
  | .insertOrBump hash blob length => (index.insertOrBump hash blob length).2
  | .decrement hash => (index.decrement hash).2

def afterCalls (calls : List ChunkCall) : ChunkIndex := Runs.run call new calls

end ChunkIndex

namespace ChunkCall

def inserts (hash : ChunkHashKey) : ChunkCall → Bool
  | .insertOrBump other _ _ => other = hash
  | .decrement _ => false

def decrements (hash : ChunkHashKey) : ChunkCall → Bool
  | .insertOrBump .. => false
  | .decrement other => other = hash

end ChunkCall

def inserted (calls : List ChunkCall) (hash : ChunkHashKey) : Nat :=
  calls.countP (ChunkCall.inserts hash)

def decremented (calls : List ChunkCall) (hash : ChunkHashKey) : Nat :=
  calls.countP (ChunkCall.decrements hash)

/-- The references to a chunk, the most of them since it was last without any, and what it was
created with then. -/
structure References where
  count : Nat
  peak : Nat
  created : Option (BlobRef × UInt32)
deriving DecidableEq, Repr

namespace References

def absent : References := ⟨0, 0, none⟩

def insert (refs : References) (blob : BlobRef) (length : UInt32) : References :=
  { count := refs.count + 1
    peak := max refs.peak (refs.count + 1)
    created := if refs.count = 0 then some (blob, length) else refs.created }

def remove (refs : References) : References :=
  if refs.count ≤ 1 then absent else { refs with count := refs.count - 1 }

def call (hash : ChunkHashKey) (refs : References) : ChunkCall → References
  | .insertOrBump other blob length => if other = hash then refs.insert blob length else refs
  | .decrement other => if other = hash then refs.remove else refs

end References

def references (calls : List ChunkCall) (hash : ChunkHashKey) : References :=
  Runs.run (References.call hash) References.absent calls

def Balanced (calls : List ChunkCall) : Prop :=
  ∀ before, before <+: calls → ∀ hash, decremented before hash ≤ inserted before hash

/-- An entry is there just for the hashes with references, as their creation left it, and a
decrement reports just the last reference. -/
structure ChunksOutliveReferences (calls : List ChunkCall) : Prop where
  present : ∀ before, before <+: calls → ∀ hash,
    (((ChunkIndex.afterCalls before).entry hash).isSome ↔
      decremented before hash < inserted before hash)
  asCreated : ∀ before, before <+: calls → ∀ hash blob count length,
    (ChunkIndex.afterCalls before).entry hash = some (blob, count, length) →
      (references before hash).created = some (blob, length)
  reported : ∀ before hash, before ++ [ChunkCall.decrement hash] <+: calls →
    (((ChunkIndex.afterCalls before).decrement hash).1 = true ↔
      inserted before hash = decremented before hash + 1)

def maxRefCount : Nat := 2 ^ 32 - 1

/-- While a hash has references, it has lost fewer than the limit since its highest count. -/
def FallsShortOfLimit (calls : List ChunkCall) : Prop :=
  ∀ before, before <+: calls → ∀ hash, decremented before hash < inserted before hash →
    (references before hash).peak <
      inserted before hash - decremented before hash + maxRefCount

theorem references_append (calls : List ChunkCall) (call : ChunkCall) (hash : ChunkHashKey) :
    references (calls ++ [call]) hash = (references calls hash).call hash call :=
  Runs.run_append _ _ _ _

private theorem after_calls_append (calls : List ChunkCall) (call : ChunkCall) :
    ChunkIndex.afterCalls (calls ++ [call]) = (ChunkIndex.afterCalls calls).call call :=
  Runs.run_append _ _ _ _

theorem inserted_append (calls : List ChunkCall) (call : ChunkCall) (hash : ChunkHashKey) :
    inserted (calls ++ [call]) hash = inserted calls hash + if call.inserts hash then 1 else 0 := by
  rw [inserted, inserted, List.countP_append, List.countP_singleton]

theorem decremented_append (calls : List ChunkCall) (call : ChunkCall) (hash : ChunkHashKey) :
    decremented (calls ++ [call]) hash =
      decremented calls hash + if call.decrements hash then 1 else 0 := by
  rw [decremented, decremented, List.countP_append, List.countP_singleton]

theorem balanced_earlier (before calls : List ChunkCall) (earlier : before <+: calls)
    (balanced : Balanced calls) : Balanced before :=
  fun first reached => balanced first (reached.trans earlier)

theorem count_of_balanced (calls : List ChunkCall) (balanced : Balanced calls)
    (hash : ChunkHashKey) :
    (references calls hash).count + decremented calls hash = inserted calls hash := by
  induction calls using List.reverseRecOn with
  | nil => rfl
  | append_singleton calls call ih =>
      have before := ih (balanced_earlier _ _ (List.prefix_append calls [call]) balanced)
      have whole := balanced _ (List.prefix_refl _) hash
      rw [inserted_append, decremented_append] at whole ⊢
      rw [references_append]
      cases call with
      | insertOrBump other blob length =>
          by_cases same : other = hash <;>
            simp [References.call, References.insert, ChunkCall.inserts, ChunkCall.decrements,
              same] at whole ⊢ <;> omega
      | decrement other =>
          by_cases same : other = hash
          · simp [References.call, References.remove, ChunkCall.inserts, ChunkCall.decrements,
              same] at whole ⊢
            split
            · simp only [References.absent]
              omega
            · dsimp only
              omega
          · simp [References.call, ChunkCall.inserts, ChunkCall.decrements, same] at whole ⊢
            omega

/-- A stored count lags behind the references by what the peak has beyond the limit. -/
def Stored (refs : References) : Option ChunkIndexValue → Prop
  | none => refs = .absent
  | some value =>
      0 < refs.count ∧ refs.count ≤ refs.peak ∧ refs.peak < refs.count + maxRefCount ∧
        value.refCount.toNat + (refs.peak - maxRefCount) = refs.count ∧
          refs.created = some (value.blobRef, value.length)

private theorem Stored.peak_lt (refs : References) (value : Option ChunkIndexValue)
    (stored : Stored refs value) : refs.peak < refs.count + maxRefCount := by
  cases value with
  | none =>
      have none : refs = .absent := stored
      rw [none]
      decide
  | some value => exact stored.2.2.1

private theorem saturating_bump (count : UInt32) :
    (saturatingAdd32 count 1).toNat = min (count.toNat + 1) maxRefCount := by
  have below := count.toNat_lt
  have one : (1 : UInt32).toNat = 1 := rfl
  have limit : maxRefCount = 2 ^ 32 - 1 := rfl
  rw [saturatingAdd32, one]
  by_cases small : count.toNat + 1 < 2 ^ 32
  · rw [if_pos small, UInt32.toNat_add, one, Nat.mod_eq_of_lt small]
    omega
  · rw [if_neg small]
    change 2 ^ 32 - 1 = _
    omega

private theorem stored_insert (index : ChunkIndex) (hash : ChunkHashKey) (blob : BlobRef)
    (length : UInt32) (refs : References) (stored : Stored refs (index.lookup hash)) :
    Stored (refs.insert blob length) ((index.insertOrBump hash blob length).2.lookup hash) := by
  have limit : maxRefCount = 2 ^ 32 - 1 := rfl
  rw [ChunkIndex.insertOrBump]
  dsimp only
  rw [lookup_insert_eq, if_pos rfl]
  cases found : index.lookup hash with
  | none =>
      rw [found] at stored
      have none : refs = .absent := stored
      have first : (saturatingAdd32 0 1).toNat = 1 := rfl
      rw [none]
      refine ⟨Nat.succ_pos _, Nat.le_max_right _ _, ?_, ?_, rfl⟩
      · change 1 < 1 + maxRefCount
        omega
      · simp only [Option.getD_none, first]
        change 1 + (1 - maxRefCount) = 1
        omega
  | some value =>
      rw [found] at stored
      obtain ⟨some_count, peak, short, lag, created⟩ := stored
      have bumped := saturating_bump value.refCount
      refine ⟨Nat.succ_pos _, Nat.le_max_right _ _, ?_, ?_, ?_⟩
      · simp only [References.insert]
        omega
      · simp only [References.insert, Option.getD_some]
        omega
      · rw [References.insert, if_neg (Nat.ne_of_gt some_count)]
        exact created

theorem decrement_reports (index : ChunkIndex) (hash : ChunkHashKey) (refs : References)
    (stored : Stored refs (index.lookup hash)) (some_count : 0 < refs.count) :
    (index.decrement hash).1 = true ↔ refs.count = 1 ∨ refs.count + maxRefCount = refs.peak + 1 := by
  have limit : maxRefCount = 2 ^ 32 - 1 := rfl
  rw [ChunkIndex.decrement]
  cases found : index.lookup hash with
  | none =>
      rw [found] at stored
      have none : refs = .absent := stored
      rw [none] at some_count
      cases some_count
  | some value =>
      rw [found] at stored
      obtain ⟨-, peak, short, lag, -⟩ := stored
      have one : (1 : UInt32).toNat = 1 := rfl
      dsimp only
      split
      · next last =>
          rw [UInt32.le_iff_toNat_le, one] at last
          exact iff_of_true rfl (by omega)
      · next more =>
          rw [UInt32.le_iff_toNat_le, one] at more
          exact iff_of_false Bool.false_ne_true (by omega)

private theorem stored_decrement (index : ChunkIndex) (hash : ChunkHashKey) (refs : References)
    (stored : Stored refs (index.lookup hash)) (some_count : 0 < refs.count)
    (short : 1 < refs.count → refs.peak < refs.count - 1 + maxRefCount) :
    Stored refs.remove ((index.decrement hash).2.lookup hash) := by
  have limit : maxRefCount = 2 ^ 32 - 1 := rfl
  rw [ChunkIndex.decrement, References.remove]
  cases found : index.lookup hash with
  | none =>
      rw [found] at stored
      have none : refs = .absent := stored
      rw [none] at some_count
      cases some_count
  | some value =>
      rw [found] at stored
      obtain ⟨-, peak, below, lag, created⟩ := stored
      have one : (1 : UInt32).toNat = 1 := rfl
      dsimp only
      by_cases last : refs.count ≤ 1
      · have least : value.refCount ≤ 1 := by
          rw [UInt32.le_iff_toNat_le, one]
          omega
        rw [if_pos last, if_pos least, lookup_erase_eq, if_pos rfl]
        rfl
      · have falls := short (by omega)
        have more : ¬ value.refCount ≤ 1 := by
          rw [UInt32.le_iff_toNat_le, one]
          omega
        have less : (value.refCount - 1).toNat = value.refCount.toNat - 1 :=
          UInt32.toNat_sub_of_le _ _ (by
            rw [UInt32.le_iff_toNat_le] at more ⊢
            omega)
        rw [if_neg last, if_neg more, lookup_insert_eq, if_pos rfl]
        refine ⟨?_, ?_, falls, ?_, created⟩
        · dsimp only
          omega
        · dsimp only
          omega
        · dsimp only
          omega

theorem lookup_other_call (index : ChunkIndex) (hash : ChunkHashKey) (call : ChunkCall)
    (other : call.inserts hash = false ∧ call.decrements hash = false) :
    (index.call call).lookup hash = index.lookup hash := by
  cases call with
  | insertOrBump key blob length =>
      have different : hash ≠ key := fun same => by simp [ChunkCall.inserts, same] at other
      change ((index.insertOrBump key blob length).2).lookup hash = _
      rw [ChunkIndex.insertOrBump]
      dsimp only
      rw [lookup_insert_eq, if_neg different]
  | decrement key =>
      have different : hash ≠ key := fun same => by simp [ChunkCall.decrements, same] at other
      change ((index.decrement key).2).lookup hash = _
      rw [ChunkIndex.decrement]
      split
      · split
        · rw [lookup_erase_eq, if_neg different]
        · rw [lookup_insert_eq, if_neg different]
      · rfl

theorem stored_of_falls_short (calls : List ChunkCall) (balanced : Balanced calls)
    (short : FallsShortOfLimit calls) (hash : ChunkHashKey) :
    Stored (references calls hash) ((ChunkIndex.afterCalls calls).lookup hash) := by
  induction calls using List.reverseRecOn with
  | nil => rfl
  | append_singleton calls call ih =>
      have earlier := List.prefix_append calls [call]
      have before := balanced_earlier _ _ earlier balanced
      have stored := ih before fun first reached => short first (reached.trans earlier)
      have count := count_of_balanced calls before hash
      have whole := balanced _ (List.prefix_refl _) hash
      have falls := short _ (List.prefix_refl _) hash
      rw [inserted_append, decremented_append] at whole falls
      rw [references_append] at falls
      rw [references_append, after_calls_append]
      cases call with
      | insertOrBump other blob length =>
          by_cases same : other = hash
          · rw [References.call, if_pos same, same]
            exact stored_insert _ hash blob length _ stored
          · rw [References.call, if_neg same, lookup_other_call]
            · exact stored
            · simp [ChunkCall.inserts, ChunkCall.decrements, same]
      | decrement other =>
          by_cases same : other = hash
          · rw [References.call, if_pos same] at falls ⊢
            simp [ChunkCall.inserts, ChunkCall.decrements, same] at whole falls
            rw [same]
            apply stored_decrement _ hash _ stored
            · omega
            · intro more
              have next := falls (by omega)
              rw [References.remove, if_neg (by omega)] at next
              dsimp only at next
              omega
          · rw [References.call, if_neg same, lookup_other_call]
            · exact stored
            · simp [ChunkCall.inserts, ChunkCall.decrements, same]

private theorem outlive_of_falls_short (calls : List ChunkCall) (balanced : Balanced calls)
    (short : FallsShortOfLimit calls) : ChunksOutliveReferences calls := by
  have stored (before : List ChunkCall) (reached : before <+: calls) (hash : ChunkHashKey) :=
    stored_of_falls_short before (balanced_earlier _ _ reached balanced)
      (fun first earlier => short first (earlier.trans reached)) hash
  have count (before : List ChunkCall) (reached : before <+: calls) (hash : ChunkHashKey) :=
    count_of_balanced before (balanced_earlier _ _ reached balanced) hash
  constructor
  · intro before reached hash
    have kept := stored before reached hash
    have total := count before reached hash
    rw [ChunkIndex.entry]
    cases found : (ChunkIndex.afterCalls before).lookup hash with
    | none =>
        rw [found] at kept
        have none : references before hash = .absent := kept
        rw [none] at total
        have equal : decremented before hash = inserted before hash := by
          rw [← total]
          exact (Nat.zero_add _).symm
        rw [equal]
        simp
    | some value =>
        rw [found] at kept
        have some_count := kept.1
        exact iff_of_true rfl (by omega)
  · intro before reached hash blob number length found
    have kept := stored before reached hash
    rw [ChunkIndex.entry, Option.map_eq_some_iff] at found
    obtain ⟨value, there, parts⟩ := found
    cases parts
    rw [there] at kept
    exact kept.2.2.2.2
  · intro before hash reached
    have earlier := (List.prefix_append before [.decrement hash]).trans reached
    have kept := stored before earlier hash
    have total := count before earlier hash
    have whole := balanced _ reached hash
    have falls := short _ reached hash
    rw [inserted_append, decremented_append] at whole falls
    rw [references_append, References.call, if_pos rfl] at falls
    simp [ChunkCall.inserts, ChunkCall.decrements] at whole falls
    have some_count : 0 < (references before hash).count := by omega
    rw [decrement_reports _ _ _ kept some_count]
    constructor
    · intro either
      cases either with
      | inl one => omega
      | inr lost =>
          by_contra more
          have next := falls (by omega)
          rw [References.remove, if_neg (by omega)] at next
          dsimp only at next
          omega
    · intro last
      exact Or.inl (by omega)

private theorem ChunksOutliveReferences.earlier (before calls : List ChunkCall)
    (reached : before <+: calls)
    (outlive : ChunksOutliveReferences calls) : ChunksOutliveReferences before where
  present first earlier := outlive.present first (earlier.trans reached)
  asCreated first earlier := outlive.asCreated first (earlier.trans reached)
  reported first hash earlier := outlive.reported first hash (earlier.trans reached)

theorem falls_short_of_outlive (calls : List ChunkCall) (balanced : Balanced calls)
    (outlive : ChunksOutliveReferences calls) : FallsShortOfLimit calls := by
  induction calls using List.reverseRecOn with
  | nil =>
      intro before reached hash some_left
      rw [List.prefix_nil.mp reached] at some_left
      cases some_left
  | append_singleton calls call ih =>
      have earlier := List.prefix_append calls [call]
      have before := balanced_earlier _ _ earlier balanced
      have short := ih before (outlive.earlier _ _ earlier)
      intro first reached hash some_left
      cases List.prefix_concat_iff.mp reached with
      | inr inside => exact short first inside hash some_left
      | inl whole =>
          have limit : maxRefCount = 2 ^ 32 - 1 := rfl
          have kept := stored_of_falls_short calls before short hash
          have total := count_of_balanced calls before hash
          have previous := short calls (List.prefix_refl _) hash
          rw [whole, inserted_append, decremented_append] at some_left ⊢
          rw [references_append]
          cases call with
          | insertOrBump other blob length =>
              by_cases same : other = hash
              · have peak := kept.peak_lt
                rw [References.call, if_pos same, References.insert]
                simp [ChunkCall.inserts, ChunkCall.decrements, same] at some_left ⊢
                omega
              · rw [References.call, if_neg same]
                simp [ChunkCall.inserts, ChunkCall.decrements, same] at some_left ⊢
                exact previous some_left
          | decrement other =>
              by_cases same : other = hash
              · have peak := kept.peak_lt
                have report := outlive.reported calls hash (by rw [same])
                rw [References.call, if_pos same]
                simp [ChunkCall.inserts, ChunkCall.decrements, same] at some_left ⊢
                rw [decrement_reports _ _ _ kept (by omega)] at report
                rw [References.remove, if_neg (by omega)]
                dsimp only
                by_contra lost
                have last := report.mp (Or.inr (by omega))
                omega
              · rw [References.call, if_neg same]
                simp [ChunkCall.inserts, ChunkCall.decrements, same] at some_left ⊢
                exact previous some_left

/-- Chunks outlive their references just when no count falls by the limit before it is zero. -/
theorem chunks_outlive_iff_falls_short (calls : List ChunkCall) (balanced : Balanced calls) :
    ChunksOutliveReferences calls ↔ FallsShortOfLimit calls :=
  ⟨falls_short_of_outlive calls balanced, outlive_of_falls_short calls balanced⟩

private theorem balanced_append (calls : List ChunkCall) (call : ChunkCall)
    (balanced : Balanced calls)
    (last : ∀ hash, decremented (calls ++ [call]) hash ≤ inserted (calls ++ [call]) hash) :
    Balanced (calls ++ [call]) := by
  intro before reached
  cases List.prefix_concat_iff.mp reached with
  | inl whole =>
      rw [whole]
      exact last
  | inr inside => exact balanced before inside

section

variable (hash : ChunkHashKey) (blob : BlobRef) (length : UInt32)

/-- A hash that is inserted some times, then decremented some times. -/
def fallingCalls (insertions decrements : Nat) : List ChunkCall :=
  List.replicate insertions (.insertOrBump hash blob length) ++
    List.replicate decrements (.decrement hash)

theorem falling_calls_insert (insertions : Nat) :
    fallingCalls hash blob length (insertions + 1) 0 =
      fallingCalls hash blob length insertions 0 ++ [.insertOrBump hash blob length] := by
  rw [fallingCalls, fallingCalls, List.replicate_zero, List.append_nil, List.append_nil,
    List.replicate_succ']

theorem falling_calls_decrement (insertions decrements : Nat) :
    fallingCalls hash blob length insertions (decrements + 1) =
      fallingCalls hash blob length insertions decrements ++ [.decrement hash] := by
  rw [fallingCalls, fallingCalls, List.replicate_succ', List.append_assoc]

theorem inserted_falling (insertions decrements : Nat) (other : ChunkHashKey) :
    inserted (fallingCalls hash blob length insertions decrements) other =
      if hash = other then insertions else 0 := by
  rw [inserted, fallingCalls, List.countP_append, List.countP_replicate, List.countP_replicate]
  simp [ChunkCall.inserts]

theorem decremented_falling (insertions decrements : Nat) (other : ChunkHashKey) :
    decremented (fallingCalls hash blob length insertions decrements) other =
      if hash = other then decrements else 0 := by
  rw [decremented, fallingCalls, List.countP_append, List.countP_replicate, List.countP_replicate]
  simp [ChunkCall.decrements]

theorem balanced_falling (insertions decrements : Nat) (within : decrements ≤ insertions) :
    Balanced (fallingCalls hash blob length insertions decrements) := by
  induction decrements with
  | zero =>
      induction insertions with
      | zero =>
          intro before reached other
          rw [List.prefix_nil.mp reached]
          exact Nat.le_refl _
      | succ insertions ih =>
          rw [falling_calls_insert]
          apply balanced_append _ _ (ih (Nat.zero_le _))
          intro other
          rw [← falling_calls_insert, inserted_falling, decremented_falling]
          split
          · exact Nat.zero_le _
          · exact Nat.le_refl _
  | succ decrements ih =>
      rw [falling_calls_decrement]
      apply balanced_append _ _ (ih (by omega))
      intro other
      rw [← falling_calls_decrement, inserted_falling, decremented_falling]
      split
      · exact within
      · exact Nat.le_refl _

private theorem peak_falling (insertions decrements : Nat) (within : decrements < insertions) :
    (references (fallingCalls hash blob length insertions decrements) hash).count =
        insertions - decrements ∧
      (references (fallingCalls hash blob length insertions decrements) hash).peak =
        insertions := by
  induction decrements with
  | zero =>
      have raised (insertions : Nat) :
          (references (fallingCalls hash blob length insertions 0) hash).count = insertions ∧
            (references (fallingCalls hash blob length insertions 0) hash).peak = insertions := by
        induction insertions with
        | zero => exact ⟨rfl, rfl⟩
        | succ insertions ih =>
            rw [falling_calls_insert, references_append, References.call, if_pos rfl,
              References.insert]
            dsimp only
            rw [ih.1, ih.2]
            exact ⟨rfl, Nat.max_eq_right (Nat.le_succ _)⟩
      exact raised insertions
  | succ decrements ih =>
      have before := ih (by omega)
      rw [falling_calls_decrement, references_append, References.call, if_pos rfl,
        References.remove, if_neg (by rw [before.1]; omega)]
      dsimp only
      rw [before.1, before.2]
      exact ⟨by omega, rfl⟩

/-- A hash whose count falls from beyond the limit to one has lost its entry. -/
theorem not_outlive_falling (insertions decrements : Nat) (most : insertions = 2 ^ 32)
    (one_left : decrements + 1 = insertions) :
    Balanced (fallingCalls hash blob length insertions decrements) ∧
      inserted (fallingCalls hash blob length insertions decrements) hash =
        decremented (fallingCalls hash blob length insertions decrements) hash + 1 ∧
      ¬ ChunksOutliveReferences (fallingCalls hash blob length insertions decrements) := by
  have balanced := balanced_falling hash blob length insertions decrements (by omega)
  have counts : inserted (fallingCalls hash blob length insertions decrements) hash =
      decremented (fallingCalls hash blob length insertions decrements) hash + 1 := by
    rw [inserted_falling, decremented_falling, if_pos rfl, if_pos rfl]
    exact one_left.symm
  refine ⟨balanced, counts, ?_⟩
  intro outlive
  have short := falls_short_of_outlive _ balanced outlive _ (List.prefix_refl _) hash (by omega)
  have limit : maxRefCount = 2 ^ 32 - 1 := rfl
  rw [(peak_falling hash blob length insertions decrements (by omega)).2, counts] at short
  omega

end

/-- After one more insertion than the counter can hold, the second last decrement removes the
entry. -/
theorem chunk_lost_at_limit :
    let hash : ChunkHashKey := ⟨1, 1, 1, 1⟩
    let blob : BlobRef := ⟨0, 0, 100, 4096⟩
    let calls := fallingCalls hash blob 4096 (2 ^ 32) (2 ^ 32 - 1)
    Balanced calls ∧ inserted calls hash = decremented calls hash + 1 ∧
      ¬ ChunksOutliveReferences calls :=
  not_outlive_falling _ _ _ _ _ rfl (by omega)

theorem chunks_outlive_iff_falls_short_example :
    let calls := fallingCalls ⟨1, 1, 1, 1⟩ ⟨0, 0, 100, 4096⟩ 4096 2 1
    ChunksOutliveReferences calls ↔ FallsShortOfLimit calls :=
  chunks_outlive_iff_falls_short _ (balanced_falling _ _ _ 2 1 (by decide))

end Mimisbrunnr.Index
