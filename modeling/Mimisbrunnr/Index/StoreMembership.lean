import Mathlib.Data.Finset.Sort
import Mathlib.Data.UInt
import Mimisbrunnr.Index.Tag
import Mimisbrunnr.Lib.Runs
import Mimisbrunnr.Lib.StableMerge

/-!
# Ordered and ranked tag stores

An ordered store lists its objects in a sequence, a ranked one by falling score.
What is listed are whole identifiers, the members are their low 32 bits, so the
removal of one object takes the membership of every object that shares its bits
and leaves those objects listed.
-/

namespace Mimisbrunnr.Index

set_option autoImplicit false

open Mimisbrunnr.Lib
open Mimisbrunnr.Types

namespace TagStore

def newOrdered : TagStore := .ordered ∅ []

def newRanked : TagStore := .ranked ∅ []

def sequence : TagStore → Option (List ObjectId)
  | .ordered _ sequence => some sequence
  | _ => none

/-- `ranked`, whose name the constructor has. -/
def rankedEntries : TagStore → Option (List (ObjectId × Int64))
  | .ranked _ scores => some scores
  | _ => none

def scoreRank (entry : ObjectId × Int64) : Int := - entry.2.toInt

def pushOrdered (store : TagStore) (oid : ObjectId) : TagStore :=
  match store with
  | .ordered members sequence => .ordered (insert oid.low32 members) (sequence ++ [oid])
  | other => other

/-- Largest score first. -/
def insertRanked (store : TagStore) (oid : ObjectId) (score : Int64) : TagStore :=
  match store with
  | .ranked members scores =>
      .ranked (insert oid.low32 members) (StableMerge.sort scoreRank (scores ++ [(oid, score)]))
  | other => other

def synthesised (members : Finset Nat) : List ObjectId :=
  members.sort.map fun entry => ObjectId.fromU64 (UInt64.ofNat entry)

def upgradeToOrdered (store : TagStore) : TagStore :=
  match store with
  | .simple members => .ordered members (synthesised members)
  | other => other

def upgradeToRanked (store : TagStore) : TagStore :=
  .ranked store.members ((synthesised store.members).map fun oid => (oid, 0))

end TagStore

inductive StoreOp where
  | addMember (oid : ObjectId)
  | removeMember (oid : ObjectId)
  | pushOrdered (oid : ObjectId)
  | insertRanked (oid : ObjectId) (score : Int64)
  | upgradeToOrdered
  | upgradeToRanked
deriving DecidableEq, Repr

namespace StoreOp

def apply (store : TagStore) : StoreOp → TagStore
  | addMember oid => store.addMember oid
  | removeMember oid => (store.removeMember oid).1
  | pushOrdered oid => store.pushOrdered oid
  | insertRanked oid score => store.insertRanked oid score
  | upgradeToOrdered => store.upgradeToOrdered
  | upgradeToRanked => store.upgradeToRanked

end StoreOp

namespace TagStore

def Lists (store : TagStore) (oid : ObjectId) : Prop :=
  (∃ sequence, store.sequence = some sequence ∧ oid ∈ sequence) ∨
    ∃ scores, store.rankedEntries = some scores ∧ ∃ score, (oid, score) ∈ scores

def Descending (store : TagStore) : Prop :=
  ∀ scores, store.rankedEntries = some scores → scores.Pairwise fun first second => second.2 ≤ first.2

/-- Whatever is listed is a member, and the ranked entries are in order. -/
structure KeepsMembership (store : TagStore) : Prop where
  inside : ∀ oid, store.Lists oid → store.contains oid = true
  descending : store.Descending

def Entries32 (store : TagStore) : Prop := ∀ entry ∈ store.members, entry < 2 ^ 32

@[simp] theorem lists_simple (members : Finset Nat) (oid : ObjectId) :
    ¬ (TagStore.simple members).Lists oid := by
  simp [Lists, sequence, rankedEntries]

@[simp] theorem lists_ordered (members : Finset Nat) (list : List ObjectId) (oid : ObjectId) :
    (TagStore.ordered members list).Lists oid ↔ oid ∈ list := by
  simp [Lists, sequence, rankedEntries]

@[simp] theorem lists_ranked (members : Finset Nat) (list : List (ObjectId × Int64))
    (oid : ObjectId) : (TagStore.ranked members list).Lists oid ↔ ∃ score, (oid, score) ∈ list := by
  simp [Lists, sequence, rankedEntries]

theorem contains_iff (store : TagStore) (oid : ObjectId) :
    store.contains oid = true ↔ oid.low32 ∈ store.members := by
  simp [contains]

@[simp] theorem descending_ordered (members : Finset Nat) (list : List ObjectId) :
    (TagStore.ordered members list).Descending := by
  intro entries found
  cases found

theorem descending_ranked (members : Finset Nat) (list : List (ObjectId × Int64)) :
    (TagStore.ranked members list).Descending ↔
      list.Pairwise fun first second => second.2 ≤ first.2 := by
  constructor
  · intro order
    exact order list rfl
  · intro order entries found
    cases found
    exact order

theorem empty_keeps (store : TagStore) (empty : ∀ oid, ¬ store.Lists oid)
    (order : store.Descending) : store.KeepsMembership := by
  constructor
  · intro oid listed
    exact absurd listed (empty oid)
  · exact order

theorem new_simple_keeps : newSimple.KeepsMembership := by
  apply empty_keeps
  · exact lists_simple _
  · intro entries found
    cases found

private theorem new_ordered_keeps : newOrdered.KeepsMembership := by
  apply empty_keeps
  · intro oid listed
    cases (lists_ordered _ _ _).mp listed
  · exact descending_ordered _ _

theorem new_ranked_keeps : newRanked.KeepsMembership := by
  apply empty_keeps
  · intro oid listed
    obtain ⟨score, member⟩ := (lists_ranked _ _ _).mp listed
    cases member
  · exact (descending_ranked _ _).mpr List.Pairwise.nil

private theorem low32_lt (oid : ObjectId) : oid.low32 < 2 ^ 32 := Nat.mod_lt _ (by decide)

private theorem low32_synthesised (entry : Nat) (small : entry < 2 ^ 32) :
    (ObjectId.fromU64 (UInt64.ofNat entry)).low32 = entry := by
  unfold ObjectId.low32 ObjectId.fromU64
  rw [UInt64.toNat_ofNat']
  omega

theorem synthesised_member (members : Finset Nat) (small : ∀ entry ∈ members, entry < 2 ^ 32)
    (oid : ObjectId) (listed : oid ∈ synthesised members) : oid.low32 ∈ members := by
  obtain ⟨entry, member, made⟩ := List.mem_map.mp listed
  have stored : entry ∈ members := (Finset.mem_sort _).mp member
  rw [← made, low32_synthesised entry (small entry stored)]
  exact stored

theorem remove_member_unlists (store : TagStore) (oid : ObjectId) :
    ¬ (store.removeMember oid).1.Lists oid := by
  cases store with
  | simple members => exact lists_simple _ _
  | ordered members list =>
      intro listed
      have kept := (lists_ordered _ _ _).mp listed
      have different := (List.mem_filter.mp kept).2
      simp at different
  | ranked members list =>
      intro listed
      obtain ⟨score, kept⟩ := (lists_ranked _ _ _).mp listed
      have different := (List.mem_filter.mp kept).2
      simp at different

theorem remove_member_lists_iff (store : TagStore) (oid other : ObjectId) :
    (store.removeMember oid).1.Lists other ↔ store.Lists other ∧ other ≠ oid := by
  cases store with
  | simple members => simp [removeMember, mapMembers]
  | ordered members list => simp [removeMember, mapMembers]
  | ranked members list => simp [removeMember, mapMembers]

private theorem remove_member_descending (store : TagStore) (oid : ObjectId)
    (order : store.Descending) :
    (store.removeMember oid).1.Descending := by
  cases store with
  | simple members =>
      intro entries found
      cases found
  | ordered members list => exact descending_ordered _ _
  | ranked members list =>
      exact (descending_ranked _ _).mpr (((descending_ranked _ _).mp order).filter _)

theorem remove_member_keeps_iff (store : TagStore) (oid : ObjectId) (keeps : store.KeepsMembership) :
    (store.removeMember oid).1.KeepsMembership ↔
      ∀ other, store.Lists other → other.low32 = oid.low32 → other = oid := by
  constructor
  · intro after other listed same
    by_contra different
    have inside := after.inside other
      ((remove_member_lists_iff store oid other).mpr ⟨listed, different⟩)
    rw [contains_iff, members_remove_member, Finset.mem_erase] at inside
    exact inside.1 same
  · intro apart
    constructor
    · intro other listed
      have before := (remove_member_lists_iff store oid other).mp listed
      rw [contains_iff, members_remove_member, Finset.mem_erase]
      constructor
      · intro same
        exact before.2 (apart other before.1 same)
      · exact (contains_iff store other).mp (keeps.inside other before.1)
    · exact remove_member_descending store oid keeps.descending

private theorem add_member_keeps (store : TagStore) (oid : ObjectId)
    (keeps : store.KeepsMembership) :
    (store.addMember oid).KeepsMembership := by
  have inside (other : ObjectId) (listed : store.Lists other) :
      (store.addMember oid).contains other = true := by
    rw [contains_iff, members_add_member]
    exact Finset.mem_insert_of_mem ((contains_iff store other).mp (keeps.inside other listed))
  cases store with
  | simple members => exact ⟨inside, keeps.descending⟩
  | ordered members list => exact ⟨inside, keeps.descending⟩
  | ranked members list =>
      exact ⟨inside, (descending_ranked _ _).mpr ((descending_ranked _ _).mp keeps.descending)⟩

private theorem push_ordered_keeps (store : TagStore) (oid : ObjectId)
    (keeps : store.KeepsMembership) :
    (store.pushOrdered oid).KeepsMembership := by
  cases store with
  | simple members => exact keeps
  | ranked members list => exact keeps
  | ordered members list =>
      constructor
      · intro other listed
        have either := List.mem_append.mp ((lists_ordered _ _ _).mp listed)
        apply (contains_iff _ _).mpr
        cases either with
        | inl old =>
            have member := (contains_iff _ _).mp
              (keeps.inside other ((lists_ordered _ _ _).mpr old))
            exact Finset.mem_insert_of_mem member
        | inr new =>
            rw [List.mem_singleton.mp new]
            exact Finset.mem_insert_self _ _
      · exact descending_ordered _ _

private theorem sort_descending (list : List (ObjectId × Int64)) :
    (StableMerge.sort scoreRank list).Pairwise fun first second => second.2 ≤ first.2 := by
  have sorted := StableMerge.sorted_sort scoreRank list
  apply sorted.imp
  intro first second order
  unfold scoreRank at order
  rw [Int64.le_iff_toInt_le]
  omega

private theorem insert_ranked_keeps (store : TagStore) (oid : ObjectId) (score : Int64)
    (keeps : store.KeepsMembership) : (store.insertRanked oid score).KeepsMembership := by
  cases store with
  | simple members => exact keeps
  | ordered members list => exact keeps
  | ranked members list =>
      constructor
      · intro other listed
        obtain ⟨given, member⟩ := (lists_ranked _ _ _).mp listed
        have either := List.mem_append.mp (List.mem_mergeSort.mp member)
        apply (contains_iff _ _).mpr
        cases either with
        | inl old =>
            have inside := (contains_iff _ _).mp
              (keeps.inside other ((lists_ranked _ _ _).mpr ⟨given, old⟩))
            exact Finset.mem_insert_of_mem inside
        | inr new =>
            have same := congrArg Prod.fst (List.mem_singleton.mp new)
            dsimp only at same
            rw [same]
            exact Finset.mem_insert_self _ _
      · exact (descending_ranked _ _).mpr (sort_descending _)

private theorem upgrade_to_ordered_keeps (store : TagStore) (small : store.Entries32)
    (keeps : store.KeepsMembership) : store.upgradeToOrdered.KeepsMembership := by
  cases store with
  | ordered members list => exact keeps
  | ranked members list => exact keeps
  | simple members =>
      constructor
      · intro other listed
        exact (contains_iff _ _).mpr
          (synthesised_member members small other ((lists_ordered _ _ _).mp listed))
      · exact descending_ordered _ _

private theorem upgrade_to_ranked_keeps (store : TagStore) (small : store.Entries32) :
    store.upgradeToRanked.KeepsMembership := by
  constructor
  · intro other listed
    obtain ⟨score, member⟩ := (lists_ranked _ _ _).mp listed
    obtain ⟨oid, made, entry⟩ := List.mem_map.mp member
    have same := congrArg Prod.fst entry
    dsimp only at same
    rw [same] at made
    exact (contains_iff _ _).mpr (synthesised_member store.members small other made)
  · apply (descending_ranked _ _).mpr
    rw [List.pairwise_map]
    exact List.pairwise_of_forall fun first second => Int64.le_refl 0

end TagStore

namespace StoreOp

open TagStore

/-- What the operation removes shares its bits with nothing else that is listed. -/
def Apart (store : TagStore) : StoreOp → Prop
  | removeMember oid => ∀ other, store.Lists other → other.low32 = oid.low32 → other = oid
  | _ => True

private theorem apply_entries (store : TagStore) (op : StoreOp) (small : store.Entries32) :
    (op.apply store).Entries32 := by
  have added (members : Finset Nat) (oid : ObjectId) (before : ∀ entry ∈ members, entry < 2 ^ 32) :
      ∀ entry ∈ insert oid.low32 members, entry < 2 ^ 32 := by
    intro entry member
    cases Finset.mem_insert.mp member with
    | inl new =>
        rw [new]
        exact low32_lt oid
    | inr old => exact before entry old
  cases op with
  | addMember oid =>
      unfold Entries32 apply
      rw [members_add_member]
      exact added store.members oid small
  | removeMember oid =>
      unfold Entries32 apply
      rw [members_remove_member]
      intro entry member
      exact small entry (Finset.mem_of_mem_erase member)
  | pushOrdered oid =>
      cases store with
      | simple members => exact small
      | ordered members list => exact added members oid small
      | ranked members list => exact small
  | insertRanked oid score =>
      cases store with
      | simple members => exact small
      | ordered members list => exact small
      | ranked members list => exact added members oid small
  | upgradeToOrdered =>
      cases store with
      | simple members => exact small
      | ordered members list => exact small
      | ranked members list => exact small
  | upgradeToRanked => exact small

private theorem apply_keeps_iff (store : TagStore) (op : StoreOp) (small : store.Entries32)
    (keeps : store.KeepsMembership) : (op.apply store).KeepsMembership ↔ op.Apart store := by
  cases op with
  | removeMember oid => exact remove_member_keeps_iff store oid keeps
  | addMember oid => exact iff_of_true (add_member_keeps store oid keeps) trivial
  | pushOrdered oid => exact iff_of_true (push_ordered_keeps store oid keeps) trivial
  | insertRanked oid score => exact iff_of_true (insert_ranked_keeps store oid score keeps) trivial
  | upgradeToOrdered => exact iff_of_true (upgrade_to_ordered_keeps store small keeps) trivial
  | upgradeToRanked => exact iff_of_true (upgrade_to_ranked_keeps store small) trivial

end StoreOp

open StoreOp

/-- The store keeps to its members all along a run, and whatever is removed is unlisted, just
when it does so at the start and no removal shares its bits with another listed object. -/
theorem listed_stays_member_iff (store : TagStore) (ops : List StoreOp)
    (small : store.Entries32) :
    (Runs.Throughout apply TagStore.KeepsMembership store ops ∧
        ∀ before oid, before ++ [.removeMember oid] <+: ops →
          ¬ (Runs.run apply store (before ++ [.removeMember oid])).Lists oid) ↔
      store.KeepsMembership ∧ Runs.Along apply (fun store op => op.Apart store) store ops := by
  have steps := Runs.throughout_iff_along apply TagStore.Entries32 (fun _ => True)
    TagStore.KeepsMembership (fun store op => op.Apart store) store small apply_entries
    (fun state op entries _ _ keeps => apply_keeps_iff state op entries keeps) ops
    (fun _ _ => trivial)
  rw [← steps]
  constructor
  · intro property
    exact property.1
  · intro keeps
    constructor
    · exact keeps
    · intro before oid _
      rw [Runs.run_append]
      exact TagStore.remove_member_unlists (Runs.run apply store before) oid

/-- The second push and the removal are about identifiers with the same low 32 bits of two
nodes. -/
theorem removal_leaves_other_node_listed :
    let oid := ObjectId.fromU64 7
    let other := ObjectId.fromU64 (2 ^ 48 + 7)
    let store := Runs.run apply TagStore.newOrdered
      [.pushOrdered oid, .pushOrdered other, .removeMember oid]
    store.sequence = some [other] ∧ store.contains other = false := by
  decide

/-- A pushed object that is removed again. -/
theorem pushed_and_removed_keeps :
    let oid := ObjectId.fromU64 7
    let ops : List StoreOp := [.pushOrdered oid, .removeMember oid]
    TagStore.newOrdered.Entries32 ∧
      Runs.Throughout apply TagStore.KeepsMembership TagStore.newOrdered ops ∧
      ¬ (Runs.run apply TagStore.newOrdered ops).Lists oid := by
  intro oid ops
  have small : TagStore.newOrdered.Entries32 := by
    intro entry member
    cases member
  have apart : Runs.Along apply (fun store op => op.Apart store) TagStore.newOrdered ops := by
    rw [Runs.along_cons_iff, Runs.along_cons_iff]
    constructor
    · trivial
    · constructor
      · intro other listed _
        exact List.mem_singleton.mp ((TagStore.lists_ordered _ _ _).mp listed)
      · exact Runs.along_nil _ _ _
  have steps := (listed_stays_member_iff TagStore.newOrdered ops small).mpr
    ⟨TagStore.new_ordered_keeps, apart⟩
  exact ⟨small, steps.1, steps.2 [.pushOrdered oid] oid (List.prefix_refl _)⟩

end Mimisbrunnr.Index
