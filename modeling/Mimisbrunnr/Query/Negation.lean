import Mimisbrunnr.Query.Confinement
import Mimisbrunnr.Query.Sentinels

/-!
# Negation

A negation takes the result of its query from the objects that have a tag. It
gives the rest of a set of objects just when these have tags and the indices name
no others.
-/

namespace Mimisbrunnr.Query

set_option autoImplicit false

open Mimisbrunnr.Index
open Mimisbrunnr.Lib
open Mimisbrunnr.Types

def Valued (index : RangeIndex) : Prop :=
  ∀ tag key oidLocal, oidLocal ∈ Bitmaps.members index.map (tag, key) →
    ∃ value, key = NormalisedKey.fromValue value

theorem not_beyond_both (value : Value) :
    ∀ width, belowLeast width value = true → aboveGreatest width value = false := by
  induction value with
  | float bits =>
      intro width below
      rw [belowLeast, decide_eq_true_iff] at below
      rw [aboveGreatest, decide_eq_false_iff_not]
      intro above
      exact absurd below (Nat.not_lt.mpr (Nat.div_le_div_right (by omega)))
  | «scoped» context inner ih =>
      intro width below
      exact ih (width - 4) below
  | text string =>
      intro width below
      cases below
  | int number =>
      intro width below
      cases below
  | timestamp ns =>
      intro width below
      cases below
  | blob bytes =>
      intro width below
      cases below

namespace QueryExecutor

variable (x : QueryExecutor)

/-- The objects are tagged, and the indices name no others. -/
structure Sees (live : Set Nat) : Prop where
  tagged : ∀ entry ∈ live, ∃ tag, entry ∈ x.tagIndex.membersOf tag
  tags : ∀ tag, ∀ entry ∈ x.tagIndex.membersOf tag, entry ∈ live
  kv : ∀ key value, ∀ entry ∈ x.kvIndex.lookup x.hash key value, entry ∈ live
  range : ∀ key value, ∀ entry ∈ x.rangeIndex.lookup key value, entry ∈ live
  attrs : ∀ oid key value entry, x.Carries oid (.attr key value) →
    oidLow32 oid.toU64 = some entry → entry ∈ live
  relations : ∀ oid predicate target entry, x.Carries oid (.relation predicate target) →
    oidLow32 oid.toU64 = some entry → entry ∈ live

/-- A query and its negation have the objects between them, and a second negation undoes the
first. -/
def Partitions (live : Set Nat) : Prop :=
  ∀ query result, x.evaluate query = .ok result →
    ∃ rest, x.evaluate (.not query) = .ok rest ∧ Disjoint result rest ∧
      (∀ entry, entry ∈ result ∪ rest ↔ entry ∈ live) ∧
      x.evaluate (.not (.not query)) = .ok result

section

variable {x} {live : Set Nat}

private theorem Sees.universe_ (sees : x.Sees live) (entry : Nat) :
    entry ∈ x.universe_ ↔ entry ∈ live := by
  rw [mem_universe]
  constructor
  · intro found
    obtain ⟨tag, member⟩ := found
    exact sees.tags tag entry member
  · exact sees.tagged entry

private theorem Sees.confined (sees : x.Sees live) (valued : Valued x.rangeIndex) :
    x.Confined live where
  tags := sees.tags
  kv := sees.kv
  range := by
    intro tag key entry stored
    obtain ⟨value, shape⟩ := valued tag key entry stored
    rw [shape] at stored
    exact sees.range tag value entry stored
  attrs := sees.attrs
  relations := sees.relations

end

/-- A negated result is the rest of the tagged objects, and twice negated what of the result is
tagged. -/
theorem evaluate_negations (query : Types.Query) (result : Finset Nat)
    (evaluated : x.evaluate query = .ok result) :
    x.evaluate (.not query) = .ok (x.universe_ \ result) ∧
      x.evaluate (.not (.not query)) = .ok (x.universe_ \ (x.universe_ \ result)) := by
  have once := x.evaluate_not_ok query result evaluated
  exact ⟨once, x.evaluate_not_ok (.not query) _ once⟩

private theorem partitions_of_sees {live : Set Nat} (valued : Valued x.rangeIndex)
    (sees : x.Sees live) :
    x.Partitions live := by
  intro query result evaluated
  obtain ⟨once, twice⟩ := x.evaluate_negations query result evaluated
  have inside : result ⊆ x.universe_ := by
    intro entry member
    exact (sees.universe_ entry).mpr ((sees.confined valued).result query result evaluated entry member)
  refine ⟨_, once, Finset.disjoint_sdiff, ?_, ?_⟩
  · intro entry
    rw [Finset.union_sdiff_of_subset inside, sees.universe_]
  · rw [twice, Finset.sdiff_sdiff_eq_self inside]

theorem lookup_found (key : TagId) (value : Value) :
    ∃ op result, x.evaluate (.hasAttr key op value) = .ok result ∧
      x.rangeIndex.lookup key value ⊆ result := by
  cases above : aboveGreatest 15 value with
  | false =>
      have ordered : ¬ KeyLt (typeMax value) value := by
        rw [key_lt_iff_payload _ _ (type_tag_of_ends value).2,
          above_greatest_iff value 15 (Or.inl rfl), above]
        exact Bool.false_ne_true
      obtain ⟨set, found⟩ := range_scan_ordered x.rangeIndex key value (typeMax value) ordered
      exact ⟨.ge, set ∪ x.rangeIndex.lookup key value, congrArg (Except.map _) found,
        Finset.subset_union_right⟩
  | true =>
      have ordered : ¬ KeyLt value (typeMin value) := by
        rw [key_lt_iff_payload _ _ (type_tag_of_ends value).1.symm,
          below_least_iff value 15 (Nat.le_refl _)]
        intro below
        rw [not_beyond_both value 15 below] at above
        cases above
      obtain ⟨set, found⟩ := range_scan_ordered x.rangeIndex key (typeMin value) value ordered
      exact ⟨.le, set ∪ x.rangeIndex.lookup key value, congrArg (Except.map _) found,
        Finset.subset_union_right⟩

private theorem sees_of_partitions {live : Set Nat} (partitions : x.Partitions live) :
    x.Sees live := by
  have within (query : Types.Query) (result : Finset Nat)
      (evaluated : x.evaluate query = .ok result) (entry : Nat) (member : entry ∈ result) :
      entry ∈ live := by
    obtain ⟨rest, -, -, union, -⟩ := partitions query result evaluated
    exact (union entry).mp (Finset.mem_union_left rest member)
  have whole (entry : Nat) : entry ∈ x.universe_ ↔ entry ∈ live := by
    -- the rest of no object at all
    obtain ⟨rest, evaluated, -, union, -⟩ := partitions (.or []) ∅ rfl
    rw [(x.evaluate_negations (.or []) ∅ rfl).1, Except.ok.injEq, Finset.sdiff_empty] at evaluated
    rw [← union entry, ← evaluated, Finset.empty_union]
  have known (key : TagId) (value : Value) (entry : Nat)
      (listed : entry ∈ x.kvIndex.lookup x.hash key value) : entry ∈ live :=
    within (.hasAttr key .eq value) _ rfl entry listed
  exact
    { tagged := fun entry alive => (mem_universe entry).mp ((whole entry).mpr alive)
      tags := fun tag entry listed => (whole entry).mp ((mem_universe entry).mpr ⟨tag, listed⟩)
      kv := known
      range := by
        intro key value entry listed
        obtain ⟨op, result, evaluated, found⟩ := x.lookup_found key value
        exact within _ result evaluated entry (found listed)
      attrs := by
        intro oid key value entry carried fits
        have scanned : entry ∈ x.objectsWithAttrKey key :=
          (x.mem_scan _ entry).mpr ⟨oid, .attr key value, fits, carried, decide_eq_true rfl⟩
        by_cases equal : entry ∈ x.kvIndex.lookup x.hash key value
        · exact known key value entry equal
        · exact within (.hasAttr key .ne value) _ rfl entry
            (Finset.mem_sdiff.mpr ⟨scanned, equal⟩)
      relations := by
        intro oid predicate target entry carried fits
        exact within (.related predicate target) _ rfl entry
          ((x.mem_scan _ entry).mpr ⟨oid, .relation predicate target, fits, carried, by simp⟩) }

theorem partitions_iff (live : Set Nat) (valued : Valued x.rangeIndex) :
    x.Partitions live ↔ x.Sees live :=
  ⟨x.sees_of_partitions, x.partitions_of_sees valued⟩

end QueryExecutor

end Mimisbrunnr.Query
