import Mimisbrunnr.Engine.Agreement

/-!
# Attribute indices against the forward index

The KV index and the range index are used in the same way and differ in the key
they derive from a value. `AttrView` is what they have in common; the two
relations with the forward index are stated over it: `Agrees`, in which the
index returns an object exactly if it holds the attribute, and `Covered`, in
which it returns an object only if this holds an attribute with the same key.
-/

namespace Mimisbrunnr

set_option autoImplicit false

open Mimisbrunnr.Index
open Mimisbrunnr.Lib.Vec
open Mimisbrunnr.Ontology
open Mimisbrunnr.Types

/-- An inverted index over attributes, as the mutations change it. -/
structure AttrView (hash : ValueHash) where
  Key : Type
  keyOf : Value → Key
  find : Indices → TagId → Value → Finset Nat
  find_new : ∀ k w, find Indices.new k w = ∅
  find_frame : ∀ ix after : Indices, after.kv = ix.kv → after.range = ix.range →
    find after = find ix
  mem_set : ∀ ix oid key value k w x,
    x ∈ find (ix.setAttr hash oid key value) k w ↔
      (k = key ∧ keyOf w = keyOf value ∧ x = oid.low32) ∨ x ∈ find ix k w
  mem_remove : ∀ ix oid key valueHash k w x,
    x ∈ find (ix.removeAttr hash oid key valueHash) k w ↔
      x ∈ find ix k w ∧
        ¬ (x = oid.low32 ∧ k = key ∧ ∃ value,
          ix.selectedValue hash oid key valueHash = some value ∧ keyOf w = keyOf value)
  mem_delete : ∀ ix oid k w x,
    x ∈ find (ix.deleteObject hash oid) k w ↔
      x ∈ find ix k w ∧
        ¬ (x = oid.low32 ∧ ∃ entry ∈ ix.entriesOf oid, ∃ value,
          entry.1 = .attr k value ∧ keyOf w = keyOf value)

def kvView (hash : ValueHash) : AttrView hash where
  Key := UInt64
  keyOf := hash
  find := fun ix k w => ix.kv.lookup hash k w
  find_new := KvIndex.lookup_new hash
  find_frame := by
    intro ix after sameKv _
    rw [sameKv]
  mem_set := fun ix oid key value k w x =>
    KvIndex.mem_lookup_insert hash ix.kv key k value w oid.low32 x
  mem_remove := Indices.mem_kv_remove_attr hash
  mem_delete := fun ix oid => Indices.mem_kv_delete hash oid ix

def rangeView (hash : ValueHash) : AttrView hash where
  Key := NormalisedKey
  keyOf := NormalisedKey.fromValue
  find := fun ix k w => ix.range.lookup k w
  find_new := RangeIndex.lookup_new
  find_frame := by
    intro ix after _ sameRange
    rw [sameRange]
  mem_set := fun ix oid key value k w x =>
    RangeIndex.mem_lookup_insert ix.range key k value w oid.low32 x
  mem_remove := Indices.mem_range_remove_attr hash
  mem_delete := fun ix oid => Indices.mem_range_delete hash oid ix

namespace Indices

def HoldsAttr (ix : Indices) (oid : ObjectId) (key : TagId) (value : Value) : Prop :=
  ∃ origin, (.attr key value, origin) ∈ ix.entriesOf oid

/-- A change that keeps the attribute entries of every object. -/
theorem holds_attr_frame (ix after : Indices)
    (same : ∀ oid entry, entryTag entry = none →
      (∀ predicate target, entry.1 ≠ .relation predicate target) →
      (entry ∈ after.entriesOf oid ↔ entry ∈ ix.entriesOf oid))
    (oid : ObjectId) (key : TagId) (value : Value) :
    after.HoldsAttr oid key value ↔ ix.HoldsAttr oid key value := by
  have entry (origin : TagOrigin) :
      (.attr key value, origin) ∈ after.entriesOf oid ↔
        (.attr key value, origin) ∈ ix.entriesOf oid := by
    apply same oid _ rfl
    intro predicate target shape
    cases shape
  apply exists_congr
  exact entry

theorem holds_attr_add_tag (ontology : OntologyState) (ix : Indices) (target oid : ObjectId)
    (tag key : TagId) (value : Value) :
    (ix.addTag ontology target tag).HoldsAttr oid key value ↔ ix.HoldsAttr oid key value := by
  apply holds_attr_frame
  intro other entry untagged _
  rw [mem_add_tag]
  apply or_iff_left
  intro added
  cases added.2 with
  | intro t facts =>
      rw [facts.2.2] at untagged
      cases untagged

theorem holds_attr_remove_tag (ontology : OntologyState) (ix : Indices) (target oid : ObjectId)
    (tag key : TagId) (value : Value) (distinct : ix.TagsDistinct target) :
    (ix.removeTag ontology target tag).HoldsAttr oid key value ↔ ix.HoldsAttr oid key value := by
  apply holds_attr_frame
  intro other entry untagged _
  rw [mem_remove_tag target ontology ix tag other entry distinct]
  apply and_iff_left
  intro removed
  cases removed.2 with
  | intro t facts =>
      rw [untagged] at facts
      cases facts.2

theorem holds_attr_add_relation (ix : Indices) (target oid object : ObjectId)
    (predicate key : TagId) (value : Value) :
    (ix.addRelation target predicate object).HoldsAttr oid key value ↔
      ix.HoldsAttr oid key value := by
  apply holds_attr_frame
  intro other entry _ unrelated
  rw [mem_add_relation]
  apply or_iff_left
  intro added
  exact unrelated predicate object (by rw [added.2])

theorem holds_attr_remove_relation (ix : Indices) (target oid object : ObjectId)
    (predicate key : TagId) (value : Value) :
    (ix.removeRelation target predicate object).1.HoldsAttr oid key value ↔
      ix.HoldsAttr oid key value := by
  apply holds_attr_frame
  intro other entry _ unrelated
  exact mem_remove_relation_apart ix target predicate object other entry
    (unrelated predicate object)

theorem holds_attr_set_attr (hash : ValueHash) (ix : Indices) (target oid : ObjectId)
    (key k : TagId) (value w : Value) :
    (ix.setAttr hash target key value).HoldsAttr oid k w ↔
      (k = key ∧ w = value ∧ oid = target) ∨ ix.HoldsAttr oid k w := by
  unfold HoldsAttr
  simp only [mem_set_attr, Prod.mk.injEq, Assertion.attr.injEq]
  apply Iff.intro
  · intro found
    cases found with
    | intro origin member =>
        cases member with
        | inl old => exact Or.inr ⟨origin, old⟩
        | inr added => exact Or.inl ⟨added.2.1.1, added.2.1.2, added.1⟩
  · intro found
    cases found with
    | inl added => exact ⟨.direct, Or.inr ⟨added.2.2, ⟨added.1, added.2.1⟩, rfl⟩⟩
    | inr old =>
        cases old with
        | intro origin member => exact ⟨origin, Or.inl member⟩

theorem holds_attr_delete (hash : ValueHash) (ix : Indices) (target oid : ObjectId)
    (key : TagId) (value : Value) :
    (ix.deleteObject hash target).HoldsAttr oid key value ↔
      oid ≠ target ∧ ix.HoldsAttr oid key value := by
  unfold HoldsAttr
  simp only [entries_delete]
  by_cases same : oid = target
  · simp [same]
  · simp [same]

private theorem holds_attr_of_remove_attr (hash : ValueHash) (ix : Indices) (target oid : ObjectId)
    (key k : TagId) (valueHash : UInt64) (w : Value)
    (held : (ix.removeAttr hash target key valueHash).HoldsAttr oid k w) :
    ix.HoldsAttr oid k w := by
  cases held with
  | intro origin member =>
      exact ⟨origin, mem_of_mem_remove_attr hash ix target key valueHash oid _ member⟩

def copies (ix : Indices) (oid : ObjectId) (key : TagId) (value : Value) : Nat :=
  (ix.entriesOf oid).countP fun entry => entry.1 = .attr key value

/-- The entry that the removal of an attribute takes: the first one that is
equal to it in the program's sense. -/
def removedEntry (ix : Indices) (oid : ObjectId) (key : TagId) (value : Value) : Option Entry :=
  (ix.entriesOf oid).find? (ForwardIndex.matchesEntry (.attr key value))

/-- An attribute that is gone after a removal was the removed entry, in its only copy. -/
theorem lost_attr (ix : Indices) (oid : ObjectId) (key k : TagId) (value w : Value)
    (held : ix.HoldsAttr oid k w)
    (lost : ∀ origin, (.attr k w, origin) ∉ ix.withoutAttr oid key value) :
    ∃ origin, ix.removedEntry oid key value = some (.attr k w, origin) ∧
      ix.copies oid k w = 1 := by
  cases held with
  | intro origin member =>
      cases found : ix.removedEntry oid key value with
      | none =>
          have same := remove_first_none _ _ found
          unfold withoutAttr at lost
          rw [same] at lost
          exact absurd member (lost origin)
      | some entry =>
          have whole := cons_remove_first_perm _ _ entry found
          have split := List.mem_cons.mp (whole.mem_iff.mpr member)
          cases split with
          | inr kept => exact absurd kept (lost origin)
          | inl same =>
              subst same
              have counted := whole.countP_eq fun entry => entry.1 = .attr k w
              have none : (removeFirst (ForwardIndex.matchesEntry (.attr key value))
                  (ix.entriesOf oid)).countP (fun entry => entry.1 = .attr k w) = 0 := by
                rw [List.countP_eq_zero]
                intro other kept shape
                have named : other.1 = .attr k w := by simpa using shape
                apply lost other.2
                rw [← named]
                exact kept
              refine ⟨origin, rfl, ?_⟩
              unfold copies
              rw [← counted, List.countP_cons_of_pos (by simp), none]

theorem only_copy_removed (ix : Indices) (oid : ObjectId) (key : TagId) (value : Value)
    (origin : TagOrigin) (removed : ix.removedEntry oid key value = some (.attr key value, origin))
    (single : ix.copies oid key value = 1) (other : TagOrigin) :
    (.attr key value, other) ∉ ix.withoutAttr oid key value := by
  intro kept
  have whole := cons_remove_first_perm _ _ _ removed
  have counted := whole.countP_eq fun entry => decide (entry.1 = .attr key value)
  have total : (ix.entriesOf oid).countP (fun entry => decide (entry.1 = .attr key value)) = 1 :=
    single
  rw [List.countP_cons_of_pos (by simp), total] at counted
  have rejected := List.countP_eq_zero.mp (Nat.succ.inj counted) _ kept
  simp at rejected

theorem holds_attr_remove_attr (hash : ValueHash) (ix : Indices) (oid : ObjectId) (key k : TagId)
    (valueHash : UInt64) (value w : Value)
    (selected : ix.selectedValue hash oid key valueHash = some value) :
    (ix.removeAttr hash oid key valueHash).HoldsAttr oid k w ↔
      ∃ origin, (.attr k w, origin) ∈ ix.withoutAttr oid key value := by
  unfold HoldsAttr
  rw [entries_remove_attr, selected]
  simp

end Indices

namespace AttrView

variable {hash : ValueHash} (view : AttrView hash) (node : UInt16)

/-- For the values in use the index returns an object exactly if it holds the attribute. -/
structure Agrees (used : Set Value) (ix : Indices) : Prop where
  held : ∀ oid k w, ix.HoldsAttr oid k w → w ∈ used
  agree : ∀ oid, OfNode node oid → ∀ k, ∀ w ∈ used,
    oid.low32 ∈ view.find ix k w ↔ ix.HoldsAttr oid k w

/-- The index returns an object only if it holds an attribute with the same key. -/
def Covered (ix : Indices) : Prop :=
  ∀ oid, OfNode node oid → ∀ k w, oid.low32 ∈ view.find ix k w →
    ∃ u, ix.HoldsAttr oid k u ∧ view.keyOf w = view.keyOf u

theorem agrees_new (used : Set Value) : view.Agrees node used Indices.new := by
  have none (oid : ObjectId) (k : TagId) (w : Value) : ¬ Indices.new.HoldsAttr oid k w := by
    intro held
    cases held with
    | intro origin member =>
        have empty : Indices.new.entriesOf oid = [] := ForwardIndex.assertions_of_new oid
        rw [empty] at member
        cases member
  apply Agrees.mk
  · intro oid k w held
    exact absurd held (none oid k w)
  · intro oid _ k w _
    rw [view.find_new]
    simp [none oid k w]

theorem covered_new : view.Covered node Indices.new := by
  intro oid _ k w member
  rw [view.find_new] at member
  cases member

theorem agrees_frame (used : Set Value) (ix after : Indices) (agrees : view.Agrees node used ix)
    (sameFind : view.find after = view.find ix)
    (sameHeld : ∀ oid k w, after.HoldsAttr oid k w ↔ ix.HoldsAttr oid k w) :
    view.Agrees node used after := by
  apply Agrees.mk
  · intro oid k w held
    exact agrees.held oid k w ((sameHeld oid k w).mp held)
  · intro oid ofNode k w inUse
    rw [sameFind, sameHeld]
    exact agrees.agree oid ofNode k w inUse

theorem covered_frame (ix after : Indices) (covered : view.Covered node ix)
    (sameFind : view.find after = view.find ix)
    (sameHeld : ∀ oid k w, after.HoldsAttr oid k w ↔ ix.HoldsAttr oid k w) :
    view.Covered node after := by
  intro oid ofNode k w member
  rw [sameFind] at member
  cases covered oid ofNode k w member with
  | intro u facts => exact ⟨u, (sameHeld oid k u).mpr facts.1, facts.2⟩

section Steps

variable (used : Set Value) (ix : Indices) (target : ObjectId) (ofTarget : OfNode node target)
include ofTarget

theorem agrees_set_attr (collisionFree : Set.InjOn view.keyOf used) (key : TagId) (value : Value)
    (inUse : value ∈ used) (agrees : view.Agrees node used ix) :
    view.Agrees node used (ix.setAttr hash target key value) := by
  apply Agrees.mk
  · intro oid k w held
    cases (Indices.holds_attr_set_attr hash ix target oid key k value w).mp held with
    | inl added =>
        rw [added.2.1]
        exact inUse
    | inr old => exact agrees.held oid k w old
  · intro oid ofNode k w wInUse
    rw [view.mem_set, Indices.holds_attr_set_attr, agrees.agree oid ofNode k w wInUse,
      low32_eq_iff node oid target ofNode ofTarget, collisionFree.eq_iff wInUse inUse]

/-- The value that is removed is the removed entry and the object holds it once. -/
theorem agrees_remove_attr (collisionFree : Set.InjOn view.keyOf used) (key : TagId)
    (valueHash : UInt64) (agrees : view.Agrees node used ix)
    (exact_ : ∀ value, ix.selectedValue hash target key valueHash = some value →
      (∃ origin, ix.removedEntry target key value = some (.attr key value, origin)) ∧
        ix.copies target key value = 1) :
    view.Agrees node used (ix.removeAttr hash target key valueHash) := by
  apply Agrees.mk
  · intro oid k w held
    exact agrees.held oid k w (Indices.holds_attr_of_remove_attr _ _ _ _ _ _ _ _ held)
  · intro oid ofNode k w inUse
    rw [view.mem_remove, agrees.agree oid ofNode k w inUse,
      low32_eq_iff node oid target ofNode ofTarget]
    by_cases same : oid = target
    · subst same
      cases selected : ix.selectedValue hash oid key valueHash with
      | none =>
          have unchanged : ix.removeAttr hash oid key valueHash = ix := by
            simp [Indices.removeAttr, selected]
          simp [unchanged]
      | some value =>
          have single := exact_ value selected
          have present := (Indices.selected_value_mem hash ix oid key valueHash value selected).2
          have valueInUse : value ∈ used := agrees.held oid key value present
          rw [Indices.holds_attr_remove_attr hash ix oid key k valueHash value w selected]
          simp only [true_and, Option.some.injEq, exists_eq_left']
          rw [collisionFree.eq_iff inUse valueInUse]
          apply Iff.intro
          · intro both
            by_contra lost
            have gone := Indices.lost_attr ix oid key k value w both.1
              (fun origin kept => lost ⟨origin, kept⟩)
            cases gone with
            | intro origin facts =>
                cases single.1 with
                | intro other removed =>
                    rw [removed] at facts
                    have shape := facts.1
                    simp only [Option.some.injEq, Prod.mk.injEq, Assertion.attr.injEq] at shape
                    exact both.2 ⟨shape.1.1.symm, shape.1.2.symm⟩
          · intro kept
            cases kept with
            | intro origin member =>
                apply And.intro ⟨origin, mem_of_mem_remove_first _ _ _ member⟩
                intro same
                cases single.1 with
                | intro other removed =>
                    have absent := Indices.only_copy_removed ix oid key value other removed
                      single.2 origin
                    rw [same.1, same.2] at member
                    exact absent member
    · have unchanged : (ix.removeAttr hash target key valueHash).HoldsAttr oid k w ↔
          ix.HoldsAttr oid k w := by
        unfold Indices.HoldsAttr
        rw [Indices.entries_remove_attr_other hash ix target key valueHash oid same]
      simp [same, unchanged]

theorem agrees_delete (agrees : view.Agrees node used ix) :
    view.Agrees node used (ix.deleteObject hash target) := by
  apply Agrees.mk
  · intro oid k w held
    exact agrees.held oid k w ((Indices.holds_attr_delete hash ix target oid k w).mp held).2
  · intro oid ofNode k w inUse
    rw [view.mem_delete, Indices.holds_attr_delete, agrees.agree oid ofNode k w inUse,
      low32_eq_iff node oid target ofNode ofTarget]
    by_cases same : oid = target
    · subst same
      simp only [true_and, ne_eq, not_true_eq_false, false_and, iff_false, not_and, not_not]
      intro held
      cases held with
      | intro origin member => exact ⟨_, member, w, rfl, rfl⟩
    · simp [same]

theorem covered_set_attr (key : TagId) (value : Value) (covered : view.Covered node ix) :
    view.Covered node (ix.setAttr hash target key value) := by
  intro oid ofNode k w member
  cases (view.mem_set ix target key value k w oid.low32).mp member with
  | inl added =>
      have same := (low32_eq_iff node oid target ofNode ofTarget).mp added.2.2
      exact ⟨value, (Indices.holds_attr_set_attr hash ix target oid key k value value).mpr
        (Or.inl ⟨added.1, rfl, same⟩), added.2.1⟩
  | inr old =>
      cases covered oid ofNode k w old with
      | intro u facts =>
          exact ⟨u, (Indices.holds_attr_set_attr hash ix target oid key k value u).mpr
            (Or.inr facts.1), facts.2⟩

/-- What leaves the list is the selected value or has another copy there. -/
theorem covered_remove_attr (key : TagId) (valueHash : UInt64) (covered : view.Covered node ix)
    (faithful : ∀ value, ix.selectedValue hash target key valueHash = some value →
      ∀ u origin, ix.removedEntry target key value = some (.attr key u, origin) →
        u = value ∨ 2 ≤ ix.copies target key u) :
    view.Covered node (ix.removeAttr hash target key valueHash) := by
  intro oid ofNode k w member
  have both := (view.mem_remove ix target key valueHash k w oid.low32).mp member
  cases covered oid ofNode k w both.1 with
  | intro u facts =>
      by_cases same : oid = target
      · subst same
        cases selected : ix.selectedValue hash oid key valueHash with
        | none =>
            have unchanged : ix.removeAttr hash oid key valueHash = ix := by
              simp [Indices.removeAttr, selected]
            rw [unchanged]
            exact ⟨u, facts⟩
        | some value =>
            by_cases kept : ∃ origin, (.attr k u, origin) ∈ ix.withoutAttr oid key value
            · exact ⟨u, (Indices.holds_attr_remove_attr hash ix oid key k valueHash value u
                selected).mpr kept, facts.2⟩
            · have gone := Indices.lost_attr ix oid key k value u facts.1
                (fun origin member => kept ⟨origin, member⟩)
              cases gone with
              | intro origin lost =>
                  have matched : k = key := by
                    have accepted := List.find?_some lost.1
                    have shape := (Assertion.eq_attr_iff _ key value).mp accepted
                    cases shape with
                    | intro other named => exact (Assertion.attr.inj named.1).1
                  subst matched
                  cases faithful value selected u origin lost.1 with
                  | inl equal =>
                      subst equal
                      exact absurd ⟨rfl, rfl, u, selected, facts.2⟩ both.2
                  | inr several =>
                      have single := lost.2
                      omega
      · refine ⟨u, ?_, facts.2⟩
        unfold Indices.HoldsAttr
        rw [Indices.entries_remove_attr_other hash ix target key valueHash oid same]
        exact facts.1

theorem covered_delete (covered : view.Covered node ix) :
    view.Covered node (ix.deleteObject hash target) := by
  intro oid ofNode k w member
  have both := (view.mem_delete ix target k w oid.low32).mp member
  cases covered oid ofNode k w both.1 with
  | intro u facts =>
      have differ : oid ≠ target := by
        intro same
        subst same
        cases facts.1 with
        | intro origin held => exact both.2 ⟨rfl, _, held, u, rfl, facts.2⟩
      exact ⟨u, (Indices.holds_attr_delete hash ix target oid k u).mpr ⟨differ, facts.1⟩, facts.2⟩

end Steps

end AttrView

end Mimisbrunnr
