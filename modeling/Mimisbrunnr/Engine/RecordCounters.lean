import Mimisbrunnr.Engine.AssertionCounts
import Mimisbrunnr.Engine.Locality
import Mimisbrunnr.Engine.Replay
import Mimisbrunnr.Lib.Runs

/-!
# The counters of the records

A record counts the tags, the attributes and the relations of its object. Adding
a tag counts the whole closure, also the part of it that the object carries
already; removing one counts a single tag, also when the object does not carry it
or loses implied tags with it; and removing an attribute counts it also when the
list gives up nothing, which happens to a NaN.
-/

namespace Mimisbrunnr

set_option autoImplicit false

open Mimisbrunnr.Index
open Mimisbrunnr.Lib
open Mimisbrunnr.Lib.FiniteMap
open Mimisbrunnr.Lib.Vec
open Mimisbrunnr.Ontology
open Mimisbrunnr.Transform
open Mimisbrunnr.Types

theorem saturating_add_exact (counter more : UInt16)
    (below : (saturatingAdd16 counter more).toNat < 65535) :
    (saturatingAdd16 counter more).toNat = counter.toNat + more.toNat := by
  unfold saturatingAdd16 at below ⊢
  by_cases fits : counter.toNat + more.toNat < 2 ^ 16
  · rw [if_pos fits, UInt16.toNat_add, Nat.mod_eq_of_lt fits]
  · rw [if_neg fits] at below
    exact absurd below (by decide)

theorem saturating_sub_one (counter : UInt16) :
    (saturatingSub16 counter 1).toNat = counter.toNat - 1 := by
  unfold saturatingSub16
  by_cases positive : (1 : UInt16) ≤ counter
  · rw [if_pos positive, UInt16.toNat_sub_of_le _ _ positive]
    rfl
  · rw [if_neg positive]
    rw [UInt16.le_iff_toNat_le] at positive
    have one : (1 : UInt16).toNat = 1 := rfl
    have zero : (0 : UInt16).toNat = 0 := rfl
    omega

namespace Engine

/-- The counters of every live object are the numbers of its assertions. -/
def CountersExact (e : Engine) : Prop :=
  ∀ (oid : ObjectId) record, e.objectTable.lookup oid.toU64 = some record →
    record.state = ObjectState.active.toU8 →
      ∀ kind, (counter record kind).toNat = countOf kind (e.indices.entriesOf oid)

def CountersBelow (e : Engine) : Prop :=
  ∀ (oid : ObjectId) record, e.objectTable.lookup oid.toU64 = some record →
    ∀ kind, (counter record kind).toNat < 65535

def Recorded (e : Engine) : Prop :=
  ∀ oid, e.hasRecord oid = false → e.indices.entriesOf oid = []

def Live (e : Engine) (oid : ObjectId) : Prop :=
  ∃ record, e.objectTable.lookup oid.toU64 = some record ∧
    record.state = ObjectState.active.toU8

theorem counters_exact_congr (e changed : Engine) (table : changed.objectTable = e.objectTable)
    (entries : ∀ oid, changed.indices.entriesOf oid = e.indices.entriesOf oid) :
    changed.CountersExact ↔ e.CountersExact := by
  unfold CountersExact
  simp only [table, entries]

/-- A change of one record and of the assertions of its object, of one kind. -/
theorem counters_exact_update_iff (e changed : Engine) (oid : ObjectId) (record : ObjectRecord)
    (change : ObjectRecord → ObjectRecord) (kind : AssertionKind) (condition : Prop)
    (stored : e.objectTable.lookup oid.toU64 = some record)
    (table : changed.objectTable = e.updateRecord oid change)
    (state : (change record).state = record.state)
    (frame : ∀ other, other ≠ oid →
      changed.indices.entriesOf other = e.indices.entriesOf other)
    (others : ∀ k, k ≠ kind → counter (change record) k = counter record k ∧
      countOf k (changed.indices.entriesOf oid) = countOf k (e.indices.entriesOf oid))
    (decides : (counter record kind).toNat = countOf kind (e.indices.entriesOf oid) →
      ((counter (change record) kind).toNat = countOf kind (changed.indices.entriesOf oid) ↔
        condition))
    (exact_ : e.CountersExact) :
    changed.CountersExact ↔ (e.Live oid → condition) := by
  have after (other : ObjectId) : changed.objectTable.lookup other.toU64 =
      if other = oid then some (change record) else e.objectTable.lookup other.toU64 := by
    rw [table, updateRecord, lookup_update]
    by_cases same : other = oid
    · rw [same, if_pos rfl, if_pos rfl, stored]
      rfl
    · have apart : other.toU64 ≠ oid.toU64 := fun equal =>
        same (ForwardIndex.to_u64_injective other oid equal)
      rw [if_neg apart, if_neg same]
  constructor
  · intro exactAfter live
    obtain ⟨other, found, active⟩ := live
    rw [stored] at found
    cases found
    exact (decides (exact_ oid record stored active kind)).mp
      (exactAfter oid (change record) (by rw [after, if_pos rfl]) (state.trans active) kind)
  · intro met other found located active k
    rw [after] at located
    by_cases same : other = oid
    · rw [if_pos same] at located
      cases located
      rw [state] at active
      rw [same]
      by_cases this : k = kind
      · rw [this]
        exact (decides (exact_ oid record stored active kind)).mpr (met ⟨record, stored, active⟩)
      · rw [(others k this).1, (others k this).2]
        exact exact_ oid record stored active k
    · rw [if_neg same] at located
      rw [frame other same]
      exact exact_ other found located active k

/-- A new object has no assertions, a tag comes with a closure that is new to its object, a tag
that goes is there and goes alone, and a selected attribute equals itself. -/
def Counted (env : Env) (e : Engine) : Mutation → Prop
  | .createObject => e.indices.entriesOf (ObjectId.fromParts e.nodeId e.nextOidLocal) = []
  | .addTag oid tag => e.Live oid →
      (e.indices.newTags e.ontology oid tag).length =
        (e.ontology.materialise [tag]).length % 2 ^ 16
  | .removeTag oid tag => e.Live oid →
      countOf .tag (e.indices.entriesOf oid) = 0 ∨
        e.indices.forward.hasTag oid tag = true ∧
          Indices.removedTags oid e.ontology e.indices tag = [tag]
  | .removeAttr oid key valueHash => e.Live oid →
      ∀ value, e.indices.selectedValue env.hash oid key valueHash = some value →
        value.eq value = true
  | _ => True

private theorem live_has_record (e : Engine) (oid : ObjectId) (live : e.Live oid) :
    e.hasRecord oid = true := by
  obtain ⟨record, stored, _⟩ := live
  unfold hasRecord
  rw [stored]
  rfl

theorem counters_exact_unrecorded (e changed : Engine) (oid : ObjectId) (condition : Prop)
    (absent : e.hasRecord oid = false) (same : changed = e) (exact_ : e.CountersExact) :
    changed.CountersExact ↔ (e.Live oid → condition) := by
  rw [same]
  apply iff_of_true exact_
  intro live
  rw [live_has_record e oid live] at absent
  cases absent

theorem record_of_has_record (e : Engine) (oid : ObjectId) (present : e.hasRecord oid = true) :
    ∃ record, e.objectTable.lookup oid.toU64 = some record :=
  Option.isSome_iff_exists.mp present

theorem lookup_changed (e changed : Engine) (oid : ObjectId) (record : ObjectRecord)
    (change : ObjectRecord → ObjectRecord)
    (stored : e.objectTable.lookup oid.toU64 = some record)
    (table : changed.objectTable = e.updateRecord oid change) :
    changed.objectTable.lookup oid.toU64 = some (change record) := by
  rw [table, updateRecord, lookup_update, if_pos rfl, stored]
  rfl

private theorem create_object_exact_iff (e : Engine) (reading : Option Int64)
    (exact_ : e.CountersExact) :
    (e.createObject reading).2.CountersExact ↔
      e.indices.entriesOf (ObjectId.fromParts e.nodeId e.nextOidLocal) = [] := by
  have after (oid : ObjectId) :
      (e.createObject reading).2.objectTable.lookup oid.toU64 =
        if oid = ObjectId.fromParts e.nodeId e.nextOidLocal then
          some { (ObjectRecord.new oid.toU64).setState .active with
            createdNs := (e.clock.now reading).1.physicalNs
            modifiedNs := (e.clock.now reading).1.physicalNs }
        else e.objectTable.lookup oid.toU64 := by
    unfold createObject
    rw [lookup_insert_eq]
    by_cases same : oid = ObjectId.fromParts e.nodeId e.nextOidLocal
    · rw [same, if_pos rfl, if_pos rfl]
    · have apart : oid.toU64 ≠ (ObjectId.fromParts e.nodeId e.nextOidLocal).toU64 := fun equal =>
        same (ForwardIndex.to_u64_injective oid _ equal)
      rw [if_neg apart, if_neg same]
  constructor
  · intro exactAfter
    apply (count_zero_iff _).mp
    intro kind
    have counted := exactAfter (ObjectId.fromParts e.nodeId e.nextOidLocal) _
      (by rw [after, if_pos rfl]) rfl kind
    cases kind with
    | tag => exact counted.symm
    | attr => exact counted.symm
    | relation => exact counted.symm
  · intro empty oid record stored active kind
    rw [after] at stored
    by_cases same : oid = ObjectId.fromParts e.nodeId e.nextOidLocal
    · rw [if_pos same] at stored
      cases stored
      have none := (count_zero_iff _).mpr empty kind
      rw [← same] at none
      have unchanged : (e.createObject reading).2.indices.entriesOf oid =
        e.indices.entriesOf oid := rfl
      rw [unchanged, none]
      cases kind with
      | tag => rfl
      | attr => rfl
      | relation => rfl
    · rw [if_neg same] at stored
      exact exact_ oid record stored active kind

private theorem delete_object_exact (env : Env) (e : Engine) (oid : ObjectId)
    (reading : Option Int64)
    (exact_ : e.CountersExact) : (e.deleteObject env oid reading).2.CountersExact := by
  unfold deleteObject
  cases present : e.hasRecord oid with
  | false => exact exact_
  | true =>
      intro other record stored active kind
      simp only [if_true, updateRecord, lookup_update] at stored
      have entries : (e.indices.deleteObject env.hash oid).entriesOf other =
          if other = oid then [] else e.indices.entriesOf other :=
        Indices.entries_delete env.hash oid e.indices other
      by_cases same : other = oid
      · rw [same, if_pos rfl] at stored
        obtain ⟨before, _, changed⟩ := Option.map_eq_some_iff.mp stored
        rw [← changed] at active
        cases active
      · have apart : other.toU64 ≠ oid.toU64 := fun equal =>
          same (ForwardIndex.to_u64_injective other oid equal)
        rw [if_neg apart] at stored
        simp only [if_true]
        rw [entries, if_neg same]
        exact exact_ other record stored active kind

private theorem add_tag_exact_iff (e : Engine) (oid : ObjectId) (tag : TagId)
    (reading : Option Int64)
    (exact_ : e.CountersExact) (below : (e.addTag oid tag reading).2.CountersBelow) :
    (e.addTag oid tag reading).2.CountersExact ↔
      (e.Live oid → (e.indices.newTags e.ontology oid tag).length =
        (e.ontology.materialise [tag]).length % 2 ^ 16) := by
  cases present : e.hasRecord oid with
  | false =>
      apply counters_exact_unrecorded e _ oid _ present _ exact_
      unfold addTag
      rw [present]
      rfl
  | true =>
      obtain ⟨record, stored⟩ := record_of_has_record e oid present
      have shape : (e.addTag oid tag reading).2.objectTable = e.updateRecord oid (fun record =>
            { record with
              tagCount := saturatingAdd16 record.tagCount
                (UInt16.ofNat (e.ontology.materialise [tag]).length)
              modifiedNs := (e.clock.now reading).1.physicalNs }) ∧
          (e.addTag oid tag reading).2.indices = e.indices.addTag e.ontology oid tag := by
        unfold addTag
        rw [present]
        exact ⟨rfl, rfl⟩
      have counted (kind : AssertionKind) :=
        Indices.count_add_tag e.ontology e.indices oid tag kind
      have sum := saturating_add_exact _ _
        (below oid _ (lookup_changed e _ oid record _ stored shape.1) .tag)
      rw [UInt16.toNat_ofNat'] at sum
      apply counters_exact_update_iff e _ oid record _ .tag _ stored shape.1 rfl _ _ _ exact_
      · intro other apart
        rw [shape.2]
        exact (Indices.local_add_tag (fun _ => 0) oid e.ontology tag).entries_frame e.indices other
          apart
      · intro kind other
        rw [shape.2, counted, if_neg other]
        cases kind with
        | tag => exact absurd rfl other
        | attr => exact ⟨rfl, rfl⟩
        | relation => exact ⟨rfl, rfl⟩
      · intro before
        rw [shape.2, counted, if_pos rfl]
        simp only [counter] at before ⊢
        omega

private theorem remove_tag_exact_iff (e : Engine) (oid : ObjectId) (tag : TagId)
    (reading : Option Int64)
    (exact_ : e.CountersExact) :
    (e.removeTag oid tag reading).2.CountersExact ↔
      (e.Live oid → countOf .tag (e.indices.entriesOf oid) = 0 ∨
        e.indices.forward.hasTag oid tag = true ∧
          Indices.removedTags oid e.ontology e.indices tag = [tag]) := by
  cases present : e.hasRecord oid with
  | false =>
      apply counters_exact_unrecorded e _ oid _ present _ exact_
      unfold removeTag
      rw [present]
      rfl
  | true =>
      obtain ⟨record, stored⟩ := record_of_has_record e oid present
      have shape : (e.removeTag oid tag reading).2.objectTable = e.updateRecord oid (fun record =>
            { record with
              tagCount := saturatingSub16 record.tagCount 1
              modifiedNs := (e.clock.now reading).1.physicalNs }) ∧
          (e.removeTag oid tag reading).2.indices = e.indices.removeTag e.ontology oid tag := by
        unfold removeTag
        rw [present]
        exact ⟨rfl, rfl⟩
      have counted := Indices.count_remove_tag_iff e.ontology e.indices oid tag
      apply counters_exact_update_iff e _ oid record _ .tag _ stored shape.1 rfl _ _ _ exact_
      · intro other apart
        rw [shape.2]
        exact (Indices.local_remove_tag (fun _ => 0) oid e.ontology tag).entries_frame e.indices
          other apart
      · intro kind other
        rw [shape.2, Indices.remove_tag_eq]
        have kept := (Indices.count_drop_tags oid kind
          (Indices.removedTags oid e.ontology e.indices tag) e.indices).2 other
        cases kind with
        | tag => exact absurd rfl other
        | attr => exact ⟨rfl, kept⟩
        | relation => exact ⟨rfl, kept⟩
      · intro before
        have less := saturating_sub_one record.tagCount
        rw [shape.2, ← counted]
        simp only [counter] at before ⊢
        rw [less, before]
        exact eq_comm

/-- One assertion more, and one more counted. -/
theorem counters_exact_added (e changed : Engine) (oid : ObjectId) (record : ObjectRecord)
    (change : ObjectRecord → ObjectRecord) (kind : AssertionKind)
    (stored : e.objectTable.lookup oid.toU64 = some record)
    (table : changed.objectTable = e.updateRecord oid change)
    (state : (change record).state = record.state)
    (frame : ∀ other, other ≠ oid →
      changed.indices.entriesOf other = e.indices.entriesOf other)
    (added : ∀ k, countOf k (changed.indices.entriesOf oid) =
      countOf k (e.indices.entriesOf oid) + if kind = k then 1 else 0)
    (counts : ∀ k, counter (change record) k =
      if kind = k then saturatingAdd16 (counter record k) 1 else counter record k)
    (exact_ : e.CountersExact) (below : changed.CountersBelow) : changed.CountersExact := by
  have small := below oid _ (lookup_changed e changed oid record change stored table) kind
  apply (counters_exact_update_iff e changed oid record change kind True stored table state frame
    _ _ exact_).mpr
  · intro _
    trivial
  · intro k other
    have apart : ¬ kind = k := fun same => other same.symm
    rw [counts, added, if_neg apart, if_neg apart]
    exact ⟨rfl, rfl⟩
  · intro before
    rw [counts, if_pos rfl] at small
    rw [counts, added, if_pos rfl, if_pos rfl, saturating_add_exact _ _ small, before]
    exact iff_of_true rfl trivial

private theorem set_attr_exact (env : Env) (e : Engine) (oid : ObjectId) (key : TagId)
    (value : Value)
    (reading : Option Int64) (exact_ : e.CountersExact)
    (below : (e.setAttr env oid key value reading).2.CountersBelow) :
    (e.setAttr env oid key value reading).2.CountersExact := by
  cases present : e.hasRecord oid with
  | false =>
      unfold setAttr
      rw [present]
      exact exact_
  | true =>
      obtain ⟨record, stored⟩ := record_of_has_record e oid present
      have shape : (e.setAttr env oid key value reading).2.objectTable =
            e.updateRecord oid (fun record =>
              { record with
                attrCount := saturatingAdd16 record.attrCount 1
                modifiedNs := (e.clock.now reading).1.physicalNs }) ∧
          (e.setAttr env oid key value reading).2.indices =
            e.indices.setAttr env.hash oid key value := by
        unfold setAttr
        rw [present]
        exact ⟨rfl, rfl⟩
      apply counters_exact_added e _ oid record _ .attr stored shape.1 rfl _ _ _ exact_ below
      · intro other apart
        rw [shape.2]
        exact (Indices.local_set_attr env.hash oid key value).entries_frame e.indices other apart
      · intro kind
        rw [shape.2]
        exact Indices.count_set_attr env.hash e.indices oid key value kind
      · intro kind
        cases kind with
        | tag => rfl
        | attr => rfl
        | relation => rfl

private theorem remove_attr_exact_iff (env : Env) (e : Engine) (oid : ObjectId) (key : TagId)
    (valueHash : UInt64) (reading : Option Int64) (exact_ : e.CountersExact) :
    (e.removeAttr env oid key valueHash reading).2.CountersExact ↔
      (e.Live oid → ∀ value, e.indices.selectedValue env.hash oid key valueHash = some value →
        value.eq value = true) := by
  cases present : e.hasRecord oid with
  | false =>
      apply counters_exact_unrecorded e _ oid _ present _ exact_
      unfold removeAttr
      rw [present]
      rfl
  | true =>
      obtain ⟨record, stored⟩ := record_of_has_record e oid present
      have frame : (e.removeAttr env oid key valueHash reading).2.indices =
          e.indices.removeAttr env.hash oid key valueHash := by
        unfold removeAttr
        rw [present]
        rfl
      have entries := Indices.entries_remove_attr env.hash e.indices oid key valueHash
      cases selected : e.indices.selectedValue env.hash oid key valueHash with
      | none =>
          have table : (e.removeAttr env oid key valueHash reading).2.objectTable =
              e.objectTable := by
            unfold removeAttr
            rw [present, selected]
            rfl
          rw [selected] at entries
          have kept := (counters_exact_congr e _ table (by rw [frame]; exact entries)).mpr exact_
          exact iff_of_true kept fun _ value found => by cases found
      | some value =>
          have table : (e.removeAttr env oid key valueHash reading).2.objectTable =
              e.updateRecord oid (fun record =>
                { record with
                  attrCount := saturatingSub16 record.attrCount 1
                  modifiedNs := (e.clock.now reading).1.physicalNs }) := by
            unfold removeAttr
            rw [present, selected]
            rfl
          rw [selected] at entries
          have held := (Indices.selected_value_mem env.hash e.indices oid key valueHash value
            selected).2
          have here : (e.indices.removeAttr env.hash oid key valueHash).entriesOf oid =
              e.indices.withoutAttr oid key value := (entries oid).trans (if_pos rfl)
          have only : (∀ other, some value = some other → other.eq other = true) ↔
              value.eq value = true := by
            constructor
            · intro all
              exact all value rfl
            · intro reflexive other same
              cases same
              exact reflexive
          rw [only]
          apply counters_exact_update_iff e _ oid record _ .attr _ stored table rfl _ _ _ exact_
          · intro other apart
            rw [frame]
            exact (entries other).trans (if_neg apart)
          · intro kind other
            rw [frame, here, Indices.count_without_attr_other _ _ _ _ _ other]
            cases kind with
            | tag => exact ⟨rfl, rfl⟩
            | attr => exact absurd rfl other
            | relation => exact ⟨rfl, rfl⟩
          · intro before
            have less := saturating_sub_one record.attrCount
            rw [frame, here, ← Indices.count_without_attr_iff e.indices oid key value held]
            simp only [counter] at before ⊢
            rw [less, before]
            exact eq_comm

private theorem add_relation_exact (e : Engine) (oid : ObjectId) (predicate : TagId)
    (target : ObjectId)
    (reading : Option Int64) (exact_ : e.CountersExact)
    (below : (e.addRelation oid predicate target reading).2.CountersBelow) :
    (e.addRelation oid predicate target reading).2.CountersExact := by
  cases present : e.hasRecord oid with
  | false =>
      unfold addRelation
      rw [present]
      exact exact_
  | true =>
      obtain ⟨record, stored⟩ := record_of_has_record e oid present
      have shape : (e.addRelation oid predicate target reading).2.objectTable =
            e.updateRecord oid (fun record =>
              { record with
                relationCount := saturatingAdd16 record.relationCount 1
                modifiedNs := (e.clock.now reading).1.physicalNs }) ∧
          (e.addRelation oid predicate target reading).2.indices =
            e.indices.addRelation oid predicate target := by
        unfold addRelation
        rw [present]
        exact ⟨rfl, rfl⟩
      apply counters_exact_added e _ oid record _ .relation stored shape.1 rfl _ _ _ exact_ below
      · intro other apart
        rw [shape.2]
        exact (Indices.local_add_relation (fun _ => 0) oid predicate target).entries_frame e.indices
          other apart
      · intro kind
        rw [shape.2]
        exact Indices.count_add_relation e.indices oid predicate target kind
      · intro kind
        cases kind with
        | tag => rfl
        | attr => rfl
        | relation => rfl

private theorem remove_relation_exact (e : Engine) (oid : ObjectId) (predicate : TagId)
    (target : ObjectId) (reading : Option Int64) (exact_ : e.CountersExact) :
    (e.removeRelation oid predicate target reading).2.CountersExact := by
  cases present : e.hasRecord oid with
  | false =>
      unfold removeRelation
      rw [present]
      exact exact_
  | true =>
      obtain ⟨record, stored⟩ := record_of_has_record e oid present
      have frame : (e.removeRelation oid predicate target reading).2.indices =
          (e.indices.removeRelation oid predicate target).1 := by
        unfold removeRelation
        rw [present]
        rfl
      have entries := Indices.entries_remove_relation e.indices oid predicate target
      have found : (e.indices.removeRelation oid predicate target).2 =
          (e.indices.entriesOf oid).any
            (ForwardIndex.matchesEntry (.relation predicate target)) :=
        ForwardIndex.remove_assertion_found e.indices.forward oid (.relation predicate target)
      have here : (e.removeRelation oid predicate target reading).2.indices.entriesOf oid =
          removeFirst (ForwardIndex.matchesEntry (.relation predicate target))
            (e.indices.entriesOf oid) := by
        rw [frame, entries, if_pos rfl]
      have apart (other : ObjectId) (different : other ≠ oid) :
          (e.removeRelation oid predicate target reading).2.indices.entriesOf other =
            e.indices.entriesOf other := by
        rw [frame, entries, if_neg different]
      have counted (kind : AssertionKind) :=
        count_of_remove_first kind (.relation predicate target) (e.indices.entriesOf oid)
      cases removed : (e.indices.removeRelation oid predicate target).2 with
      | false =>
          have table : (e.removeRelation oid predicate target reading).2.objectTable =
              e.objectTable := by
            unfold removeRelation
            rw [present]
            simp only [if_true, removed, Bool.false_eq_true, if_false]
          rw [removed] at found
          have absent : ∀ entry ∈ e.indices.entriesOf oid,
              ¬ ForwardIndex.matchesEntry (.relation predicate target) entry = true := by
            intro entry member accepted
            have some_ := List.any_eq_true.mpr ⟨entry, member, accepted⟩
            rw [← found] at some_
            cases some_
          apply (counters_exact_congr e _ table _).mpr exact_
          intro other
          by_cases same : other = oid
          · rw [same, here, remove_first_none _ _ (List.find?_eq_none.mpr absent)]
          · exact apart other same
      | true =>
          have table : (e.removeRelation oid predicate target reading).2.objectTable =
              e.updateRecord oid (fun record =>
                { record with
                  relationCount := saturatingSub16 record.relationCount 1
                  modifiedNs := (e.clock.now reading).1.physicalNs }) := by
            unfold removeRelation
            rw [present]
            simp only [if_true, removed]
          rw [removed] at found
          apply (counters_exact_update_iff e _ oid record _ .relation True stored table rfl apart _ _
            exact_).mpr
          · intro _
            trivial
          · intro kind other
            have kept := counted kind
            rw [if_neg fun both => other both.2.symm, Nat.add_zero] at kept
            rw [here]
            cases kind with
            | tag => exact ⟨rfl, kept⟩
            | attr => exact ⟨rfl, kept⟩
            | relation => exact absurd rfl other
          · intro before
            have one := counted .relation
            rw [if_pos ⟨found.symm, rfl⟩] at one
            have less := saturating_sub_one record.relationCount
            rw [here]
            simp only [counter] at before ⊢
            exact iff_of_true (by omega) trivial

theorem write_blob_exact (env : Env) (e : Engine) (oid : ObjectId) (plaintext : List UInt8)
    (reading : Option Int64) (exact_ : e.CountersExact) :
    (e.writeBlob env oid plaintext reading).2.CountersExact := by
  unfold writeBlob
  cases present : e.hasRecord oid with
  | false => exact exact_
  | true =>
      obtain ⟨record, stored⟩ := record_of_has_record e oid present
      simp only [if_true]
      cases transformed : e.transform.apply env.codecs plaintext with
      | error err => exact exact_
      | ok result =>
          apply (counters_exact_update_iff e _ oid record _ .tag True stored rfl rfl _ _ _
            exact_).mpr
          · intro _
            trivial
          · intro other apart
            rfl
          · intro kind other
            cases kind with
            | tag => exact ⟨rfl, rfl⟩
            | attr => exact ⟨rfl, rfl⟩
            | relation => exact ⟨rfl, rfl⟩
          · intro before
            exact iff_of_true before trivial

private theorem apply_exact_iff (env : Env) (e : Engine) (mutation : Mutation)
    (reading : Option Int64)
    (below : (e.apply env mutation reading).2.CountersBelow) (exact_ : e.CountersExact) :
    (e.apply env mutation reading).2.CountersExact ↔ e.Counted env mutation := by
  cases mutation with
  | createObject => exact create_object_exact_iff e reading exact_
  | deleteObject oid => exact iff_of_true (delete_object_exact env e oid reading exact_) trivial
  | addTag oid tag => exact add_tag_exact_iff e oid tag reading exact_ below
  | removeTag oid tag => exact remove_tag_exact_iff e oid tag reading exact_
  | setAttr oid key value =>
      exact iff_of_true (set_attr_exact env e oid key value reading exact_ below) trivial
  | removeAttr oid key valueHash => exact remove_attr_exact_iff env e oid key valueHash reading exact_
  | addRelation oid predicate target =>
      exact iff_of_true (add_relation_exact e oid predicate target reading exact_ below) trivial
  | removeRelation oid predicate target =>
      exact iff_of_true (remove_relation_exact e oid predicate target reading exact_) trivial
  | writeBlob oid plaintext =>
      exact iff_of_true (write_blob_exact env e oid plaintext reading exact_) trivial

theorem recorded_apply (env : Env) (e : Engine) (mutation : Mutation) (reading : Option Int64)
    (recorded : e.Recorded) : (e.apply env mutation reading).2.Recorded := by
  intro oid absent
  have known := Core.known_step (e.setting env) e.core mutation oid
  rw [← known_core, core_apply] at absent
  have before : e.core.known oid = false := by
    rw [← Bool.not_eq_true] at absent ⊢
    exact fun found => absent (known.mpr (Or.inl found))
  have none := recorded oid ((known_core e oid).symm.trans before)
  have apart (target : ObjectId) (found : e.core.known target = true) : oid ≠ target := by
    intro same
    rw [same, found] at before
    cases before
  rw [indices_apply, ← none]
  cases mutation with
  | createObject => rfl
  | writeBlob target plaintext => rfl
  | deleteObject target =>
      simp only [Core.step]
      split
      · next found =>
          exact (Indices.local_delete env.hash target).entries_frame e.indices oid
            (apart target found)
      · rfl
  | addTag target tag =>
      simp only [Core.step]
      split
      · next found =>
          exact (Indices.local_add_tag env.hash target e.ontology tag).entries_frame e.indices oid
            (apart target found)
      · rfl
  | removeTag target tag =>
      simp only [Core.step]
      split
      · next found =>
          exact (Indices.local_remove_tag env.hash target e.ontology tag).entries_frame e.indices
            oid (apart target found)
      · rfl
  | setAttr target key value =>
      simp only [Core.step]
      split
      · next found =>
          exact (Indices.local_set_attr env.hash target key value).entries_frame e.indices oid
            (apart target found)
      · rfl
  | removeAttr target key valueHash =>
      simp only [Core.step]
      split
      · next found =>
          exact (Indices.local_remove_attr env.hash target key valueHash).entries_frame e.indices
            oid (apart target found)
      · rfl
  | addRelation target predicate object =>
      simp only [Core.step]
      split
      · next found =>
          exact (Indices.local_add_relation env.hash target predicate object).entries_frame
            e.indices oid (apart target found)
      · rfl
  | removeRelation target predicate object =>
      simp only [Core.step]
      split
      · next found =>
          exact (Indices.local_remove_relation env.hash target predicate object).entries_frame
            e.indices oid (apart target found)
      · rfl

private theorem ensure_oid_exists_recorded (e : Engine) (oid : ObjectId) (createdNs : Int64)
    (recorded : e.Recorded) : (e.replayCreateObject oid createdNs).Recorded := by
  intro other absent
  apply recorded other
  unfold replayCreateObject hasRecord at absent
  cases present : e.hasRecord oid with
  | true =>
      unfold hasRecord at present
      simp only [present, if_true] at absent
      exact absent
  | false =>
      unfold hasRecord at present
      simp only [present, Bool.false_eq_true, if_false, lookup_insert_eq] at absent
      by_cases same : other.toU64 = oid.toU64
      · rw [if_pos same] at absent
        cases absent
      · rw [if_neg same] at absent
        exact absent

private theorem ensure_oid_exists_exact (e : Engine) (oid : ObjectId) (createdNs : Int64)
    (recorded : e.Recorded) (exact_ : e.CountersExact) :
    (e.replayCreateObject oid createdNs).CountersExact := by
  unfold replayCreateObject
  cases present : e.hasRecord oid with
  | true => exact exact_
  | false =>
      intro other record stored active kind
      simp only [Bool.false_eq_true, if_false, lookup_insert_eq] at stored
      by_cases same : other = oid
      · rw [same, if_pos rfl] at stored
        cases stored
        have none := (count_zero_iff _).mpr (recorded oid present) kind
        rw [same]
        dsimp only
        rw [none]
        cases kind with
        | tag => rfl
        | attr => rfl
        | relation => rfl
      · have apart : other.toU64 ≠ oid.toU64 := fun equal =>
          same (ForwardIndex.to_u64_injective other oid equal)
        rw [if_neg apart] at stored
        exact exact_ other record stored active kind

end Engine

/-- The calls that reach the records, the forward index, the ontology or the transform. -/
inductive RecordCall where
  | mutate (mutation : Mutation) (reading : Option Int64)
  | ensureOidExists (oid : ObjectId)
  | registerTag (name : String)
  | installOntologyModule (bundle : OntologyModule)
  | upgradeOntology (bundle : OntologyModule)
  | scrubOntology (id : ModuleId)
  | setTransform (pipeline : TransformPipeline)

namespace RecordCall

def step (env : Env) (e : Engine) : RecordCall → Engine
  | mutate mutation reading => (e.apply env mutation reading).2
  | ensureOidExists oid => e.replayCreateObject oid 0
  | registerTag name => (e.registerTag name).2
  | installOntologyModule bundle => (e.installOntologyModule env bundle).2
  | upgradeOntology bundle => { e with ontology := (e.ontology.upgrade env.topo bundle).1 }
  | scrubOntology id => { e with ontology := (e.ontology.scrub id).1 }
  | setTransform pipeline => { e with transform := pipeline }

def Counted (env : Env) (e : Engine) : RecordCall → Prop
  | mutate mutation _ => e.Counted env mutation
  | _ => True

/-- The calls about the ontology and the transform leave records and indices alone. -/
theorem step_frame (env : Env) (e : Engine) (call : RecordCall)
    (other : ∀ mutation reading, call ≠ mutate mutation reading)
    (another : ∀ oid, call ≠ ensureOidExists oid) :
    (call.step env e).objectTable = e.objectTable ∧ (call.step env e).indices = e.indices := by
  cases call with
  | mutate mutation reading => exact absurd rfl (other mutation reading)
  | ensureOidExists oid => exact absurd rfl (another oid)
  | registerTag name =>
      simp only [step, Engine.registerTag]
      split
      · exact ⟨rfl, rfl⟩
      · exact ⟨rfl, rfl⟩
  | installOntologyModule bundle =>
      simp only [step, Engine.installOntologyModule]
      split
      · exact ⟨rfl, rfl⟩
      · exact ⟨rfl, rfl⟩
  | upgradeOntology bundle => exact ⟨rfl, rfl⟩
  | scrubOntology id => exact ⟨rfl, rfl⟩
  | setTransform pipeline => exact ⟨rfl, rfl⟩

private theorem step_recorded (env : Env) (e : Engine) (call : RecordCall) (recorded : e.Recorded) :
    (call.step env e).Recorded := by
  have kept (frame : (call.step env e).objectTable = e.objectTable ∧
      (call.step env e).indices = e.indices) : (call.step env e).Recorded := by
    intro oid absent
    unfold Engine.hasRecord at absent
    rw [frame.1] at absent
    rw [frame.2]
    exact recorded oid absent
  cases call with
  | mutate mutation reading => exact Engine.recorded_apply env e mutation reading recorded
  | ensureOidExists oid => exact Engine.ensure_oid_exists_recorded e oid 0 recorded
  | _ => exact kept (step_frame env e _ (fun _ _ => nofun) fun _ => nofun)

private theorem step_exact_iff (env : Env) (e : Engine) (call : RecordCall) (recorded : e.Recorded)
    (below : (call.step env e).CountersBelow) (exact_ : e.CountersExact) :
    (call.step env e).CountersExact ↔ call.Counted env e := by
  have kept (frame : (call.step env e).objectTable = e.objectTable ∧
      (call.step env e).indices = e.indices) : (call.step env e).CountersExact :=
    (Engine.counters_exact_congr e _ frame.1 fun oid => by rw [frame.2]).mpr exact_
  cases call with
  | mutate mutation reading => exact Engine.apply_exact_iff env e mutation reading below exact_
  | ensureOidExists oid =>
      exact iff_of_true (Engine.ensure_oid_exists_exact e oid 0 recorded exact_) trivial
  | _ => exact iff_of_true (kept (step_frame env e _ (fun _ _ => nofun) fun _ => nofun)) trivial

end RecordCall

/-- In a run in which no counter reaches its limit the counters are exact all along just when each
call counts what it changes. -/
theorem record_counters_exact_iff (env : Env) (nodeId : UInt16) (calls : List RecordCall)
    (below : Runs.Throughout (RecordCall.step env) Engine.CountersBelow (Engine.new nodeId) calls) :
    Runs.Throughout (RecordCall.step env) Engine.CountersExact (Engine.new nodeId) calls ↔
      Runs.Along (RecordCall.step env) (fun e call => call.Counted env e) (Engine.new nodeId)
        calls := by
  have recorded : (Engine.new nodeId).Recorded := by
    intro oid _
    exact ForwardIndex.assertions_of_new oid
  have fresh : (Engine.new nodeId).CountersExact := by
    intro oid record stored
    cases stored
  have steps := Runs.throughout_iff_along (RecordCall.step env) Engine.Recorded
    Engine.CountersBelow Engine.CountersExact (fun e call => call.Counted env e)
    (Engine.new nodeId) recorded (RecordCall.step_recorded env)
    (fun e call recorded _ below exact_ =>
      RecordCall.step_exact_iff env e call recorded below exact_)
    calls below
  rw [steps]
  exact ⟨fun both => both.2, fun along => ⟨fresh, along⟩⟩

namespace Engine

def smallCounters (record : ObjectRecord) : Bool :=
  record.tagCount < 65535 && record.attrCount < 65535 && record.relationCount < 65535

private theorem small_counters_iff (record : ObjectRecord) :
    smallCounters record = true ↔ ∀ kind, (counter record kind).toNat < 65535 := by
  simp only [smallCounters, Bool.and_eq_true, decide_eq_true_eq, UInt16.lt_iff_toNat_lt]
  constructor
  · intro small kind
    cases kind with
    | tag => exact small.1.1
    | attr => exact small.1.2
    | relation => exact small.2
  · intro small
    exact ⟨⟨small .tag, small .attr⟩, small .relation⟩

private theorem counters_below_iff (e : Engine) :
    (∀ raw ∈ e.objectTable.keys, (e.objectTable.lookup raw).all smallCounters = true) ↔
      e.CountersBelow := by
  constructor
  · intro small oid record stored
    have tested := small oid.toU64 (mem_of_lookup _ _ _ stored)
    rw [stored, Option.all_some, small_counters_iff] at tested
    exact tested
  · intro below raw _
    rw [Option.all_eq_true]
    intro record stored
    rw [small_counters_iff]
    exact below { raw := raw } record stored

instance : DecidablePred CountersBelow := fun e =>
  @decidable_of_iff _ _ (counters_below_iff e) Finset.decidableDforallFinset

end Engine

/-- A tag that is registered, given to an object and taken away again. -/
def taggedAndUntagged : List RecordCall :=
  [.registerTag "photo", .mutate .createObject (some 5), .mutate (.addTag firstObject 1) (some 6),
    .mutate (.removeTag firstObject 1) (some 7)]

theorem tagged_and_untagged_counted :
    Runs.Throughout (RecordCall.step Env.sample) Engine.CountersBelow (Engine.new 1)
        taggedAndUntagged ∧
      Runs.Throughout (RecordCall.step Env.sample) Engine.CountersExact (Engine.new 1)
        taggedAndUntagged := by
  have below : Runs.Throughout (RecordCall.step Env.sample) Engine.CountersBelow (Engine.new 1)
      taggedAndUntagged := by
    decide +kernel
  have counted : Runs.Along (RecordCall.step Env.sample)
      (fun e call => call.Counted Env.sample e) (Engine.new 1) taggedAndUntagged := by
    unfold taggedAndUntagged
    rw [Runs.along_cons_iff, Runs.along_cons_iff, Runs.along_cons_iff, Runs.along_cons_iff]
    constructor
    · trivial
    · constructor
      · rfl
      · constructor
        · intro _
          decide +kernel
        · constructor
          · intro _
            exact Or.inr (by decide +kernel)
          · exact Runs.along_nil _ _ _
  exact ⟨below, (record_counters_exact_iff Env.sample 1 taggedAndUntagged below).mpr counted⟩

def taggedTwice : List RecordCall :=
  [.registerTag "photo", .mutate .createObject (some 5), .mutate (.addTag firstObject 1) (some 6),
    .mutate (.addTag firstObject 1) (some 7)]

theorem tag_counted_twice :
    Runs.Throughout (RecordCall.step Env.sample) Engine.CountersBelow (Engine.new 1) taggedTwice ∧
      let e := Runs.run (RecordCall.step Env.sample) (Engine.new 1) taggedTwice
      e.stateOf firstObject.toU64 = some ObjectState.active.toU8 ∧
        (e.objectTable.lookup firstObject.toU64).map ObjectRecord.tagCount = some 2 ∧
        countOf .tag (e.indices.entriesOf firstObject) = 1 := by
  decide +kernel

end Mimisbrunnr
