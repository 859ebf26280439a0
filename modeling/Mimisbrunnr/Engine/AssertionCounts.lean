import Mimisbrunnr.Engine.Effects

/-!
# How many assertions an object has

What each index operation does to the number of tags, of attributes and of
relations among the assertions of its object.
-/

namespace Mimisbrunnr

set_option autoImplicit false

open Mimisbrunnr.Index
open Mimisbrunnr.Lib
open Mimisbrunnr.Lib.Vec
open Mimisbrunnr.Lib.Worklist
open Mimisbrunnr.Ontology
open Mimisbrunnr.Types

inductive AssertionKind where
  | tag
  | attr
  | relation
deriving DecidableEq, Repr

def kindOf : Assertion → AssertionKind
  | .tag _ => .tag
  | .attr _ _ => .attr
  | .relation _ _ => .relation

def countOf (kind : AssertionKind) (entries : List Indices.Entry) : Nat :=
  entries.countP fun entry => decide (kindOf entry.1 = kind)

def counter (record : ObjectRecord) : AssertionKind → UInt16
  | .tag => record.tagCount
  | .attr => record.attrCount
  | .relation => record.relationCount

@[simp] theorem count_of_append (kind : AssertionKind) (left right : List Indices.Entry) :
    countOf kind (left ++ right) = countOf kind left + countOf kind right :=
  List.countP_append

theorem count_of_added (kind : AssertionKind) (entries : List Indices.Entry)
    (entry : Indices.Entry) :
    countOf kind (entries ++ [entry]) =
      countOf kind entries + if kindOf entry.1 = kind then 1 else 0 := by
  rw [count_of_append]
  simp [countOf, List.countP_cons]

private theorem matches_kind (assertion : Assertion) (entry : Indices.Entry)
    (found : ForwardIndex.matchesEntry assertion entry = true) :
    kindOf entry.1 = kindOf assertion := by
  cases entry with
  | mk left origin =>
      cases left with
      | tag t =>
          cases assertion with
          | tag t' => rfl
          | _ => cases found
      | attr key value =>
          cases assertion with
          | attr key' value' => rfl
          | _ => cases found
      | relation predicate target =>
          cases assertion with
          | relation predicate' target' => rfl
          | _ => cases found

/-- A removal takes one assertion of its kind, if the list has one that it matches. -/
theorem count_of_remove_first (kind : AssertionKind) (assertion : Assertion)
    (entries : List Indices.Entry) :
    countOf kind (removeFirst (ForwardIndex.matchesEntry assertion) entries) +
        (if entries.any (ForwardIndex.matchesEntry assertion) = true ∧ kindOf assertion = kind then 1
          else 0) = countOf kind entries := by
  cases found : entries.find? (ForwardIndex.matchesEntry assertion) with
  | none =>
      have never : ¬ entries.any (ForwardIndex.matchesEntry assertion) = true := by
        intro some_
        obtain ⟨entry, member, accepted⟩ := List.any_eq_true.mp some_
        exact List.find?_eq_none.mp found entry member accepted
      rw [remove_first_none _ _ found, if_neg fun both => never both.1, Nat.add_zero]
  | some entry =>
      have accepted := List.find?_some found
      have some_ : entries.any (ForwardIndex.matchesEntry assertion) = true :=
        List.any_eq_true.mpr ⟨entry, List.mem_of_find?_eq_some found, accepted⟩
      have whole := (cons_remove_first_perm _ entries entry found).countP_eq
        fun entry => decide (kindOf entry.1 = kind)
      rw [List.countP_cons, matches_kind assertion entry accepted] at whole
      rw [some_]
      simp only [true_and]
      simp only [decide_eq_true_eq] at whole
      exact whole

theorem count_zero_iff (entries : List Indices.Entry) :
    (∀ kind, countOf kind entries = 0) ↔ entries = [] := by
  constructor
  · intro zero
    cases entries with
    | nil => rfl
    | cons entry rest =>
        have none := zero (kindOf entry.1)
        simp [countOf] at none
  · intro empty kind
    rw [empty]
    rfl

namespace Indices

private theorem any_matches_tag (ix : Indices) (oid : ObjectId) (tag : TagId) :
    (ix.entriesOf oid).any (ForwardIndex.matchesEntry (.tag tag)) = ix.forward.hasTag oid tag := by
  rw [Bool.eq_iff_iff, has_tag_entries, List.any_eq_true]
  simp only [matches_tag_iff]

def newTags (ontology : OntologyState) (ix : Indices) (oid : ObjectId) (tag : TagId) : List TagId :=
  (ontology.materialise [tag]).filter fun t => !ix.forward.hasTag oid t

private theorem entries_add_closure (oid : ObjectId) (tag : TagId) (closure : List TagId) :
    ∀ ix : Indices, closure.Nodup →
      (closure.foldl (addClosureTag oid tag) ix).entriesOf oid =
        ix.entriesOf oid ++
          (closure.filter fun t => !ix.forward.hasTag oid t).map (closureEntry tag) := by
  induction closure with
  | nil =>
      intro ix _
      rw [List.foldl_nil, List.filter_nil, List.map_nil, List.append_nil]
  | cons head rest ih =>
      intro ix distinct
      have apart := List.nodup_cons.mp distinct
      have same : (rest.filter fun t => !(addClosureTag oid tag ix head).forward.hasTag oid t) =
          rest.filter fun t => !ix.forward.hasTag oid t := by
        apply List.filter_congr
        intro t member
        have different : t ≠ head := fun equal => apart.1 (equal ▸ member)
        have untouched := has_tag_add_closure_tag oid tag ix head t
        rw [Bool.eq_iff_iff, Bool.not_eq_true', Bool.not_eq_true', untouched]
        exact ⟨fun both => both.1, fun absent => ⟨absent, different⟩⟩
      rw [List.foldl_cons, ih _ apart.2, same, entries_add_closure_tag]
      cases present : ix.forward.hasTag oid head with
      | true =>
          rw [if_neg (by simp), List.filter_cons_of_neg (by simp [present])]
      | false =>
          rw [if_pos ⟨rfl, rfl⟩, List.filter_cons_of_pos (by simp [present]), List.map_cons,
            List.append_assoc]
          rfl

theorem increasing_closure (d : ImplicationDag) (tags : List TagId) :
    (d.closure tags).Pairwise (· < ·) := by
  have seeded (tags : List TagId) : ∀ s : Frontier Nat (List TagId), s.acc.Pairwise (· < ·) →
      (tags.foldl d.seed s).acc.Pairwise (· < ·) := by
    induction tags with
    | nil =>
        intro s increasing
        exact increasing
    | cons tag rest ih =>
        intro s increasing
        apply ih
        unfold ImplicationDag.seed
        split
        · exact increasing
        · unfold discover
          split
          · exact increasing
          · exact SortedSet.increasing_insert tag s.acc increasing
  let visit : List TagId → Nat → List TagId :=
    fun result node => SortedSet.insert (d.weight node) result
  let start : Frontier Nat (List TagId) := { queue := [], visited := ∅, acc := [] }
  have kept (visited : Finset Nat) (result : List TagId) (node : Nat) (_ : node ∉ visited)
      (increasing : result.Pairwise (· < ·)) : (visit result node).Pairwise (· < ·) :=
    SortedSet.increasing_insert _ result increasing
  exact drain_keeps_acc d.graph.outgoing visit (fun _ result => result.Pairwise (· < ·)) kept
    d.graph.nodeCount (tags.foldl d.seed start) (seeded tags start List.Pairwise.nil)

private theorem materialise_nodup (ontology : OntologyState) (tags : List TagId) :
    (ontology.materialise tags).Nodup :=
  (increasing_closure ontology.dag tags).imp fun less => ne_of_lt less

private theorem entries_add_tag (ontology : OntologyState) (ix : Indices) (oid : ObjectId)
    (tag : TagId) :
    (ix.addTag ontology oid tag).entriesOf oid =
      ix.entriesOf oid ++ (newTags ontology ix oid tag).map (closureEntry tag) :=
  entries_add_closure oid tag (ontology.materialise [tag]) ix (materialise_nodup ontology [tag])

theorem count_add_tag (ontology : OntologyState) (ix : Indices) (oid : ObjectId) (tag : TagId)
    (kind : AssertionKind) :
    countOf kind ((ix.addTag ontology oid tag).entriesOf oid) =
      countOf kind (ix.entriesOf oid) +
        if kind = .tag then (newTags ontology ix oid tag).length else 0 := by
  have tagged : countOf kind ((newTags ontology ix oid tag).map (closureEntry tag)) =
      if kind = .tag then (newTags ontology ix oid tag).length else 0 := by
    unfold countOf
    rw [List.countP_map]
    cases kind with
    | tag => exact List.countP_eq_length.mpr fun t _ => rfl
    | attr => exact List.countP_eq_zero.mpr fun t _ => Bool.false_ne_true
    | relation => exact List.countP_eq_zero.mpr fun t _ => Bool.false_ne_true
  rw [entries_add_tag, count_of_append, tagged]

theorem count_drop_tag (ix : Indices) (oid : ObjectId) (tag : TagId) (kind : AssertionKind) :
    countOf kind ((dropTag oid ix tag).entriesOf oid) +
        (if ix.forward.hasTag oid tag = true ∧ AssertionKind.tag = kind then 1 else 0) =
      countOf kind (ix.entriesOf oid) := by
  have counted := count_of_remove_first kind (.tag tag) (ix.entriesOf oid)
  rw [any_matches_tag, kindOf] at counted
  rw [entries_drop_tag, if_pos rfl]
  exact counted

/-- Dropping tags never adds one, and keeps everything else. -/
theorem count_drop_tags (oid : ObjectId) (kind : AssertionKind) (tags : List TagId) :
    ∀ ix : Indices, countOf kind ((tags.foldl (dropTag oid) ix).entriesOf oid) ≤
        countOf kind (ix.entriesOf oid) ∧
      (kind ≠ .tag → countOf kind ((tags.foldl (dropTag oid) ix).entriesOf oid) =
        countOf kind (ix.entriesOf oid)) := by
  induction tags with
  | nil =>
      intro ix
      exact ⟨Nat.le_refl _, fun _ => rfl⟩
  | cons tag rest ih =>
      intro ix
      have one := count_drop_tag ix oid tag kind
      have later := ih (dropTag oid ix tag)
      rw [List.foldl_cons]
      constructor
      · omega
      · intro other
        rw [later.2 other, ← one, if_neg fun both => other both.2.symm, Nat.add_zero]

/-- The removal takes one tag assertion just when the object carries the tag and loses no implied
tag with it. -/
theorem count_remove_tag_iff (ontology : OntologyState) (ix : Indices) (oid : ObjectId)
    (tag : TagId) :
    countOf .tag ((ix.removeTag ontology oid tag).entriesOf oid) =
        countOf .tag (ix.entriesOf oid) - 1 ↔
      countOf .tag (ix.entriesOf oid) = 0 ∨
        ix.forward.hasTag oid tag = true ∧ removedTags oid ontology ix tag = [tag] := by
  have first := count_drop_tag ix oid tag .tag
  rw [remove_tag_eq]
  cases present : ix.forward.hasTag oid tag with
  | false =>
      have indirect : ix.wasDirect oid tag = false := by
        rw [← Bool.not_eq_true, was_direct_iff]
        intro direct
        rw [← Bool.not_eq_true, ForwardIndex.has_tag_iff] at present
        exact present ⟨.direct, direct⟩
      rw [present] at first
      simp only [removedTags, indirect, Bool.false_eq_true, if_false, List.foldl_cons,
        List.foldl_nil, false_and, or_false]
      simp only [Bool.false_eq_true, false_and, if_false, Nat.add_zero] at first
      omega
  | true =>
      rw [present, if_pos ⟨rfl, rfl⟩] at first
      have some_ : countOf .tag (ix.entriesOf oid) ≠ 0 := by omega
      simp only [some_, true_and, false_or]
      cases rest : (removedTags oid ontology ix tag).tail with
      | nil =>
          have single : removedTags oid ontology ix tag = [tag] := by
            have head : removedTags oid ontology ix tag =
                tag :: (removedTags oid ontology ix tag).tail := rfl
            rw [head, rest]
          rw [single, List.foldl_cons, List.foldl_nil]
          exact iff_of_true (by omega) rfl
      | cons other more =>
          have head : removedTags oid ontology ix tag = tag :: other :: more := by
            have head : removedTags oid ontology ix tag =
                tag :: (removedTags oid ontology ix tag).tail := rfl
            rw [head, rest]
          have carried : (dropTag oid ix tag).forward.hasTag oid other = true := by
            have member : other ∈ (removedTags oid ontology ix tag).tail := by
              rw [rest]
              exact List.mem_cons_self
            unfold removedTags at member
            rw [List.tail_cons] at member
            split at member
            · have implied := (List.mem_filter.mp member).1
              rw [ForwardIndex.materializedTags, ForwardIndex.mem_tags_with_origin] at implied
              exact (ForwardIndex.has_tag_iff _ _ _).mpr ⟨.materialized, implied⟩
            · cases member
          have second := count_drop_tag (dropTag oid ix tag) oid other .tag
          rw [carried, if_pos ⟨rfl, rfl⟩] at second
          have later := (count_drop_tags oid .tag more (dropTag oid (dropTag oid ix tag) other)).1
          rw [head, List.foldl_cons, List.foldl_cons]
          exact iff_of_false (by omega) (by simp)

theorem count_set_attr (hash : ValueHash) (ix : Indices) (oid : ObjectId) (key : TagId)
    (value : Value) (kind : AssertionKind) :
    countOf kind ((ix.setAttr hash oid key value).entriesOf oid) =
      countOf kind (ix.entriesOf oid) + if AssertionKind.attr = kind then 1 else 0 := by
  rw [entries_set_attr, if_pos rfl]
  exact count_of_added kind (ix.entriesOf oid) (.attr key value, .direct)

theorem count_add_relation (ix : Indices) (oid : ObjectId) (predicate : TagId)
    (target : ObjectId) (kind : AssertionKind) :
    countOf kind ((ix.addRelation oid predicate target).entriesOf oid) =
      countOf kind (ix.entriesOf oid) + if AssertionKind.relation = kind then 1 else 0 := by
  rw [entries_add_relation, if_pos rfl]
  exact count_of_added kind (ix.entriesOf oid) (.relation predicate target, .direct)

theorem eq_right_self (left : Value) :
    ∀ right : Value, left.eq right = true → right.eq right = true := by
  induction left with
  | text string =>
      intro right same
      cases right with
      | text other => exact decide_eq_true rfl
      | _ => cases same
  | int number =>
      intro right same
      cases right with
      | int other => exact decide_eq_true rfl
      | _ => cases same
  | float bits =>
      intro right same
      cases right with
      | float other =>
          simp only [Value.eq, floatEq, Bool.and_eq_true] at same ⊢
          simp [same.1.2]
      | _ => cases same
  | timestamp ns =>
      intro right same
      cases right with
      | timestamp other => exact decide_eq_true rfl
      | _ => cases same
  | blob bytes =>
      intro right same
      cases right with
      | blob other => exact decide_eq_true rfl
      | _ => cases same
  | «scoped» context inner ih =>
      intro right same
      cases right with
      | «scoped» other value =>
          simp only [Value.eq, Bool.and_eq_true, decide_eq_true_eq] at same ⊢
          exact ⟨trivial, ih value same.2⟩
      | _ => cases same

/-- The removal of a selected value takes one attribute just when the value equals itself. -/
theorem count_without_attr_iff (ix : Indices) (oid : ObjectId) (key : TagId) (value : Value)
    (held : ∃ origin, (.attr key value, origin) ∈ ix.entriesOf oid) :
    countOf .attr (ix.withoutAttr oid key value) = countOf .attr (ix.entriesOf oid) - 1 ↔
      value.eq value = true := by
  obtain ⟨origin, member⟩ := held
  have counted := count_of_remove_first .attr (.attr key value) (ix.entriesOf oid)
  have some_ : 0 < countOf .attr (ix.entriesOf oid) :=
    List.countP_pos_iff.mpr ⟨_, member, rfl⟩
  have taken : (ix.entriesOf oid).any (ForwardIndex.matchesEntry (.attr key value)) = true ↔
      value.eq value = true := by
    rw [List.any_eq_true]
    constructor
    · intro found
      obtain ⟨entry, _, same⟩ := found
      obtain ⟨other, _, equal⟩ := (Assertion.eq_attr_iff entry.1 key value).mp same
      exact eq_right_self other value equal
    · intro reflexive
      exact ⟨_, member, (Assertion.eq_attr_iff _ key value).mpr ⟨value, rfl, reflexive⟩⟩
  unfold withoutAttr
  by_cases reflexive : value.eq value = true
  · rw [if_pos ⟨taken.mpr reflexive, rfl⟩] at counted
    exact iff_of_true (by omega) reflexive
  · rw [if_neg fun both => reflexive (taken.mp both.1)] at counted
    exact iff_of_false (by omega) reflexive

theorem count_without_attr_other (ix : Indices) (oid : ObjectId) (key : TagId) (value : Value)
    (kind : AssertionKind) (other : kind ≠ .attr) :
    countOf kind (ix.withoutAttr oid key value) = countOf kind (ix.entriesOf oid) := by
  have counted := count_of_remove_first kind (.attr key value) (ix.entriesOf oid)
  rw [if_neg fun both => other both.2.symm, Nat.add_zero] at counted
  exact counted

end Indices

end Mimisbrunnr
