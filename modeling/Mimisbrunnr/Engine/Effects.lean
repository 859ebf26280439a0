import Mimisbrunnr.Engine.Indices

/-!
# What each mutation does to each index

One statement for each index function and each index: which assertions an
object holds afterwards, who is a member of a tag, and what the attribute
indices return. Later modules reason from these and do not unfold the functions.
-/

namespace Mimisbrunnr.Indices

set_option autoImplicit false

open Mimisbrunnr.Index
open Mimisbrunnr.Lib.Vec
open Mimisbrunnr.Ontology
open Mimisbrunnr.Types

abbrev Entry := Assertion × TagOrigin

def entryTag (entry : Entry) : Option TagId := ForwardIndex.tagOf entry.1

def entriesOf (ix : Indices) (oid : ObjectId) : List Entry := ix.forward.assertionsOf oid

def TagsDistinct (ix : Indices) (oid : ObjectId) : Prop :=
  ((ix.entriesOf oid).filterMap entryTag).Nodup

theorem entry_tag_eq_some (entry : Entry) (tag : TagId) :
    entryTag entry = some tag ↔ entry.1 = .tag tag := by
  unfold entryTag ForwardIndex.tagOf
  cases entry.1 <;> simp

theorem matches_tag_iff (tag : TagId) (entry : Entry) :
    ForwardIndex.matchesEntry (.tag tag) entry = true ↔ entryTag entry = some tag := by
  rw [entry_tag_eq_some]
  simp [ForwardIndex.matchesEntry]

theorem has_tag_entries (ix : Indices) (oid : ObjectId) (tag : TagId) :
    ix.forward.hasTag oid tag = true ↔ ∃ entry ∈ ix.entriesOf oid, entryTag entry = some tag := by
  rw [ForwardIndex.has_tag_iff]
  apply Iff.intro
  · intro found
    cases found with
    | intro origin member => exact ⟨(.tag tag, origin), member, rfl⟩
  · intro found
    cases found with
    | intro entry facts =>
        have shape := (entry_tag_eq_some entry tag).mp facts.2
        have member := facts.1
        cases entry with
        | mk assertion origin =>
            cases shape
            exact ⟨origin, member⟩

section AddTag

variable (oid : ObjectId) (tag : TagId)

/-- The entry `add_tag` appends for a member of the closure. -/
def closureEntry (closureTag : TagId) : Entry :=
  (.tag closureTag, if closureTag = tag then .direct else .materialized)

theorem entries_add_closure_tag (ix : Indices) (closureTag : TagId) (other : ObjectId) :
    (addClosureTag oid tag ix closureTag).entriesOf other =
      if other = oid ∧ ix.forward.hasTag oid closureTag = false then
        ix.entriesOf oid ++ [closureEntry tag closureTag]
      else ix.entriesOf other := by
  unfold addClosureTag
  cases present : ix.forward.hasTag oid closureTag with
  | true => simp
  | false =>
      simp only [entriesOf, Bool.false_eq_true, if_false, ForwardIndex.assertions_of_add, and_true]
      rfl

theorem mem_add_closure_tag (ix : Indices) (closureTag : TagId) (other : ObjectId)
    (entry : Entry) :
    entry ∈ (addClosureTag oid tag ix closureTag).entriesOf other ↔
      entry ∈ ix.entriesOf other ∨
        (other = oid ∧ ix.forward.hasTag oid closureTag = false ∧
          entry = closureEntry tag closureTag) := by
  rw [entries_add_closure_tag]
  split
  · next taken =>
      rw [taken.1]
      simp [taken.2]
  · next skipped =>
      have never : ¬ (other = oid ∧ ix.forward.hasTag oid closureTag = false ∧
          entry = closureEntry tag closureTag) := fun all => skipped ⟨all.1, all.2.1⟩
      simp [never]

theorem has_tag_add_closure_tag (ix : Indices) (closureTag other : TagId) :
    (addClosureTag oid tag ix closureTag).forward.hasTag oid other = false ↔
      ix.forward.hasTag oid other = false ∧ other ≠ closureTag := by
  rw [← Bool.not_eq_true, ← Bool.not_eq_true, has_tag_entries, has_tag_entries]
  apply Iff.intro
  · intro absent
    apply And.intro
    · intro found
      cases found with
      | intro entry facts =>
          apply absent
          exact ⟨entry, (mem_add_closure_tag oid tag ix closureTag oid entry).mpr (Or.inl facts.1),
            facts.2⟩
    · intro same
      subst same
      cases present : ix.forward.hasTag oid other with
      | true =>
          have found := (has_tag_entries ix oid other).mp present
          cases found with
          | intro entry facts =>
              apply absent
              exact ⟨entry, (mem_add_closure_tag oid tag ix other oid entry).mpr (Or.inl facts.1),
                facts.2⟩
      | false =>
          apply absent
          exact ⟨closureEntry tag other,
            (mem_add_closure_tag oid tag ix other oid _).mpr (Or.inr ⟨rfl, present, rfl⟩), rfl⟩
  · intro both found
    cases found with
    | intro entry facts =>
        have origin := (mem_add_closure_tag oid tag ix closureTag oid entry).mp facts.1
        cases origin with
        | inl old => exact both.1 ⟨entry, old, facts.2⟩
        | inr added =>
            have keyed := facts.2
            rw [added.2.2] at keyed
            cases keyed
            exact both.2 rfl

private theorem mem_add_closure (closure : List TagId) (ix : Indices) (other : ObjectId)
    (entry : Entry) :
    entry ∈ (closure.foldl (addClosureTag oid tag) ix).entriesOf other ↔
      entry ∈ ix.entriesOf other ∨
        (other = oid ∧ ∃ t ∈ closure, ix.forward.hasTag oid t = false ∧
          entry = closureEntry tag t) := by
  induction closure generalizing ix with
  | nil => simp
  | cons head rest ih =>
      rw [List.foldl_cons, ih, mem_add_closure_tag]
      simp only [has_tag_add_closure_tag, List.mem_cons, exists_eq_or_imp]
      apply Iff.intro
      · intro found
        cases found with
        | inl earlier =>
            cases earlier with
            | inl old => exact Or.inl old
            | inr added => exact Or.inr ⟨added.1, Or.inl added.2⟩
        | inr later =>
            cases later.2 with
            | intro t facts => exact Or.inr ⟨later.1, Or.inr ⟨t, facts.1, facts.2.1.1, facts.2.2⟩⟩
      · intro found
        cases found with
        | inl old => exact Or.inl (Or.inl old)
        | inr added =>
            cases added.2 with
            | inl first => exact Or.inl (Or.inr ⟨added.1, first⟩)
            | inr later =>
                cases later with
                | intro t facts =>
                    by_cases same : t = head
                    · subst same
                      exact Or.inl (Or.inr ⟨added.1, facts.2⟩)
                    · exact Or.inr ⟨added.1, t, facts.1, ⟨facts.2.1, same⟩, facts.2.2⟩

theorem members_add_closure_tag (ix : Indices) (closureTag other : TagId) (x : Nat) :
    x ∈ (addClosureTag oid tag ix closureTag).tag.membersOf other ↔
      x ∈ ix.tag.membersOf other ∨
        (x = oid.low32 ∧ other = closureTag ∧ ix.forward.hasTag oid other = false) := by
  unfold addClosureTag
  cases present : ix.forward.hasTag oid closureTag with
  | true =>
      have never : ¬ (x = oid.low32 ∧ other = closureTag ∧ ix.forward.hasTag oid other = false) := by
        intro all
        rw [all.2.1, present] at all
        exact absurd all.2.2 (by simp)
      simp [never]
  | false =>
      simp only [Bool.false_eq_true, if_false, TagIndex.mem_add_member]
      apply Iff.intro
      · intro found
        cases found with
        | inl added => exact Or.inr ⟨added.2, added.1, by rw [added.1]; exact present⟩
        | inr old => exact Or.inl old
      · intro found
        cases found with
        | inl old => exact Or.inr old
        | inr added => exact Or.inl ⟨added.2.1, added.1⟩

private theorem members_add_closure (closure : List TagId) (ix : Indices) (other : TagId)
    (x : Nat) :
    x ∈ (closure.foldl (addClosureTag oid tag) ix).tag.membersOf other ↔
      x ∈ ix.tag.membersOf other ∨
        (x = oid.low32 ∧ other ∈ closure ∧ ix.forward.hasTag oid other = false) := by
  induction closure generalizing ix with
  | nil => simp
  | cons head rest ih =>
      rw [List.foldl_cons, ih, members_add_closure_tag, has_tag_add_closure_tag]
      simp only [List.mem_cons]
      by_cases same : other = head
      · simp [same]
      · simp [same]

private theorem tags_distinct_add_closure_tag (ix : Indices) (closureTag : TagId) (other : ObjectId)
    (distinct : ix.TagsDistinct other) :
    (addClosureTag oid tag ix closureTag).TagsDistinct other := by
  unfold TagsDistinct
  rw [entries_add_closure_tag]
  split
  · next taken =>
      rw [taken.1] at distinct
      have fresh : closureTag ∉ (ix.entriesOf oid).filterMap entryTag := by
        intro member
        have present := (has_tag_entries ix oid closureTag).mpr (List.mem_filterMap.mp member)
        rw [taken.2] at present
        cases present
      have last : [closureEntry tag closureTag].filterMap entryTag = [closureTag] := rfl
      rw [List.filterMap_append, last]
      apply List.nodup_append.mpr
      apply And.intro distinct
      apply And.intro (List.nodup_singleton closureTag)
      intro a member b single
      rw [List.mem_singleton.mp single]
      intro same
      exact fresh (same ▸ member)
  · exact distinct

/-- A property that one member of the closure keeps is kept by the whole closure. -/
theorem add_closure_keeps (property : Indices → Prop)
    (kept : ∀ ix closureTag, property ix → property (addClosureTag oid tag ix closureTag))
    (closure : List TagId) (ix : Indices) (holds : property ix) :
    property (closure.foldl (addClosureTag oid tag) ix) := by
  induction closure generalizing ix with
  | nil => exact holds
  | cons head rest ih => exact ih _ (kept ix head holds)

variable (ontology : OntologyState) (ix : Indices)

theorem mem_add_tag (other : ObjectId) (entry : Entry) :
    entry ∈ (ix.addTag ontology oid tag).entriesOf other ↔
      entry ∈ ix.entriesOf other ∨
        (other = oid ∧ ∃ t ∈ ontology.materialise [tag], ix.forward.hasTag oid t = false ∧
          entry = closureEntry tag t) :=
  mem_add_closure oid tag (ontology.materialise [tag]) ix other entry

theorem members_add_tag (other : TagId) (x : Nat) :
    x ∈ (ix.addTag ontology oid tag).tag.membersOf other ↔
      x ∈ ix.tag.membersOf other ∨
        (x = oid.low32 ∧ other ∈ ontology.materialise [tag] ∧
          ix.forward.hasTag oid other = false) :=
  members_add_closure oid tag (ontology.materialise [tag]) ix other x

theorem tags_distinct_add_tag (other : ObjectId) (distinct : ix.TagsDistinct other) :
    (ix.addTag ontology oid tag).TagsDistinct other :=
  add_closure_keeps oid tag (fun ix => ix.TagsDistinct other)
    (fun ix closureTag holds => tags_distinct_add_closure_tag oid tag ix closureTag other holds)
    (ontology.materialise [tag]) ix distinct

theorem attributes_add_closure_tag (closureTag : TagId) :
    (addClosureTag oid tag ix closureTag).kv = ix.kv ∧
      (addClosureTag oid tag ix closureTag).range = ix.range := by
  unfold addClosureTag
  split
  · exact ⟨rfl, rfl⟩
  · exact ⟨rfl, rfl⟩

@[simp] theorem kv_add_tag : (ix.addTag ontology oid tag).kv = ix.kv := by
  apply add_closure_keeps oid tag (fun after => after.kv = ix.kv)
  · intro before closureTag same
    rw [(attributes_add_closure_tag oid tag before closureTag).1, same]
  · rfl

@[simp] theorem range_add_tag : (ix.addTag ontology oid tag).range = ix.range := by
  apply add_closure_keeps oid tag (fun after => after.range = ix.range)
  · intro before closureTag same
    rw [(attributes_add_closure_tag oid tag before closureTag).2, same]
  · rfl

end AddTag

section RemoveTag

variable (oid : ObjectId)

theorem entries_drop_tag (ix : Indices) (tag : TagId) (other : ObjectId) :
    (dropTag oid ix tag).entriesOf other =
      if other = oid then
        removeFirst (ForwardIndex.matchesEntry (.tag tag)) (ix.entriesOf oid)
      else ix.entriesOf other :=
  ForwardIndex.assertions_of_remove ix.forward oid other (.tag tag)

theorem tags_distinct_drop_tag (ix : Indices) (tag : TagId) (other : ObjectId)
    (distinct : ix.TagsDistinct other) : (dropTag oid ix tag).TagsDistinct other := by
  unfold TagsDistinct
  rw [entries_drop_tag]
  split
  · next same =>
      rw [same] at distinct
      exact nodup_keys_remove_first entryTag _ (ix.entriesOf oid) distinct
  · exact distinct

theorem mem_drop_tag (ix : Indices) (tag : TagId) (other : ObjectId) (entry : Entry)
    (distinct : ix.TagsDistinct oid) :
    entry ∈ (dropTag oid ix tag).entriesOf other ↔
      entry ∈ ix.entriesOf other ∧ ¬ (other = oid ∧ entryTag entry = some tag) := by
  rw [entries_drop_tag]
  split
  · next same =>
      subst same
      rw [mem_remove_first_keyed entryTag tag _ _ (matches_tag_iff tag) distinct]
      simp
  · next apart => simp [apart]

private theorem has_tag_drop_tag (ix : Indices) (tag other : TagId)
    (distinct : ix.TagsDistinct oid) :
    (dropTag oid ix tag).forward.hasTag oid other = true ↔
      ix.forward.hasTag oid other = true ∧ other ≠ tag := by
  rw [has_tag_entries, has_tag_entries]
  apply Iff.intro
  · intro found
    cases found with
    | intro entry facts =>
        have old := (mem_drop_tag oid ix tag oid entry distinct).mp facts.1
        apply And.intro
        · exact ⟨entry, old.1, facts.2⟩
        · intro same
          exact old.2 ⟨rfl, same ▸ facts.2⟩
  · intro both
    cases both.1 with
    | intro entry facts =>
        have kept : ¬ (oid = oid ∧ entryTag entry = some tag) := by
          intro dropped
          rw [facts.2] at dropped
          exact both.2 (Option.some.inj dropped.2)
        exact ⟨entry, (mem_drop_tag oid ix tag oid entry distinct).mpr ⟨facts.1, kept⟩, facts.2⟩

theorem members_drop_tag (ix : Indices) (tag other : TagId) (x : Nat) :
    x ∈ (dropTag oid ix tag).tag.membersOf other ↔
      x ∈ ix.tag.membersOf other ∧
        ¬ (x = oid.low32 ∧ other = tag ∧ ix.forward.hasTag oid other = true) := by
  have removed : (ix.forward.removeAssertion oid (.tag tag)).2 = ix.forward.hasTag oid tag := by
    rw [ForwardIndex.remove_assertion_found, Bool.eq_iff_iff, has_tag_entries, List.any_eq_true]
    simp only [matches_tag_iff]
    rfl
  simp only [dropTag, removed]
  cases present : ix.forward.hasTag oid tag with
  | false =>
      have never : ¬ (x = oid.low32 ∧ other = tag ∧ ix.forward.hasTag oid other = true) := by
        intro all
        rw [all.2.1, present] at all
        cases all.2.2
      simp [never]
  | true =>
      simp only [if_true, TagIndex.mem_remove_member]
      by_cases same : other = tag
      · subst same
        simp [present, and_comm]
      · simp [same]

theorem drop_tags_spec (tags : List TagId) (ix : Indices) (distinct : ix.TagsDistinct oid) :
    (∀ other entry, entry ∈ (tags.foldl (dropTag oid) ix).entriesOf other ↔
      entry ∈ ix.entriesOf other ∧ ¬ (other = oid ∧ ∃ t ∈ tags, entryTag entry = some t)) ∧
    (∀ other x, x ∈ (tags.foldl (dropTag oid) ix).tag.membersOf other ↔
      x ∈ ix.tag.membersOf other ∧
        ¬ (x = oid.low32 ∧ other ∈ tags ∧ ix.forward.hasTag oid other = true)) := by
  induction tags generalizing ix with
  | nil => simp
  | cons head rest ih =>
      have later := ih (dropTag oid ix head) (tags_distinct_drop_tag oid ix head oid distinct)
      apply And.intro
      · intro other entry
        rw [List.foldl_cons, later.1, mem_drop_tag oid ix head other entry distinct]
        simp only [List.mem_cons, exists_eq_or_imp]
        rw [and_assoc, ← not_or, ← and_or_left]
      · intro other x
        rw [List.foldl_cons, later.2, members_drop_tag, has_tag_drop_tag oid ix head other distinct]
        simp only [List.mem_cons]
        tauto

private theorem tags_distinct_drop_tags (tags : List TagId) (ix : Indices) (other : ObjectId)
    (distinct : ix.TagsDistinct other) : (tags.foldl (dropTag oid) ix).TagsDistinct other := by
  induction tags generalizing ix with
  | nil => exact distinct
  | cons head rest ih => exact ih _ (tags_distinct_drop_tag oid ix head other distinct)

theorem attributes_drop_tags (tags : List TagId) (ix : Indices) :
    (tags.foldl (dropTag oid) ix).kv = ix.kv ∧ (tags.foldl (dropTag oid) ix).range = ix.range := by
  induction tags generalizing ix with
  | nil => exact ⟨rfl, rfl⟩
  | cons head rest ih => exact ih (dropTag oid ix head)

variable (ontology : OntologyState) (ix : Indices) (tag : TagId)

/-- All the tags `remove_tag` takes away: the given one, and the implied ones it leaves bare. -/
def removedTags : List TagId :=
  tag ::
    if ix.wasDirect oid tag then
      ((ix.dropTag oid tag).forward.materializedTags oid).filter fun m =>
        !(ix.dropTag oid tag).stillImplied ontology oid m
    else []

theorem remove_tag_eq :
    ix.removeTag ontology oid tag = (removedTags oid ontology ix tag).foldl (dropTag oid) ix := by
  unfold removeTag removedTags
  cases ix.wasDirect oid tag with
  | false => rfl
  | true => rfl

theorem was_direct_iff : ix.wasDirect oid tag = true ↔ (.tag tag, .direct) ∈ ix.entriesOf oid := by
  simp only [wasDirect, List.any_eq_true, Bool.and_eq_true, decide_eq_true_eq]
  apply Iff.intro
  · intro found
    cases found with
    | intro entry facts =>
        have shape : entry = (.tag tag, .direct) := Prod.ext facts.2.1 facts.2.2
        rw [← shape]
        exact facts.1
  · intro member
    exact ⟨(.tag tag, .direct), member, rfl, rfl⟩

private theorem still_implied_iff :
    ix.stillImplied ontology oid tag = true ↔
      ∃ d, (.tag d, .direct) ∈ ix.entriesOf oid ∧ tag ∈ ontology.materialise [d] := by
  simp [stillImplied, ForwardIndex.directTags, entriesOf]

theorem mem_removed_tags (t : TagId) (distinct : ix.TagsDistinct oid) :
    t ∈ removedTags oid ontology ix tag ↔
      t = tag ∨
        ((.tag tag, .direct) ∈ ix.entriesOf oid ∧ (.tag t, .materialized) ∈ ix.entriesOf oid ∧
          ∀ d, (.tag d, .direct) ∈ ix.entriesOf oid → d ≠ tag → t ∉ ontology.materialise [d]) := by
  have keptEntry (u : TagId) (origin : TagOrigin) :
      (.tag u, origin) ∈ (ix.dropTag oid tag).entriesOf oid ↔
        (.tag u, origin) ∈ ix.entriesOf oid ∧ u ≠ tag := by
    rw [mem_drop_tag oid ix tag oid _ distinct]
    simp [entryTag, ForwardIndex.tagOf]
  have swept : t ∈ ((ix.dropTag oid tag).forward.materializedTags oid).filter
        (fun m => !(ix.dropTag oid tag).stillImplied ontology oid m) ↔
      ((.tag t, .materialized) ∈ ix.entriesOf oid ∧ t ≠ tag) ∧
        ∀ d, (.tag d, .direct) ∈ ix.entriesOf oid → d ≠ tag → t ∉ ontology.materialise [d] := by
    rw [List.mem_filter, ForwardIndex.materializedTags, ForwardIndex.mem_tags_with_origin,
      Bool.not_eq_true', ← Bool.not_eq_true, still_implied_iff]
    have same := keptEntry t .materialized
    unfold entriesOf at same
    rw [same]
    simp only [keptEntry, not_exists, not_and, and_imp]
    rfl
  unfold removedTags
  rw [List.mem_cons]
  cases direct : ix.wasDirect oid tag with
  | false =>
      have notDirect : ¬ ((.tag tag, .direct) ∈ ix.entriesOf oid) := by
        intro member
        rw [(was_direct_iff oid ix tag).mpr member] at direct
        cases direct
      simp [notDirect]
  | true =>
      have isDirect := (was_direct_iff oid ix tag).mp direct
      simp only [if_true, swept, isDirect, true_and]
      tauto

theorem mem_remove_tag (other : ObjectId) (entry : Entry) (distinct : ix.TagsDistinct oid) :
    entry ∈ (ix.removeTag ontology oid tag).entriesOf other ↔
      entry ∈ ix.entriesOf other ∧
        ¬ (other = oid ∧ ∃ t ∈ removedTags oid ontology ix tag, entryTag entry = some t) := by
  rw [remove_tag_eq]
  exact (drop_tags_spec oid _ ix distinct).1 other entry

theorem mem_of_mem_remove_tag (other : ObjectId) (entry : Entry)
    (member : entry ∈ (ix.removeTag ontology oid tag).entriesOf other) :
    entry ∈ ix.entriesOf other := by
  have shrinks (tags : List TagId) : ∀ start : Indices,
      entry ∈ (tags.foldl (dropTag oid) start).entriesOf other → entry ∈ start.entriesOf other := by
    induction tags with
    | nil =>
        intro start member
        exact member
    | cons head rest ih =>
        intro start member
        have later := ih (dropTag oid start head) member
        rw [entries_drop_tag] at later
        split at later
        · next same =>
            rw [same]
            exact mem_of_mem_remove_first _ _ entry later
        · exact later
  rw [remove_tag_eq] at member
  exact shrinks (removedTags oid ontology ix tag) ix member

theorem members_remove_tag (other : TagId) (x : Nat) (distinct : ix.TagsDistinct oid) :
    x ∈ (ix.removeTag ontology oid tag).tag.membersOf other ↔
      x ∈ ix.tag.membersOf other ∧
        ¬ (x = oid.low32 ∧ other ∈ removedTags oid ontology ix tag ∧
          ix.forward.hasTag oid other = true) := by
  rw [remove_tag_eq]
  exact (drop_tags_spec oid _ ix distinct).2 other x

theorem tags_distinct_remove_tag (other : ObjectId) (distinct : ix.TagsDistinct other) :
    (ix.removeTag ontology oid tag).TagsDistinct other := by
  rw [remove_tag_eq]
  exact tags_distinct_drop_tags oid _ ix other distinct

@[simp] theorem kv_remove_tag : (ix.removeTag ontology oid tag).kv = ix.kv := by
  rw [remove_tag_eq]
  exact (attributes_drop_tags oid _ ix).1

@[simp] theorem range_remove_tag : (ix.removeTag ontology oid tag).range = ix.range := by
  rw [remove_tag_eq]
  exact (attributes_drop_tags oid _ ix).2

end RemoveTag

section Attributes

variable (hash : ValueHash) (ix : Indices) (oid : ObjectId) (key : TagId)

theorem entries_set_attr (value : Value) (other : ObjectId) :
    (ix.setAttr hash oid key value).entriesOf other =
      if other = oid then ix.entriesOf oid ++ [(.attr key value, .direct)]
      else ix.entriesOf other :=
  ForwardIndex.assertions_of_add ix.forward oid other (.attr key value) .direct

@[simp] theorem mem_set_attr (value : Value) (other : ObjectId) (entry : Entry) :
    entry ∈ (ix.setAttr hash oid key value).entriesOf other ↔
      entry ∈ ix.entriesOf other ∨ (other = oid ∧ entry = (.attr key value, .direct)) := by
  rw [entries_set_attr]
  split
  · next same =>
      subst same
      simp
  · next apart => simp [apart]

theorem selected_value_mem (valueHash : UInt64) (value : Value)
    (selected : ix.selectedValue hash oid key valueHash = some value) :
    hash value = valueHash ∧ ∃ origin, (.attr key value, origin) ∈ ix.entriesOf oid := by
  have found := List.exists_of_findSome?_eq_some selected
  cases found with
  | intro entry facts =>
      cases entry with
      | mk assertion origin =>
          have picked := facts.2
          unfold attrWithHash at picked
          split at picked
          · next k v same =>
              split at picked
              · next hits =>
                  cases picked
                  simp only at same
                  cases same
                  exact ⟨hits.2, origin, hits.1 ▸ facts.1⟩
              · cases picked
          · cases picked

/-- What `remove_attr` does to the list of the object. -/
def withoutAttr (value : Value) : List Entry :=
  removeFirst (ForwardIndex.matchesEntry (.attr key value)) (ix.entriesOf oid)

theorem entries_remove_attr (valueHash : UInt64) (other : ObjectId) :
    (ix.removeAttr hash oid key valueHash).entriesOf other =
      match ix.selectedValue hash oid key valueHash with
      | none => ix.entriesOf other
      | some value => if other = oid then ix.withoutAttr oid key value else ix.entriesOf other := by
  unfold removeAttr
  cases ix.selectedValue hash oid key valueHash with
  | none => rfl
  | some value => exact ForwardIndex.assertions_of_remove ix.forward oid other (.attr key value)

theorem entries_remove_attr_other (valueHash : UInt64) (other : ObjectId) (apart : other ≠ oid) :
    (ix.removeAttr hash oid key valueHash).entriesOf other = ix.entriesOf other := by
  rw [entries_remove_attr]
  split
  · rfl
  · rw [if_neg apart]

theorem mem_of_mem_remove_attr (valueHash : UInt64) (other : ObjectId) (entry : Entry)
    (member : entry ∈ (ix.removeAttr hash oid key valueHash).entriesOf other) :
    entry ∈ ix.entriesOf other := by
  rw [entries_remove_attr] at member
  split at member
  · exact member
  · split at member
    · next same =>
        rw [same]
        exact mem_of_mem_remove_first _ _ entry member
    · exact member

private theorem matches_attr_tag (value : Value) (entry : Entry) (tag : TagId)
    (tagged : entryTag entry = some tag) :
    ForwardIndex.matchesEntry (.attr key value) entry = false := by
  have shape := (entry_tag_eq_some entry tag).mp tagged
  simp [ForwardIndex.matchesEntry, shape, Assertion.eq]

theorem mem_remove_attr_tag (valueHash : UInt64) (other : ObjectId) (entry : Entry) (tag : TagId)
    (tagged : entryTag entry = some tag) :
    entry ∈ (ix.removeAttr hash oid key valueHash).entriesOf other ↔
      entry ∈ ix.entriesOf other := by
  apply Iff.intro (mem_of_mem_remove_attr hash ix oid key valueHash other entry)
  intro member
  rw [entries_remove_attr]
  split
  · exact member
  · split
    · next value selected same =>
        rw [same] at member
        exact mem_remove_first_of_rejected _ _ entry member
          (matches_attr_tag key value entry tag tagged)
    · exact member

theorem tags_distinct_remove_attr (valueHash : UInt64) (other : ObjectId)
    (distinct : ix.TagsDistinct other) :
    (ix.removeAttr hash oid key valueHash).TagsDistinct other := by
  unfold TagsDistinct
  rw [entries_remove_attr]
  split
  · exact distinct
  · split
    · next same =>
        rw [same] at distinct
        exact nodup_keys_remove_first entryTag _ _ distinct
    · exact distinct

@[simp] theorem tag_remove_attr (valueHash : UInt64) :
    (ix.removeAttr hash oid key valueHash).tag = ix.tag := by
  unfold removeAttr
  split <;> rfl

theorem mem_kv_remove_attr (valueHash : UInt64) (k : TagId) (w : Value) (x : Nat) :
    x ∈ (ix.removeAttr hash oid key valueHash).kv.lookup hash k w ↔
      x ∈ ix.kv.lookup hash k w ∧
        ¬ (x = oid.low32 ∧ k = key ∧ ∃ value,
          ix.selectedValue hash oid key valueHash = some value ∧ hash w = hash value) := by
  unfold removeAttr
  cases ix.selectedValue hash oid key valueHash with
  | none => simp
  | some value =>
      simp only [KvIndex.mem_lookup_remove, Option.some.injEq, exists_eq_left']
      tauto

theorem mem_range_remove_attr (valueHash : UInt64) (k : TagId) (w : Value) (x : Nat) :
    x ∈ (ix.removeAttr hash oid key valueHash).range.lookup k w ↔
      x ∈ ix.range.lookup k w ∧
        ¬ (x = oid.low32 ∧ k = key ∧ ∃ value,
          ix.selectedValue hash oid key valueHash = some value ∧
            NormalisedKey.fromValue w = NormalisedKey.fromValue value) := by
  unfold removeAttr
  cases ix.selectedValue hash oid key valueHash with
  | none => simp
  | some value =>
      simp only [RangeIndex.mem_lookup_remove, Option.some.injEq, exists_eq_left']
      tauto

end Attributes

section Relations

variable (ix : Indices) (oid : ObjectId) (predicate : TagId) (target : ObjectId)

theorem entries_add_relation (other : ObjectId) :
    (ix.addRelation oid predicate target).entriesOf other =
      if other = oid then ix.entriesOf oid ++ [(.relation predicate target, .direct)]
      else ix.entriesOf other :=
  ForwardIndex.assertions_of_add ix.forward oid other (.relation predicate target) .direct

@[simp] theorem mem_add_relation (other : ObjectId) (entry : Entry) :
    entry ∈ (ix.addRelation oid predicate target).entriesOf other ↔
      entry ∈ ix.entriesOf other ∨ (other = oid ∧ entry = (.relation predicate target, .direct)) := by
  rw [entries_add_relation]
  split
  · next same =>
      subst same
      simp
  · next apart => simp [apart]

theorem entries_remove_relation (other : ObjectId) :
    (ix.removeRelation oid predicate target).1.entriesOf other =
      if other = oid then
        removeFirst (ForwardIndex.matchesEntry (.relation predicate target)) (ix.entriesOf oid)
      else ix.entriesOf other :=
  ForwardIndex.assertions_of_remove ix.forward oid other (.relation predicate target)

theorem mem_of_mem_remove_relation (other : ObjectId) (entry : Entry)
    (member : entry ∈ (ix.removeRelation oid predicate target).1.entriesOf other) :
    entry ∈ ix.entriesOf other := by
  rw [entries_remove_relation] at member
  split at member
  · next same =>
      rw [same]
      exact mem_of_mem_remove_first _ _ entry member
  · exact member

theorem mem_remove_relation_apart (other : ObjectId) (entry : Entry)
    (apart : entry.1 ≠ .relation predicate target) :
    entry ∈ (ix.removeRelation oid predicate target).1.entriesOf other ↔
      entry ∈ ix.entriesOf other := by
  apply Iff.intro (mem_of_mem_remove_relation ix oid predicate target other entry)
  intro member
  rw [entries_remove_relation]
  split
  · next same =>
      rw [same] at member
      apply mem_remove_first_of_rejected _ _ entry member
      rw [← Bool.not_eq_true]
      intro accepted
      exact apart ((Assertion.eq_relation_iff entry.1 predicate target).mp accepted)
  · exact member

theorem tags_distinct_remove_relation (other : ObjectId) (distinct : ix.TagsDistinct other) :
    (ix.removeRelation oid predicate target).1.TagsDistinct other := by
  unfold TagsDistinct
  rw [entries_remove_relation]
  split
  · next same =>
      rw [same] at distinct
      exact nodup_keys_remove_first entryTag _ _ distinct
  · exact distinct

end Relations

theorem tags_distinct_append (list : List Entry) (entry : Entry) (untagged : entryTag entry = none)
    (distinct : (list.filterMap entryTag).Nodup) :
    ((list ++ [entry]).filterMap entryTag).Nodup := by
  have last : [entry].filterMap entryTag = [] := by simp [untagged]
  rw [List.filterMap_append, last, List.append_nil]
  exact distinct

theorem tags_distinct_set_attr (hash : ValueHash) (ix : Indices) (oid other : ObjectId)
    (key : TagId) (value : Value) (distinct : ix.TagsDistinct other) :
    (ix.setAttr hash oid key value).TagsDistinct other := by
  unfold TagsDistinct
  rw [entries_set_attr]
  split
  · next same =>
      rw [same] at distinct
      exact tags_distinct_append _ _ rfl distinct
  · exact distinct

theorem tags_distinct_add_relation (ix : Indices) (oid other : ObjectId) (predicate : TagId)
    (target : ObjectId) (distinct : ix.TagsDistinct other) :
    (ix.addRelation oid predicate target).TagsDistinct other := by
  unfold TagsDistinct
  rw [entries_add_relation]
  split
  · next same =>
      rw [same] at distinct
      exact tags_distinct_append _ _ rfl distinct
  · exact distinct

section Delete

variable (hash : ValueHash) (oid : ObjectId)

theorem strip_attrs_frame (entries : List Entry) (ix : Indices) :
    (entries.foldl (stripAttr hash oid) ix).forward = ix.forward ∧
      (entries.foldl (stripAttr hash oid) ix).tag = ix.tag := by
  induction entries generalizing ix with
  | nil => exact ⟨rfl, rfl⟩
  | cons head rest ih =>
      have first : (stripAttr hash oid ix head).forward = ix.forward ∧
          (stripAttr hash oid ix head).tag = ix.tag := by
        unfold stripAttr
        split
        · exact ⟨rfl, rfl⟩
        · exact ⟨rfl, rfl⟩
      have later := ih (stripAttr hash oid ix head)
      rw [List.foldl_cons]
      exact ⟨later.1.trans first.1, later.2.trans first.2⟩

section Stripping

variable {Key : Type} (keyOf : Value → Key) (find : Indices → TagId → Value → Finset Nat)

/-- What an index finds without one attribute of the object. -/
theorem mem_strip_attr (ix : Indices) (entry : Entry) (k : TagId) (w : Value) (x : Nat)
    (removed : ∀ key value, entry.1 = .attr key value →
      (x ∈ find (stripAttr hash oid ix entry) k w ↔
        ¬ (k = key ∧ keyOf w = keyOf value ∧ x = oid.low32) ∧ x ∈ find ix k w)) :
    x ∈ find (stripAttr hash oid ix entry) k w ↔
      x ∈ find ix k w ∧
        ¬ (x = oid.low32 ∧ ∃ value, entry.1 = .attr k value ∧ keyOf w = keyOf value) := by
  cases kind : entry.1 with
  | attr key value =>
      rw [removed key value kind]
      simp only [Assertion.attr.injEq]
      apply Iff.intro
      · intro both
        apply And.intro both.2
        intro hit
        cases hit.2 with
        | intro other facts =>
            apply both.1
            exact ⟨facts.1.1.symm, facts.1.2 ▸ facts.2, hit.1⟩
      · intro both
        apply And.intro _ both.1
        intro hit
        exact both.2 ⟨hit.2.2, value, ⟨hit.1.symm, rfl⟩, hit.2.1⟩
  | tag t => simp [stripAttr, kind]
  | relation p t => simp [stripAttr, kind]

/-- What an index finds without the attributes of the object. -/
theorem mem_strip_attrs (entries : List Entry) (k : TagId) (w : Value) (x : Nat)
    (removed : ∀ ix entry key value, entry.1 = .attr key value →
      (x ∈ find (stripAttr hash oid ix entry) k w ↔
        ¬ (k = key ∧ keyOf w = keyOf value ∧ x = oid.low32) ∧ x ∈ find ix k w)) :
    ∀ ix, x ∈ find (entries.foldl (stripAttr hash oid) ix) k w ↔
      x ∈ find ix k w ∧
        ¬ (x = oid.low32 ∧ ∃ entry ∈ entries, ∃ value,
          entry.1 = .attr k value ∧ keyOf w = keyOf value) := by
  induction entries with
  | nil =>
      intro ix
      simp
  | cons head rest ih =>
      intro ix
      rw [List.foldl_cons, ih, mem_strip_attr hash oid keyOf find ix head k w x (removed ix head)]
      simp only [List.mem_cons, exists_eq_or_imp]
      rw [and_assoc, ← not_or, ← and_or_left]

end Stripping

variable (ix : Indices)

theorem entries_delete (other : ObjectId) :
    (ix.deleteObject hash oid).entriesOf other = if other = oid then [] else ix.entriesOf other := by
  have frame := (strip_attrs_frame hash oid (ix.forward.assertionsOf oid)
    { ix with tag := ix.tag.removeObjectFromAll oid }).1
  simp only [entriesOf, deleteObject]
  rw [frame]
  exact ForwardIndex.assertions_of_remove_object ix.forward oid other

theorem members_delete (other : TagId) (x : Nat) :
    x ∈ (ix.deleteObject hash oid).tag.membersOf other ↔
      x ≠ oid.low32 ∧ x ∈ ix.tag.membersOf other := by
  have frame := (strip_attrs_frame hash oid (ix.forward.assertionsOf oid)
    { ix with tag := ix.tag.removeObjectFromAll oid }).2
  simp only [deleteObject]
  rw [frame]
  exact TagIndex.mem_remove_object_from_all ix.tag other oid x

theorem mem_kv_delete (k : TagId) (w : Value) (x : Nat) :
    x ∈ (ix.deleteObject hash oid).kv.lookup hash k w ↔
      x ∈ ix.kv.lookup hash k w ∧
        ¬ (x = oid.low32 ∧ ∃ entry ∈ ix.entriesOf oid, ∃ value,
          entry.1 = .attr k value ∧ hash w = hash value) := by
  apply mem_strip_attrs hash oid hash (fun ix => ix.kv.lookup hash) (ix.entriesOf oid) k w x
  intro before entry key value kind
  rw [stripAttr, kind]
  exact KvIndex.mem_lookup_remove hash before.kv key k value w oid.low32 x

theorem mem_range_delete (k : TagId) (w : Value) (x : Nat) :
    x ∈ (ix.deleteObject hash oid).range.lookup k w ↔
      x ∈ ix.range.lookup k w ∧
        ¬ (x = oid.low32 ∧ ∃ entry ∈ ix.entriesOf oid, ∃ value,
          entry.1 = .attr k value ∧
            NormalisedKey.fromValue w = NormalisedKey.fromValue value) := by
  apply mem_strip_attrs hash oid NormalisedKey.fromValue (fun ix => ix.range.lookup)
    (ix.entriesOf oid) k w x
  intro before entry key value kind
  rw [stripAttr, kind]
  exact RangeIndex.mem_lookup_remove before.range key k value w oid.low32 x

end Delete

end Mimisbrunnr.Indices
