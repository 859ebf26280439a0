import Mimisbrunnr.Engine.AttributeViews

/-!
# Index operations are local to their object

What the four indices say of one object is its list of assertions and its bit
in every bitmap. An operation on an object changes this for no object with
other low bits, and what it makes of it depends on nothing else. Two index
states can therefore be compared object by object.
-/

namespace Mimisbrunnr.Indices

set_option autoImplicit false

open Mimisbrunnr.Index
open Mimisbrunnr.Lib.Vec
open Mimisbrunnr.Ontology
open Mimisbrunnr.Types

/-- The two index states say the same of the object. -/
structure SameAt (hash : ValueHash) (left right : Indices) (oid : ObjectId) : Prop where
  entries : left.entriesOf oid = right.entriesOf oid
  tags : ∀ t, oid.low32 ∈ left.tag.membersOf t ↔ oid.low32 ∈ right.tag.membersOf t
  kv : ∀ k w, oid.low32 ∈ left.kv.lookup hash k w ↔ oid.low32 ∈ right.kv.lookup hash k w
  range : ∀ k w, oid.low32 ∈ left.range.lookup k w ↔ oid.low32 ∈ right.range.lookup k w

namespace SameAt

variable {hash : ValueHash} {left middle right : Indices} {oid : ObjectId}

end SameAt

/-- The operation touches one object and looks at no other. -/
structure LocalAt (hash : ValueHash) (oid : ObjectId) (operation : Indices → Indices) : Prop where
  congr : ∀ left right, SameAt hash left right oid →
    SameAt hash (operation left) (operation right) oid
  entries_frame : ∀ ix other, other ≠ oid →
    (operation ix).entriesOf other = ix.entriesOf other
  tags_frame : ∀ ix x, x ≠ oid.low32 → ∀ t,
    x ∈ (operation ix).tag.membersOf t ↔ x ∈ ix.tag.membersOf t
  kv_frame : ∀ ix x, x ≠ oid.low32 → ∀ k w,
    x ∈ (operation ix).kv.lookup hash k w ↔ x ∈ ix.kv.lookup hash k w
  range_frame : ∀ ix x, x ≠ oid.low32 → ∀ k w,
    x ∈ (operation ix).range.lookup k w ↔ x ∈ ix.range.lookup k w

theorem LocalAt.frame (hash : ValueHash) (oid other : ObjectId) (operation : Indices → Indices)
    (isLocal : LocalAt hash oid operation) (ix : Indices) (apart : other.low32 ≠ oid.low32) :
    SameAt hash (operation ix) ix other :=
  { entries := isLocal.entries_frame ix other fun same => apart (by rw [same])
    tags := isLocal.tags_frame ix other.low32 apart
    kv := isLocal.kv_frame ix other.low32 apart
    range := isLocal.range_frame ix other.low32 apart }

theorem local_id (hash : ValueHash) (oid : ObjectId) : LocalAt hash oid fun ix => ix :=
  { congr := fun _ _ same => same
    entries_frame := fun _ _ _ => rfl
    tags_frame := fun _ _ _ _ => Iff.rfl
    kv_frame := fun _ _ _ _ _ => Iff.rfl
    range_frame := fun _ _ _ _ _ => Iff.rfl }

private theorem local_comp (hash : ValueHash) (oid : ObjectId) (first second : Indices → Indices)
    (localFirst : LocalAt hash oid first) (localSecond : LocalAt hash oid second) :
    LocalAt hash oid fun ix => second (first ix) :=
  { congr := fun left right same => localSecond.congr _ _ (localFirst.congr left right same)
    entries_frame := fun ix other apart =>
      (localSecond.entries_frame _ other apart).trans (localFirst.entries_frame ix other apart)
    tags_frame := fun ix x apart t =>
      (localSecond.tags_frame _ x apart t).trans (localFirst.tags_frame ix x apart t)
    kv_frame := fun ix x apart k w =>
      (localSecond.kv_frame _ x apart k w).trans (localFirst.kv_frame ix x apart k w)
    range_frame := fun ix x apart k w =>
      (localSecond.range_frame _ x apart k w).trans (localFirst.range_frame ix x apart k w) }

theorem local_foldl {α : Type} (hash : ValueHash) (oid : ObjectId)
    (operation : Indices → α → Indices)
    (each : ∀ a, LocalAt hash oid fun ix => operation ix a) (list : List α) :
    LocalAt hash oid fun ix => list.foldl operation ix := by
  induction list with
  | nil => exact local_id hash oid
  | cons head rest ih =>
      exact local_comp hash oid (fun ix => operation ix head) (fun ix => rest.foldl operation ix)
        (each head) ih

section Tags

variable (hash : ValueHash) (oid : ObjectId)

theorem has_tag_congr (left right : Indices) (t : TagId)
    (same : left.entriesOf oid = right.entriesOf oid) :
    left.forward.hasTag oid t = right.forward.hasTag oid t := by
  unfold entriesOf at same
  unfold ForwardIndex.hasTag
  rw [same]

private theorem local_add_closure_tag (tag closureTag : TagId) :
    LocalAt hash oid fun ix => addClosureTag oid tag ix closureTag := by
  apply LocalAt.mk
  · intro left right same
    have held := has_tag_congr oid left right closureTag same.entries
    apply SameAt.mk
    · rw [entries_add_closure_tag, entries_add_closure_tag, held, same.entries]
    · intro t
      rw [members_add_closure_tag, members_add_closure_tag, same.tags,
        has_tag_congr oid left right t same.entries]
    · intro k w
      rw [(attributes_add_closure_tag oid tag left closureTag).1,
        (attributes_add_closure_tag oid tag right closureTag).1]
      exact same.kv k w
    · intro k w
      rw [(attributes_add_closure_tag oid tag left closureTag).2,
        (attributes_add_closure_tag oid tag right closureTag).2]
      exact same.range k w
  · intro ix other apart
    rw [entries_add_closure_tag]
    simp [apart]
  · intro ix x apart t
    rw [members_add_closure_tag]
    simp [apart]
  · intro ix x _ k w
    rw [(attributes_add_closure_tag oid tag ix closureTag).1]
  · intro ix x _ k w
    rw [(attributes_add_closure_tag oid tag ix closureTag).2]

theorem local_add_tag (ontology : OntologyState) (tag : TagId) :
    LocalAt hash oid fun ix => ix.addTag ontology oid tag :=
  local_foldl hash oid (addClosureTag oid tag) (local_add_closure_tag hash oid tag)
    (ontology.materialise [tag])

private theorem local_drop_tag (tag : TagId) : LocalAt hash oid fun ix => dropTag oid ix tag := by
  apply LocalAt.mk
  · intro left right same
    apply SameAt.mk
    · rw [entries_drop_tag, entries_drop_tag, same.entries]
    · intro t
      rw [members_drop_tag, members_drop_tag, same.tags,
        has_tag_congr oid left right t same.entries]
    · exact same.kv
    · exact same.range
  · intro ix other apart
    rw [entries_drop_tag, if_neg apart]
  · intro ix x apart t
    rw [members_drop_tag]
    simp [apart]
  · intro ix x _ k w
    exact Iff.rfl
  · intro ix x _ k w
    exact Iff.rfl

private theorem tags_with_origin_congr (left right : Indices) (origin : TagOrigin)
    (same : left.entriesOf oid = right.entriesOf oid) :
    left.forward.tagsWithOrigin oid origin = right.forward.tagsWithOrigin oid origin := by
  unfold entriesOf at same
  unfold ForwardIndex.tagsWithOrigin
  rw [same]

private theorem removed_tags_congr (ontology : OntologyState) (left right : Indices) (tag : TagId)
    (same : left.entriesOf oid = right.entriesOf oid) :
    removedTags oid ontology left tag = removedTags oid ontology right tag := by
  have direct : left.wasDirect oid tag = right.wasDirect oid tag := by
    unfold entriesOf at same
    unfold wasDirect
    rw [same]
  have dropped : (left.dropTag oid tag).entriesOf oid = (right.dropTag oid tag).entriesOf oid := by
    rw [entries_drop_tag, entries_drop_tag, same]
  have materialized := tags_with_origin_congr oid _ _ .materialized dropped
  have implied (m : TagId) : (left.dropTag oid tag).stillImplied ontology oid m =
      (right.dropTag oid tag).stillImplied ontology oid m := by
    unfold stillImplied ForwardIndex.directTags
    rw [tags_with_origin_congr oid _ _ .direct dropped]
  unfold removedTags ForwardIndex.materializedTags
  rw [direct, materialized]
  simp only [implied]

theorem local_remove_tag (ontology : OntologyState) (tag : TagId) :
    LocalAt hash oid fun ix => ix.removeTag ontology oid tag := by
  have fixed (tags : List TagId) : LocalAt hash oid fun ix => tags.foldl (dropTag oid) ix :=
    local_foldl hash oid (dropTag oid) (local_drop_tag hash oid) tags
  apply LocalAt.mk
  · intro left right same
    rw [remove_tag_eq, remove_tag_eq, removed_tags_congr oid ontology left right tag same.entries]
    exact (fixed _).congr left right same
  · intro ix other apart
    rw [remove_tag_eq]
    exact (fixed _).entries_frame ix other apart
  · intro ix x apart t
    rw [remove_tag_eq]
    exact (fixed _).tags_frame ix x apart t
  · intro ix x apart k w
    rw [remove_tag_eq]
    exact (fixed _).kv_frame ix x apart k w
  · intro ix x apart k w
    rw [remove_tag_eq]
    exact (fixed _).range_frame ix x apart k w

end Tags

section Attributes

variable (hash : ValueHash) (oid : ObjectId)

theorem local_set_attr (key : TagId) (value : Value) :
    LocalAt hash oid fun ix => ix.setAttr hash oid key value := by
  apply LocalAt.mk
  · intro left right same
    apply SameAt.mk
    · rw [entries_set_attr, entries_set_attr, same.entries]
    · exact same.tags
    · intro k w
      simp only [setAttr, KvIndex.mem_lookup_insert, same.kv]
    · intro k w
      simp only [setAttr, RangeIndex.mem_lookup_insert, same.range]
  · intro ix other apart
    rw [entries_set_attr, if_neg apart]
  · intro ix x _ t
    exact Iff.rfl
  · intro ix x apart k w
    simp [setAttr, KvIndex.mem_lookup_insert, apart]
  · intro ix x apart k w
    simp [setAttr, RangeIndex.mem_lookup_insert, apart]

private theorem selected_value_congr (left right : Indices) (key : TagId) (valueHash : UInt64)
    (same : left.entriesOf oid = right.entriesOf oid) :
    left.selectedValue hash oid key valueHash = right.selectedValue hash oid key valueHash := by
  unfold entriesOf at same
  unfold selectedValue
  rw [same]

theorem local_remove_attr (key : TagId) (valueHash : UInt64) :
    LocalAt hash oid fun ix => ix.removeAttr hash oid key valueHash := by
  apply LocalAt.mk
  · intro left right same
    have selected := selected_value_congr hash oid left right key valueHash same.entries
    apply SameAt.mk
    · rw [entries_remove_attr, entries_remove_attr, selected]
      unfold withoutAttr
      rw [same.entries]
    · intro t
      rw [tag_remove_attr, tag_remove_attr]
      exact same.tags t
    · intro k w
      rw [mem_kv_remove_attr, mem_kv_remove_attr, selected, same.kv]
    · intro k w
      rw [mem_range_remove_attr, mem_range_remove_attr, selected, same.range]
  · intro ix other apart
    exact entries_remove_attr_other hash ix oid key valueHash other apart
  · intro ix x _ t
    rw [tag_remove_attr]
  · intro ix x apart k w
    rw [mem_kv_remove_attr]
    simp [apart]
  · intro ix x apart k w
    rw [mem_range_remove_attr]
    simp [apart]

theorem local_add_relation (predicate : TagId) (target : ObjectId) :
    LocalAt hash oid fun ix => ix.addRelation oid predicate target := by
  apply LocalAt.mk
  · intro left right same
    apply SameAt.mk
    · rw [entries_add_relation, entries_add_relation, same.entries]
    · exact same.tags
    · exact same.kv
    · exact same.range
  · intro ix other apart
    rw [entries_add_relation, if_neg apart]
  · intro ix x _ t
    exact Iff.rfl
  · intro ix x _ k w
    exact Iff.rfl
  · intro ix x _ k w
    exact Iff.rfl

theorem local_remove_relation (predicate : TagId) (target : ObjectId) :
    LocalAt hash oid fun ix => (ix.removeRelation oid predicate target).1 := by
  apply LocalAt.mk
  · intro left right same
    apply SameAt.mk
    · rw [entries_remove_relation, entries_remove_relation, same.entries]
    · exact same.tags
    · exact same.kv
    · exact same.range
  · intro ix other apart
    rw [entries_remove_relation, if_neg apart]
  · intro ix x _ t
    exact Iff.rfl
  · intro ix x _ k w
    exact Iff.rfl
  · intro ix x _ k w
    exact Iff.rfl

end Attributes

section Delete

variable (hash : ValueHash) (oid : ObjectId)

theorem entries_replay_delete (ix : Indices) (other : ObjectId) :
    (ix.replayDeleteObject oid).entriesOf other = if other = oid then [] else ix.entriesOf other :=
  ForwardIndex.assertions_of_remove_object ix.forward oid other

theorem members_replay_delete (ix : Indices) (t : TagId) (x : Nat) :
    x ∈ (ix.replayDeleteObject oid).tag.membersOf t ↔ x ≠ oid.low32 ∧ x ∈ ix.tag.membersOf t :=
  TagIndex.mem_remove_object_from_all ix.tag t oid x

theorem local_replay_delete : LocalAt hash oid fun ix => ix.replayDeleteObject oid := by
  apply LocalAt.mk
  · intro left right same
    apply SameAt.mk
    · rw [entries_replay_delete, entries_replay_delete, if_pos rfl, if_pos rfl]
    · intro t
      rw [members_replay_delete, members_replay_delete, same.tags]
    · exact same.kv
    · exact same.range
  · intro ix other apart
    rw [entries_replay_delete, if_neg apart]
  · intro ix x apart t
    rw [members_replay_delete]
    simp [apart]
  · intro ix x _ k w
    exact Iff.rfl
  · intro ix x _ k w
    exact Iff.rfl

theorem local_delete : LocalAt hash oid fun ix => ix.deleteObject hash oid := by
  apply LocalAt.mk
  · intro left right same
    apply SameAt.mk
    · rw [entries_delete, entries_delete, if_pos rfl, if_pos rfl]
    · intro t
      rw [members_delete, members_delete, same.tags]
    · intro k w
      rw [mem_kv_delete, mem_kv_delete, same.kv, same.entries]
    · intro k w
      rw [mem_range_delete, mem_range_delete, same.range, same.entries]
  · intro ix other apart
    rw [entries_delete, if_neg apart]
  · intro ix x apart t
    rw [members_delete]
    simp [apart]
  · intro ix x apart k w
    rw [mem_kv_delete]
    simp [apart]
  · intro ix x apart k w
    rw [mem_range_delete]
    simp [apart]

end Delete

end Mimisbrunnr.Indices
