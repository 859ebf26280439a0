import Mimisbrunnr.Engine.Agreement
import Mimisbrunnr.Engine.TagClosure
import Mimisbrunnr.Lib.Support
import Mimisbrunnr.Ontology.PolicyResolution

/-!
# The tags of one object as held elements

An object holds tags, some of them directly. In a state where every held tag is
supported by a direct one, `add_tag`, `remove_tag` and the deletion are the
operations of the library on what the object holds.
-/

namespace Mimisbrunnr.Indices

set_option autoImplicit false

open Mimisbrunnr.Index
open Mimisbrunnr.Lib.Support
open Mimisbrunnr.Lib.Vec
open Mimisbrunnr.Ontology
open Mimisbrunnr.Types

private theorem filter_remove_first_perm {α : Type} (p q : α → Bool) (xs : List α)
    (apart : ∀ x, p x = true → q x = false) :
    ((removeFirst p xs).filter q).Perm (xs.filter q) := by
  cases found : xs.find? p with
  | none => rw [remove_first_none p xs found]
  | some x =>
      have whole := (cons_remove_first_perm p xs x found).filter q
      rw [List.filter_cons_of_neg (by simp [apart x (List.find?_some found)])] at whole
      exact whole

def holding (ix : Indices) (oid : ObjectId) : Holding TagId :=
  { direct := {t | (.tag t, .direct) ∈ ix.entriesOf oid}
    held := {t | ix.forward.hasTag oid t = true} }

def untagged (ix : Indices) (oid : ObjectId) : List Entry :=
  (ix.entriesOf oid).filter fun entry => (entryTag entry).isNone

def Implies (ontology : OntologyState) (tag t : TagId) : Prop := t ∈ ontology.materialise [tag]

theorem implies_closed (ontology : OntologyState) (valid : ontology.dag.Valid) :
    Closed (Implies ontology) := by
  have inside (tag t : TagId) : Implies ontology tag t ↔
      ontology.dag.IsNode tag ∧ ontology.dag.Reaches tag t := by
    rw [Implies, ontology.mem_materialise valid]
    constructor
    · intro found
      obtain ⟨direct, member, node, path⟩ := found
      rw [List.mem_singleton.mp member] at node path
      exact ⟨node, path⟩
    · intro both
      exact ⟨tag, List.mem_singleton.mpr rfl, both⟩
  constructor
  · intro a x leads
    rw [inside] at leads ⊢
    exact ⟨leads.1, Relation.ReflTransGen.refl⟩
  · intro a x y first second
    rw [inside] at first second ⊢
    exact ⟨first.1, first.2.trans second.2⟩

/-- The object as a saved state has it: every tag once, a direct one behind every implied one, and
its bits of the tag index as its list says. -/
structure TagsSettled (ontology : OntologyState) (ix : Indices) (oid : ObjectId) : Prop where
  distinct : ix.TagsDistinct oid
  implied : ∀ t, (.tag t, .materialized) ∈ ix.entriesOf oid →
    ∃ d, (.tag d, .direct) ∈ ix.entriesOf oid ∧ t ∈ ontology.materialise [d]
  agree : ∀ t, oid.low32 ∈ ix.tag.membersOf t ↔ ix.forward.hasTag oid t = true

section

variable (ontology : OntologyState) (ix : Indices) (oid : ObjectId)

theorem settled_holding (settled : ix.TagsSettled ontology oid) :
    Settled (Implies ontology) (ix.holding oid) := by
  constructor
  · intro t direct
    exact (tag_mem_iff ix oid t).mpr (Or.inl direct)
  · intro t held
    cases (tag_mem_iff ix oid t).mp held with
    | inl direct => exact ⟨t, direct, Or.inl rfl⟩
    | inr materialized =>
        obtain ⟨d, direct, leads⟩ := settled.implied t materialized
        exact ⟨d, direct, Or.inr leads⟩

theorem materialized_iff (distinct : ix.TagsDistinct oid) (t : TagId) :
    (.tag t, .materialized) ∈ ix.entriesOf oid ↔
      t ∈ (ix.holding oid).held ∧ t ∉ (ix.holding oid).direct := by
  constructor
  · intro member
    exact ⟨(tag_mem_iff ix oid t).mpr (Or.inr member),
      fun direct => not_both_origins ix oid t distinct direct member⟩
  · intro both
    exact ((tag_mem_iff ix oid t).mp both.1).resolve_left both.2

theorem settled_of_holding (distinct : ix.TagsDistinct oid)
    (supported : Settled (Implies ontology) (ix.holding oid))
    (agree : ∀ t, oid.low32 ∈ ix.tag.membersOf t ↔ ix.forward.hasTag oid t = true) :
    ix.TagsSettled ontology oid := by
  refine ⟨distinct, ?_, agree⟩
  intro t materialized
  have both := (materialized_iff ix oid distinct t).mp materialized
  obtain ⟨d, direct, leads⟩ := supported.supported t both.1
  cases leads with
  | inl same => exact absurd (same ▸ direct) both.2
  | inr leads => exact ⟨d, direct, leads⟩

theorem holding_add_tag (tag : TagId) :
    (ix.addTag ontology oid tag).holding oid =
      step (Implies ontology) (ix.holding oid) (.add tag) := by
  rw [step, holding, Holding.mk.injEq]
  constructor
  · ext t
    rw [Set.mem_ofPred_eq, mem_add_tag]
    apply or_congr Iff.rfl
    constructor
    · intro added
      obtain ⟨-, u, leads, absent, shape⟩ := added
      rw [closureEntry, Prod.mk.injEq] at shape
      obtain ⟨same, origin⟩ := shape
      cases same
      by_cases self : t = tag
      · refine ⟨self, self ▸ leads, ?_⟩
        intro held
        have present : ix.forward.hasTag oid tag = true := held
        rw [← self, absent] at present
        cases present
      · rw [if_neg self] at origin
        cases origin
    · intro added
      obtain ⟨same, self, absent⟩ := added
      rw [same]
      refine ⟨rfl, tag, self, Bool.eq_false_iff.mpr absent, ?_⟩
      rw [closureEntry, if_pos rfl]
  · ext t
    rw [Set.mem_ofPred_eq, has_tag_add_tag]
    constructor
    · intro found
      exact found.imp id fun added => added.2.1
    · intro found
      cases present : ix.forward.hasTag oid t with
      | true => exact Or.inl rfl
      | false =>
          cases found with
          | inl held => exact absurd held (Bool.eq_false_iff.mp present)
          | inr leads => exact Or.inr ⟨rfl, leads, rfl⟩

theorem holding_remove_tag (tag : TagId) (settled : ix.TagsSettled ontology oid) :
    (ix.removeTag ontology oid tag).holding oid =
      step (Implies ontology) (ix.holding oid) (.remove tag) := by
  have removed := fun t => mem_removed_tags oid ontology ix tag t settled.distinct
  have single (t : TagId) := not_both_origins ix oid t settled.distinct
  rw [step, holding, Holding.mk.injEq]
  constructor
  · ext t
    rw [Set.mem_ofPred_eq, mem_remove_tag oid ontology ix tag oid _ settled.distinct]
    apply and_congr_right
    intro direct
    have kept : t ∉ removedTags oid ontology ix tag ↔ t ≠ tag := by
      rw [removed]
      simp [single t direct]
    rw [← kept]
    simp [entryTag, ForwardIndex.tagOf]
  · ext t
    rw [Set.mem_ofPred_eq, has_tag_remove_tag ontology ix oid oid tag t settled.distinct]
    apply and_congr_right
    intro held
    rw [removed]
    constructor
    · intro stays
      have other : t ≠ tag := fun same => stays ⟨rfl, Or.inl same⟩
      refine ⟨other, ?_⟩
      cases (tag_mem_iff ix oid t).mp held with
      | inl direct => exact ⟨t, ⟨direct, other⟩, Or.inl rfl⟩
      | inr materialized =>
          by_cases isDirect : (.tag tag, .direct) ∈ ix.entriesOf oid
          · by_contra bare
            apply stays
            refine ⟨rfl, Or.inr ⟨isDirect, materialized, ?_⟩⟩
            intro d direct differ leads
            exact bare ⟨d, ⟨direct, differ⟩, Or.inr leads⟩
          · obtain ⟨d, direct, leads⟩ := settled.implied t materialized
            exact ⟨d, ⟨direct, fun same => isDirect (same ▸ direct)⟩, Or.inr leads⟩
    · intro both gone
      obtain ⟨other, d, ⟨direct, differ⟩, supports⟩ := both
      cases gone.2 with
      | inl same => exact other same
      | inr swept =>
          obtain ⟨-, materialized, bare⟩ := swept
          cases supports with
          | inl same => exact single t (same ▸ direct) materialized
          | inr leads => exact bare d direct differ leads

theorem settled_add_tag (valid : ontology.dag.Valid) (tag : TagId)
    (settled : ix.TagsSettled ontology oid) :
    (ix.addTag ontology oid tag).TagsSettled ontology oid := by
  apply settled_of_holding
  · exact tags_distinct_add_tag oid tag ontology ix oid settled.distinct
  · rw [holding_add_tag]
    exact settled_step (implies_closed ontology valid) _ _ (settled_holding ontology ix oid settled)
  · intro t
    rw [members_add_tag, has_tag_add_tag, settled.agree]
    simp only [true_and]

theorem settled_remove_tag (valid : ontology.dag.Valid) (tag : TagId)
    (settled : ix.TagsSettled ontology oid) :
    (ix.removeTag ontology oid tag).TagsSettled ontology oid := by
  apply settled_of_holding
  · exact tags_distinct_remove_tag oid ontology ix tag oid settled.distinct
  · rw [holding_remove_tag ontology ix oid tag settled]
    exact settled_step (implies_closed ontology valid) _ _ (settled_holding ontology ix oid settled)
  · intro t
    rw [members_remove_tag oid ontology ix tag t _ settled.distinct,
      has_tag_remove_tag ontology ix oid oid tag t settled.distinct, settled.agree]
    tauto

theorem settled_cleared (bare : ix.entriesOf oid = [])
    (unlisted : ∀ t, oid.low32 ∉ ix.tag.membersOf t) :
    ix.TagsSettled ontology oid ∧
      ix.holding oid = step (Implies ontology) (ix.holding oid) .clear := by
  have absent (t : TagId) : ¬ ix.forward.hasTag oid t = true := by
    rw [has_tag_entries, bare]
    simp
  constructor
  · refine ⟨?_, ?_, fun t => ⟨fun listed => absurd listed (unlisted t), fun held =>
      absurd held (absent t)⟩⟩
    · rw [TagsDistinct, bare]
      exact List.nodup_nil
    · intro t member
      rw [bare] at member
      cases member
  · rw [step, holding, Holding.mk.injEq, bare]
    constructor
    · simp
    · ext t
      simpa using absent t

/-- The tags of the object are the same, and so are its bits of the tag index. -/
theorem settled_same (after : Indices) (distinct : after.TagsDistinct oid)
    (entries : ∀ entry t, entryTag entry = some t →
      (entry ∈ after.entriesOf oid ↔ entry ∈ ix.entriesOf oid))
    (members : ∀ t, oid.low32 ∈ after.tag.membersOf t ↔ oid.low32 ∈ ix.tag.membersOf t)
    (settled : ix.TagsSettled ontology oid) :
    after.TagsSettled ontology oid ∧ after.holding oid = ix.holding oid := by
  have tagged (t : TagId) (origin : TagOrigin) :
      (.tag t, origin) ∈ after.entriesOf oid ↔ (.tag t, origin) ∈ ix.entriesOf oid :=
    entries _ t rfl
  have held (t : TagId) : after.forward.hasTag oid t = true ↔ ix.forward.hasTag oid t = true := by
    rw [tag_mem_iff, tag_mem_iff, tagged, tagged]
  constructor
  · refine ⟨distinct, ?_, fun t => (members t).trans ((settled.agree t).trans (held t).symm)⟩
    intro t materialized
    obtain ⟨d, direct, leads⟩ := settled.implied t ((tagged t _).mp materialized)
    exact ⟨d, (tagged d _).mpr direct, leads⟩
  · rw [holding, holding, Holding.mk.injEq]
    exact ⟨Set.ext fun t => tagged t _, Set.ext held⟩

/-- What an object holds and its other assertions make up its list, up to the order. -/
theorem perm_of_holding (other : Indices) (distinct : ix.TagsDistinct oid)
    (distinct' : other.TagsDistinct oid) (holding : ix.holding oid = other.holding oid)
    (untagged : (ix.untagged oid).Perm (other.untagged oid)) :
    (ix.entriesOf oid).Perm (other.entriesOf oid) := by
  have once (list : List Entry) (nodup : (list.filterMap entryTag).Nodup) :
      (list.filter fun entry => !(entryTag entry).isNone).Nodup := by
    induction list with
    | nil => exact List.nodup_nil
    | cons head rest ih =>
        cases tagged : entryTag head with
        | none =>
            rw [List.filterMap_cons_none tagged] at nodup
            rw [List.filter_cons_of_neg (by simp [tagged])]
            exact ih nodup
        | some t =>
            rw [List.filterMap_cons_some tagged, List.nodup_cons] at nodup
            rw [List.filter_cons_of_pos (by simp [tagged]), List.nodup_cons]
            refine ⟨fun member => nodup.1 ?_, ih nodup.2⟩
            exact List.mem_filterMap.mpr ⟨head, (List.mem_filter.mp member).1, tagged⟩
  have same (entry : Entry) (t : TagId) (tagged : entryTag entry = some t) :
      entry ∈ ix.entriesOf oid ↔ entry ∈ other.entriesOf oid := by
    have shape : entry = (.tag t, entry.2) := Prod.ext ((entry_tag_eq_some entry t).mp tagged) rfl
    rw [shape]
    cases entry.2 with
    | direct => exact iff_of_eq (congrArg (t ∈ ·.direct) holding)
    | materialized =>
        rw [materialized_iff ix oid distinct, materialized_iff other oid distinct', holding]
  have parts (list : List Entry) := List.filter_append_perm (fun entry => (entryTag entry).isNone) list
  refine (parts _).symm.trans ((untagged.append ?_).trans (parts _))
  apply (List.perm_ext_iff_of_nodup (once _ distinct) (once _ distinct')).mpr
  intro entry
  rw [List.mem_filter, List.mem_filter]
  apply and_congr_left
  intro isTag
  cases tagged : entryTag entry with
  | none => simp [tagged] at isTag
  | some t => exact same entry t tagged

end

section

variable (ontology : OntologyState) (ix : Indices) (oid other : ObjectId)

theorem untagged_add_tag (tag : TagId) :
    (ix.addTag ontology oid tag).untagged other = ix.untagged other := by
  apply add_closure_keeps oid tag (fun after => after.untagged other = ix.untagged other) _ _ _ rfl
  intro after closureTag kept
  rw [← kept, untagged, untagged, entries_add_closure_tag]
  split
  · next taken =>
      rw [taken.1, List.filter_append]
      exact List.append_nil _
  · rfl

theorem untagged_remove_tag (tag : TagId) :
    ((ix.removeTag ontology oid tag).untagged other).Perm (ix.untagged other) := by
  rw [remove_tag_eq]
  generalize removedTags oid ontology ix tag = tags
  induction tags generalizing ix with
  | nil => exact List.Perm.refl _
  | cons head rest ih =>
      apply (ih (dropTag oid ix head)).trans
      rw [untagged, untagged, entries_drop_tag]
      split
      · next same =>
          rw [same]
          apply filter_remove_first_perm
          intro entry tagged
          rw [(matches_tag_iff head entry).mp tagged]
          rfl
      · exact List.Perm.refl _

end

end Mimisbrunnr.Indices
