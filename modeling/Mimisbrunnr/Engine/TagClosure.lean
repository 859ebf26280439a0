import Mimisbrunnr.Engine.Effects
import Mimisbrunnr.Engine.Mutation

/-!
# Direct tags and their closure

Calls of `add_tag` and `remove_tag` on one object, against the closure of the
tags that were added and not removed since. The two agree as long as no added
tag is already there by implication and no removed tag is implied by another
direct one; at the end are two histories where they part.
-/

namespace Mimisbrunnr

set_option autoImplicit false

open Mimisbrunnr.Index
open Mimisbrunnr.Lib.Digraph
open Mimisbrunnr.Lib.Vec
open Mimisbrunnr.Ontology
open Mimisbrunnr.Types

inductive TagCall where
  | add (tag : TagId)
  | remove (tag : TagId)
deriving DecidableEq, Repr

namespace TagCall

def mutation (oid : ObjectId) : TagCall → Mutation
  | .add tag => .addTag oid tag
  | .remove tag => .removeTag oid tag

def track (wanted : Finset TagId) : TagCall → Finset TagId
  | .add tag => insert tag wanted
  | .remove tag => wanted.erase tag

def history (oid : ObjectId) (calls : List (TagCall × Option Int64)) : List TimedMutation :=
  calls.map fun call => (call.1.mutation oid, call.2)

def wantedAfter (wanted : Finset TagId) (calls : List (TagCall × Option Int64)) : Finset TagId :=
  calls.foldl (fun wanted call => call.1.track wanted) wanted

end TagCall

namespace Indices

/-- The object carries exactly the closure of the wanted tags, these as direct ones. -/
structure CarriesClosure (ontology : OntologyState) (ix : Indices) (oid : ObjectId)
    (wanted : Finset TagId) : Prop where
  distinct : ix.TagsDistinct oid
  direct : ∀ t, (.tag t, .direct) ∈ ix.entriesOf oid ↔ t ∈ wanted
  carried : ∀ t, ix.forward.hasTag oid t = true ↔ ∃ d ∈ wanted, t ∈ ontology.materialise [d]
  reflexive : ∀ d ∈ wanted, d ∈ ontology.materialise [d]

theorem tag_mem_iff (ix : Indices) (oid : ObjectId) (t : TagId) :
    ix.forward.hasTag oid t = true ↔
      (.tag t, .direct) ∈ ix.entriesOf oid ∨ (.tag t, .materialized) ∈ ix.entriesOf oid := by
  rw [ForwardIndex.has_tag_iff]
  apply Iff.intro
  · intro found
    cases found with
    | intro origin member =>
        cases origin with
        | direct => exact Or.inl member
        | materialized => exact Or.inr member
  · intro found
    cases found with
    | inl member => exact ⟨.direct, member⟩
    | inr member => exact ⟨.materialized, member⟩

theorem not_both_origins (ix : Indices) (oid : ObjectId) (t : TagId)
    (distinct : ix.TagsDistinct oid) (direct : (.tag t, .direct) ∈ ix.entriesOf oid) :
    (.tag t, .materialized) ∉ ix.entriesOf oid := by
  intro materialized
  have same := eq_of_same_key entryTag _ t _ _ distinct direct materialized rfl rfl
  cases same

section Calls

variable (ontology : OntologyState) (ix : Indices) (oid : ObjectId) (wanted : Finset TagId)
  (tag : TagId)

/-- A direct tag that is added again changes nothing; a tag that is not there
becomes direct and the rest of its closure is filled up. -/
theorem carries_add (carries : ix.CarriesClosure ontology oid wanted)
    (registered : tag ∈ ontology.materialise [tag])
    (unimplied : (.tag tag, .materialized) ∉ ix.entriesOf oid) :
    (ix.addTag ontology oid tag).CarriesClosure ontology oid (insert tag wanted) := by
  have newEntry (t : TagId) (origin : TagOrigin) :
      (.tag t, origin) ∈ (ix.addTag ontology oid tag).entriesOf oid ↔
        (.tag t, origin) ∈ ix.entriesOf oid ∨
          (t ∈ ontology.materialise [tag] ∧ ix.forward.hasTag oid t = false ∧
            origin = if t = tag then .direct else .materialized) := by
    rw [mem_add_tag]
    simp only [true_and, closureEntry, Prod.mk.injEq, Assertion.tag.injEq]
    apply or_congr Iff.rfl
    apply Iff.intro
    · intro found
      cases found with
      | intro u facts =>
          have same := facts.2.2.1
          subst same
          exact ⟨facts.1, facts.2.1, facts.2.2.2⟩
    · intro added
      exact ⟨t, added.1, added.2.1, rfl, added.2.2⟩
  apply CarriesClosure.mk
  · exact tags_distinct_add_tag oid tag ontology ix oid carries.distinct
  · intro t
    rw [newEntry, carries.direct, Finset.mem_insert]
    apply Iff.intro
    · intro found
      cases found with
      | inl old => exact Or.inr old
      | inr added =>
          by_cases same : t = tag
          · exact Or.inl same
          · rw [if_neg same] at added
            cases added.2.2
    · intro found
      cases found with
      | inr old => exact Or.inl old
      | inl same =>
          subst same
          by_cases already : t ∈ wanted
          · exact Or.inl already
          · apply Or.inr
            have absent : ix.forward.hasTag oid t = false := by
              rw [← Bool.not_eq_true, tag_mem_iff]
              intro present
              cases present with
              | inl direct => exact already ((carries.direct t).mp direct)
              | inr materialized => exact unimplied materialized
            exact ⟨registered, absent, by simp⟩
  · intro t
    have filled : (ix.addTag ontology oid tag).forward.hasTag oid t = true ↔
        ix.forward.hasTag oid t = true ∨ t ∈ ontology.materialise [tag] := by
      rw [ForwardIndex.has_tag_iff]
      apply Iff.intro
      · intro found
        cases found with
        | intro origin member =>
            cases (newEntry t origin).mp member with
            | inl old => exact Or.inl ((ForwardIndex.has_tag_iff _ _ _).mpr ⟨origin, old⟩)
            | inr added => exact Or.inr added.1
      · intro found
        cases present : ix.forward.hasTag oid t with
        | true =>
            have held := (ForwardIndex.has_tag_iff _ _ _).mp present
            cases held with
            | intro origin member => exact ⟨origin, (newEntry t origin).mpr (Or.inl member)⟩
        | false =>
            rw [present] at found
            cases found with
            | inl impossible => cases impossible
            | inr implied => exact ⟨_, (newEntry t _).mpr (Or.inr ⟨implied, present, rfl⟩)⟩
    rw [filled, carries.carried]
    simp only [Finset.mem_insert, exists_eq_or_imp]
    rw [or_comm]
  · intro d member
    cases Finset.mem_insert.mp member with
    | inl same =>
        rw [same]
        exact registered
    | inr old => exact carries.reflexive d old

/-- The sweep after a removal keeps exactly what the remaining direct tags imply. -/
theorem carries_remove (carries : ix.CarriesClosure ontology oid wanted)
    (isDirect : (.tag tag, .direct) ∈ ix.entriesOf oid)
    (unimplied : ∀ d, (.tag d, .direct) ∈ ix.entriesOf oid → d ≠ tag →
      tag ∉ ontology.materialise [d]) :
    (ix.removeTag ontology oid tag).CarriesClosure ontology oid (wanted.erase tag) := by
  have keptEntry (t : TagId) (origin : TagOrigin) :
      (.tag t, origin) ∈ (ix.removeTag ontology oid tag).entriesOf oid ↔
        (.tag t, origin) ∈ ix.entriesOf oid ∧ t ∉ removedTags oid ontology ix tag := by
    rw [mem_remove_tag oid ontology ix tag oid _ carries.distinct]
    simp [entryTag, ForwardIndex.tagOf]
  have directKept (t : TagId) : (.tag t, .direct) ∈ ix.entriesOf oid →
      (t ∉ removedTags oid ontology ix tag ↔ t ≠ tag) := by
    intro direct
    have single := not_both_origins ix oid t carries.distinct direct
    rw [mem_removed_tags oid ontology ix tag t carries.distinct]
    simp [single]
  have materializedKept (t : TagId) : (.tag t, .materialized) ∈ ix.entriesOf oid →
      (t ∉ removedTags oid ontology ix tag ↔
        ∃ d ∈ wanted.erase tag, t ∈ ontology.materialise [d]) := by
    intro materialized
    have differ : t ≠ tag := by
      intro same
      subst same
      exact not_both_origins ix oid t carries.distinct isDirect materialized
    rw [mem_removed_tags oid ontology ix tag t carries.distinct]
    simp only [differ, false_or, isDirect, materialized, true_and, carries.direct,
      Finset.mem_erase]
    push Not
    apply Iff.intro
    · intro found
      cases found with
      | intro d facts => exact ⟨d, ⟨facts.2.1, facts.1⟩, facts.2.2⟩
    · intro found
      cases found with
      | intro d facts => exact ⟨d, facts.1.2, facts.1.1, facts.2⟩
  apply CarriesClosure.mk
  · exact tags_distinct_remove_tag oid ontology ix tag oid carries.distinct
  · intro t
    rw [keptEntry, Finset.mem_erase, ← carries.direct]
    apply Iff.intro
    · intro both
      exact ⟨(directKept t both.1).mp both.2, both.1⟩
    · intro both
      exact ⟨both.2, (directKept t both.2).mpr both.1⟩
  · intro t
    rw [tag_mem_iff, keptEntry, keptEntry]
    apply Iff.intro
    · intro found
      cases found with
      | inl direct =>
          have isWanted := (carries.direct t).mp direct.1
          have differ := (directKept t direct.1).mp direct.2
          exact ⟨t, Finset.mem_erase.mpr ⟨differ, isWanted⟩, carries.reflexive t isWanted⟩
      | inr materialized => exact (materializedKept t materialized.1).mp materialized.2
    · intro found
      have stillImplied := found
      cases found with
      | intro d facts =>
          have remaining := Finset.mem_erase.mp facts.1
          have dDirect := (carries.direct d).mpr remaining.2
          have held := (carries.carried t).mpr ⟨d, remaining.2, facts.2⟩
          cases (tag_mem_iff ix oid t).mp held with
          | inl direct =>
              have differ : t ≠ tag := by
                intro same
                subst same
                exact unimplied d dDirect remaining.1 facts.2
              exact Or.inl ⟨direct, (directKept t direct).mpr differ⟩
          | inr materialized =>
              exact Or.inr ⟨materialized, (materializedKept t materialized).mpr stillImplied⟩
  · intro d member
    exact carries.reflexive d (Finset.mem_erase.mp member).2

end Calls

end Indices

namespace Engine

def RemovesDirect (e : Engine) : Mutation → Prop
  | .removeTag oid tag => tag ∈ e.indices.forward.directTags oid
  | _ => True

/-- An added tag is registered and not there by implication; no other direct tag
implies a removed one. -/
def TagsUnimplied (e : Engine) : Mutation → Prop
  | .addTag oid tag =>
      tag ∈ e.ontology.materialise [tag] ∧ tag ∉ e.indices.forward.materializedTags oid
  | .removeTag oid tag =>
      ∀ d ∈ e.indices.forward.directTags oid, d ≠ tag → tag ∉ e.ontology.materialise [d]
  | _ => True

instance (e : Engine) : (mutation : Mutation) → Decidable (RemovesDirect e mutation)
  | .removeTag oid tag =>
      inferInstanceAs (Decidable (tag ∈ e.indices.forward.directTags oid))
  | .createObject | .deleteObject _ | .addTag _ _ | .setAttr _ _ _ | .removeAttr _ _ _
  | .addRelation _ _ _ | .removeRelation _ _ _ | .writeBlob _ _ => instDecidableTrue

instance (e : Engine) : (mutation : Mutation) → Decidable (TagsUnimplied e mutation)
  | .addTag oid tag =>
      inferInstanceAs
        (Decidable (tag ∈ e.ontology.materialise [tag] ∧
          tag ∉ e.indices.forward.materializedTags oid))
  | .removeTag oid tag =>
      inferInstanceAs
        (Decidable (∀ d ∈ e.indices.forward.directTags oid, d ≠ tag →
          tag ∉ e.ontology.materialise [d]))
  | .createObject | .deleteObject _ | .setAttr _ _ _ | .removeAttr _ _ _
  | .addRelation _ _ _ | .removeRelation _ _ _ | .writeBlob _ _ => instDecidableTrue

private theorem has_record_tag_call (env : Env) (e : Engine) (oid : ObjectId) (call : TagCall)
    (reading : Option Int64) (present : e.hasRecord oid = true) :
    (e.apply env (call.mutation oid) reading).2.hasRecord oid = true := by
  rw [← known_core] at present ⊢
  rw [core_apply]
  cases call with
  | add tag =>
      simp only [TagCall.mutation, Core.step, present, if_true]
      exact present
  | remove tag =>
      simp only [TagCall.mutation, Core.step, present, if_true]
      exact present

/-- One call keeps the object at the closure of its wanted tags. -/
theorem tag_call_carries (env : Env) (e : Engine) (oid : ObjectId) (call : TagCall)
    (reading : Option Int64) (wanted : Finset TagId) (present : e.hasRecord oid = true)
    (carries : e.indices.CarriesClosure e.ontology oid wanted)
    (removes : e.RemovesDirect (call.mutation oid))
    (unimplied : e.TagsUnimplied (call.mutation oid)) :
    (e.apply env (call.mutation oid) reading).2.indices.CarriesClosure e.ontology oid
      (call.track wanted) := by
  have known := present
  rw [← known_core] at known
  rw [indices_apply]
  cases call with
  | add tag =>
      simp only [TagCall.mutation, Core.step, known, if_true]
      apply Indices.carries_add _ _ _ _ _ carries unimplied.1
      intro materialized
      exact unimplied.2 ((ForwardIndex.mem_tags_with_origin _ _ _ _).mpr materialized)
  | remove tag =>
      simp only [TagCall.mutation, Core.step, known, if_true]
      apply Indices.carries_remove _ _ _ _ _ carries
      · exact (ForwardIndex.mem_tags_with_origin _ _ _ _).mp removes
      · intro d direct
        exact unimplied d ((ForwardIndex.mem_tags_with_origin _ _ _ _).mpr direct)

private theorem tag_calls_carry (env : Env) (oid : ObjectId)
    (calls : List (TagCall × Option Int64)) :
    ∀ (e : Engine) (wanted : Finset TagId), e.hasRecord oid = true →
      e.indices.CarriesClosure e.ontology oid wanted →
      Along env RemovesDirect e (TagCall.history oid calls) →
      Along env TagsUnimplied e (TagCall.history oid calls) →
      (e.after env (TagCall.history oid calls)).indices.CarriesClosure e.ontology oid
        (TagCall.wantedAfter wanted calls) := by
  induction calls with
  | nil =>
      intro e wanted _ carries _ _
      exact carries
  | cons first rest ih =>
      intro e wanted present carries removes unimplied
      have next := tag_call_carries env e oid first.1 first.2 wanted present carries removes.1
        unimplied.1
      have sameOntology := ontology_apply env e (first.1.mutation oid) first.2
      have later := ih (e.apply env (first.1.mutation oid) first.2).2 (first.1.track wanted)
        (has_record_tag_call env e oid first.1 first.2 present)
      rw [sameOntology] at later
      exact later next removes.2 unimplied.2

/-- After calls that remove direct tags and meet no implied one, the object
carries the closure of the tags added and not removed since, and these are its
direct tags. -/
theorem tags_are_closure_of_direct (env : Env) (e : Engine) (oid : ObjectId)
    (calls : List (TagCall × Option Int64)) (present : e.hasRecord oid = true)
    (untagged : ∀ t, e.indices.forward.hasTag oid t = false)
    (removes : Along env RemovesDirect e (TagCall.history oid calls))
    (unimplied : Along env TagsUnimplied e (TagCall.history oid calls)) :
    (∀ t, (e.after env (TagCall.history oid calls)).indices.forward.hasTag oid t = true ↔
        ∃ d ∈ TagCall.wantedAfter ∅ calls, t ∈ e.ontology.materialise [d]) ∧
      ∀ t, t ∈ (e.after env (TagCall.history oid calls)).indices.forward.directTags oid ↔
        t ∈ TagCall.wantedAfter ∅ calls := by
  have noTag (t : TagId) (origin : TagOrigin) : (.tag t, origin) ∉ e.indices.entriesOf oid := by
    intro member
    have held := (ForwardIndex.has_tag_iff _ _ _).mpr ⟨origin, member⟩
    rw [untagged] at held
    cases held
  have start : e.indices.CarriesClosure e.ontology oid ∅ := by
    apply Indices.CarriesClosure.mk
    · have none : (e.indices.entriesOf oid).filterMap Indices.entryTag = [] := by
        rw [List.filterMap_eq_nil_iff]
        intro entry member
        cases tagged : Indices.entryTag entry with
        | none => rfl
        | some t =>
            have held := (Indices.has_tag_entries _ _ _).mpr ⟨entry, member, tagged⟩
            rw [untagged] at held
            cases held
      unfold Indices.TagsDistinct
      rw [none]
      exact List.nodup_nil
    · intro t
      simp [noTag t .direct]
    · intro t
      simp [untagged t]
    · intro d member
      simp at member
  have carries := tag_calls_carry env oid calls e ∅ present start removes unimplied
  apply And.intro carries.carried
  intro t
  rw [ForwardIndex.directTags, ForwardIndex.mem_tags_with_origin]
  exact carries.direct t

/-- Three tags: `photo` (3) implies `media` (2), which implies `file` (1), and
one object without tags. -/
def photoShelf : Engine :=
  let label (name : String) : TagDefinition :=
    { id := 0, name := name, semantics := .label, implies := [], storage := none }
  let bundle : OntologyModule :=
    { id := "shelf", version := "1", name := "shelf"
      tags := [label "file", label "media", label "photo"]
      implications := [("media", "file"), ("photo", "media")]
      relations := [] }
  ((Engine.new 1).installOntologyModule Env.sample bundle).2.createObject none |>.2

/-- `media` is added, then `photo`, and `photo` is removed again. -/
def photoComesAndGoes : List (TagCall × Option Int64) :=
  [(.add 2, none), (.add 3, none), (.remove 3, none)]

theorem tags_are_closure_of_media :
    (∀ t, (photoShelf.after Env.sample
          (TagCall.history firstObject photoComesAndGoes)).indices.forward.hasTag firstObject t =
            true ↔
        ∃ d ∈ TagCall.wantedAfter ∅ photoComesAndGoes, t ∈ photoShelf.ontology.materialise [d]) ∧
      ∀ t, t ∈ (photoShelf.after Env.sample
          (TagCall.history firstObject photoComesAndGoes)).indices.forward.directTags firstObject ↔
        t ∈ TagCall.wantedAfter ∅ photoComesAndGoes := by
  apply tags_are_closure_of_direct Env.sample photoShelf firstObject
  · decide +kernel
  · intro t
    have empty : photoShelf.indices.forward.assertionsOf firstObject = [] := by decide +kernel
    simp [ForwardIndex.hasTag, empty]
  · decide +kernel
  · decide +kernel

/-- `media` is added after `photo` and stays materialized. In the second history
`media` is removed while `photo` still implies it, and the object loses it. -/
theorem implied_tags_break_closure :
    ¬ (2 ∈ (photoShelf.after Env.sample (TagCall.history firstObject
          [(.add 3, none), (.add 2, none)])).indices.forward.directTags firstObject ↔
        2 ∈ TagCall.wantedAfter ∅ [(.add 3, none), (.add 2, none)]) ∧
      Along Env.sample RemovesDirect photoShelf (TagCall.history firstObject
        [(.add 2, none), (.add 3, none), (.remove 2, none)]) ∧
      ¬ ((photoShelf.after Env.sample (TagCall.history firstObject
          [(.add 2, none), (.add 3, none), (.remove 2, none)])).indices.forward.hasTag
            firstObject 2 = true ↔
        ∃ d ∈ TagCall.wantedAfter ∅ [(.add 2, none), (.add 3, none), (.remove 2, none)],
          2 ∈ photoShelf.ontology.materialise [d]) := by
  decide +kernel

end Engine

end Mimisbrunnr
