import Mimisbrunnr.Engine.Effects
import Mimisbrunnr.Engine.Mutation

/-!
# Agreement of the inverted indices with the forward index

The bitmaps store the low 32 bits of an object identifier, so they can tell the
objects of one node apart as long as its local sequence numbers stay below
2^32. For these objects the tag index agrees with the forward index after every
run. The attribute index agrees as long as every removal of an attribute takes
the one entry that carries the value; the list keeps duplicates and compares
floating-point values by their own rules, the index does neither.
-/

namespace Mimisbrunnr

set_option autoImplicit false

open Mimisbrunnr.Index
open Mimisbrunnr.Lib.Vec
open Mimisbrunnr.Ontology
open Mimisbrunnr.Types

def OfNode (node : UInt16) (oid : ObjectId) : Prop :=
  ∃ n, n < 2 ^ 32 ∧ oid = ObjectId.fromParts node n

theorem low32_eq_iff (node : UInt16) (left right : ObjectId) (ofLeft : OfNode node left)
    (ofRight : OfNode node right) : left.low32 = right.low32 ↔ left = right := by
  apply Iff.intro
  · intro same
    cases ofLeft with
    | intro m leftFacts =>
        cases ofRight with
        | intro n rightFacts =>
            rw [leftFacts.2, rightFacts.2, ObjectId.low32_from_parts node m leftFacts.1,
              ObjectId.low32_from_parts node n rightFacts.1] at same
            rw [leftFacts.2, rightFacts.2, same]
  · intro same
    rw [same]

namespace Indices

/-- The tag index and the forward index name the same tags for the objects of the node. -/
structure TagsAgree (node : UInt16) (ix : Indices) : Prop where
  distinct : ∀ oid, ix.TagsDistinct oid
  agree : ∀ oid, OfNode node oid → ∀ t,
    oid.low32 ∈ ix.tag.membersOf t ↔ ix.forward.hasTag oid t = true

theorem tags_agree_new (node : UInt16) : Indices.new.TagsAgree node := by
  apply TagsAgree.mk
  · intro oid
    have none : Indices.new.entriesOf oid = [] := ForwardIndex.assertions_of_new oid
    unfold TagsDistinct
    rw [none]
    exact List.nodup_nil
  · intro oid _ t
    simp [Indices.new, ForwardIndex.hasTag]

theorem has_tag_add_tag (ontology : OntologyState) (ix : Indices) (oid other : ObjectId)
    (tag t : TagId) :
    (ix.addTag ontology oid tag).forward.hasTag other t = true ↔
      ix.forward.hasTag other t = true ∨
        (other = oid ∧ t ∈ ontology.materialise [tag] ∧ ix.forward.hasTag oid t = false) := by
  rw [ForwardIndex.has_tag_iff, ForwardIndex.has_tag_iff]
  apply Iff.intro
  · intro found
    cases found with
    | intro origin member =>
        cases (mem_add_tag oid tag ontology ix other _).mp member with
        | inl old => exact Or.inl ⟨origin, old⟩
        | inr added =>
            cases added.2 with
            | intro u facts =>
                have same : t = u := by
                  have shape := congrArg Prod.fst facts.2.2
                  exact Assertion.tag.inj shape
                subst same
                exact Or.inr ⟨added.1, facts.1, facts.2.1⟩
  · intro found
    cases found with
    | inl old =>
        cases old with
        | intro origin member =>
            exact ⟨origin, (mem_add_tag oid tag ontology ix other _).mpr (Or.inl member)⟩
    | inr added =>
        exact ⟨_, (mem_add_tag oid tag ontology ix other _).mpr
          (Or.inr ⟨added.1, t, added.2.1, added.2.2, rfl⟩)⟩

theorem has_tag_remove_tag (ontology : OntologyState) (ix : Indices) (oid other : ObjectId)
    (tag t : TagId) (distinct : ix.TagsDistinct oid) :
    (ix.removeTag ontology oid tag).forward.hasTag other t = true ↔
      ix.forward.hasTag other t = true ∧
        ¬ (other = oid ∧ t ∈ removedTags oid ontology ix tag) := by
  have kept (origin : TagOrigin) :
      (.tag t, origin) ∈ (ix.removeTag ontology oid tag).entriesOf other ↔
        (.tag t, origin) ∈ ix.entriesOf other ∧
          ¬ (other = oid ∧ t ∈ removedTags oid ontology ix tag) := by
    rw [mem_remove_tag oid ontology ix tag other _ distinct]
    simp [entryTag, ForwardIndex.tagOf]
  rw [ForwardIndex.has_tag_iff, ForwardIndex.has_tag_iff]
  apply Iff.intro
  · intro found
    cases found with
    | intro origin member =>
        have both := (kept origin).mp member
        exact ⟨⟨origin, both.1⟩, both.2⟩
  · intro both
    cases both.1 with
    | intro origin member => exact ⟨origin, (kept origin).mpr ⟨member, both.2⟩⟩

section TagSteps

variable (node : UInt16) (ix : Indices) (oid : ObjectId) (ofNode : OfNode node oid)
include ofNode

private theorem tags_agree_add_tag (ontology : OntologyState) (tag : TagId)
    (agrees : ix.TagsAgree node) :
    (ix.addTag ontology oid tag).TagsAgree node := by
  apply TagsAgree.mk
  · intro other
    exact tags_distinct_add_tag oid tag ontology ix other (agrees.distinct other)
  · intro other otherOfNode t
    rw [members_add_tag, has_tag_add_tag, agrees.agree other otherOfNode t,
      low32_eq_iff node other oid otherOfNode ofNode]

private theorem tags_agree_remove_tag (ontology : OntologyState) (tag : TagId)
    (agrees : ix.TagsAgree node) : (ix.removeTag ontology oid tag).TagsAgree node := by
  apply TagsAgree.mk
  · intro other
    exact tags_distinct_remove_tag oid ontology ix tag other (agrees.distinct other)
  · intro other otherOfNode t
    rw [members_remove_tag oid ontology ix tag t _ (agrees.distinct oid),
      has_tag_remove_tag ontology ix oid other tag t (agrees.distinct oid),
      agrees.agree other otherOfNode t, low32_eq_iff node other oid otherOfNode ofNode]
    by_cases same : other = oid
    · subst same
      tauto
    · simp [same]

private theorem tags_agree_delete (hash : ValueHash) (agrees : ix.TagsAgree node) :
    (ix.deleteObject hash oid).TagsAgree node := by
  have held (other : ObjectId) (t : TagId) :
      (ix.deleteObject hash oid).forward.hasTag other t = true ↔
        other ≠ oid ∧ ix.forward.hasTag other t = true := by
    rw [has_tag_entries, has_tag_entries, entries_delete]
    by_cases same : other = oid
    · simp [same]
    · simp [same]
  apply TagsAgree.mk
  · intro other
    unfold TagsDistinct
    rw [entries_delete]
    split
    · exact List.nodup_nil
    · exact agrees.distinct other
  · intro other otherOfNode t
    rw [members_delete, held, agrees.agree other otherOfNode t]
    have same := low32_eq_iff node other oid otherOfNode ofNode
    rw [Ne, same]

end TagSteps

theorem tags_agree_frame (node : UInt16) (ix after : Indices) (agrees : ix.TagsAgree node)
    (sameTag : after.tag = ix.tag) (distinct : ∀ oid, after.TagsDistinct oid)
    (sameEntries : ∀ oid entry t, entryTag entry = some t →
      (entry ∈ after.entriesOf oid ↔ entry ∈ ix.entriesOf oid)) : after.TagsAgree node := by
  apply TagsAgree.mk distinct
  intro oid ofNode t
  have held : after.forward.hasTag oid t = true ↔ ix.forward.hasTag oid t = true := by
    rw [has_tag_entries, has_tag_entries]
    apply Iff.intro
    · intro found
      cases found with
      | intro entry facts =>
          exact ⟨entry, (sameEntries oid entry t facts.2).mp facts.1, facts.2⟩
    · intro found
      cases found with
      | intro entry facts =>
          exact ⟨entry, (sameEntries oid entry t facts.2).mpr facts.1, facts.2⟩
  rw [sameTag, held]
  exact agrees.agree oid ofNode t

end Indices

namespace Core

/-- The local sequence number of a new object fits the bitmaps. -/
def MintsBelow (c : Core) : Mutation → Prop
  | .createObject => c.nextOidLocal < 2 ^ 32
  | _ => True

instance (c : Core) : (mutation : Mutation) → Decidable (c.MintsBelow mutation)
  | .createObject => inferInstanceAs (Decidable (c.nextOidLocal < 2 ^ 32))
  | .deleteObject _ | .addTag _ _ | .removeTag _ _ | .setAttr _ _ _ | .removeAttr _ _ _
  | .addRelation _ _ _ | .removeRelation _ _ _ | .writeBlob _ _ => instDecidableTrue

/-- Every record belongs to an object the node has minted. -/
structure Minted (s : Setting) (c : Core) : Prop where
  bound : c.nextOidLocal ≤ 2 ^ 32
  below : ∀ oid, c.known oid = true →
    ∃ n, n < c.nextOidLocal ∧ oid = ObjectId.fromParts s.nodeId n

theorem Minted.ofNode (s : Setting) (c : Core) (minted : c.Minted s) (oid : ObjectId)
    (known : c.known oid = true) : OfNode s.nodeId oid := by
  cases minted.below oid known with
  | intro n facts => exact ⟨n, lt_of_lt_of_le facts.1 minted.bound, facts.2⟩

private theorem known_set_state (c : Core) (oid other : ObjectId) (state : ObjectState) :
    (c.setState oid state other.toU64).isSome = true ↔ other = oid ∨ c.known other = true := by
  unfold setState known
  rw [Function.update_apply]
  split
  · next same => simp [ForwardIndex.to_u64_injective other oid same]
  · next apart =>
      have differ : other ≠ oid := fun same => apart (by rw [same])
      simp [differ]

theorem known_step (s : Setting) (c : Core) (mutation : Mutation) (oid : ObjectId) :
    (c.step s mutation).known oid = true ↔
      c.known oid = true ∨ (mutation = .createObject ∧ oid = c.minted s) := by
  rcases c.step_states s mutation with rfl | ⟨target, rfl⟩ | ⟨other, -, states, -⟩
  · have stated := known_set_state c (c.minted s) oid .active
    simp only [step, true_and]
    rw [or_comm]
    exact stated
  · simp only [step, reduceCtorEq, false_and, or_false]
    cases present : c.known target with
    | false => simp
    | true =>
        have stated := known_set_state c target oid .tombstoned
        simp only [if_true]
        apply stated.trans
        apply Iff.intro
        · intro found
          cases found with
          | inl same =>
              rw [same]
              exact present
          | inr known => exact known
        · exact Or.inr
  · rw [known, known, states]
    simp only [other, false_and, or_false]

private theorem next_step (s : Setting) (c : Core) (mutation : Mutation) :
    (c.step s mutation).nextOidLocal =
      if mutation = .createObject then Engine.saturatingSucc c.nextOidLocal
      else c.nextOidLocal := by
  rcases c.step_states s mutation with rfl | ⟨target, rfl⟩ | ⟨other, -, -, next⟩
  · rfl
  · simp only [step, reduceCtorEq, if_false]
    split <;> rfl
  · rw [if_neg other, next]

theorem minted_step (s : Setting) (c : Core) (mutation : Mutation) (minted : c.Minted s)
    (small : c.MintsBelow mutation) : (c.step s mutation).Minted s := by
  have grows : c.nextOidLocal ≤ (c.step s mutation).nextOidLocal ∧
      (c.step s mutation).nextOidLocal ≤ 2 ^ 32 ∧
      (mutation = .createObject → c.nextOidLocal < (c.step s mutation).nextOidLocal) := by
    have bound := minted.bound
    rw [next_step]
    split
    · next isCreate =>
        subst isCreate
        have below : c.nextOidLocal < 2 ^ 32 := small
        unfold Engine.saturatingSucc
        omega
    · next other => exact ⟨le_refl _, bound, fun isCreate => absurd isCreate other⟩
  apply Minted.mk grows.2.1
  intro oid known
  cases (known_step s c mutation oid).mp known with
  | inl old =>
      cases minted.below oid old with
      | intro n facts => exact ⟨n, lt_of_lt_of_le facts.1 grows.1, facts.2⟩
  | inr created => exact ⟨c.nextOidLocal, grows.2.2 created.1, created.2⟩

theorem tags_agree_step (s : Setting) (c : Core) (mutation : Mutation) (minted : c.Minted s)
    (agrees : c.indices.TagsAgree s.nodeId) :
    (c.step s mutation).indices.TagsAgree s.nodeId := by
  cases mutation with
  | createObject => exact agrees
  | writeBlob oid plaintext => exact agrees
  | deleteObject oid =>
      simp only [step]
      split
      · next known =>
          exact Indices.tags_agree_delete _ _ oid (minted.ofNode s c oid known) s.hash agrees
      · exact agrees
  | addTag oid tag =>
      simp only [step]
      split
      · next known =>
          exact Indices.tags_agree_add_tag _ _ oid (minted.ofNode s c oid known) _ tag agrees
      · exact agrees
  | removeTag oid tag =>
      simp only [step]
      split
      · next known =>
          exact Indices.tags_agree_remove_tag _ _ oid (minted.ofNode s c oid known) _ tag agrees
      · exact agrees
  | setAttr oid key value =>
      simp only [step]
      split
      · apply Indices.tags_agree_frame _ c.indices _ agrees
        · rfl
        · intro other
          exact Indices.tags_distinct_set_attr _ _ _ _ _ _ (agrees.distinct other)
        · intro other entry t tagged
          rw [Indices.mem_set_attr]
          apply or_iff_left
          intro added
          rw [added.2] at tagged
          cases tagged
      · exact agrees
  | removeAttr oid key valueHash =>
      simp only [step]
      split
      · apply Indices.tags_agree_frame _ c.indices _ agrees
        · exact Indices.tag_remove_attr s.hash c.indices oid key valueHash
        · intro other
          exact Indices.tags_distinct_remove_attr _ _ _ _ _ _ (agrees.distinct other)
        · intro other entry t tagged
          exact Indices.mem_remove_attr_tag _ _ _ _ _ _ _ t tagged
      · exact agrees
  | addRelation oid predicate target =>
      simp only [step]
      split
      · apply Indices.tags_agree_frame _ c.indices _ agrees
        · rfl
        · intro other
          exact Indices.tags_distinct_add_relation _ _ _ _ _ (agrees.distinct other)
        · intro other entry t tagged
          rw [Indices.mem_add_relation]
          apply or_iff_left
          intro added
          rw [added.2] at tagged
          cases tagged
      · exact agrees
  | removeRelation oid predicate target =>
      simp only [step]
      split
      · apply Indices.tags_agree_frame _ c.indices _ agrees
        · rfl
        · intro other
          exact Indices.tags_distinct_remove_relation _ _ _ _ _ (agrees.distinct other)
        · intro other entry t tagged
          apply Indices.mem_remove_relation_apart
          intro shape
          rw [Indices.entry_tag_eq_some, shape] at tagged
          cases tagged
      · exact agrees

end Core

end Mimisbrunnr
