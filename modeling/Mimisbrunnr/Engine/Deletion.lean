import Mimisbrunnr.Engine.IndexRuns

/-!
# Deleted objects

A deletion empties the indices once. Nothing comes back as long as no later
mutation asserts something of a deleted object, which the engine does not
check, and as long as the two attribute indices hold no entry that the forward
list has lost.
-/

namespace Mimisbrunnr

set_option autoImplicit false

open Mimisbrunnr.Index
open Mimisbrunnr.Ontology
open Mimisbrunnr.Types

namespace Core

def Tombstoned (c : Core) (oid : ObjectId) : Prop :=
  c.states oid.toU64 = some ObjectState.tombstoned.toU8

instance (c : Core) (oid : ObjectId) : Decidable (c.Tombstoned oid) :=
  inferInstanceAs (Decidable (c.states oid.toU64 = some ObjectState.tombstoned.toU8))

/-- The first entry equal to the selected value is that value bit for bit, or
has a further copy in the list. -/
def RemovesFaithfully (s : Setting) (c : Core) (oid : ObjectId) (key : TagId)
    (valueHash : UInt64) : Prop :=
  ∀ value ∈ c.indices.selectedValue s.hash oid key valueHash,
    ∀ entry ∈ c.indices.removedEntry oid key value,
      entry.1 = .attr key value ∨
        2 ≤ (c.indices.entriesOf oid).countP fun other => other.1 = entry.1

/-- Nothing is asserted of a deleted object, and attributes are removed faithfully. -/
def SparesDeleted (s : Setting) (c : Core) : Mutation → Prop
  | .addTag oid tag => c.Tombstoned oid → s.ontology.materialise [tag] = []
  | .setAttr oid _ _ => ¬ c.Tombstoned oid
  | .addRelation oid _ _ => ¬ c.Tombstoned oid
  | .removeAttr oid key valueHash => c.RemovesFaithfully s oid key valueHash
  | _ => True

instance (s : Setting) (c : Core) : (mutation : Mutation) →
    Decidable (c.SparesDeleted s mutation)
  | .addTag oid tag =>
      inferInstanceAs (Decidable (c.Tombstoned oid → s.ontology.materialise [tag] = []))
  | .setAttr oid _ _ => inferInstanceAs (Decidable (¬ c.Tombstoned oid))
  | .addRelation oid _ _ => inferInstanceAs (Decidable (¬ c.Tombstoned oid))
  | .removeAttr oid key valueHash =>
      inferInstanceAs
        (Decidable (∀ value ∈ c.indices.selectedValue s.hash oid key valueHash,
          ∀ entry ∈ c.indices.removedEntry oid key value,
            entry.1 = .attr key value ∨
              2 ≤ (c.indices.entriesOf oid).countP fun other => other.1 = entry.1))
  | .createObject | .deleteObject _ | .removeTag _ _ | .removeRelation _ _ _
  | .writeBlob _ _ => instDecidableTrue

/-- No attribute index returns an object without a reason, and a deleted object
has no assertion. -/
structure Buried (s : Setting) (c : Core) : Prop where
  sound : c.Sound s
  kv : (kvView s.hash).Covered s.nodeId c.indices
  range : (rangeView s.hash).Covered s.nodeId c.indices
  silent : ∀ oid, c.Tombstoned oid → c.indices.entriesOf oid = []

theorem minted_new (s : Setting) (c : Core) (mutation : Mutation) (minted : c.Minted s)
    (small : c.MintsBelow mutation) (oid : ObjectId) (isCreate : mutation = .createObject)
    (known : c.known oid = true) : oid ≠ c.minted s := by
  intro same
  subst isCreate
  cases minted.below oid known with
  | intro n facts =>
      have bound : c.nextOidLocal < 2 ^ 32 := small
      rw [facts.2] at same
      have equal := ObjectId.from_parts_injective s.nodeId n c.nextOidLocal (by omega) (by omega)
        (congrArg ObjectId.raw same)
      omega

theorem tombstoned_known (c : Core) (oid : ObjectId) (deleted : c.Tombstoned oid) :
    c.known oid = true := by
  unfold known
  rw [deleted]
  rfl

private theorem set_state_apply (c : Core) (oid other : ObjectId) (state : ObjectState) :
    c.setState oid state other.toU64 =
      if other = oid then some state.toU8 else c.states other.toU64 := by
  unfold setState
  rw [Function.update_apply]
  by_cases same : other = oid
  · simp [same]
  · have apart : other.toU64 ≠ oid.toU64 := fun equal =>
      same (ForwardIndex.to_u64_injective other oid equal)
    simp [same, apart]

/-- A step deletes the object it is told to delete and no other, and revives none
as long as new objects are new. -/
theorem tombstoned_step (s : Setting) (c : Core) (mutation : Mutation) (oid : ObjectId)
    (new : mutation = .createObject → c.known oid = true → oid ≠ c.minted s) :
    (c.step s mutation).Tombstoned oid ↔
      c.Tombstoned oid ∨ (mutation = .deleteObject oid ∧ c.known oid = true) := by
  rcases c.step_states s mutation with rfl | ⟨target, rfl⟩ | ⟨-, other, states, -⟩
  · simp only [step, Tombstoned, reduceCtorEq, false_and, or_false, set_state_apply]
    split
    · next same =>
        have unknown : ¬ c.Tombstoned oid := fun deleted =>
          new rfl (tombstoned_known c oid deleted) same
        simp only [Tombstoned] at unknown
        simp only [unknown, iff_false]
        decide
    · exact Iff.rfl
  · simp only [step, Mutation.deleteObject.injEq]
    cases known : c.known target with
    | false =>
        simp only [Bool.false_eq_true, if_false]
        apply Iff.intro Or.inl
        intro found
        cases found with
        | inl old => exact old
        | inr deleted =>
            rw [deleted.1, deleted.2] at known
            cases known
    | true =>
        simp only [if_true, Tombstoned, set_state_apply]
        by_cases same : oid = target
        · subst same
          simp [known]
        · have apart : ¬ target = oid := fun equal => same equal.symm
          simp [same, apart]
  · simp only [Tombstoned, states, other oid, false_and, or_false]

/-- A mutation that spares the deleted objects adds no assertion to one. -/
theorem mem_entries_step (s : Setting) (c : Core) (mutation : Mutation) (oid : ObjectId)
    (tags : c.indices.TagsAgree s.nodeId) (spares : c.SparesDeleted s mutation)
    (deleted : c.Tombstoned oid) (entry : Indices.Entry)
    (member : entry ∈ (c.step s mutation).indices.entriesOf oid) :
    entry ∈ c.indices.entriesOf oid := by
  cases mutation with
  | createObject => exact member
  | writeBlob target plaintext => exact member
  | deleteObject target =>
      simp only [step] at member
      split at member
      · rw [Indices.entries_delete] at member
        split at member
        · cases member
        · exact member
      · exact member
  | addTag target tag =>
      simp only [step] at member
      split at member
      · cases (Indices.mem_add_tag target tag s.ontology c.indices oid entry).mp member with
        | inl old => exact old
        | inr added =>
            cases added.2 with
            | intro t facts =>
                rw [spares (added.1 ▸ deleted)] at facts
                cases facts.1
      · exact member
  | removeTag target tag =>
      simp only [step] at member
      split at member
      · exact ((Indices.mem_remove_tag target s.ontology c.indices tag oid entry
          (tags.distinct target)).mp member).1
      · exact member
  | setAttr target key value =>
      simp only [step] at member
      split at member
      · cases (Indices.mem_set_attr s.hash c.indices target key value oid entry).mp member with
        | inl old => exact old
        | inr added => exact absurd (added.1 ▸ deleted) spares
      · exact member
  | removeAttr target key valueHash =>
      simp only [step] at member
      split at member
      · exact Indices.mem_of_mem_remove_attr s.hash c.indices target key valueHash oid entry member
      · exact member
  | addRelation target predicate object =>
      simp only [step] at member
      split at member
      · cases (Indices.mem_add_relation c.indices target predicate object oid entry).mp member with
        | inl old => exact old
        | inr added => exact absurd (added.1 ▸ deleted) spares
      · exact member
  | removeRelation target predicate object =>
      simp only [step] at member
      split at member
      · exact Indices.mem_of_mem_remove_relation c.indices target predicate object oid entry member
      · exact member

private theorem covered_step (s : Setting) (c : Core) (mutation : Mutation) (view : AttrView s.hash)
    (sound : c.Sound s) (spares : c.SparesDeleted s mutation)
    (covered : view.Covered s.nodeId c.indices) :
    view.Covered s.nodeId (c.step s mutation).indices := by
  have ofNode (oid : ObjectId) (known : c.known oid = true) : OfNode s.nodeId oid :=
    sound.minted.ofNode s c oid known
  apply attr_step s c mutation view _ sound.tags
  · intro after sameFind sameHeld
    exact view.covered_frame s.nodeId _ after covered sameFind sameHeld
  · intro oid key value _ known
    exact view.covered_set_attr s.nodeId _ oid (ofNode oid known) key value covered
  · intro oid key valueHash isRemove known
    subst isRemove
    apply view.covered_remove_attr s.nodeId _ oid (ofNode oid known) key valueHash covered
    intro value selected u origin removed
    cases spares value selected _ removed with
    | inl same => exact Or.inl (Assertion.attr.inj same).2
    | inr several => exact Or.inr several
  · intro oid _ known
    exact view.covered_delete s.nodeId _ oid (ofNode oid known) covered

theorem buried_step (s : Setting) (c : Core) (mutation : Mutation) (buried : c.Buried s)
    (small : c.MintsBelow mutation) (spares : c.SparesDeleted s mutation) :
    (c.step s mutation).Buried s := by
  apply Buried.mk
  · exact sound_step s c mutation buried.sound small
  · exact covered_step s c mutation _ buried.sound spares buried.kv
  · exact covered_step s c mutation _ buried.sound spares buried.range
  · intro oid deleted
    cases (tombstoned_step s c mutation oid
      (minted_new s c mutation buried.sound.minted small oid)).mp deleted with
    | inl old =>
        apply List.eq_nil_iff_forall_not_mem.mpr
        intro entry member
        have before := mem_entries_step s c mutation oid buried.sound.tags spares old entry member
        rw [buried.silent oid old] at before
        cases before
    | inr now =>
        rw [now.1]
        simp only [step, now.2, if_true]
        rw [Indices.entries_delete]
        simp

/-- An object without assertions is in no index. -/
theorem silent_not_indexed (s : Setting) (c : Core) (buried : c.Buried s) (oid : ObjectId)
    (deleted : c.Tombstoned oid) :
    (∀ t, c.indices.tag.contains t oid = false) ∧
      (∀ k w, oid.low32 ∉ c.indices.kv.lookup s.hash k w) ∧
      ∀ k w, oid.low32 ∉ c.indices.range.lookup k w := by
  have ofNode := buried.sound.minted.ofNode s c oid (tombstoned_known c oid deleted)
  have silent := buried.silent oid deleted
  have holdsNone (k : TagId) (w : Value) : ¬ c.indices.HoldsAttr oid k w := by
    intro held
    cases held with
    | intro origin member =>
        rw [silent] at member
        cases member
  apply And.intro
  · intro t
    rw [← Bool.not_eq_true, TagIndex.contains_iff, buried.sound.tags.agree oid ofNode t,
      Indices.has_tag_entries, silent]
    simp
  apply And.intro
  · intro k w member
    cases buried.kv oid ofNode k w member with
    | intro u facts => exact holdsNone k u facts.1
  · intro k w member
    cases buried.range oid ofNode k w member with
    | intro u facts => exact holdsNone k u facts.1

end Core

namespace Engine

private theorem after_append (env : Env) (e : Engine) (earlier later : List TimedMutation) :
    e.after env (earlier ++ later) = (e.after env earlier).after env later := by
  induction earlier generalizing e with
  | nil => rfl
  | cons step rest ih => exact ih (e.apply env step.1 step.2).2

private theorem along_append (env : Env) (condition : Engine → Mutation → Prop)
    (earlier later : List TimedMutation) :
    ∀ e, Along env condition e (earlier ++ later) →
      Along env condition e earlier ∧ Along env condition (e.after env earlier) later := by
  induction earlier with
  | nil =>
      intro e along
      exact ⟨trivial, along⟩
  | cons step rest ih =>
      intro e along
      have split := ih _ along.2
      exact ⟨⟨along.1, split.1⟩, split.2⟩

/-- A deleted object stays deleted while the local sequence numbers are small. -/
theorem tombstoned_persists (env : Env) (start : Engine) (run : List TimedMutation)
    (oid : ObjectId)
    (sound : start.core.Sound (start.setting env))
    (small : Along env (fun e mutation => e.core.MintsBelow mutation) start run)
    (deleted : start.core.Tombstoned oid) : (start.after env run).core.Tombstoned oid := by
  have invariant := core_invariant env start _
    (fun c => c.Sound (start.setting env) ∧ c.Tombstoned oid)
    (fun e mutation _ holds small =>
      ⟨Core.sound_step _ e.core mutation holds.1 small,
        (Core.tombstoned_step _ e.core mutation oid
          (Core.minted_new _ e.core mutation holds.1.minted small oid)).mpr (Or.inl holds.2)⟩)
    ⟨sound, deleted⟩ run small
  exact invariant.2.2

/-- After every run on a fresh engine whose objects fit the bitmaps, and that
spares the deleted objects, a deleted object has no assertion and is in no
index; in every such run a record that is tombstoned once stays so. -/
theorem deleted_objects_stay_deleted (env : Env) (nodeId : UInt16) (ontology : OntologyState)
    (run : List TimedMutation)
    (small : Along env (fun e mutation => e.core.MintsBelow mutation) (fresh nodeId ontology) run)
    (spares : Along env (fun e mutation => e.core.SparesDeleted (e.setting env) mutation)
      (fresh nodeId ontology) run) (oid : ObjectId) :
    (((fresh nodeId ontology).after env run).core.Tombstoned oid →
      ((fresh nodeId ontology).after env run).indices.forward.assertionsOf oid = [] ∧
        (∀ t, ((fresh nodeId ontology).after env run).indices.tag.contains t oid = false) ∧
        (∀ k w, oid.low32 ∉
          ((fresh nodeId ontology).after env run).indices.kv.lookup env.hash k w) ∧
        ∀ k w, oid.low32 ∉ ((fresh nodeId ontology).after env run).indices.range.lookup k w) ∧
      ∀ earlier later, run = earlier ++ later →
        ((fresh nodeId ontology).after env earlier).core.Tombstoned oid →
        ((fresh nodeId ontology).after env run).core.Tombstoned oid := by
  apply And.intro
  · intro deleted
    have start : (fresh nodeId ontology).core.Buried ((fresh nodeId ontology).setting env) :=
      { sound := sound_fresh env nodeId ontology
        kv := (kvView env.hash).covered_new nodeId
        range := (rangeView env.hash).covered_new nodeId
        silent := fun _ _ => ForwardIndex.assertions_of_new _ }
    have buried := core_invariant env (fresh nodeId ontology) _ (fun c => c.Buried _)
      (fun e mutation same buried met => Core.buried_step _ e.core mutation buried met.1
        (same ▸ met.2)) start run (along_and env _ _ run _ small spares)
    exact ⟨buried.2.silent oid deleted, Core.silent_not_indexed _ _ buried.2 oid deleted⟩
  · intro earlier later split deleted
    subst split
    have parts := along_append env _ earlier later _ small
    have sound := core_invariant env (fresh nodeId ontology) _ (fun c => c.Sound _)
      (fun e mutation _ sound small => Core.sound_step _ e.core mutation sound small)
      (sound_fresh env nodeId ontology) earlier parts.1
    rw [after_append]
    apply tombstoned_persists env _ later oid _ parts.2 deleted
    rw [sound.1]
    exact sound.2

/-- An object with a tag-free life and a second one that is deleted. -/
def secondObjectDeleted : List TimedMutation :=
  [(.createObject, none), (.createObject, none),
    (.setAttr (ObjectId.fromParts 1 2) 7 (.int 1), none),
    (.deleteObject (ObjectId.fromParts 1 2), none),
    (.setAttr firstObject 7 (.int 2), none)]

theorem second_object_stays_deleted :
    ((fresh 1 OntologyState.new).after Env.sample secondObjectDeleted).core.Tombstoned
        (ObjectId.fromParts 1 2) ∧
      ((fresh 1 OntologyState.new).after Env.sample
          secondObjectDeleted).indices.forward.assertionsOf (ObjectId.fromParts 1 2) = [] ∧
      ∀ k w, (ObjectId.fromParts 1 2).low32 ∉
        ((fresh 1 OntologyState.new).after Env.sample secondObjectDeleted).indices.kv.lookup
          Env.sample.hash k w := by
  have deleted : ((fresh 1 OntologyState.new).after Env.sample
      secondObjectDeleted).core.Tombstoned (ObjectId.fromParts 1 2) := by decide +kernel
  have gone := (deleted_objects_stay_deleted Env.sample 1 OntologyState.new secondObjectDeleted
    (by decide +kernel) (by decide +kernel) (ObjectId.fromParts 1 2)).1 deleted
  exact ⟨deleted, gone.1, gone.2.2.1⟩

def attributeAfterDelete : List TimedMutation :=
  [(.createObject, none), (.deleteObject firstObject, none),
    (.setAttr firstObject 7 (.int 1), none)]

/-- Both zeros are set, the negative one is removed, and the object is deleted.
The list gives up the positive zero, the attribute index the negative one. -/
def zeroRemovedBeforeDelete : List TimedMutation :=
  [(.createObject, none), (.setAttr firstObject 7 (.float 0), none),
    (.setAttr firstObject 7 (.float 0x8000000000000000), none),
    (.removeAttr firstObject 7 (sampleHash (.float 0x8000000000000000)), none),
    (.deleteObject firstObject, none)]

theorem deleted_object_comes_back :
    ¬ (((fresh 1 OntologyState.new).after Env.sample attributeAfterDelete).core.Tombstoned
          firstObject →
        ((fresh 1 OntologyState.new).after Env.sample
          attributeAfterDelete).indices.forward.assertionsOf firstObject = []) ∧
      ¬ (((fresh 1 OntologyState.new).after Env.sample zeroRemovedBeforeDelete).core.Tombstoned
          firstObject →
        firstObject.low32 ∉ ((fresh 1 OntologyState.new).after Env.sample
          zeroRemovedBeforeDelete).indices.kv.lookup Env.sample.hash 7 (.float 0)) := by
  decide +kernel

end Engine

end Mimisbrunnr
