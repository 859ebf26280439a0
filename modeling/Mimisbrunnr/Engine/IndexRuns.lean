import Mimisbrunnr.Engine.AttributeViews

/-!
# The inverted indices along runs

A step lemma over `Core.step` and the induction over the run: the tag index
always agrees with the forward index, the attribute index as long as a removed
attribute has one copy. A run that breaks the agreement follows.
-/

namespace Mimisbrunnr

set_option autoImplicit false

open Mimisbrunnr.Index
open Mimisbrunnr.Ontology
open Mimisbrunnr.Types

namespace Core

/-- A property of the attribute indices survives a mutation if it survives the
three that change attributes; the others are covered by the frame. -/
theorem attr_step (s : Setting) (c : Core) (mutation : Mutation) (view : AttrView s.hash)
    (property : Indices → Prop) (tags : c.indices.TagsAgree s.nodeId)
    (frame : ∀ after, view.find after = view.find c.indices →
      (∀ oid k w, after.HoldsAttr oid k w ↔ c.indices.HoldsAttr oid k w) → property after)
    (set : ∀ oid key value, mutation = .setAttr oid key value → c.known oid = true →
      property (c.indices.setAttr s.hash oid key value))
    (remove : ∀ oid key valueHash, mutation = .removeAttr oid key valueHash →
      c.known oid = true → property (c.indices.removeAttr s.hash oid key valueHash))
    (delete : ∀ oid, mutation = .deleteObject oid → c.known oid = true →
      property (c.indices.deleteObject s.hash oid)) :
    property (c.step s mutation).indices := by
  have unchanged : property c.indices := frame c.indices rfl (fun _ _ _ => Iff.rfl)
  cases mutation with
  | createObject => exact unchanged
  | writeBlob oid plaintext => exact unchanged
  | deleteObject oid =>
      simp only [step]
      split
      · next known => exact delete oid rfl known
      · exact unchanged
  | addTag oid tag =>
      simp only [step]
      split
      · apply frame
        · exact view.find_frame _ _ (Indices.kv_add_tag oid tag s.ontology c.indices)
            (Indices.range_add_tag oid tag s.ontology c.indices)
        · intro other k w
          exact Indices.holds_attr_add_tag s.ontology c.indices oid other tag k w
      · exact unchanged
  | removeTag oid tag =>
      simp only [step]
      split
      · apply frame
        · exact view.find_frame _ _ (Indices.kv_remove_tag oid s.ontology c.indices tag)
            (Indices.range_remove_tag oid s.ontology c.indices tag)
        · intro other k w
          exact Indices.holds_attr_remove_tag s.ontology c.indices oid other tag k w
            (tags.distinct oid)
      · exact unchanged
  | setAttr oid key value =>
      simp only [step]
      split
      · next known => exact set oid key value rfl known
      · exact unchanged
  | removeAttr oid key valueHash =>
      simp only [step]
      split
      · next known => exact remove oid key valueHash rfl known
      · exact unchanged
  | addRelation oid predicate target =>
      simp only [step]
      split
      · apply frame
        · exact view.find_frame _ _ rfl rfl
        · intro other k w
          exact Indices.holds_attr_add_relation c.indices oid other target predicate k w
      · exact unchanged
  | removeRelation oid predicate target =>
      simp only [step]
      split
      · apply frame
        · exact view.find_frame _ _ rfl rfl
        · intro other k w
          exact Indices.holds_attr_remove_relation c.indices oid other target predicate k w
      · exact unchanged

end Core

namespace Core

/-- What every run with small local sequence numbers keeps. -/
structure Sound (s : Setting) (c : Core) : Prop where
  minted : c.Minted s
  tags : c.indices.TagsAgree s.nodeId

theorem sound_step (s : Setting) (c : Core) (mutation : Mutation) (sound : c.Sound s)
    (small : c.MintsBelow mutation) : (c.step s mutation).Sound s :=
  { minted := minted_step s c mutation sound.minted small
    tags := tags_agree_step s c mutation sound.minted sound.tags }

end Core

namespace Engine

/-- A step lemma over the core gives an invariant of the runs of an engine. -/
theorem core_invariant (env : Env) (start : Engine) (condition : Engine → Mutation → Prop)
    (invariant : Core → Prop)
    (preserved : ∀ e mutation, e.setting env = start.setting env → invariant e.core →
      condition e mutation → invariant (e.core.step (start.setting env) mutation))
    (initial : invariant start.core) (run : List TimedMutation)
    (along : Along env condition start run) :
    (start.after env run).setting env = start.setting env ∧
      invariant (start.after env run).core := by
  apply after_induction env condition
    (fun e => e.setting env = start.setting env ∧ invariant e.core) _ run start _ along
  · intro e mutation reading holds met
    apply And.intro
    · rw [setting_apply]
      exact holds.1
    · rw [core_apply, holds.1]
      exact preserved e mutation holds.1 holds.2 met
  · exact ⟨rfl, initial⟩

theorem sound_fresh (env : Env) (nodeId : UInt16) (ontology : OntologyState) :
    (fresh nodeId ontology).core.Sound ((fresh nodeId ontology).setting env) := by
  apply Core.Sound.mk
  · apply Core.Minted.mk
    · have start : (fresh nodeId ontology).core.nextOidLocal = 1 := rfl
      rw [start]
      decide
    · intro oid known
      simp [Core.known, core, stateOf, fresh, Engine.new] at known
  · exact Indices.tags_agree_new nodeId

end Engine

namespace Core

/-- A removed attribute is the entry that the list gives up, and its only copy. -/
def RemovesOnlyCopy (s : Setting) (c : Core) : Mutation → Prop
  | .removeAttr oid key valueHash =>
      ∀ value ∈ c.indices.selectedValue s.hash oid key valueHash,
        (c.indices.removedEntry oid key value).map Prod.fst = some (.attr key value) ∧
          c.indices.copies oid key value = 1
  | _ => True

instance (s : Setting) (c : Core) : (mutation : Mutation) →
    Decidable (c.RemovesOnlyCopy s mutation)
  | .removeAttr oid key valueHash =>
      inferInstanceAs
        (Decidable (∀ value ∈ c.indices.selectedValue s.hash oid key valueHash,
          (c.indices.removedEntry oid key value).map Prod.fst = some (.attr key value) ∧
            c.indices.copies oid key value = 1))
  | .createObject | .deleteObject _ | .addTag _ _ | .removeTag _ _ | .setAttr _ _ _
  | .addRelation _ _ _ | .removeRelation _ _ _ | .writeBlob _ _ => instDecidableTrue

def StoresWithin (used : Set Value) : Mutation → Prop
  | .setAttr _ _ value => value ∈ used
  | _ => True

structure InStep (used : Set Value) (s : Setting) (c : Core) : Prop where
  sound : c.Sound s
  attributes : (kvView s.hash).Agrees s.nodeId used c.indices

private theorem in_step_step (used : Set Value) (s : Setting) (c : Core) (mutation : Mutation)
    (collisionFree : Set.InjOn s.hash used) (inStep : c.InStep used s)
    (small : c.MintsBelow mutation) (stores : StoresWithin used mutation)
    (exact_ : c.RemovesOnlyCopy s mutation) : (c.step s mutation).InStep used s := by
  have ofNode (oid : ObjectId) (known : c.known oid = true) : OfNode s.nodeId oid :=
    inStep.sound.minted.ofNode s c oid known
  apply InStep.mk
  · exact sound_step s c mutation inStep.sound small
  · apply attr_step s c mutation (kvView s.hash) _ inStep.sound.tags
    · intro after sameFind sameHeld
      exact (kvView s.hash).agrees_frame s.nodeId used _ after inStep.attributes sameFind sameHeld
    · intro oid key value isSet known
      subst isSet
      exact (kvView s.hash).agrees_set_attr s.nodeId used _ oid (ofNode oid known) collisionFree key
        value stores inStep.attributes
    · intro oid key valueHash isRemove known
      subst isRemove
      apply (kvView s.hash).agrees_remove_attr s.nodeId used _ oid (ofNode oid known)
        collisionFree key valueHash inStep.attributes
      intro value selected
      have onlyCopy := exact_ value selected
      apply And.intro _ onlyCopy.2
      cases Option.map_eq_some_iff.mp onlyCopy.1 with
      | intro entry facts =>
          cases entry with
          | mk assertion origin =>
              have shape : assertion = .attr key value := facts.2
              subst shape
              exact ⟨origin, facts.1⟩
    · intro oid isDelete known
      exact (kvView s.hash).agrees_delete s.nodeId used _ oid (ofNode oid known) inStep.attributes

end Core

namespace Engine

/-- After every run on a fresh engine whose objects fit the bitmaps the tag index
agrees with the forward index; the attribute index does if every removal of an
attribute takes the only copy of the selected value. -/
theorem inverted_indices_agree (env : Env) (nodeId : UInt16) (ontology : OntologyState)
    (run : List TimedMutation)
    (small : Along env (fun e mutation => e.core.MintsBelow mutation) (fresh nodeId ontology) run)
    (n : Nat) (fits : n < 2 ^ 32) :
    (∀ t, ((fresh nodeId ontology).after env run).indices.tag.contains t
          (ObjectId.fromParts nodeId n) = true ↔
        ((fresh nodeId ontology).after env run).indices.forward.hasTag
          (ObjectId.fromParts nodeId n) t = true) ∧
      ∀ used : Set Value, Set.InjOn env.hash used →
        (∀ step ∈ run, Core.StoresWithin used step.1) →
        Along env (fun e mutation => e.core.RemovesOnlyCopy (e.setting env) mutation)
          (fresh nodeId ontology) run →
        ∀ k, ∀ w ∈ used,
          (ObjectId.fromParts nodeId n).low32 ∈
              ((fresh nodeId ontology).after env run).indices.kv.lookup env.hash k w ↔
            ∃ origin, (.attr k w, origin) ∈
              ((fresh nodeId ontology).after env run).indices.forward.assertionsOf
                (ObjectId.fromParts nodeId n) := by
  have ofNode : OfNode nodeId (ObjectId.fromParts nodeId n) := ⟨n, fits, rfl⟩
  apply And.intro
  · intro t
    have sound := core_invariant env (fresh nodeId ontology) _ (fun c => c.Sound _)
      (fun e mutation _ sound small => Core.sound_step _ e.core mutation sound small)
      (sound_fresh env nodeId ontology) run small
    rw [TagIndex.contains_iff]
    exact sound.2.tags.agree _ ofNode t
  · intro used collisionFree stores exact_ k w inUse
    have start : (fresh nodeId ontology).core.InStep used ((fresh nodeId ontology).setting env) :=
      { sound := sound_fresh env nodeId ontology
        attributes := (kvView env.hash).agrees_new nodeId used }
    have conditions := along_and env _ _ run _ small (along_and env _ _ run _
      (along_of_mem env (Core.StoresWithin used) run stores _) exact_)
    have inStep := core_invariant env (fresh nodeId ontology) _ (fun c => c.InStep used _)
      (fun e mutation same inStep met => Core.in_step_step used _ e.core mutation collisionFree
        inStep met.1 met.2.1 (same ▸ met.2.2)) start run conditions
    exact inStep.2.attributes.agree _ ofNode k w inUse

/-- Two values of one key, one of which is removed again. -/
def oneOfTwoRemoved : List TimedMutation :=
  [(.createObject, none), (.setAttr firstObject 7 (.int 1), none),
    (.setAttr firstObject 7 (.int 2), none),
    (.removeAttr firstObject 7 (sampleHash (.int 1)), none)]

theorem sample_hash_inj_on : Set.InjOn Env.sample.hash ({.int 1, .int 2} : Set Value) := by
  have apart : sampleHash (.int 1) ≠ sampleHash (.int 2) := by decide
  intro left leftIn right rightIn same
  cases leftIn with
  | inl isOne =>
      cases rightIn with
      | inl alsoOne => rw [isOne, alsoOne]
      | inr isTwo =>
          rw [isOne, isTwo] at same
          exact absurd same apart
  | inr isTwo =>
      cases rightIn with
      | inl isOne =>
          rw [isOne, isTwo] at same
          exact absurd same.symm apart
      | inr alsoTwo => rw [isTwo, alsoTwo]

theorem indices_agree_one_of_two_removed :
    ((ObjectId.fromParts 1 1).low32 ∈
        ((fresh 1 OntologyState.new).after Env.sample oneOfTwoRemoved).indices.kv.lookup
          Env.sample.hash 7 (.int 2) ↔
      ∃ origin, (.attr 7 (.int 2), origin) ∈
        ((fresh 1 OntologyState.new).after Env.sample
          oneOfTwoRemoved).indices.forward.assertionsOf (ObjectId.fromParts 1 1)) ∧
      ((ObjectId.fromParts 1 1).low32 ∈
          ((fresh 1 OntologyState.new).after Env.sample oneOfTwoRemoved).indices.kv.lookup
            Env.sample.hash 7 (.int 1) ↔
        ∃ origin, (.attr 7 (.int 1), origin) ∈
          ((fresh 1 OntologyState.new).after Env.sample
            oneOfTwoRemoved).indices.forward.assertionsOf (ObjectId.fromParts 1 1)) := by
  have stores : ∀ step ∈ oneOfTwoRemoved,
      Core.StoresWithin ({.int 1, .int 2} : Set Value) step.1 := by
    intro step member
    simp only [oneOfTwoRemoved, List.mem_cons, List.not_mem_nil, or_false] at member
    rcases member with rfl | rfl | rfl | rfl
    · exact trivial
    · exact Or.inl rfl
    · exact Or.inr rfl
    · exact trivial
  have agree := (inverted_indices_agree Env.sample 1 OntologyState.new oneOfTwoRemoved
    (by decide +kernel) 1 (by decide)).2 _ sample_hash_inj_on stores (by decide +kernel) 7
  exact ⟨agree (.int 2) (Or.inr rfl), agree (.int 1) (Or.inl rfl)⟩

/-- The same value set twice and removed once. -/
def oneCopyRemoved : List TimedMutation :=
  [(.createObject, none), (.setAttr firstObject 7 (.int 1), none),
    (.setAttr firstObject 7 (.int 1), none),
    (.removeAttr firstObject 7 (sampleHash (.int 1)), none)]

/-- One copy stays in the forward index and none in the attribute index. -/
theorem removed_copy_breaks_agreement :
    ¬ (firstObject.low32 ∈
          ((fresh 1 OntologyState.new).after Env.sample oneCopyRemoved).indices.kv.lookup
            Env.sample.hash 7 (.int 1) ↔
        ∃ origin, (.attr 7 (.int 1), origin) ∈
          ((fresh 1 OntologyState.new).after Env.sample
            oneCopyRemoved).indices.forward.assertionsOf firstObject) := by
  have absent : firstObject.low32 ∉
      ((fresh 1 OntologyState.new).after Env.sample oneCopyRemoved).indices.kv.lookup
        Env.sample.hash 7 (.int 1) := by decide +kernel
  have present : (.attr 7 (.int 1), .direct) ∈
      ((fresh 1 OntologyState.new).after Env.sample
        oneCopyRemoved).indices.forward.assertionsOf firstObject := by decide +kernel
  intro agrees
  exact absent (agrees.mpr ⟨.direct, present⟩)

end Engine

end Mimisbrunnr
