import Mimisbrunnr.Engine.Agreement
import Mimisbrunnr.Ontology.Growth
import Mimisbrunnr.Query.SetSemantics
import Mimisbrunnr.Watch.Membership

/-!
# Subscriptions and queries

A subscription keeps the result of its query by the hooks alone. For a query for
one tag the hooks are given the tag that a call names and nothing of what the
ontology makes of it, so the result and the query agree only as long as the two
come to the same.
-/

namespace Mimisbrunnr

set_option autoImplicit false

open Mimisbrunnr.Index
open Mimisbrunnr.Lib.FiniteMap
open Mimisbrunnr.Ontology
open Mimisbrunnr.Types
open Mimisbrunnr.Watch

namespace Engine

def executor (env : Env) (e : Engine) : Query.QueryExecutor :=
  { hash := env.hash
    tagIndex := e.indices.tag
    kvIndex := e.indices.kv
    rangeIndex := e.indices.range
    forwardIndex := e.indices.forward
    ontology := e.ontology }

def query (env : Env) (e : Engine) (query : Types.Query) : Except Query.Failure (Finset Nat) :=
  (e.executor env).evaluate query

def subscribe (env : Env) (e : Engine) (name : String) (query : Types.Query)
    (interest : ChangeInterest) (retention : Retention) :
    Except Query.Failure SubscriptionId × Engine :=
  match (e.executor env).evaluate query with
  | .error err => (.error err, e)
  | .ok initial =>
      let (subscriptions, id) := e.subscriptions.register name query interest retention initial 0
      (.ok id, { e with subscriptions := subscriptions })

end Engine

/-- A call of the engine that may follow a subscription. -/
inductive EngineCall where
  | mutate (mutation : Mutation) (reading : Option Int64)
  | installOntologyModule (bundle : OntologyModule)

namespace Engine

def perform (env : Env) (e : Engine) : EngineCall → Engine
  | .mutate mutation reading => (e.apply env mutation reading).2
  | .installOntologyModule bundle => (e.installOntologyModule env bundle).2

def performAll (env : Env) (e : Engine) (calls : List EngineCall) : Engine :=
  calls.foldl (fun e call => e.perform env call) e

/-- The engines that calls build from a new one. -/
inductive Built (env : Env) : Engine → Prop where
  | new (nodeId : UInt16) : Built env (Engine.new nodeId)
  | performed (e : Engine) (call : EngineCall) (built : Built env e) : Built env (e.perform env call)
  | tagRegistered (e : Engine) (name : String) (built : Built env e) :
      Built env (e.registerTag name).2
  | subscribed (e : Engine) (name : String) (query : Types.Query) (interest : ChangeInterest)
      (retention : Retention) (built : Built env e) :
      Built env (e.subscribe env name query interest retention).2

/-- What every call keeps of an engine: no object lists a tag twice, and the
implication graph is valid. -/
structure WellFormed (e : Engine) : Prop where
  distinct : ∀ oid, e.indices.TagsDistinct oid
  valid : e.ontology.dag.Valid

end Engine

private theorem distinct_step (s : Setting) (c : Core) (mutation : Mutation) (oid : ObjectId)
    (distinct : c.indices.TagsDistinct oid) : (c.step s mutation).indices.TagsDistinct oid := by
  cases mutation with
  | createObject => exact distinct
  | deleteObject deleted =>
      rw [Core.step]
      split
      · show (c.indices.deleteObject s.hash deleted).TagsDistinct oid
        rw [Indices.TagsDistinct, Indices.entries_delete]
        split
        · exact List.nodup_nil
        · exact distinct
      · exact distinct
  | addTag tagged tag =>
      rw [Core.step]
      split
      · exact Indices.tags_distinct_add_tag tagged tag s.ontology c.indices oid distinct
      · exact distinct
  | removeTag tagged tag =>
      rw [Core.step]
      split
      · exact Indices.tags_distinct_remove_tag tagged s.ontology c.indices tag oid distinct
      · exact distinct
  | setAttr target key value =>
      rw [Core.step]
      split
      · exact Indices.tags_distinct_set_attr s.hash c.indices target oid key value distinct
      · exact distinct
  | removeAttr target key valueHash =>
      rw [Core.step]
      split
      · exact Indices.tags_distinct_remove_attr s.hash c.indices target key valueHash oid distinct
      · exact distinct
  | addRelation source predicate target =>
      rw [Core.step]
      split
      · exact Indices.tags_distinct_add_relation c.indices source oid predicate target distinct
      · exact distinct
  | removeRelation source predicate target =>
      rw [Core.step]
      split
      · exact Indices.tags_distinct_remove_relation c.indices source predicate target oid distinct
      · exact distinct
  | writeBlob target plaintext => exact distinct

namespace Engine

theorem subscribe_frame (env : Env) (e : Engine) (name : String) (query : Types.Query)
    (interest : ChangeInterest) (retention : Retention) :
    (e.subscribe env name query interest retention).2.indices = e.indices ∧
      (e.subscribe env name query interest retention).2.ontology = e.ontology := by
  unfold subscribe
  split <;> exact ⟨rfl, rfl⟩

theorem perform_well_formed (env : Env) (e : Engine) (call : EngineCall)
    (formed : e.WellFormed) : (e.perform env call).WellFormed := by
  cases call with
  | mutate mutation reading =>
      constructor
      · intro oid
        show (e.apply env mutation reading).2.indices.TagsDistinct oid
        rw [indices_apply]
        exact distinct_step (e.setting env) e.core mutation oid (formed.distinct oid)
      · show (e.apply env mutation reading).2.ontology.dag.Valid
        rw [ontology_apply]
        exact formed.valid
  | installOntologyModule bundle =>
      obtain ⟨indices, ontology⟩ := install_frame env e bundle
      constructor
      · intro oid
        show (e.installOntologyModule env bundle).2.indices.TagsDistinct oid
        rw [indices]
        exact formed.distinct oid
      · show (e.installOntologyModule env bundle).2.ontology.dag.Valid
        rw [ontology]
        rcases e.ontology.install_cases env.topo bundle (.startingAt e.nextFreeTagId) formed.valid
          with refused | installed
        · rw [refused.2]
          exact formed.valid
        · exact installed.2.1

theorem subscribe_well_formed (env : Env) (e : Engine) (name : String) (query : Types.Query)
    (interest : ChangeInterest) (retention : Retention) (formed : e.WellFormed) :
    (e.subscribe env name query interest retention).2.WellFormed := by
  obtain ⟨indices, ontology⟩ := subscribe_frame env e name query interest retention
  constructor
  · rw [indices]
    exact formed.distinct
  · rw [ontology]
    exact formed.valid

private theorem built_well_formed (env : Env) (e : Engine) (built : e.Built env) :
    e.WellFormed := by
  induction built with
  | new nodeId => exact ⟨(Indices.tags_agree_new nodeId).distinct, ImplicationDag.new_valid⟩
  | performed e call built ih => exact perform_well_formed env e call ih
  | tagRegistered e name built ih =>
      unfold registerTag
      split
      · exact ih
      · exact ⟨ih.distinct, e.ontology.dag.add_tag_valid _ ih.valid⟩
  | subscribed e name query interest retention built ih =>
      exact subscribe_well_formed env e name query interest retention ih

def TagQuery (query : Types.Query) : Prop := (∃ tag, query = .hasTag tag) ∨ ∃ tag, query = .isA tag

/-- The members of the tag belong to the result of the query. -/
def Matches (ontology : OntologyState) : Types.Query → TagId → Prop
  | .hasTag tag, held => held = tag
  | .isA tag, held => tag ∈ ontology.materialise [held]
  | _, _ => False

/-- The entry is listed under a tag whose members the query asks for. -/
def Answers (ontology : OntologyState) (tags : TagIndex) (query : Types.Query) (entry : Nat) :
    Prop :=
  ∃ held, Matches ontology query held ∧ entry ∈ tags.membersOf held

private theorem query_answers (env : Env) (e : Engine) (query : Types.Query)
    (single : TagQuery query) :
    ∃ members, e.query env query = .ok members ∧
      ∀ entry, entry ∈ members ↔ Answers e.ontology e.indices.tag query entry := by
  rcases single with named | implied
  · obtain ⟨tag, rfl⟩ := named
    refine ⟨(e.executor env).evalHasTag tag, rfl, ?_⟩
    intro entry
    simp only [Answers, Matches, exists_eq_left]
    rfl
  · obtain ⟨tag, rfl⟩ := implied
    refine ⟨(e.executor env).evalIsa tag, rfl, ?_⟩
    intro entry
    exact (e.executor env).mem_eval_isa tag entry

/-- The hook that a mutation calls, if it calls one. -/
def hookOf (env : Env) (e : Engine) (mutation : Mutation) (reading : Option Int64) : Option Hook :=
  let tsNs := (e.clock.now reading).1.physicalNs
  match mutation with
  | .createObject => some (.objectCreated (.fromParts e.nodeId e.nextOidLocal) 0 tsNs)
  | .deleteObject oid => if e.hasRecord oid then some (.objectDeleted oid 0 tsNs) else none
  | .addTag oid tag => if e.hasRecord oid then some (.tagAdded oid tag 0 tsNs) else none
  | .removeTag oid tag => if e.hasRecord oid then some (.tagRemoved oid tag 0 tsNs) else none
  | .setAttr oid _ _ => if e.hasRecord oid then some (.contentChanged oid 0 tsNs) else none
  | .removeAttr oid _ _ => if e.hasRecord oid then some (.contentChanged oid 0 tsNs) else none
  | .addRelation _ _ _ => none
  | .removeRelation _ _ _ => none
  | .writeBlob oid plaintext =>
      if e.hasRecord oid && (e.transform.apply env.codecs plaintext).toOption.isSome then
        some (.contentChanged oid 0 tsNs)
      else none

def dispatched (s : SubscriptionEngine) : Option Hook → SubscriptionEngine
  | some hook => s.dispatch hook
  | none => s

theorem subscriptions_apply (env : Env) (e : Engine) (mutation : Mutation)
    (reading : Option Int64) :
    (e.apply env mutation reading).2.subscriptions =
      dispatched e.subscriptions (e.hookOf env mutation reading) := by
  cases mutation with
  | createObject => rfl
  | deleteObject oid =>
      simp only [apply, logged, deleteObject, hookOf]
      split <;> rfl
  | addTag oid tag =>
      simp only [apply, logged, addTag, hookOf]
      split <;> rfl
  | removeTag oid tag =>
      simp only [apply, logged, removeTag, hookOf]
      split <;> rfl
  | setAttr oid key value =>
      simp only [apply, logged, setAttr, hookOf]
      split <;> rfl
  | removeAttr oid key valueHash =>
      simp only [apply, logged, removeAttr, hookOf]
      split <;> rfl
  | addRelation oid predicate target =>
      simp only [apply, logged, addRelation, hookOf]
      split <;> rfl
  | removeRelation oid predicate target =>
      simp only [apply, logged, removeRelation, hookOf]
      split <;> rfl
  | writeBlob oid plaintext =>
      simp only [apply, logged, writeBlob, hookOf]
      cases e.hasRecord oid with
      | false => rfl
      | true =>
          simp only [if_true, Bool.true_and]
          cases e.transform.apply env.codecs plaintext <;> rfl

def Linked (e : Engine) (id : SubscriptionId) (tag : TagId) : Prop :=
  id ∈ (e.subscriptions.tagToSubs.lookup tag).getD []

instance (e : Engine) (id : SubscriptionId) (tag : TagId) : Decidable (e.Linked id tag) :=
  inferInstanceAs (Decidable (id ∈ (e.subscriptions.tagToSubs.lookup tag).getD []))

/-- Adding the tag gives the object a tag that the query asks for and that it
did not carry. -/
def Gains (e : Engine) (query : Types.Query) (oid : ObjectId) (tag : TagId) : Prop :=
  ∃ held ∈ e.ontology.materialise [tag],
    Matches e.ontology query held ∧ e.indices.forward.hasTag oid held = false

/-- Removing the tag takes every tag that the query asks for from the object. -/
def Loses (e : Engine) (query : Types.Query) (oid : ObjectId) (tag : TagId) : Prop :=
  ∀ held, Matches e.ontology query held → oid.low32 ∈ e.indices.tag.membersOf held →
    held ∈ Indices.removedTags oid e.ontology e.indices tag ∧
      e.indices.forward.hasTag oid held = true

/-- The hooks of the call do to the subscription what the call does to the
result of its query. -/
def Followed (env : Env) (e : Engine) (id : SubscriptionId) (query : Types.Query) :
    EngineCall → Prop
  | .mutate (.addTag oid tag) _ =>
      e.hasRecord oid = true → Answers e.ontology e.indices.tag query oid.low32 ∨
        (e.Gains query oid tag ↔ e.Linked id tag)
  | .mutate (.removeTag oid tag) _ =>
      e.hasRecord oid = true → ¬ Answers e.ontology e.indices.tag query oid.low32 ∨
        (e.Loses query oid tag ↔ e.Linked id tag)
  | .installOntologyModule bundle =>
      ∀ entry,
        Answers (e.ontology.install env.topo bundle (.startingAt e.nextFreeTagId)).1
            e.indices.tag query entry →
          Answers e.ontology e.indices.tag query entry
  | _ => True

/-- The cached result of the live subscription is the result of the query. -/
def InStep (e : Engine) (id : SubscriptionId) (query : Types.Query) : Prop :=
  ∃ members, e.subscriptions.Live id query members ∧
    ∀ entry, entry ∈ members ↔ Answers e.ontology e.indices.tag query entry

theorem in_step_iff (e : Engine) (id : SubscriptionId) (query : Types.Query)
    (members : Finset Nat) (live : e.subscriptions.Live id query members) :
    e.InStep id query ↔
      ∀ entry, entry ∈ members ↔ Answers e.ontology e.indices.tag query entry := by
  constructor
  · intro inStep
    obtain ⟨others, alive, same⟩ := inStep
    rw [live.unique alive]
    exact same
  · intro same
    exact ⟨members, live, same⟩

theorem insertions_agree_iff (answers : Nat → Prop) (entry : Nat) (left right : Prop) :
    (∀ x, answers x ∨ (x = entry ∧ left) ↔ answers x ∨ (x = entry ∧ right)) ↔
      answers entry ∨ (right ↔ left) := by
  constructor
  · intro same
    have here := same entry
    simp only [true_and] at here
    tauto
  · intro agree x
    by_cases here : x = entry
    · subst here
      simp only [true_and]
      tauto
    · simp only [here, false_and, or_false]

theorem removals_agree_iff (answers : Nat → Prop) (entry : Nat) (left right : Prop) :
    (∀ x, answers x ∧ ¬ (x = entry ∧ left) ↔ answers x ∧ ¬ (x = entry ∧ right)) ↔
      ¬ answers entry ∨ (right ↔ left) := by
  constructor
  · intro same
    have here := same entry
    simp only [true_and] at here
    tauto
  · intro agree x
    by_cases here : x = entry
    · subst here
      simp only [true_and]
      tauto
    · simp only [here, false_and, not_false_iff]

private theorem answers_add_tag (e : Engine) (query : Types.Query) (oid : ObjectId) (tag : TagId)
    (entry : Nat) :
    Answers e.ontology (e.indices.addTag e.ontology oid tag).tag query entry ↔
      Answers e.ontology e.indices.tag query entry ∨
        (entry = oid.low32 ∧ e.Gains query oid tag) := by
  simp only [Answers, Gains, Indices.members_add_tag]
  constructor
  · intro found
    obtain ⟨held, asked, old | added⟩ := found
    · exact Or.inl ⟨held, asked, old⟩
    · exact Or.inr ⟨added.1, held, added.2.1, asked, added.2.2⟩
  · intro found
    rcases found with old | added
    · obtain ⟨held, asked, member⟩ := old
      exact ⟨held, asked, Or.inl member⟩
    · obtain ⟨same, held, implied, asked, missing⟩ := added
      exact ⟨held, asked, Or.inr ⟨same, implied, missing⟩⟩

private theorem answers_remove_tag (e : Engine) (query : Types.Query) (oid : ObjectId) (tag : TagId)
    (distinct : e.indices.TagsDistinct oid) (entry : Nat) :
    Answers e.ontology (e.indices.removeTag e.ontology oid tag).tag query entry ↔
      Answers e.ontology e.indices.tag query entry ∧
        ¬ (entry = oid.low32 ∧ e.Loses query oid tag) := by
  simp only [Answers, Loses, Indices.members_remove_tag oid e.ontology e.indices tag _ _ distinct]
  constructor
  · intro found
    obtain ⟨held, asked, member, kept⟩ := found
    refine ⟨⟨held, asked, member⟩, ?_⟩
    intro lost
    rw [lost.1] at member
    exact kept ⟨lost.1, lost.2 held asked member⟩
  · intro found
    obtain ⟨⟨held, asked, member⟩, kept⟩ := found
    by_cases here : entry = oid.low32
    · subst here
      have survivor := not_and.mp kept rfl
      simp only [not_forall] at survivor
      obtain ⟨other, wanted, listed, stays⟩ := survivor
      exact ⟨other, wanted, listed, fun gone => stays gone.2⟩
    · exact ⟨held, asked, member, fun gone => here gone.1⟩

private theorem answers_delete (env : Env) (e : Engine) (query : Types.Query) (oid : ObjectId)
    (entry : Nat) :
    Answers e.ontology (e.indices.deleteObject env.hash oid).tag query entry ↔
      Answers e.ontology e.indices.tag query entry ∧ ¬ entry = oid.low32 := by
  simp only [Answers, Indices.members_delete]
  constructor
  · intro found
    obtain ⟨held, asked, other, member⟩ := found
    exact ⟨⟨held, asked, member⟩, other⟩
  · intro found
    obtain ⟨⟨held, asked, member⟩, other⟩ := found
    exact ⟨held, asked, other, member⟩

section OneCall

variable (env : Env) (e : Engine) (id : SubscriptionId) (query : Types.Query)
  (members : Finset Nat)

theorem perform_mutate_eq (mutation : Mutation) (reading : Option Int64) :
    e.perform env (.mutate mutation reading) = (e.apply env mutation reading).2 := rfl

/-- After a mutation: the subscription as the hook leaves it, and the query over
the changed tag index. -/
theorem in_step_mutate_iff (mutation : Mutation) (reading : Option Int64) (changed : Finset Nat)
    (handled : (dispatched e.subscriptions (e.hookOf env mutation reading)).Live id query changed) :
    (e.perform env (.mutate mutation reading)).InStep id query ↔
      ∀ entry, entry ∈ changed ↔
        Answers e.ontology (e.core.step (e.setting env) mutation).indices.tag query entry := by
  have alive : (e.perform env (.mutate mutation reading)).subscriptions.Live id query changed := by
    rw [perform_mutate_eq, subscriptions_apply]
    exact handled
  rw [in_step_iff _ id query changed alive, perform_mutate_eq, ontology_apply, indices_apply]

/-- A mutation that leaves the tag index and the cached result alone. -/
theorem in_step_quiet (mutation : Mutation) (reading : Option Int64)
    (live : e.subscriptions.Live id query members)
    (same : ∀ entry, entry ∈ members ↔ Answers e.ontology e.indices.tag query entry)
    (quiet : ∀ hook, e.hookOf env mutation reading = some hook → hook.effect members = members)
    (tags : (e.core.step (e.setting env) mutation).indices.tag = e.indices.tag) :
    (e.perform env (.mutate mutation reading)).InStep id query := by
  have handled : (dispatched e.subscriptions (e.hookOf env mutation reading)).Live id query
      members := by
    cases called : e.hookOf env mutation reading with
    | none => exact live
    | some hook =>
        have after := e.subscriptions.dispatch_live hook id query members live
        rw [quiet hook called, ite_self] at after
        exact after
  rw [in_step_mutate_iff env e id query mutation reading members handled, tags]
  exact same

private theorem in_step_add_tag (oid : ObjectId) (tag : TagId) (reading : Option Int64)
    (live : e.subscriptions.Live id query members)
    (same : ∀ entry, entry ∈ members ↔ Answers e.ontology e.indices.tag query entry) :
    (e.perform env (.mutate (.addTag oid tag) reading)).InStep id query ↔
      e.Followed env id query (.mutate (.addTag oid tag) reading) := by
  cases known : e.hasRecord oid with
  | false =>
      have quiet := in_step_quiet env e id query members (.addTag oid tag) reading live same
        (by simp [hookOf, known]) (by rw [Core.step, known_core, known]; rfl)
      simp [Followed, known, quiet]
  | true =>
      have hook : e.hookOf env (.addTag oid tag) reading =
          some (.tagAdded oid tag 0 (e.clock.now reading).1.physicalNs) := by
        simp [hookOf, known]
      have step : (e.core.step (e.setting env) (.addTag oid tag)).indices =
          e.indices.addTag e.ontology oid tag := by
        rw [Core.step, known_core, known]
        rfl
      have after := e.subscriptions.dispatch_live
        (.tagAdded oid tag 0 (e.clock.now reading).1.physicalNs) id query members live
      rw [in_step_mutate_iff env e id query _ reading _ (by rw [hook]; exact after), step]
      have hooked (entry : Nat) : (entry ∈ if e.Linked id tag then insert oid.low32 members
            else members) ↔
          Answers e.ontology e.indices.tag query entry ∨
            (entry = oid.low32 ∧ e.Linked id tag) := by
        by_cases linked : e.Linked id tag
        · rw [if_pos linked, Finset.mem_insert, same]
          simp only [linked, and_true]
          exact or_comm
        · rw [if_neg linked, same]
          simp only [linked, and_false, or_false]
      have outcome := insertions_agree_iff (Answers e.ontology e.indices.tag query) oid.low32
        (e.Linked id tag) (e.Gains query oid tag)
      simp only [← hooked, ← answers_add_tag] at outcome
      rw [Followed]
      simp only [known, true_implies]
      exact outcome

private theorem in_step_remove_tag (oid : ObjectId) (tag : TagId) (reading : Option Int64)
    (distinct : e.indices.TagsDistinct oid) (live : e.subscriptions.Live id query members)
    (same : ∀ entry, entry ∈ members ↔ Answers e.ontology e.indices.tag query entry) :
    (e.perform env (.mutate (.removeTag oid tag) reading)).InStep id query ↔
      e.Followed env id query (.mutate (.removeTag oid tag) reading) := by
  cases known : e.hasRecord oid with
  | false =>
      have quiet := in_step_quiet env e id query members (.removeTag oid tag) reading live same
        (by simp [hookOf, known]) (by rw [Core.step, known_core, known]; rfl)
      simp [Followed, known, quiet]
  | true =>
      have hook : e.hookOf env (.removeTag oid tag) reading =
          some (.tagRemoved oid tag 0 (e.clock.now reading).1.physicalNs) := by
        simp [hookOf, known]
      have step : (e.core.step (e.setting env) (.removeTag oid tag)).indices =
          e.indices.removeTag e.ontology oid tag := by
        rw [Core.step, known_core, known]
        rfl
      have after := e.subscriptions.dispatch_live
        (.tagRemoved oid tag 0 (e.clock.now reading).1.physicalNs) id query members live
      rw [in_step_mutate_iff env e id query _ reading _ (by rw [hook]; exact after), step]
      have hooked (entry : Nat) : (entry ∈ if e.Linked id tag then members.erase oid.low32
            else members) ↔
          Answers e.ontology e.indices.tag query entry ∧
            ¬ (entry = oid.low32 ∧ e.Linked id tag) := by
        by_cases linked : e.Linked id tag
        · rw [if_pos linked, Finset.mem_erase, same]
          simp only [linked, and_true]
          exact and_comm
        · rw [if_neg linked, same]
          simp only [linked, and_false, not_false_iff, and_true]
      have outcome := removals_agree_iff (Answers e.ontology e.indices.tag query) oid.low32
        (e.Linked id tag) (e.Loses query oid tag)
      simp only [← hooked, ← answers_remove_tag e query oid tag distinct] at outcome
      rw [Followed]
      simp only [known, true_implies]
      exact outcome

private theorem in_step_delete (oid : ObjectId) (reading : Option Int64)
    (live : e.subscriptions.Live id query members)
    (same : ∀ entry, entry ∈ members ↔ Answers e.ontology e.indices.tag query entry) :
    (e.perform env (.mutate (.deleteObject oid) reading)).InStep id query := by
  cases known : e.hasRecord oid with
  | false =>
      exact in_step_quiet env e id query members (.deleteObject oid) reading live same
        (by simp [hookOf, known]) (by rw [Core.step, known_core, known]; rfl)
  | true =>
      have hook : e.hookOf env (.deleteObject oid) reading =
          some (.objectDeleted oid 0 (e.clock.now reading).1.physicalNs) := by
        simp [hookOf, known]
      have step : (e.core.step (e.setting env) (.deleteObject oid)).indices =
          e.indices.deleteObject env.hash oid := by
        rw [Core.step, known_core, known]
        rfl
      have after := e.subscriptions.dispatch_live
        (.objectDeleted oid 0 (e.clock.now reading).1.physicalNs) id query members live
      have visited : id ∈ e.subscriptions.audience
          (.objectDeleted oid 0 (e.clock.now reading).1.physicalNs) := by
        obtain ⟨sub, found, _⟩ := live.found
        exact (e.subscriptions.mem_ids id).mpr ⟨sub, found⟩
      rw [if_pos visited] at after
      rw [in_step_mutate_iff env e id query _ reading _ (by rw [hook]; exact after), step]
      intro entry
      rw [answers_delete, Hook.effect, Finset.mem_erase, same]
      exact and_comm

private theorem in_step_mutate (mutation : Mutation) (reading : Option Int64)
    (formed : e.WellFormed) (live : e.subscriptions.Live id query members)
    (same : ∀ entry, entry ∈ members ↔ Answers e.ontology e.indices.tag query entry) :
    (e.perform env (.mutate mutation reading)).InStep id query ↔
      e.Followed env id query (.mutate mutation reading) := by
  have calm (mutation : Mutation)
      (quiet : ∀ hook, e.hookOf env mutation reading = some hook → hook.effect members = members)
      (tags : (e.core.step (e.setting env) mutation).indices.tag = e.indices.tag) :=
    in_step_quiet env e id query members mutation reading live same quiet tags
  cases mutation with
  | createObject =>
      refine iff_of_true (calm .createObject ?_ rfl) True.intro
      intro hook called
      cases called
      rfl
  | deleteObject oid =>
      exact iff_of_true (in_step_delete env e id query members oid reading live same) True.intro
  | addTag oid tag => exact in_step_add_tag env e id query members oid tag reading live same
  | removeTag oid tag =>
      exact in_step_remove_tag env e id query members oid tag reading (formed.distinct oid) live same
  | setAttr oid key value =>
      refine iff_of_true (calm (.setAttr oid key value) ?_ ?_) True.intro
      · intro hook called
        simp only [hookOf] at called
        split at called
        · cases called
          rfl
        · cases called
      · rw [Core.step]
        split <;> rfl
  | removeAttr oid key valueHash =>
      refine iff_of_true (calm (.removeAttr oid key valueHash) ?_ ?_) True.intro
      · intro hook called
        simp only [hookOf] at called
        split at called
        · cases called
          rfl
        · cases called
      · rw [Core.step]
        split
        · exact Indices.tag_remove_attr _ _ _ _ _
        · rfl
  | addRelation oid predicate target =>
      refine iff_of_true (calm (.addRelation oid predicate target) ?_ ?_) True.intro
      · intro hook called
        cases called
      · rw [Core.step]
        split <;> rfl
  | removeRelation oid predicate target =>
      refine iff_of_true (calm (.removeRelation oid predicate target) ?_ ?_) True.intro
      · intro hook called
        cases called
      · rw [Core.step]
        split <;> rfl
  | writeBlob oid plaintext =>
      refine iff_of_true (calm (.writeBlob oid plaintext) ?_ rfl) True.intro
      intro hook called
      simp only [hookOf] at called
      split at called
      · cases called
        rfl
      · cases called

theorem installed_live (bundle : OntologyModule) (live : e.subscriptions.Live id query members) :
    (e.installOntologyModule env bundle).2.subscriptions.Live id query members := by
  unfold installOntologyModule
  rcases e.ontology.install env.topo bundle (.startingAt e.nextFreeTagId) with
    ⟨ontology, err | res, allocator⟩
  · exact live
  · exact ⟨live.found⟩

private theorem matches_install (bundle : OntologyModule) (formed : e.WellFormed) (held : TagId)
    (asked : Matches e.ontology query held) :
    Matches (e.ontology.install env.topo bundle (.startingAt e.nextFreeTagId)).1 query held := by
  cases query with
  | hasTag tag => exact asked
  | isA tag =>
      have extended := e.ontology.install_extends env.topo bundle (.startingAt e.nextFreeTagId)
        formed.valid
      have valid := (perform_well_formed env e (.installOntologyModule bundle) formed).valid
      have installed : (e.perform env (.installOntologyModule bundle)).ontology =
          (e.ontology.install env.topo bundle (.startingAt e.nextFreeTagId)).1 :=
        (install_frame env e bundle).2
      rw [installed] at valid
      exact ImplicationDag.closure_mono formed.valid valid extended [held] tag asked
  | hasAttr key op value => exact asked
  | related predicate target => exact asked
  | and children => exact asked
  | or children => exact asked
  | not child => exact asked

private theorem in_step_install (bundle : OntologyModule) (formed : e.WellFormed)
    (live : e.subscriptions.Live id query members)
    (same : ∀ entry, entry ∈ members ↔ Answers e.ontology e.indices.tag query entry) :
    (e.perform env (.installOntologyModule bundle)).InStep id query ↔
      e.Followed env id query (.installOntologyModule bundle) := by
  have alive : (e.perform env (.installOntologyModule bundle)).subscriptions.Live id query members :=
    installed_live env e id query members bundle live
  obtain ⟨indices, ontology⟩ := install_frame env e bundle
  rw [in_step_iff _ id query members alive]
  simp only [perform, indices, ontology, Followed, same]
  constructor
  · intro agree entry
    exact (agree entry).mpr
  · intro kept entry
    constructor
    · intro found
      obtain ⟨held, asked, member⟩ := found
      exact ⟨held, matches_install env e query bundle formed held asked, member⟩
    · exact kept entry

private theorem in_step_perform_iff (call : EngineCall) (formed : e.WellFormed)
    (inStep : e.InStep id query) :
    (e.perform env call).InStep id query ↔ e.Followed env id query call := by
  obtain ⟨members, live, same⟩ := inStep
  cases call with
  | mutate mutation reading =>
      exact in_step_mutate env e id query members mutation reading formed live same
  | installOntologyModule bundle =>
      exact in_step_install env e id query members bundle formed live same

end OneCall

private theorem perform_all_append (env : Env) (e : Engine) (first second : List EngineCall) :
    e.performAll env (first ++ second) = (e.performAll env first).performAll env second := by
  rw [performAll, performAll, performAll, List.foldl_append]

private theorem perform_all_well_formed (env : Env) (calls : List EngineCall) (e : Engine)
    (formed : e.WellFormed) : (e.performAll env calls).WellFormed := by
  induction calls generalizing e with
  | nil => exact formed
  | cons call calls ih => exact ih _ (perform_well_formed env e call formed)

/-- A subscription stays in step with its query through a run exactly when every
call of the run is followed. -/
theorem run_in_step_iff (env : Env) (id : SubscriptionId) (query : Types.Query)
    (calls : List EngineCall) (e : Engine) (formed : e.WellFormed)
    (inStep : e.InStep id query) :
    (∀ taken rest, calls = taken ++ rest → (e.performAll env taken).InStep id query) ↔
      ∀ taken call rest, calls = taken ++ call :: rest →
        (e.performAll env taken).Followed env id query call := by
  constructor
  · intro always taken call rest split
    have before := always taken (call :: rest) split
    have after := always (taken ++ [call]) rest (by rw [split, List.append_assoc]; rfl)
    rw [perform_all_append] at after
    exact (in_step_perform_iff env _ id query call
      (perform_all_well_formed env taken e formed) before).mp after
  · intro followed taken rest split
    -- from the first call on, one call at a time
    induction taken using List.reverseRecOn generalizing rest with
    | nil => exact inStep
    | append_singleton taken call ih =>
        rw [List.append_assoc] at split
        have before := ih _ split
        rw [perform_all_append]
        exact (in_step_perform_iff env _ id query call
          (perform_all_well_formed env taken e formed) before).mpr (followed taken call rest split)

private theorem perform_alive (env : Env) (e : Engine) (id : SubscriptionId) (query : Types.Query)
    (call : EngineCall) (members : Finset Nat) (live : e.subscriptions.Live id query members) :
    ∃ after, (e.perform env call).subscriptions.Live id query after := by
  cases call with
  | mutate mutation reading =>
      rw [perform_mutate_eq, subscriptions_apply]
      cases e.hookOf env mutation reading with
      | none => exact ⟨members, live⟩
      | some hook => exact ⟨_, e.subscriptions.dispatch_live hook id query members live⟩
  | installOntologyModule bundle => exact ⟨members, installed_live env e id query members bundle live⟩

private theorem perform_all_alive (env : Env) (id : SubscriptionId) (query : Types.Query)
    (calls : List EngineCall) (e : Engine) (members : Finset Nat)
    (live : e.subscriptions.Live id query members) :
    ∃ after, (e.performAll env calls).subscriptions.Live id query after := by
  induction calls generalizing e members with
  | nil => exact ⟨members, live⟩
  | cons call calls ih =>
      obtain ⟨after, alive⟩ := perform_alive env e id query call members live
      exact ih _ after alive

/-- The cached result of the subscription is what the query returns. -/
def Tracks (env : Env) (e : Engine) (id : SubscriptionId) (query : Types.Query) : Prop :=
  ∃ sub, e.subscriptions.subscriptions.lookup id = some sub ∧
    e.query env query = .ok sub.cachedResult

private theorem tracks_iff_in_step (env : Env) (e : Engine) (id : SubscriptionId)
    (query : Types.Query)
    (single : TagQuery query) (members : Finset Nat)
    (live : e.subscriptions.Live id query members) :
    e.Tracks env id query ↔ e.InStep id query := by
  obtain ⟨result, answered, listed⟩ := query_answers env e query single
  obtain ⟨sub, found, _, _, cached⟩ := live.found
  rw [in_step_iff e id query members live]
  constructor
  · intro tracks
    obtain ⟨again, located, same⟩ := tracks
    rw [found] at located
    cases located
    rw [answered, cached] at same
    rw [← Except.ok.inj same]
    exact listed
  · intro same
    have equal : members = result := by
      ext entry
      rw [same, listed]
    exact ⟨sub, found, by rw [answered, cached, equal]⟩

private theorem subscribed_live (env : Env) (e after : Engine) (name : String) (query : Types.Query)
    (interest : ChangeInterest) (retention : Retention) (id : SubscriptionId)
    (subscribed : e.subscribe env name query interest retention = (.ok id, after)) :
    ∃ members, e.query env query = .ok members ∧ after.subscriptions.Live id query members := by
  unfold subscribe at subscribed
  cases evaluated : (e.executor env).evaluate query with
  | error err =>
      rw [evaluated] at subscribed
      cases subscribed
  | ok members =>
      rw [evaluated] at subscribed
      cases subscribed
      refine ⟨members, evaluated, ⟨⟨_, Finmap.lookup_insert _, rfl, rfl, rfl⟩⟩⟩

/-- A subscription to a query for one tag returns what the query returns, after
every call of a run, exactly when every call of the run is followed. -/
theorem subscription_tracks_query_iff (env : Env) (e after : Engine) (formed : e.WellFormed)
    (name : String) (query : Types.Query) (interest : ChangeInterest) (retention : Retention)
    (id : SubscriptionId) (single : TagQuery query)
    (subscribed : e.subscribe env name query interest retention = (.ok id, after))
    (calls : List EngineCall) :
    (∀ taken rest, calls = taken ++ rest → (after.performAll env taken).Tracks env id query) ↔
      ∀ taken call rest, calls = taken ++ call :: rest →
        (after.performAll env taken).Followed env id query call := by
  have frame := subscribe_frame env e name query interest retention
  have formedAfter : after.WellFormed := by
    have same := subscribe_well_formed env e name query interest retention formed
    rw [subscribed] at same
    exact same
  obtain ⟨members, evaluated, live⟩ :=
    subscribed_live env e after name query interest retention id subscribed
  rw [subscribed] at frame
  have tracks : after.Tracks env id query := by
    obtain ⟨sub, found, _, _, cached⟩ := live.found
    refine ⟨sub, found, ?_⟩
    have sameQuery : after.query env query = e.query env query := by
      rw [Engine.query, Engine.query, executor, executor, frame.1, frame.2]
    rw [sameQuery, evaluated, cached]
  have inStep := (tracks_iff_in_step env after id query single members live).mp tracks
  rw [← run_in_step_iff env id query calls after formedAfter inStep]
  refine forall_congr' fun taken => forall_congr' fun rest => imp_congr_right fun _ => ?_
  obtain ⟨others, alive⟩ := perform_all_alive env id query taken after members live
  exact tracks_iff_in_step env _ id query single others alive

/-- `vehicle` (1), and `car` (2), which implies it. -/
def vehicleModule : OntologyModule :=
  let label (name : String) : TagDefinition :=
    { id := 0, name := name, semantics := .label, implies := [], storage := none }
  { id := "vehicles", version := "1", name := "vehicles"
    tags := [label "vehicle", label "car"]
    implications := [("car", "vehicle")]
    relations := [] }

def carPark : Engine :=
  ((Engine.new 1).perform Env.sample (.installOntologyModule vehicleModule)).perform Env.sample
    (.mutate .createObject none)

theorem car_park_built : carPark.Built Env.sample := by
  unfold carPark
  exact .performed _ _ (.performed _ _ (.new 1))

def watched (tag : TagId) : Engine :=
  (carPark.subscribe Env.sample "watch" (.hasTag tag) ChangeInterest.all .unlimited).2

theorem watched_subscribed (tag : TagId) :
    carPark.subscribe Env.sample "watch" (.hasTag tag) ChangeInterest.all .unlimited =
      (.ok 1, watched tag) := by
  rfl

/-- The object becomes a car, gets an attribute and is a car no longer. -/
def carComesAndGoes : List EngineCall :=
  [.mutate (.addTag firstObject 2) none, .mutate (.setAttr firstObject 1 (.int 1)) none,
    .mutate (.removeTag firstObject 2) none]

/-- A watch on `car` keeps up with it. -/
theorem car_watch_tracks :
    ((watched 2).performAll Env.sample (carComesAndGoes.take 1)).query Env.sample (.hasTag 2) =
        .ok {1} ∧
      ∀ taken rest, carComesAndGoes = taken ++ rest →
        ((watched 2).performAll Env.sample taken).Tracks Env.sample 1 (.hasTag 2) := by
  refine ⟨by decide +kernel, ?_⟩
  refine (subscription_tracks_query_iff Env.sample carPark (watched 2)
    (built_well_formed Env.sample carPark car_park_built) "watch" (.hasTag 2) ChangeInterest.all
    .unlimited 1 (Or.inl ⟨2, rfl⟩) (watched_subscribed 2) carComesAndGoes).mpr ?_
  intro taken call rest split
  match taken, split with
  | [], split =>
      cases split
      intro _
      have linked : (watched 2).Linked 1 2 := by decide +kernel
      have missing : (watched 2).indices.forward.hasTag firstObject 2 = false := by decide +kernel
      have implied : 2 ∈ (watched 2).ontology.materialise [2] := by decide +kernel
      exact Or.inr (iff_of_true ⟨2, implied, rfl, missing⟩ linked)
  | [_], split =>
      cases split
      exact True.intro
  | [_, _], split =>
      cases split
      intro _
      refine Or.inr (iff_of_true ?_ (by decide +kernel))
      intro held asked _
      obtain rfl : held = 2 := asked
      decide +kernel
  | _ :: _ :: _ :: _, split => simp [carComesAndGoes] at split

/-- A watch on `vehicle` misses the car. -/
theorem vehicle_watch_misses_car :
    carPark.Built Env.sample ∧
      carPark.subscribe Env.sample "watch" (.hasTag 1) ChangeInterest.all .unlimited =
        (.ok 1, watched 1) ∧
      ¬ ((watched 1).performAll Env.sample [.mutate (.addTag firstObject 2) none]).Tracks
        Env.sample 1 (.hasTag 1) := by
  refine ⟨car_park_built, watched_subscribed 1, ?_⟩
  intro tracks
  obtain ⟨sub, found, same⟩ := tracks
  have stale : (((watched 1).performAll Env.sample
      [.mutate (.addTag firstObject 2) none]).subscriptions.subscriptions.lookup 1).map
        Subscription.cachedResult = some ∅ := by
    decide +kernel
  have answer : ((watched 1).performAll Env.sample
      [.mutate (.addTag firstObject 2) none]).query Env.sample (.hasTag 1) = .ok {1} := by
    decide +kernel
  rw [found, Option.map_some] at stale
  rw [answer, Option.some.inj stale] at same
  exact absurd (Except.ok.inj same) (by decide)

end Engine

end Mimisbrunnr
