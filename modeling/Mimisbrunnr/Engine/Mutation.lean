import Mimisbrunnr.Engine.State

/-!
# Runs of mutations

A mutation as data, its application to an engine and the application of a list
of them. `Core` keeps of an engine what the indices depend on: the indices
themselves, the state byte of every record and the counter of local sequence
numbers. The remaining fields (clock, log, subscriptions, record counters) never
influence it, which is what `core_apply` states.
-/

namespace Mimisbrunnr

set_option autoImplicit false

open Mimisbrunnr.Index
open Mimisbrunnr.Lib.Digraph
open Mimisbrunnr.Lib.FiniteMap
open Mimisbrunnr.Ontology
open Mimisbrunnr.Types

inductive Mutation where
  | createObject
  | deleteObject (oid : ObjectId)
  | addTag (oid : ObjectId) (tag : TagId)
  | removeTag (oid : ObjectId) (tag : TagId)
  | setAttr (oid : ObjectId) (key : TagId) (value : Value)
  | removeAttr (oid : ObjectId) (key : TagId) (valueHash : UInt64)
  | addRelation (oid : ObjectId) (predicate : TagId) (target : ObjectId)
  | removeRelation (oid : ObjectId) (predicate : TagId) (target : ObjectId)
  | writeBlob (oid : ObjectId) (plaintext : List UInt8)
deriving DecidableEq, Repr

abbrev TimedMutation := Mutation × Option Int64

namespace Engine

/-- The entry a mutation leaves in the operation log, if it succeeds. -/
def logged {α : Type} (op : α → OpKind) (outcome : Except EngineError α × Engine) :
    Except EngineError OpKind × Engine :=
  (outcome.1.map op, outcome.2)

def apply (env : Env) (e : Engine) (mutation : Mutation) (reading : Option Int64) :
    Except EngineError OpKind × Engine :=
  match mutation with
  | .createObject => (.ok (.createObject (e.createObject reading).1), (e.createObject reading).2)
  | .deleteObject oid => logged (fun _ => .deleteObject oid) (e.deleteObject env oid reading)
  | .addTag oid tag => logged (fun _ => .addTag oid tag) (e.addTag oid tag reading)
  | .removeTag oid tag => logged (fun _ => .removeTag oid tag) (e.removeTag oid tag reading)
  | .setAttr oid key value =>
      logged (fun _ => .setAttr oid key value) (e.setAttr env oid key value reading)
  | .removeAttr oid key valueHash =>
      logged (fun _ => .removeAttr oid key valueHash) (e.removeAttr env oid key valueHash reading)
  | .addRelation oid predicate target =>
      logged (fun _ => .addRelation oid predicate target)
        (e.addRelation oid predicate target reading)
  | .removeRelation oid predicate target =>
      logged (fun _ => .removeRelation oid predicate target)
        (e.removeRelation oid predicate target reading)
  | .writeBlob oid plaintext =>
      logged (fun result => .writeBlob oid result.contentHash result.originalSize)
        (e.writeBlob env oid plaintext reading)

/-- The log entries of the successful mutations of a run, and its last engine. -/
def execute (env : Env) (e : Engine) : List TimedMutation → List OpKind × Engine
  | [] => ([], e)
  | (mutation, reading) :: rest =>
      let outcome := e.apply env mutation reading
      let later := execute env outcome.2 rest
      (outcome.1.toOption.toList ++ later.1, later.2)

def after (env : Env) (e : Engine) (run : List TimedMutation) : Engine := (e.execute env run).2

@[simp] theorem after_nil (env : Env) (e : Engine) : e.after env [] = e := rfl

@[simp] theorem after_cons (env : Env) (e : Engine) (mutation : Mutation)
    (reading : Option Int64) (rest : List TimedMutation) :
    e.after env ((mutation, reading) :: rest) =
      (e.apply env mutation reading).2.after env rest := rfl

/-- Every step of the run meets the condition in the engine it is applied to. -/
def Along (env : Env) (condition : Engine → Mutation → Prop) :
    Engine → List TimedMutation → Prop
  | _, [] => True
  | e, (mutation, reading) :: rest =>
      condition e mutation ∧ Along env condition (e.apply env mutation reading).2 rest

instance decidableAlong (env : Env) (condition : Engine → Mutation → Prop)
    [∀ e mutation, Decidable (condition e mutation)] :
    (e : Engine) → (run : List TimedMutation) → Decidable (Along env condition e run)
  | _, [] => isTrue trivial
  | e, (mutation, reading) :: rest =>
      have := decidableAlong env condition (e.apply env mutation reading).2 rest
      inferInstanceAs
        (Decidable (condition e mutation ∧
          Along env condition (e.apply env mutation reading).2 rest))

theorem along_and (env : Env) (left right : Engine → Mutation → Prop) (run : List TimedMutation) :
    ∀ e, Along env left e run → Along env right e run →
      Along env (fun e mutation => left e mutation ∧ right e mutation) e run := by
  induction run with
  | nil =>
      intro e _ _
      exact trivial
  | cons step rest ih =>
      intro e first second
      exact ⟨⟨first.1, second.1⟩, ih _ first.2 second.2⟩

theorem along_of_mem (env : Env) (condition : Mutation → Prop) (run : List TimedMutation)
    (all : ∀ step ∈ run, condition step.1) :
    ∀ e, Along env (fun _ mutation => condition mutation) e run := by
  induction run with
  | nil =>
      intro e
      exact trivial
  | cons step rest ih =>
      intro e
      apply And.intro
      · exact all step List.mem_cons_self
      · exact ih (fun later member => all later (List.mem_cons_of_mem step member)) _

/-- What each step preserves under a condition holds after every run that meets it. -/
theorem after_induction (env : Env) (condition : Engine → Mutation → Prop)
    (invariant : Engine → Prop)
    (preserved : ∀ e mutation reading, invariant e → condition e mutation →
      invariant (e.apply env mutation reading).2)
    (run : List TimedMutation) :
    ∀ e, invariant e → Along env condition e run → invariant (e.after env run) := by
  induction run with
  | nil =>
      intro e holds _
      exact holds
  | cons step rest ih =>
      intro e holds along
      cases step with
      | mk mutation reading =>
          apply ih
          · exact preserved e mutation reading holds along.1
          · exact along.2

end Engine

/-- What a run never changes. -/
structure Setting where
  hash : ValueHash
  ontology : OntologyState
  nodeId : UInt16

structure Core where
  indices : Indices
  states : UInt64 → Option UInt8
  nextOidLocal : Nat

namespace Core

def known (c : Core) (oid : ObjectId) : Bool := (c.states oid.toU64).isSome

def setState (c : Core) (oid : ObjectId) (state : ObjectState) : UInt64 → Option UInt8 :=
  Function.update c.states oid.toU64 (some state.toU8)

/-- The object the next `create_object` returns. -/
def minted (s : Setting) (c : Core) : ObjectId := ObjectId.fromParts s.nodeId c.nextOidLocal

def step (s : Setting) (c : Core) : Mutation → Core
  | .createObject =>
      { c with
        states := c.setState (c.minted s) .active
        nextOidLocal := Engine.saturatingSucc c.nextOidLocal }
  | .deleteObject oid =>
      if c.known oid then
        { c with
          indices := c.indices.deleteObject s.hash oid
          states := c.setState oid .tombstoned }
      else c
  | .addTag oid tag =>
      if c.known oid then { c with indices := c.indices.addTag s.ontology oid tag } else c
  | .removeTag oid tag =>
      if c.known oid then { c with indices := c.indices.removeTag s.ontology oid tag } else c
  | .setAttr oid key value =>
      if c.known oid then { c with indices := c.indices.setAttr s.hash oid key value } else c
  | .removeAttr oid key valueHash =>
      if c.known oid then { c with indices := c.indices.removeAttr s.hash oid key valueHash }
      else c
  | .addRelation oid predicate target =>
      if c.known oid then { c with indices := c.indices.addRelation oid predicate target } else c
  | .removeRelation oid predicate target =>
      if c.known oid then { c with indices := (c.indices.removeRelation oid predicate target).1 }
      else c
  | .writeBlob _ _ => c

/-- Only a creation and a deletion touch the states of objects. -/
theorem step_states (s : Setting) (c : Core) (mutation : Mutation) :
    mutation = .createObject ∨ (∃ target, mutation = .deleteObject target) ∨
      (mutation ≠ .createObject ∧ (∀ target, mutation ≠ .deleteObject target) ∧
        (c.step s mutation).states = c.states ∧
        (c.step s mutation).nextOidLocal = c.nextOidLocal) := by
  have guarded (condition : Bool) (indices : Indices) :
      (if condition then { c with indices := indices } else c).states = c.states ∧
        (if condition then { c with indices := indices } else c).nextOidLocal = c.nextOidLocal := by
    cases condition <;> exact ⟨rfl, rfl⟩
  cases mutation with
  | createObject => exact Or.inl rfl
  | deleteObject target => exact Or.inr (Or.inl ⟨target, rfl⟩)
  | addTag oid tag => exact Or.inr (Or.inr ⟨nofun, nofun, guarded _ _⟩)
  | removeTag oid tag => exact Or.inr (Or.inr ⟨nofun, nofun, guarded _ _⟩)
  | setAttr oid key value => exact Or.inr (Or.inr ⟨nofun, nofun, guarded _ _⟩)
  | removeAttr oid key valueHash => exact Or.inr (Or.inr ⟨nofun, nofun, guarded _ _⟩)
  | addRelation oid predicate target => exact Or.inr (Or.inr ⟨nofun, nofun, guarded _ _⟩)
  | removeRelation oid predicate target => exact Or.inr (Or.inr ⟨nofun, nofun, guarded _ _⟩)
  | writeBlob oid plaintext => exact Or.inr (Or.inr ⟨nofun, nofun, rfl, rfl⟩)

end Core

namespace Engine

def setting (env : Env) (e : Engine) : Setting :=
  { hash := env.hash
    ontology := e.ontology
    nodeId := e.nodeId }

def stateOf (e : Engine) (raw : UInt64) : Option UInt8 :=
  (e.objectTable.lookup raw).map ObjectRecord.state

def core (e : Engine) : Core :=
  { indices := e.indices
    states := e.stateOf
    nextOidLocal := e.nextOidLocal }

theorem known_core (e : Engine) (oid : ObjectId) : e.core.known oid = e.hasRecord oid := by
  simp [Core.known, core, stateOf, hasRecord]

theorem state_of_update (e changed : Engine) (oid : ObjectId)
    (change : ObjectRecord → ObjectRecord)
    (table : changed.objectTable = e.updateRecord oid change)
    (keeps : ∀ record, (change record).state = record.state) : changed.stateOf = e.stateOf := by
  funext raw
  rw [stateOf, table, updateRecord, lookup_update]
  unfold stateOf
  split
  · cases e.objectTable.lookup raw with
    | none => rfl
    | some record => simp [keeps]
  · rfl

theorem setting_apply (env : Env) (e : Engine) (mutation : Mutation) (reading : Option Int64) :
    (e.apply env mutation reading).2.setting env = e.setting env := by
  cases mutation with
  | createObject => rfl
  | deleteObject oid =>
      simp only [apply, logged, deleteObject]
      split <;> rfl
  | addTag oid tag =>
      simp only [apply, logged, addTag]
      split <;> rfl
  | removeTag oid tag =>
      simp only [apply, logged, removeTag]
      split <;> rfl
  | setAttr oid key value =>
      simp only [apply, logged, setAttr]
      split <;> rfl
  | removeAttr oid key valueHash =>
      simp only [apply, logged, removeAttr]
      split <;> rfl
  | addRelation oid predicate target =>
      simp only [apply, logged, addRelation]
      split <;> rfl
  | removeRelation oid predicate target =>
      simp only [apply, logged, removeRelation]
      split <;> rfl
  | writeBlob oid plaintext =>
      simp only [apply, logged, writeBlob]
      split
      · split <;> rfl
      · rfl

theorem core_apply (env : Env) (e : Engine) (mutation : Mutation) (reading : Option Int64) :
    (e.apply env mutation reading).2.core = e.core.step (e.setting env) mutation := by
  cases mutation with
  | createObject =>
      simp only [apply, createObject, Core.step, core, Core.mk.injEq, true_and, and_true]
      funext raw
      simp only [stateOf, Core.setState, Core.minted, setting, lookup_insert_eq,
        Function.update_apply]
      split <;> rfl
  | deleteObject oid =>
      simp only [apply, logged, deleteObject, Core.step, known_core]
      cases present : e.hasRecord oid with
      | false => rfl
      | true =>
          simp only [if_true, core, Core.mk.injEq, and_true]
          apply And.intro
          · rfl
          · funext raw
            have found : ∃ record, e.objectTable.lookup oid.toU64 = some record :=
              Option.isSome_iff_exists.mp present
            simp only [stateOf, updateRecord, lookup_update, Core.setState, Function.update_apply]
            split
            · next same =>
                subst same
                cases found with
                | intro record stored =>
                    rw [stored]
                    rfl
            · rfl
  | addTag oid tag =>
      simp only [apply, logged, addTag, Core.step, known_core]
      cases e.hasRecord oid with
      | false => rfl
      | true =>
          simp only [if_true, core, Core.mk.injEq, and_true]
          exact ⟨rfl, state_of_update e _ oid _ rfl (fun _ => rfl)⟩
  | removeTag oid tag =>
      simp only [apply, logged, removeTag, Core.step, known_core]
      cases e.hasRecord oid with
      | false => rfl
      | true =>
          simp only [if_true, core, Core.mk.injEq, and_true]
          exact ⟨rfl, state_of_update e _ oid _ rfl (fun _ => rfl)⟩
  | setAttr oid key value =>
      simp only [apply, logged, setAttr, Core.step, known_core]
      cases e.hasRecord oid with
      | false => rfl
      | true =>
          simp only [if_true, core, Core.mk.injEq, and_true]
          exact ⟨rfl, state_of_update e _ oid _ rfl (fun _ => rfl)⟩
  | removeAttr oid key valueHash =>
      simp only [apply, logged, removeAttr, Core.step, known_core]
      cases e.hasRecord oid with
      | false => rfl
      | true =>
          simp only [if_true, core, Core.mk.injEq, and_true]
          apply And.intro
          · rfl
          · cases (e.indices.selectedValue env.hash oid key valueHash).isSome with
            | false => rfl
            | true => exact state_of_update e _ oid _ rfl (fun _ => rfl)
  | addRelation oid predicate target =>
      simp only [apply, logged, addRelation, Core.step, known_core]
      cases e.hasRecord oid with
      | false => rfl
      | true =>
          simp only [if_true, core, Core.mk.injEq, and_true, true_and]
          exact state_of_update e _ oid _ rfl (fun _ => rfl)
  | removeRelation oid predicate target =>
      simp only [apply, logged, removeRelation, Core.step, known_core]
      cases e.hasRecord oid with
      | false => rfl
      | true =>
          simp only [if_true, core, Core.mk.injEq, and_true, true_and]
          cases (e.indices.removeRelation oid predicate target).2 with
          | false => rfl
          | true => exact state_of_update e _ oid _ rfl (fun _ => rfl)
  | writeBlob oid plaintext =>
      simp only [apply, logged, writeBlob, Core.step]
      cases e.hasRecord oid with
      | false => rfl
      | true =>
          simp only [if_true]
          split
          · rfl
          · simp only [core, Core.mk.injEq, and_true, true_and]
            exact state_of_update e _ oid _ rfl (fun _ => rfl)

theorem indices_apply (env : Env) (e : Engine) (mutation : Mutation) (reading : Option Int64) :
    (e.apply env mutation reading).2.indices =
      (e.core.step (e.setting env) mutation).indices :=
  congrArg Core.indices (core_apply env e mutation reading)

theorem ontology_apply (env : Env) (e : Engine) (mutation : Mutation) (reading : Option Int64) :
    (e.apply env mutation reading).2.ontology = e.ontology :=
  congrArg Setting.ontology (setting_apply env e mutation reading)

def fresh (nodeId : UInt16) (ontology : OntologyState) : Engine :=
  { Engine.new nodeId with ontology := ontology }

end Engine

def firstObject : ObjectId := ObjectId.fromParts 1 1

/-- Hashes of the values that the concrete runs use. -/
def sampleHash (value : Value) : UInt64 :=
  if value = .int 1 then 0x03d2eada3cfbd632
  else if value = .int 2 then 0xb78517d22b633bed
  else if value = .float 0 then 0x8732f8e42a54ac3c
  else if value = .float 0x8000000000000000 then 0xfeeadca56e2a1c6e
  else 0

/-- External functions for the concrete runs, which write no blob. -/
def Env.sample : Env :=
  { topo := Toposort.byReachability
    hash := sampleHash
    codecs :=
      { blake3 := fun _ => List.replicate 32 0
        zstdEncode := fun _ _ => .error "zstd" } }

end Mimisbrunnr
