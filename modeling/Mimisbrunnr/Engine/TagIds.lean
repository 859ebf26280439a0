import Mimisbrunnr.Engine.Mutation
import Mimisbrunnr.Ontology.Coherence
import Mimisbrunnr.Ontology.Image

/-!
# Tag identifiers over a history

Tags are registered one by one, with a module, or by an upgrade, and each of the
three takes its first id from a counter of its own: the engine's, or one past
the largest tag that is still registered. A scrub lowers the second, and a
reload restarts the first. `CounterAbove` says when the counter that a call
starts from has not fallen back to ids given earlier in the history; where every
call that registers something meets it, no id is ever given to two names. A call
that is refused or brings no new name has nothing to meet.
-/

namespace Mimisbrunnr.Engine

set_option autoImplicit false

open Mimisbrunnr.Lib
open Mimisbrunnr.Lib.Digraph
open Mimisbrunnr.Lib.FiniteMap
open Mimisbrunnr.Ontology
open Mimisbrunnr.Types

inductive TagIdOp where
  | registerTag (name : String)
  | installOntologyModule (bundle : OntologyModule)
  | upgrade (bundle : OntologyModule)
  | scrub (id : ModuleId)
  | reload

/-- One call. `upgrade` and `scrub` act on the ontology of the engine; a reload
saves its image and loads it into a fresh engine. -/
def tagIdStep (env : Env) (e : Engine) : TagIdOp → Engine
  | .registerTag name => (e.registerTag name).2
  | .installOntologyModule bundle => (e.installOntologyModule env bundle).2
  | .upgrade bundle => { e with ontology := (e.ontology.upgrade env.topo bundle).1 }
  | .scrub id => { e with ontology := (e.ontology.scrub id).1 }
  | .reload =>
      match e.ontology.toImage.intoState env.topo with
      | .ok ontology => { Engine.new e.nodeId with ontology := ontology }
      | .error _ => e

def tagIdRun (env : Env) (e : Engine) (ops : List TagIdOp) : Engine :=
  ops.foldl (tagIdStep env) e

/-- The names that a call may register. -/
def TagIdOp.offers : TagIdOp → List String
  | .registerTag name => [name]
  | .installOntologyModule bundle => bundle.tags.map TagDefinition.name
  | .upgrade bundle => bundle.tags.map TagDefinition.name
  | .scrub _ => []
  | .reload => []

/-- The first id that a call gives, if it gives any. -/
def firstFreeId (e : Engine) : TagIdOp → Nat
  | .installOntologyModule _ => (IdAllocator.startingAt e.nextFreeTagId).next
  | .upgrade _ => e.ontology.freshAllocator.next
  | _ => e.nextFreeTagId

def newNames (e : Engine) (op : TagIdOp) : List String :=
  op.offers.filter fun name => (e.resolveTagName name).isNone

/-- The call is not refused. -/
def accepts (env : Env) (e : Engine) : TagIdOp → Bool
  | .installOntologyModule bundle => (e.installOntologyModule env bundle).1.isOk
  | .upgrade bundle => (e.ontology.upgrade env.topo bundle).2.isOk
  | _ => true

/-- The ids of the new names are above the registered ones and fit the 32-bit counter. -/
def HasRoom (e : Engine) (op : TagIdOp) : Prop :=
  e.newNames op ≠ [] →
    (∀ tag ∈ e.ontology.tags, tag < e.firstFreeId op) ∧
      e.firstFreeId op + (e.newNames op).length ≤ 2 ^ 32

/-- If the call registers a name, it starts above every id that the history has
given so far, and its ids fit the 32-bit counter. -/
def CounterAbove (env : Env) (e : Engine) (taken : List TagIdOp) (op : TagIdOp) : Prop :=
  (tagIdRun env e taken).accepts env op = true → (tagIdRun env e taken).newNames op ≠ [] →
    (∀ earlier later, taken = earlier ++ later →
      ∀ tag ∈ (tagIdRun env e earlier).ontology.tags,
        tag < (tagIdRun env e taken).firstFreeId op) ∧
    (tagIdRun env e taken).firstFreeId op + ((tagIdRun env e taken).newNames op).length ≤ 2 ^ 32

theorem tag_id_run_append (env : Env) (e : Engine) (first : List TagIdOp) (op : TagIdOp) :
    tagIdRun env e (first ++ [op]) = tagIdStep env (tagIdRun env e first) op := by
  rw [tagIdRun, List.foldl_append]
  rfl

/-- What a call does to the table of names: an entry stays, or is gone, or is
new, of a call that is not refused, and has an id from the counter on. -/
structure NamesStep (env : Env) (e after : Engine) (op : TagIdOp) : Prop where
  tables : after.ontology.Tables
  keyed : after.ontology.Keyed
  origin : ∀ name tag, after.ontology.names.lookup name = some tag →
    e.ontology.names.lookup name = some tag ∨
      (name ∈ op.offers ∧ e.ontology.names.lookup name = none ∧ e.accepts env op = true ∧
        e.firstFreeId op ≤ tag)

theorem new_names_of_bundle (e : Engine) (op : TagIdOp) (bundle : OntologyModule)
    (offers : op.offers = bundle.tags.map TagDefinition.name) :
    e.newNames op = (e.ontology.newDefinitions bundle.tags).map TagDefinition.name := by
  rw [newNames, offers, List.filter_map]
  rfl

theorem room_of_has_room (e : Engine) (op : TagIdOp) (bundle : OntologyModule)
    (offers : op.offers = bundle.tags.map TagDefinition.name) (room : e.HasRoom op)
    (allocator : IdAllocator) (first : allocator.next = e.firstFreeId op) :
    e.ontology.Room bundle.tags allocator := by
  intro more
  have names := e.new_names_of_bundle op bundle offers
  obtain ⟨below, fits⟩ := room (by simpa [names] using more)
  rw [names, List.length_map, ← first] at fits
  rw [← first] at below
  exact ⟨below, fits⟩

theorem names_of_growth {bundle : OntologyModule} {s after : OntologyState} {fresh : List TagId}
    {pairs : List (TagId × TagId)} {triples : List (TagId × TagRelation × TagId)}
    (growth : OntologyState.Growth bundle s after fresh pairs triples) (tables : s.Tables)
    (first : Nat) (accepted : Prop) (holds : accepted) (bounds : ∀ tag ∈ fresh, first ≤ tag)
    (name : String) (tag : TagId) (found : after.names.lookup name = some tag) :
    s.names.lookup name = some tag ∨
      (name ∈ bundle.tags.map TagDefinition.name ∧ s.names.lookup name = none ∧ accepted ∧
        first ≤ tag) := by
  by_cases old : tag ∈ s.tags
  · obtain ⟨before, located⟩ := (tables.mem_iff_named tag).mp old
    have again := growth.tables.same_name before name tag (growth.kept before tag located) found
    exact Or.inl (again ▸ located)
  · obtain ⟨free, offered⟩ := growth.origin name tag found old
    have new := (growth.added tag).mpr ⟨growth.tables.tag_of_name name tag found, old⟩
    exact Or.inr ⟨offered, free, holds, bounds tag new⟩

theorem unchanged_names (env : Env) (e : Engine) (op : TagIdOp) (tables : e.ontology.Tables)
    (keyed : e.ontology.Keyed) : NamesStep env e e op :=
  ⟨tables, keyed, fun _ _ found => Or.inl found⟩

private theorem register_tag_names (env : Env) (e : Engine) (name : String)
    (tables : e.ontology.Tables)
    (keyed : e.ontology.Keyed) (room : e.HasRoom (.registerTag name)) :
    NamesStep env e (e.registerTag name).2 (.registerTag name) := by
  rw [registerTag]
  rcases found : e.resolveTagName name with _ | existing
  · have unused : e.nextFreeTagId ∉ e.ontology.tags := by
      intro present
      have new : e.newNames (.registerTag name) ≠ [] := by simp [newNames, TagIdOp.offers, found]
      exact Nat.lt_irrefl _ ((room new).1 _ present)
    let definition : TagDefinition :=
      { id := e.nextFreeTagId, name := name, semantics := .label, implies := [], storage := none }
    have one := e.ontology.register_one e.nextFreeTagId definition tables unused found
    refine ⟨one.tables, one.keyed keyed, ?_⟩
    intro other tag located
    simp only [lookup_insert_eq] at located
    split at located
    · next same =>
        cases located
        subst same
        exact Or.inr ⟨List.mem_singleton_self other, found, rfl, Nat.le_refl _⟩
    · exact Or.inl located
  · exact unchanged_names env e _ tables keyed

private theorem install_names (env : Env) (e : Engine) (bundle : OntologyModule)
    (tables : e.ontology.Tables) (keyed : e.ontology.Keyed)
    (room : e.accepts env (.installOntologyModule bundle) = true →
      e.HasRoom (.installOntologyModule bundle)) :
    NamesStep env e (e.installOntologyModule env bundle).2 (.installOntologyModule bundle) := by
  let allocator := IdAllocator.startingAt e.nextFreeTagId
  have cases := e.ontology.install_cases env.topo bundle allocator tables.valid
  have grows := e.ontology.install_growth env.topo bundle allocator
  rw [accepts, installOntologyModule] at room
  rw [installOntologyModule]
  rcases outcome : e.ontology.install env.topo bundle allocator with ⟨ontology, err | res, rest⟩
  · simp only [outcome] at cases
    rcases cases with ⟨-, rfl⟩ | ⟨⟨res, impossible⟩, -⟩
    · simp only [allocator] at outcome
      exact unchanged_names env e _ tables keyed
    · cases impossible
  · simp only [outcome] at grows
    simp only [allocator] at outcome
    simp only [outcome] at room
    have enough := e.room_of_has_room (.installOntologyModule bundle) bundle rfl (room rfl)
      allocator rfl
    obtain ⟨-, fresh, pairs, triples, growth, bounds⟩ := grows res tables enough rfl
    refine ⟨growth.tables, growth.keyed keyed, ?_⟩
    have accepted : e.accepts env (.installOntologyModule bundle) = true := by
      simp [accepts, installOntologyModule, outcome, Except.isOk, Except.toBool]
    exact names_of_growth growth tables _ _ accepted bounds

private theorem upgrade_names (env : Env) (e : Engine) (bundle : OntologyModule)
    (tables : e.ontology.Tables) (keyed : e.ontology.Keyed)
    (room : e.accepts env (.upgrade bundle) = true → e.HasRoom (.upgrade bundle)) :
    NamesStep env e { e with ontology := (e.ontology.upgrade env.topo bundle).1 } (.upgrade bundle) := by
  rw [accepts] at room
  rcases outcome : (e.ontology.upgrade env.topo bundle).2 with err | res
  · rcases e.ontology.upgrade_cases env.topo bundle tables.valid with
      ⟨-, unchanged⟩ | ⟨⟨res, ok⟩, -⟩
    · rw [unchanged]
      exact unchanged_names env e _ tables keyed
    · rw [outcome] at ok
      cases ok
  · rw [outcome] at room
    have enough := e.room_of_has_room (.upgrade bundle) bundle rfl (room rfl)
      e.ontology.freshAllocator rfl
    obtain ⟨previous, fresh, pairs, triples, middle, -, -, growth, bounds, final⟩ :=
      e.ontology.upgrade_growth env.topo bundle res tables enough outcome
    have bareTables : (e.ontology.withoutRecord bundle.id).Tables :=
      ⟨tables.valid, tables.named, tables.nodes⟩
    rw [final]
    refine ⟨⟨growth.tables.valid, growth.tables.named, growth.tables.nodes⟩, growth.keyed keyed, ?_⟩
    have accepted : e.accepts env (.upgrade bundle) = true := by
      simp [accepts, outcome, Except.isOk, Except.toBool]
    exact names_of_growth growth bareTables _ _ accepted bounds

private theorem scrub_names (env : Env) (e : Engine) (id : ModuleId) (tables : e.ontology.Tables)
    (keyed : e.ontology.Keyed) :
    NamesStep env e { e with ontology := (e.ontology.scrub id).1 } (.scrub id) := by
  rcases found : e.ontology.installedModules.lookup id with _ | record
  · rw [e.ontology.scrub_missing id found]
    exact unchanged_names env e _ tables keyed
  · have shrinkage := e.ontology.scrub_shrinkage id record tables found
    refine ⟨shrinkage.tables, ?_, ?_⟩
    · intro tag definition located
      obtain ⟨old, before, sameId, -, -⟩ := shrinkage.definitions tag definition located
      exact sameId.trans (keyed tag old before)
    · exact fun name tag located => Or.inl ((shrinkage.names name tag).mp located).1

private theorem reload_names (env : Env) (e : Engine) (tables : e.ontology.Tables)
    (keyed : e.ontology.Keyed) : NamesStep env e (tagIdStep env e .reload) .reload := by
  obtain ⟨loaded, reloaded, sameTags, sameNames, -, valid, nodes, -⟩ :=
    e.ontology.image_reloads env.topo tables keyed
  simp only [tagIdStep, reloaded]
  refine ⟨⟨valid, ?_, ?_⟩, ?_, ?_⟩
  · rw [sameNames, sameTags]
    exact tables.named
  · rw [sameTags]
    exact fun tag => (nodes tag).trans (tables.nodes tag)
  · intro tag definition found
    exact keyed tag definition (by rw [← sameTags, found])
  · intro name tag found
    exact Or.inl (by rw [← sameNames, found])

theorem names_step (env : Env) (e : Engine) (op : TagIdOp) (tables : e.ontology.Tables)
    (keyed : e.ontology.Keyed) (room : e.accepts env op = true → e.HasRoom op) :
    NamesStep env e (tagIdStep env e op) op := by
  cases op with
  | registerTag name => exact e.register_tag_names env name tables keyed (room rfl)
  | installOntologyModule bundle => exact e.install_names env bundle tables keyed room
  | upgrade bundle => exact e.upgrade_names env bundle tables keyed room
  | scrub id => exact e.scrub_names env id tables keyed
  | reload => exact e.reload_names env tables keyed

def Given (env : Env) (e : Engine) (taken : List TagIdOp) (name : String) (tag : TagId) : Prop :=
  ∃ earlier later, taken = earlier ++ later ∧
    (tagIdRun env e earlier).resolveTagName name = some tag

private theorem given_append (env : Env) (e : Engine) (taken : List TagIdOp) (op : TagIdOp)
    (name : String) (tag : TagId) :
    Given env e (taken ++ [op]) name tag ↔
      Given env e taken name tag ∨
        (tagIdRun env e (taken ++ [op])).resolveTagName name = some tag := by
  constructor
  · rintro ⟨earlier, later, split, found⟩
    rcases List.eq_nil_or_concat later with rfl | ⟨init, last, rfl⟩
    · rw [List.append_nil] at split
      exact Or.inr (split ▸ found)
    · rw [List.concat_eq_append, ← List.append_assoc] at split
      exact Or.inl ⟨earlier, init, (List.append_inj' split rfl).1, found⟩
  · rintro (⟨earlier, later, rfl, found⟩ | found)
    · exact ⟨earlier, later ++ [op], by simp, found⟩
    · exact ⟨taken ++ [op], [], by simp, found⟩

theorem CounterAbove.room {env : Env} {e : Engine} {taken : List TagIdOp} {op : TagIdOp}
    (above : CounterAbove env e taken op)
    (accepted : (tagIdRun env e taken).accepts env op = true) :
    (tagIdRun env e taken).HasRoom op := by
  intro more
  obtain ⟨below, fits⟩ := above accepted more
  exact ⟨below taken [] (List.append_nil taken).symm, fits⟩

theorem history_tables (env : Env) (e : Engine) (tables : e.ontology.Tables)
    (keyed : e.ontology.Keyed) (ops : List TagIdOp)
    (above : ∀ taken op rest, ops = taken ++ op :: rest → CounterAbove env e taken op) :
    (tagIdRun env e ops).ontology.Tables ∧ (tagIdRun env e ops).ontology.Keyed := by
  induction ops using List.reverseRecOn with
  | nil => exact ⟨tables, keyed⟩
  | append_singleton earlier op ih =>
      obtain ⟨before, beforeKeyed⟩ := ih (by
        intro taken other rest split
        exact above taken other (rest ++ [op]) (by rw [split]; simp))
      have step := (tagIdRun env e earlier).names_step env op before beforeKeyed
        (above earlier op [] rfl).room
      rw [← tag_id_run_append] at step
      exact ⟨step.tables, step.keyed⟩

/-- An entry after one more call was there before, or has an id that the history
has not given to any name. -/
theorem last_names (env : Env) (e : Engine) (tables : e.ontology.Tables)
    (keyed : e.ontology.Keyed) (taken : List TagIdOp) (op : TagIdOp)
    (before : ∀ first other rest, taken = first ++ other :: rest → CounterAbove env e first other)
    (above : CounterAbove env e taken op) (name : String) (tag : TagId)
    (found : (tagIdRun env e (taken ++ [op])).resolveTagName name = some tag) :
    Given env e taken name tag ∨ ∀ other, ¬ Given env e taken other tag := by
  obtain ⟨takenTables, takenKeyed⟩ := history_tables env e tables keyed taken before
  have step := (tagIdRun env e taken).names_step env op takenTables takenKeyed above.room
  rw [← tag_id_run_append] at step
  rcases step.origin name tag found with old | ⟨offered, free, accepted, bound⟩
  · exact Or.inl ⟨taken, [], by simp, old⟩
  · refine Or.inr ?_
    rintro other ⟨earlier, later, split, given⟩
    have earlierTables := (history_tables env e tables keyed earlier (by
      intro first another rest inner
      exact before first another (rest ++ later) (by rw [split, inner]; simp))).1
    have new : (tagIdRun env e taken).newNames op ≠ [] := by
      apply List.ne_nil_of_mem (a := name)
      exact List.mem_filter.mpr ⟨offered, by simpa [resolveTagName] using free⟩
    have less := (above accepted new).1 earlier later split tag
      (earlierTables.tag_of_name other tag given)
    exact Nat.lt_irrefl _ (Nat.lt_of_lt_of_le less bound)

private theorem history_unique (env : Env) (e : Engine) (tables : e.ontology.Tables)
    (keyed : e.ontology.Keyed) (ops : List TagIdOp)
    (above : ∀ taken op rest, ops = taken ++ op :: rest → CounterAbove env e taken op)
    (name other : String) (tag : TagId) (left : Given env e ops name tag)
    (right : Given env e ops other tag) : name = other := by
  induction ops using List.reverseRecOn with
  | nil =>
      obtain ⟨first, _, leftSplit, found⟩ := left
      obtain ⟨second, _, rightSplit, again⟩ := right
      obtain ⟨rfl, -⟩ := List.append_eq_nil_iff.mp leftSplit.symm
      obtain ⟨rfl, -⟩ := List.append_eq_nil_iff.mp rightSplit.symm
      exact tables.same_name name other tag found again
  | append_singleton earlier op ih =>
      have before : ∀ taken other rest, earlier = taken ++ other :: rest →
          CounterAbove env e taken other := by
        intro taken other rest split
        exact above taken other (rest ++ [op]) (by rw [split]; simp)
      have unique := ih before
      have fresh := last_names env e tables keyed earlier op before (above earlier op [] rfl)
      rw [given_append] at left right
      rcases left with left | left
      · rcases right with right | right
        · exact unique left right
        · rcases fresh other tag right with old | never
          · exact unique left old
          · exact absurd left (never name)
      · rcases right with right | right
        · rcases fresh name tag left with old | never
          · exact unique old right
          · exact absurd right (never other)
        · have lastTables := (history_tables env e tables keyed (earlier ++ [op]) above).1
          exact lastTables.same_name name other tag left right

/-- In every history of a fresh engine in which each call that registers a name
starts above the ids given before, an id that one name had is never later given
to another. -/
theorem tag_ids_not_reused (env : Env) (nodeId : UInt16) (ops : List TagIdOp)
    (above : ∀ taken op rest, ops = taken ++ op :: rest →
      CounterAbove env (Engine.new nodeId) taken op) (name other : String) (tag : TagId)
    (first : Given env (Engine.new nodeId) ops name tag)
    (second : Given env (Engine.new nodeId) ops other tag) : name = other :=
  history_unique env (Engine.new nodeId) OntologyState.new_tables
    (fun tag definition found => by simp [Engine.new, OntologyState.new] at found)
    ops above name other tag first second

def registeredAcrossReload : List TagIdOp := [.registerTag "file", .reload, .registerTag "photo"]

private theorem registered_across_reload_above (taken : List TagIdOp) (op : TagIdOp)
    (rest : List TagIdOp)
    (split : registeredAcrossReload = taken ++ op :: rest) :
    CounterAbove Env.sample (Engine.new 1) taken op := by
  match taken, split with
  | [], split =>
      cases split
      refine fun _ _ => ⟨?_, by decide +kernel⟩
      intro earlier later parts tag present
      obtain ⟨rfl, -⟩ := List.append_eq_nil_iff.mp parts.symm
      exact absurd present Finmap.notMem_empty
  | [_], split =>
      cases split
      exact fun _ more => absurd rfl more
  | [_, _], split =>
      cases split
      refine fun _ _ => ⟨?_, by decide +kernel⟩
      intro earlier later parts tag present
      have keys : ∀ count ≤ 2, ∀ tag ∈ (tagIdRun Env.sample (Engine.new 1)
          (registeredAcrossReload.take count)).ontology.tags.keys, tag < 2 := by
        decide +kernel
      have short : earlier.length ≤ 2 := by
        have sizes := congrArg List.length parts
        simp only [List.length_cons, List.length_nil, List.length_append] at sizes
        omega
      have cut : registeredAcrossReload.take earlier.length = earlier := by
        have whole : registeredAcrossReload = earlier ++ (later ++ [.registerTag "photo"]) := by
          rw [← List.append_assoc, ← parts]
          rfl
        rw [whole, List.take_left]
      exact keys earlier.length short tag (by rw [cut]; exact Finmap.mem_keys.mpr present)
  | _ :: _ :: _ :: _, split => simp [registeredAcrossReload] at split

theorem registered_across_reload_distinct :
    (∀ taken op rest, registeredAcrossReload = taken ++ op :: rest →
        CounterAbove Env.sample (Engine.new 1) taken op) ∧
      ∀ name other tag, Given Env.sample (Engine.new 1) registeredAcrossReload name tag →
        Given Env.sample (Engine.new 1) registeredAcrossReload other tag → name = other :=
  ⟨registered_across_reload_above,
    tag_ids_not_reused Env.sample 1 registeredAcrossReload registered_across_reload_above⟩

/-- The last tag is scrubbed away, and an upgrade takes its id for a new one. -/
def scrubbedThenUpgraded : List TagIdOp :=
  [.installOntologyModule (OntologyState.labelModule "base" "file" [] []),
    .installOntologyModule (OntologyState.labelModule "media" "photo" [] []),
    .scrub "media",
    .upgrade
      { OntologyState.labelModule "base" "file" [] [] with
        tags :=
          [{ id := 0, name := "file", semantics := .label, implies := [], storage := none },
            { id := 0, name := "song", semantics := .label, implies := [], storage := none }] }]

theorem upgrade_reuses_scrubbed_id :
    ∃ name other tag, Given Env.sample (Engine.new 1) scrubbedThenUpgraded name tag ∧
      Given Env.sample (Engine.new 1) scrubbedThenUpgraded other tag ∧ name ≠ other := by
  refine ⟨"photo", "song", 2, ?_, ?_, by decide⟩
  · exact ⟨scrubbedThenUpgraded.take 2, scrubbedThenUpgraded.drop 2,
      (List.take_append_drop 2 _).symm, by decide +kernel⟩
  · exact ⟨scrubbedThenUpgraded, [], (List.append_nil _).symm, by decide +kernel⟩

end Mimisbrunnr.Engine
