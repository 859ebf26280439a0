import Mimisbrunnr.Engine.TagIds

/-!
# The ontology image over a history

An image stores neither the names nor the graph as they are in memory. Both come
back, since in every state that a history reaches the names are those of the
definitions, every module record is kept under its own id and the graph has no
cycle. What is materialised depends on the nodes and the edges alone.

The names are those of the definitions as long as every new name gets an id
above the registered ones. A caller that installs with an allocator it has used
before an upgrade breaks this: two names share an id, and the image keeps one.
-/

namespace Mimisbrunnr.Ontology.OntologyState

set_option autoImplicit false

open Mimisbrunnr.Lib
open Mimisbrunnr.Lib.Digraph
open Mimisbrunnr.Lib.FiniteMap
open Mimisbrunnr.Types

def RecordsKeyed (s : OntologyState) : Prop :=
  ∀ id record, s.installedModules.lookup id = some record → record.id = id

private theorem new_records_keyed : new.RecordsKeyed := by
  intro id record found
  rw [new, Finmap.lookup_empty] at found
  cases found

theorem records_keyed_of_insert {s after : OntologyState} (keyed : s.RecordsKeyed)
    (id : ModuleId) (record : ModuleRecord) (own : record.id = id)
    (records : after.installedModules = s.installedModules.insert id record) :
    after.RecordsKeyed := by
  intro other found located
  rw [records, lookup_insert_eq] at located
  split at located
  · next same =>
      cases located
      rw [own, same]
  · exact keyed other found located

theorem records_keyed_of_erase {s after : OntologyState} (keyed : s.RecordsKeyed) (id : ModuleId)
    (records : after.installedModules = s.installedModules.erase id) : after.RecordsKeyed := by
  intro other found located
  rw [records, lookup_erase_eq] at located
  split at located
  · cases located
  · exact keyed other found located

private theorem records_keyed_of_merge {s after : OntologyState} (keyed : s.RecordsKeyed)
    (id : ModuleId)
    (previous : ModuleRecord)
    (records : after.installedModules = update s.installedModules id (mergeRecords previous)) :
    after.RecordsKeyed := by
  intro other found located
  rw [records, lookup_update] at located
  split at located
  · obtain ⟨record, stored, merged⟩ := Option.map_eq_some_iff.mp located
    rw [← merged]
    exact keyed other record stored
  · exact keyed other found located

private theorem new_keyed : new.Keyed := by
  intro tag definition found
  rw [new, Finmap.lookup_empty] at found
  cases found

theorem image_reloads_records (topo : Toposort TagId) (s loaded : OntologyState)
    (keyed : s.RecordsKeyed) (reloaded : s.toImage.intoState topo = .ok loaded) :
    loaded.installedModules = s.installedModules := by
  rw [OntologyImage.intoState] at reloaded
  split at reloaded
  · cases reloaded
  · split at reloaded
    · cases reloaded
    · cases reloaded
      exact of_entries_sorted_values s.installedModules ModuleRecord.id _ keyed

theorem materialise_same (s loaded : OntologyState) (valid : s.dag.Valid)
    (loadedValid : loaded.dag.Valid) (nodes : ∀ tag, loaded.dag.IsNode tag ↔ s.dag.IsNode tag)
    (edges : ∀ a b, loaded.dag.TagEdge a b ↔ s.dag.TagEdge a b) (direct : List TagId) :
    loaded.materialise direct = s.materialise direct := by
  obtain ⟨increasing, members⟩ := s.dag.closure_spec valid.toIndexed direct
  obtain ⟨loadedIncreasing, loadedMembers⟩ :=
    loaded.dag.closure_spec loadedValid.toIndexed direct
  have relation : loaded.dag.TagEdge = s.dag.TagEdge := by
    funext a b
    exact propext (edges a b)
  apply SortedSet.increasing_ext _ _ loadedIncreasing increasing
  intro tag
  rw [loadedMembers, members]
  apply exists_congr
  intro start
  rw [nodes, ImplicationDag.Reaches, relation, ImplicationDag.Reaches]

end Mimisbrunnr.Ontology.OntologyState

namespace Mimisbrunnr.Engine

set_option autoImplicit false

open Mimisbrunnr.Lib.Digraph
open Mimisbrunnr.Lib.FiniteMap
open Mimisbrunnr.Ontology
open Mimisbrunnr.Types

theorem install_records_keyed (topo : Toposort TagId) (s : OntologyState)
    (bundle : OntologyModule) (allocator : IdAllocator) (tables : s.Tables)
    (keyed : s.RecordsKeyed)
    (room : (s.install topo bundle allocator).2.1.isOk = true → s.Room bundle.tags allocator) :
    (s.install topo bundle allocator).1.RecordsKeyed := by
  have cases := s.install_cases topo bundle allocator tables.valid
  have grows := s.install_growth topo bundle allocator
  rcases outcome : s.install topo bundle allocator with ⟨after, err | res, rest⟩
  · simp only [outcome] at cases
    rcases cases with ⟨-, rfl⟩ | ⟨⟨res, impossible⟩, -⟩
    · exact keyed
    · cases impossible
  · simp only [outcome] at grows room
    obtain ⟨-, fresh, pairs, triples, growth, -⟩ := grows res tables (room rfl) rfl
    exact OntologyState.records_keyed_of_insert keyed bundle.id _ rfl growth.records

private theorem upgrade_records_keyed (topo : Toposort TagId) (s : OntologyState)
    (bundle : OntologyModule) (tables : s.Tables) (keyed : s.RecordsKeyed)
    (room : (s.upgrade topo bundle).2.isOk = true → s.Room bundle.tags s.freshAllocator) :
    (s.upgrade topo bundle).1.RecordsKeyed := by
  rcases outcome : (s.upgrade topo bundle).2 with err | res
  · rcases s.upgrade_cases topo bundle tables.valid with ⟨-, unchanged⟩ | ⟨⟨res, ok⟩, -⟩
    · rw [unchanged]
      exact keyed
    · rw [outcome] at ok
      cases ok
  · rw [outcome] at room
    obtain ⟨previous, fresh, pairs, triples, middle, -, -, growth, -, final⟩ :=
      s.upgrade_growth topo bundle res tables (room rfl) outcome
    have bare : (s.withoutRecord bundle.id).RecordsKeyed :=
      OntologyState.records_keyed_of_erase keyed bundle.id rfl
    have reinstalled : middle.RecordsKeyed :=
      OntologyState.records_keyed_of_insert bare bundle.id _ rfl growth.records
    rw [final]
    exact OntologyState.records_keyed_of_merge reinstalled bundle.id previous rfl

private theorem scrub_records_keyed (s : OntologyState) (id : ModuleId) (tables : s.Tables)
    (keyed : s.RecordsKeyed) : (s.scrub id).1.RecordsKeyed := by
  rcases found : s.installedModules.lookup id with _ | record
  · rw [s.scrub_missing id found]
    exact keyed
  · have shrinkage := s.scrub_shrinkage id record tables found
    exact OntologyState.records_keyed_of_erase keyed id shrinkage.records

private theorem records_keyed_step (env : Env) (e : Engine) (op : TagIdOp)
    (tables : e.ontology.Tables)
    (tagsKeyed : e.ontology.Keyed) (keyed : e.ontology.RecordsKeyed)
    (room : e.accepts env op = true → e.HasRoom op) :
    (tagIdStep env e op).ontology.RecordsKeyed := by
  cases op with
  | registerTag name =>
      simp only [tagIdStep, registerTag]
      split
      · exact keyed
      · exact keyed
  | installOntologyModule bundle =>
      let allocator := IdAllocator.startingAt e.nextFreeTagId
      have kept := install_records_keyed env.topo e.ontology bundle allocator tables keyed
      rw [accepts, installOntologyModule] at room
      rw [tagIdStep, installOntologyModule]
      rcases outcome : e.ontology.install env.topo bundle allocator with ⟨ontology, err | res, rest⟩
      · simp only [outcome] at kept
        simp only [allocator] at outcome
        exact kept fun refused => by cases refused
      · simp only [outcome] at kept
        simp only [allocator] at outcome
        simp only [outcome] at room ⊢
        exact kept fun _ => e.room_of_has_room (.installOntologyModule bundle) bundle rfl (room rfl)
          allocator rfl
  | upgrade bundle =>
      exact upgrade_records_keyed env.topo e.ontology bundle tables keyed fun accepted =>
        e.room_of_has_room (.upgrade bundle) bundle rfl (room accepted) _ rfl
  | scrub id => exact scrub_records_keyed e.ontology id tables keyed
  | reload =>
      obtain ⟨loaded, reloaded, -⟩ := e.ontology.image_reloads env.topo tables tagsKeyed
      have records := e.ontology.image_reloads_records env.topo loaded keyed reloaded
      simp only [tagIdStep, reloaded]
      intro id record found
      exact keyed id record (by rw [← records, found])

/-- A call of the engine, or an installation with an allocator of the caller. -/
inductive ImageCall where
  | install (bundle : OntologyModule) (allocator : IdAllocator)
  | engine (op : TagIdOp)

def imageStep (env : Env) (e : Engine) : ImageCall → Engine
  | .install bundle allocator =>
      { e with ontology := (e.ontology.install env.topo bundle allocator).1 }
  | .engine op => tagIdStep env e op

def imageRun (env : Env) (e : Engine) (calls : List ImageCall) : Engine :=
  calls.foldl (imageStep env) e

/-- If the call registers names, their ids are above the registered ones and fit
the 32-bit counter. -/
def RoomFor (env : Env) (e : Engine) : ImageCall → Prop
  | .install bundle allocator =>
      (e.ontology.install env.topo bundle allocator).2.1.isOk = true →
        e.ontology.Room bundle.tags allocator
  | .engine op => e.accepts env op = true → e.HasRoom op

/-- What the image of an ontology relies on. -/
structure Loadable (s : OntologyState) : Prop where
  tables : s.Tables
  keyed : s.Keyed
  records : s.RecordsKeyed

private theorem image_step_loadable (env : Env) (e : Engine) (call : ImageCall)
    (loadable : Loadable e.ontology) (room : e.RoomFor env call) :
    Loadable (imageStep env e call).ontology := by
  cases call with
  | install bundle allocator =>
      have records := install_records_keyed env.topo e.ontology bundle allocator loadable.tables
        loadable.records room
      have cases := e.ontology.install_cases env.topo bundle allocator loadable.tables.valid
      have grows := e.ontology.install_growth env.topo bundle allocator
      simp only [RoomFor] at room
      rw [imageStep]
      rcases outcome : e.ontology.install env.topo bundle allocator with ⟨after, err | res, rest⟩
      · simp only [outcome] at cases
        rcases cases with ⟨-, rfl⟩ | ⟨⟨res, impossible⟩, -⟩
        · exact loadable
        · cases impossible
      · simp only [outcome] at grows room records
        obtain ⟨-, fresh, pairs, triples, growth, -⟩ := grows res loadable.tables (room rfl) rfl
        exact ⟨growth.tables, growth.keyed loadable.keyed, records⟩
  | engine op =>
      have names := e.names_step env op loadable.tables loadable.keyed room
      have records := records_keyed_step env e op loadable.tables loadable.keyed loadable.records room
      exact ⟨names.tables, names.keyed, records⟩

private theorem image_run_loadable (env : Env) (e : Engine) (calls : List ImageCall)
    (loadable : Loadable e.ontology)
    (room : ∀ taken call rest, calls = taken ++ call :: rest →
      (imageRun env e taken).RoomFor env call) : Loadable (imageRun env e calls).ontology := by
  induction calls using List.reverseRecOn with
  | nil => exact loadable
  | append_singleton earlier call ih =>
      have before := ih (by
        intro taken other rest split
        exact room taken other (rest ++ [call]) (by rw [split]; simp))
      have last : imageRun env e (earlier ++ [call]) = imageStep env (imageRun env e earlier) call := by
        rw [imageRun, List.foldl_append]
        rfl
      rw [last]
      exact image_step_loadable env _ call before (room earlier call [] rfl)

/-- After every history in which new names get ids above the registered ones, the image of the
ontology loads, to the same tables, records, nodes and edges, the same relations up to their
order, and so to the same materialised tags. -/
theorem ontology_image_round_trip (env : Env) (nodeId : UInt16) (calls : List ImageCall)
    (room : ∀ taken call rest, calls = taken ++ call :: rest →
      (imageRun env (Engine.new nodeId) taken).RoomFor env call) :
    let s := (imageRun env (Engine.new nodeId) calls).ontology
    ∃ loaded, s.toImage.intoState env.topo = .ok loaded ∧
      loaded.tags = s.tags ∧ loaded.names = s.names ∧
      loaded.installedModules = s.installedModules ∧
      (∀ tag, tag ∈ loaded.dag.tags ↔ tag ∈ s.dag.tags) ∧
      (∀ edge, edge ∈ loaded.dag.edges ↔ edge ∈ s.dag.edges) ∧
      loaded.relations.Perm s.relations ∧
      ∀ direct, loaded.materialise direct = s.materialise direct := by
  intro s
  obtain ⟨tables, tagsKeyed, keyed⟩ : Loadable s :=
    image_run_loadable env (Engine.new nodeId) calls
      ⟨OntologyState.new_tables, OntologyState.new_keyed, OntologyState.new_records_keyed⟩ room
  obtain ⟨loaded, reloaded, sameTags, sameNames, relations, valid, nodes, edges⟩ :=
    s.image_reloads env.topo tables tagsKeyed
  refine ⟨loaded, reloaded, sameTags, sameNames, ?_, ?_, ?_, relations, ?_⟩
  · exact s.image_reloads_records env.topo loaded keyed reloaded
  · intro tag
    rw [← loaded.dag.is_node_iff_mem_tags valid.toIndexed,
      ← s.dag.is_node_iff_mem_tags tables.valid.toIndexed]
    exact nodes tag
  · intro edge
    exact edges edge.1 edge.2
  · exact s.materialise_same loaded tables.valid valid nodes edges

def labels (names : List String) : List TagDefinition :=
  names.map fun name => { id := 0, name := name, semantics := .label, implies := [], storage := none }

/-- Two modules, the first of them upgraded before the second is installed with
an allocator of the caller. -/
def upgradedBetween (allocator : IdAllocator) : List ImageCall :=
  [.install (OntologyState.labelModule "first" "file" [] []) (IdAllocator.startingAt 1),
    .engine (.upgrade
      { OntologyState.labelModule "first" "file" [("song", "file")] [] with
        tags := labels ["file", "song"] }),
    .install (OntologyState.labelModule "second" "photo" [("photo", "file")] []) allocator,
    .engine (.registerTag "note"),
    .engine (.scrub "second")]

private theorem below_of_keys (s : OntologyState) (allocator : IdAllocator)
    (below : ∀ tag ∈ s.tags.keys, tag < allocator.next) : s.Below allocator :=
  fun tag present => below tag (Finmap.mem_keys.mpr present)

private theorem upgraded_between_room (taken : List ImageCall) (call : ImageCall)
    (rest : List ImageCall)
    (split : upgradedBetween (IdAllocator.startingAt 3) = taken ++ call :: rest) :
    (imageRun Env.sample (Engine.new 1) taken).RoomFor Env.sample call := by
  match taken, split with
  | [], split =>
      cases split
      exact fun _ _ => ⟨below_of_keys _ _ (by decide +kernel), by decide +kernel⟩
  | [_], split =>
      cases split
      refine fun _ _ => ⟨fun tag present => ?_, by decide +kernel⟩
      have below : ∀ tag ∈ (imageRun Env.sample (Engine.new 1)
          ((upgradedBetween (IdAllocator.startingAt 3)).take 1)).ontology.tags.keys, tag < 2 := by
        decide +kernel
      exact below tag (Finmap.mem_keys.mpr present)
  | [_, _], split =>
      cases split
      exact fun _ _ => ⟨below_of_keys _ _ (by decide +kernel), by decide +kernel⟩
  | [_, _, _], split =>
      cases split
      refine fun _ _ => ⟨fun tag present => ?_, by decide +kernel⟩
      have below : ∀ tag ∈ (imageRun Env.sample (Engine.new 1)
          ((upgradedBetween (IdAllocator.startingAt 3)).take 3)).ontology.tags.keys, tag < 4 := by
        decide +kernel
      exact below tag (Finmap.mem_keys.mpr present)
  | [_, _, _, _], split =>
      cases split
      exact fun _ more => absurd rfl more
  | _ :: _ :: _ :: _ :: _ :: _, split => simp [upgradedBetween] at split

/-- With an allocator past the upgrade the image brings everything back. -/
theorem upgraded_between_round_trip :
    ∃ loaded, (imageRun Env.sample (Engine.new 1)
        (upgradedBetween (IdAllocator.startingAt 3))).ontology.toImage.intoState Env.sample.topo =
          .ok loaded ∧
      loaded.names = (imageRun Env.sample (Engine.new 1)
        (upgradedBetween (IdAllocator.startingAt 3))).ontology.names := by
  obtain ⟨loaded, reloaded, -, names, -⟩ :=
    ontology_image_round_trip Env.sample 1 _ upgraded_between_room
  exact ⟨loaded, reloaded, names⟩

/-- The allocator that the first installation left gives `photo` the id of
`song`, and the loaded state has lost a name. -/
theorem reused_allocator_loses_name :
    ((OntologyState.new.install Env.sample.topo (OntologyState.labelModule "first" "file" [] [])
        (IdAllocator.startingAt 1)).2.2 = IdAllocator.startingAt 2) ∧
      ¬ ∃ loaded, (imageRun Env.sample (Engine.new 1)
          ((upgradedBetween (IdAllocator.startingAt 2)).take 3)).ontology.toImage.intoState
            Env.sample.topo = .ok loaded ∧
        loaded.names = (imageRun Env.sample (Engine.new 1)
          ((upgradedBetween (IdAllocator.startingAt 2)).take 3)).ontology.names := by
  refine ⟨by decide +kernel, ?_⟩
  rintro ⟨loaded, reloaded, names⟩
  have lost : ((imageRun Env.sample (Engine.new 1)
      ((upgradedBetween (IdAllocator.startingAt 2)).take 3)).ontology.toImage.intoState
        Env.sample.topo).toOption.map (fun loaded => loaded.names.lookup "song") ≠
      some ((imageRun Env.sample (Engine.new 1)
        ((upgradedBetween (IdAllocator.startingAt 2)).take 3)).ontology.names.lookup "song") := by
    decide +kernel
  rw [reloaded] at lost
  exact lost (by rw [← names]; rfl)

end Mimisbrunnr.Engine
