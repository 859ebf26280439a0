import Mimisbrunnr.Ontology.Registry

/-!
# References between the tables over whole lifecycles

Installing and upgrading keep the registry coherent. A scrub deletes tags by
one rule and the implications and relations that mention them by two others,
each decided by what the records of the other modules list. `KeepsReferences`
says when the rules agree, and a lifecycle is coherent throughout exactly when
every scrub in it meets that condition.
-/

namespace Mimisbrunnr.Ontology.OntologyState

set_option autoImplicit false

open Mimisbrunnr.Lib
open Mimisbrunnr.Lib.Digraph
open Mimisbrunnr.Lib.FiniteMap
open Mimisbrunnr.Types

theorem coherent_iff (s : OntologyState) :
    s.Coherent ↔ s.Tables ∧ s.Listed ∧
      ∀ source kind target, (source, kind, target) ∈ s.relations →
        source ∈ s.tags ∧ target ∈ s.tags := by
  constructor
  · intro coherent
    exact ⟨coherent.toTables, (s.listed_iff coherent.valid).mpr coherent.listed, coherent.ends⟩
  · rintro ⟨tables, listed, ends⟩
    refine ⟨tables, ends, ?_, (s.listed_iff tables.valid).mp listed⟩
    intro tag definition found target member
    exact (tables.edge_ends tag target (((listed tag definition found).2 target).mp member)).2

private theorem Growth.tag_kept {bundle : OntologyModule} {s after : OntologyState}
    {fresh : List TagId}
    {pairs : List (TagId × TagId)} {triples : List (TagId × TagRelation × TagId)}
    (growth : Growth bundle s after fresh pairs triples) (tables : s.Tables) (tag : TagId)
    (old : tag ∈ s.tags) : tag ∈ after.tags := by
  obtain ⟨name, found⟩ := (tables.mem_iff_named tag).mp old
  exact growth.tables.tag_of_name name tag (growth.kept name tag found)

private theorem Growth.coherent {bundle : OntologyModule} {s after : OntologyState}
    {fresh : List TagId}
    {pairs : List (TagId × TagId)} {triples : List (TagId × TagRelation × TagId)}
    (growth : Growth bundle s after fresh pairs triples)
    (bare : ∀ definition ∈ bundle.tags, definition.implies = []) (coherent : s.Coherent) :
    after.Coherent := by
  obtain ⟨tables, listed, ends⟩ := s.coherent_iff.mp coherent
  refine after.coherent_iff.mpr ⟨growth.tables, growth.listed bare listed, ?_⟩
  intro source kind target member
  rcases (growth.relations _).mp member with old | added
  · obtain ⟨left, right⟩ := ends source kind target old
    exact ⟨growth.tag_kept tables source left, growth.tag_kept tables target right⟩
  · obtain ⟨given, -, left, -, right⟩ := Vec.exists_left_of_mem growth.triplesResolved _ added
    exact ⟨growth.tables.tag_of_name _ source left, growth.tables.tag_of_name _ target right⟩

theorem coherent_of_records {s : OntologyState} (coherent : s.Coherent)
    (records : FMap ModuleId ModuleRecord) :
    Coherent { s with installedModules := records } :=
  { valid := coherent.valid
    named := coherent.named
    nodes := coherent.nodes
    ends := coherent.ends
    implied := coherent.implied
    listed := coherent.listed }

/-- The scrub of `id` deletes an implication whose target it deletes, unless the
source goes too, and every relation with an end that it deletes. -/
def KeepsReferences (s : OntologyState) (id : ModuleId) : Prop :=
  (∀ source target, s.dag.TagEdge source target → s.RemovesTag id target →
    s.RemovesTag id source ∨ s.RemovesImplication id source target) ∧
  ∀ source kind target, (source, kind, target) ∈ s.relations →
    s.RemovesTag id source ∨ s.RemovesTag id target → s.RemovesRelation id (source, kind, target)

private theorem Shrinkage.mem_tags {s after : OntologyState} {id : ModuleId}
    (shrinkage : Shrinkage s id after) (tables : s.Tables) (tag : TagId) :
    tag ∈ after.tags ↔ tag ∈ s.tags ∧ ¬ s.RemovesTag id tag := by
  rw [shrinkage.tables.mem_iff_named, tables.mem_iff_named]
  simp only [shrinkage.names, exists_and_right]

theorem scrub_coherent_iff (s : OntologyState) (id : ModuleId) (coherent : s.Coherent) :
    (s.scrub id).1.Coherent ↔ s.KeepsReferences id := by
  rcases found : s.installedModules.lookup id with _ | record
  · rw [s.scrub_missing id found]
    refine iff_of_true coherent ⟨?_, ?_⟩
    · simp [RemovesTag, found]
    · simp [RemovesTag, found]
  obtain ⟨tables, listed, ends⟩ := s.coherent_iff.mp coherent
  have shrinkage := s.scrub_shrinkage id record tables found
  have members := shrinkage.mem_tags tables
  constructor
  · intro after
    refine ⟨?_, ?_⟩
    · -- the definition of a kept source still lists the target
      intro source target edge removed
      by_contra kept
      obtain ⟨sourceKept, pairKept⟩ := not_or.mp kept
      have present := (members source).mpr ⟨(tables.edge_ends source target edge).1, sourceKept⟩
      obtain ⟨definition, located⟩ := Finmap.mem_iff.mp present
      obtain ⟨old, before, -, -, implies⟩ := shrinkage.definitions source definition located
      have wasListed := ((listed source old before).2 target).mpr edge
      have stillListed := (implies target).mpr ⟨wasListed, pairKept⟩
      exact ((members target).mp (after.implied source definition located target stillListed)).2
        removed
    · intro source kind target member removed
      by_contra kept
      obtain ⟨left, right⟩ := after.ends source kind target
        ((shrinkage.relations _).mpr ⟨member, kept⟩)
      rcases removed with sourceGone | targetGone
      · exact ((members source).mp left).2 sourceGone
      · exact ((members target).mp right).2 targetGone
  · rintro ⟨edgesKept, relationsKept⟩
    refine (coherent_iff _).mpr ⟨shrinkage.tables, ?_, ?_⟩
    · intro tag definition located
      obtain ⟨old, before, -, sublist, implies⟩ := shrinkage.definitions tag definition located
      obtain ⟨once, same⟩ := listed tag old before
      have tagKept := ((members tag).mp (Finmap.mem_iff.mpr ⟨definition, located⟩)).2
      refine ⟨sublist.nodup once, fun target => ?_⟩
      rw [implies, same, shrinkage.edges, SurvivingEdge]
      refine and_congr_right fun edge => ⟨fun pairKept => ⟨pairKept, tagKept, ?_⟩, And.left⟩
      intro removed
      rcases edgesKept tag target edge removed with gone | gone
      · exact tagKept gone
      · exact pairKept gone
    · intro source kind target member
      obtain ⟨before, kept⟩ := (shrinkage.relations _).mp member
      obtain ⟨left, right⟩ := ends source kind target before
      have bothKept := mt (relationsKept source kind target before) kept
      exact ⟨(members source).mpr ⟨left, fun gone => bothKept (Or.inl gone)⟩,
        (members target).mpr ⟨right, fun gone => bothKept (Or.inr gone)⟩⟩

/-- The tag definitions of the module have empty `implies` lists. -/
def BareDefinitions : LifecycleOp → Prop
  | .install bundle _ => ∀ definition ∈ bundle.tags, definition.implies = []
  | .upgrade bundle => ∀ definition ∈ bundle.tags, definition.implies = []
  | .scrub _ => True

/-- The new names of a call get ids above the registered ones. -/
def FreshIds (s : OntologyState) : LifecycleOp → Prop
  | .install bundle allocator => s.Room bundle.tags allocator
  | .upgrade bundle => s.Room bundle.tags s.freshAllocator
  | .scrub _ => True

private theorem step_coherent (topo : Toposort TagId) (s : OntologyState) (op : LifecycleOp)
    (bare : BareDefinitions op) (fresh : s.FreshIds op) (coherent : s.Coherent)
    (kept : ∀ id, op = .scrub id → s.KeepsReferences id) : (step topo s op).1.Coherent := by
  cases op with
  | install bundle allocator =>
      rcases outcome : (s.install topo bundle allocator).2.1 with err | res
      · have unchanged := step_error_unchanged topo s (.install bundle allocator) err coherent.valid
          (by simp [step, outcome, Except.map])
        rw [unchanged]
        exact coherent
      · obtain ⟨-, added, pairs, triples, growth, -⟩ :=
          s.install_growth topo bundle allocator res coherent.toTables fresh outcome
        exact growth.coherent bare coherent
  | upgrade bundle =>
      rcases outcome : (s.upgrade topo bundle).2 with err | res
      · have unchanged := step_error_unchanged topo s (.upgrade bundle) err coherent.valid
          (by simp [step, outcome, Except.map])
        rw [unchanged]
        exact coherent
      · obtain ⟨previous, added, pairs, triples, middle, -, -, growth, -, final⟩ :=
          s.upgrade_growth topo bundle res coherent.toTables fresh outcome
        have reinstalled : middle.Coherent := growth.coherent bare (coherent_of_records coherent _)
        rw [step, final]
        exact coherent_of_records reinstalled _
  | scrub id => exact (s.scrub_coherent_iff id coherent).mpr (kept id rfl)

theorem run_append (topo : Toposort TagId) (s : OntologyState) (first second : List LifecycleOp) :
    run topo s (first ++ second) = run topo (run topo s first) second := by
  rw [run, List.foldl_append]
  rfl

private theorem run_coherent (topo : Toposort TagId) (ops : List LifecycleOp)
    (bare : ∀ op ∈ ops, BareDefinitions op)
    (fresh : ∀ taken op rest, ops = taken ++ op :: rest → (run topo new taken).FreshIds op)
    (kept : ∀ taken id rest, ops = taken ++ .scrub id :: rest →
      (run topo new taken).KeepsReferences id) : (run topo new ops).Coherent := by
  induction ops using List.reverseRecOn with
  | nil => exact new_coherent
  | append_singleton earlier op ih =>
      have before : (run topo new earlier).Coherent := by
        apply ih
        · intro other member
          exact bare other (List.mem_append_left _ member)
        · intro taken other rest split
          exact fresh taken other (rest ++ [op]) (by rw [split]; simp)
        · intro taken id rest split
          exact kept taken id (rest ++ [op]) (by rw [split]; simp)
      rw [run_append]
      apply step_coherent topo _ op (bare op (by simp)) (fresh earlier op [] rfl) before
      rintro id rfl
      exact kept earlier id [] rfl

/-- Over every lifecycle of modules whose definitions have empty `implies`
lists, with new ids above the registered ones: every state reached is coherent
exactly when every scrub meets `KeepsReferences` in the state before it. -/
theorem lifecycle_coherent_iff_scrubs_keep (topo : Toposort TagId) (ops : List LifecycleOp)
    (bare : ∀ op ∈ ops, BareDefinitions op)
    (fresh : ∀ taken op rest, ops = taken ++ op :: rest → (run topo new taken).FreshIds op) :
    (∀ taken rest, ops = taken ++ rest → (run topo new taken).Coherent) ↔
      ∀ taken id rest, ops = taken ++ .scrub id :: rest →
        (run topo new taken).KeepsReferences id := by
  constructor
  · intro coherent taken id rest split
    have before := coherent taken _ split
    have after := coherent (taken ++ [.scrub id]) rest (by simp [split])
    rw [run_append] at after
    exact ((run topo new taken).scrub_coherent_iff id before).mp after
  · intro kept taken rest split
    apply run_coherent topo taken
    · intro op member
      exact bare op (by rw [split]; exact List.mem_append_left _ member)
    · intro earlier op later inner
      exact fresh earlier op (later ++ rest) (by simp [split, inner])
    · intro earlier id later inner
      exact kept earlier id (later ++ rest) (by simp [split, inner])

/-- A module with one label and the given references. -/
def labelModule (id name : String) (implications : List (String × String))
    (relations : List (String × TagRelation × String)) : OntologyModule :=
  { id := id
    version := "1"
    name := id
    tags := [{ id := 0, name := name, semantics := .label, implies := [], storage := none }]
    implications := implications
    relations := relations }

/-- Two modules, the second of which refers to the tag of the first, and the
scrub of one of them. The tags get the ids 1 and 2. -/
def dependentModules (scrubbed : ModuleId) : List LifecycleOp :=
  [.install (labelModule "base" "file" [] []) (IdAllocator.startingAt 1),
    .install (labelModule "media" "photo" [("photo", "file")] [("photo", .requires, "file")])
      (IdAllocator.startingAt 2),
    .scrub scrubbed]

theorem dependent_modules_given (scrubbed : ModuleId) :
    (∀ op ∈ dependentModules scrubbed, BareDefinitions op) ∧
      ∀ taken op rest, dependentModules scrubbed = taken ++ op :: rest →
        (run Toposort.byReachability new taken).FreshIds op := by
  constructor
  · intro op member
    simp only [dependentModules, List.mem_cons, List.not_mem_nil, or_false] at member
    rcases member with rfl | rfl | rfl
    · simp [BareDefinitions, labelModule]
    · simp [BareDefinitions, labelModule]
    · trivial
  · intro taken op rest split
    match taken, split with
    | [], split =>
        cases split
        refine fun _ => ⟨?_, by decide +kernel⟩
        intro tag present
        exact absurd present Finmap.notMem_empty
    | [_], split =>
        cases split
        have keys : ∀ tag ∈ (run Toposort.byReachability new
            [.install (labelModule "base" "file" [] []) (IdAllocator.startingAt 1)]).tags.keys,
            tag < 2 := by
          decide +kernel
        exact fun _ => ⟨fun tag present => keys tag (Finmap.mem_keys.mpr present), by decide +kernel⟩
    | [_, _], split =>
        cases split
        trivial
    | _ :: _ :: _ :: _, split => simp [dependentModules] at split

/-- Scrubbing the module that refers to the other keeps every state coherent. -/
theorem dependent_modules_coherent :
    (∀ op ∈ dependentModules "media", BareDefinitions op) ∧
      ∀ taken rest, dependentModules "media" = taken ++ rest →
        (run Toposort.byReachability new taken).Coherent := by
  obtain ⟨bare, fresh⟩ := dependent_modules_given "media"
  refine ⟨bare, ?_⟩
  refine (lifecycle_coherent_iff_scrubs_keep Toposort.byReachability (dependentModules "media")
    bare fresh).mpr ?_
  intro taken id rest split
  match taken, split with
  | [], split => cases split
  | [_], split => cases split
  | [_, _], split =>
      cases split
      let before := run Toposort.byReachability new ((dependentModules "media").take 2)
      have edges : ∀ edge ∈ before.dag.edges, edge = (2, 1) := by decide +kernel
      have relations : before.relations = [(2, .requires, 1)] := by decide +kernel
      have found : before.installedModules.lookup "media" = some
          { id := "media"
            version := "1"
            name := "media"
            installedTags := [2]
            installedImplications := [(2, 1)]
            installedRelations := [(2, .requires, 1)] } := by
        decide +kernel
      refine ⟨?_, ?_⟩
      · intro source target edge _
        cases edges (source, target) edge
        exact Or.inl ⟨_, found, by decide, by decide +kernel⟩
      · intro source kind target member _
        have only : (source, kind, target) ∈ [(2, TagRelation.requires, 1)] := relations ▸ member
        cases List.mem_singleton.mp only
        exact ⟨_, found, by decide, by decide +kernel⟩
  | _ :: _ :: _ :: _, split => simp [dependentModules] at split

/-- Scrubbing the module referred to succeeds and leaves the definition and the
relation of the other with a tag that is not registered. -/
theorem scrub_leaves_dangling :
    (∀ op ∈ dependentModules "base", BareDefinitions op) ∧
      (step Toposort.byReachability
        (run Toposort.byReachability new ((dependentModules "base").take 2))
        (.scrub "base")).2 = .ok () ∧
      ¬ (run Toposort.byReachability new (dependentModules "base")).Coherent := by
  refine ⟨(dependent_modules_given "base").1, by decide +kernel, ?_⟩
  intro coherent
  have dangling :
      (2, TagRelation.requires, 1) ∈
          (run Toposort.byReachability new (dependentModules "base")).relations ∧
        (run Toposort.byReachability new (dependentModules "base")).tags.lookup 1 = none := by
    decide +kernel
  exact Finmap.lookup_eq_none.mp dangling.2 (coherent.ends 2 .requires 1 dangling.1).2

end Mimisbrunnr.Ontology.OntologyState
