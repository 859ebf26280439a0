import Mimisbrunnr.Ontology.State

/-!
# Module lifecycles and the storage axes

A lifecycle is a list of `install`, `upgrade` and `scrub` calls. A call that
fails leaves the registry as it was. Installing and upgrading check that the
tags declaring an axis form a chain; scrubbing does not check anything, and it
removes tags and implications that a chain may run through. What a scrub leaves
of a chain is decided by the state before it, and `ScrubKeepsChains` says when
enough is left.
-/

namespace Mimisbrunnr.Ontology.OntologyState

set_option autoImplicit false

open Relation
open Mimisbrunnr.Lib
open Mimisbrunnr.Lib.Digraph
open Mimisbrunnr.Lib.FiniteMap
open Mimisbrunnr.Types

/-- For every axis, two distinct tags that declare it are related. -/
def AxisChains (s : OntologyState) : Prop :=
  ∀ axis a b, a ≠ b → s.declaresAxis axis a = true → s.declaresAxis axis b = true →
    s.dag.isA a b = true ∨ s.dag.isA b a = true

private theorem mem_declaring (s : OntologyState) (axis : StorageAxis) (tag : TagId) :
    tag ∈ s.declaring axis ↔ s.declaresAxis axis tag = true := by
  simp only [declaring, SortedSet.mem_of_finset, Finset.mem_filter, and_iff_right_iff_imp]
  intro declared
  rcases found : s.tags.lookup tag with _ | definition
  · simp [declaresAxis, found] at declared
  · exact mem_of_lookup s.tags tag definition found

private theorem related_iff (s : OntologyState) (a b : TagId) :
    s.related a b = true ↔ s.dag.isA a b = true ∨ s.dag.isA b a = true := by
  simp [related]

theorem first_unrelated_none_iff (s : OntologyState) (tags : List TagId) :
    s.firstUnrelated tags = none ↔ tags.Pairwise fun a b => s.related a b = true := by
  induction tags with
  | nil => simp [firstUnrelated]
  | cons a rest ih =>
      rw [List.pairwise_cons, ← ih, firstUnrelated]
      rcases found : rest.find? fun b => !s.related a b with _ | b
      · have all := List.find?_eq_none.mp found
        simp only [Bool.not_eq_true', Bool.not_eq_false] at all
        simp only [iff_and_self]
        exact fun _ => all
      · have member := List.mem_of_find?_eq_some found
        have unrelated := List.find?_some found
        simp only [reduceCtorEq, false_iff, not_and]
        intro all
        simp [all b member] at unrelated

private theorem check_axes_ok_iff (s : OntologyState) (axes : List StorageAxis) :
    s.checkAxes axes = .ok () ↔ ∀ axis ∈ axes, s.firstUnrelated (s.declaring axis) = none := by
  induction axes with
  | nil => simp [checkAxes]
  | cons axis rest ih =>
      rw [List.forall_mem_cons, ← ih, checkAxes]
      rcases s.firstUnrelated (s.declaring axis) with _ | ⟨a, b⟩
      · simp
      · simp

theorem check_axis_invariant_ok_iff (s : OntologyState) :
    s.checkAxisInvariant = .ok () ↔ s.AxisChains := by
  rw [checkAxisInvariant, check_axes_ok_iff]
  constructor
  · intro passed axis a b different left right
    have member : axis ∈ [StorageAxis.chunking, .compression, .encryption] := by
      cases axis <;> simp
    have pairs := (s.first_unrelated_none_iff _).mp (passed axis member)
    have symmetric : Std.Symm fun x y => s.related x y = true := by
      refine ⟨fun x y => ?_⟩
      rw [related_iff, related_iff]
      exact Or.symm
    exact (s.related_iff a b).mp
      (pairs.forall ((s.mem_declaring axis a).mpr left) ((s.mem_declaring axis b).mpr right)
        different)
  · intro chains axis _
    rw [first_unrelated_none_iff]
    refine List.Pairwise.imp_of_mem ?_ (SortedSet.increasing_of_finset _)
    intro a b aMember bMember less
    rw [related_iff]
    exact chains axis a b (ne_of_lt less) ((s.mem_declaring axis a).mp aMember)
      ((s.mem_declaring axis b).mp bMember)

theorem register_tags_valid (definitions : List TagDefinition) (s : OntologyState)
    (allocator : IdAllocator) (registered : List TagId) (skipped : Nat) (valid : s.dag.Valid) :
    (registerTags definitions s allocator registered skipped).1.dag.Valid := by
  induction definitions generalizing s allocator registered skipped with
  | nil => exact valid
  | cons definition rest ih =>
      rw [registerTags]
      split
      · exact ih s _ _ _ valid
      · exact ih _ _ _ _ (s.dag.add_tag_valid _ valid)

private theorem install_implications_valid (topo : Toposort TagId)
    (implications : List (String × String))
    (s : OntologyState) (added : List (TagId × TagId)) (valid : s.dag.Valid) :
    (installImplications topo implications s added).1.dag.Valid := by
  induction implications generalizing s added with
  | nil => exact valid
  | cons implication rest ih =>
      obtain ⟨sourceName, targetName⟩ := implication
      rw [installImplications]
      rcases s.names.lookup sourceName with _ | source
      · exact valid
      rcases s.names.lookup targetName with _ | target
      · exact valid
      have grown := s.dag.add_implication_valid topo source target valid
      simp only
      rcases outcome : s.dag.addImplication topo source target with ⟨err | _, dag⟩
      · rw [outcome] at grown
        exact grown
      · rw [outcome] at grown
        exact ih { s with dag := dag, tags := recordImplies s.tags source target } _ grown

theorem install_relations_dag (relations : List (String × TagRelation × String))
    (s : OntologyState) (added : List (TagId × TagRelation × TagId)) :
    (installRelations relations s added).1.dag = s.dag := by
  induction relations generalizing s added with
  | nil => rfl
  | cons relation rest ih =>
      obtain ⟨sourceName, kind, targetName⟩ := relation
      rw [installRelations]
      split
      · rfl
      · rcases s.names.lookup sourceName with _ | source
        · rfl
        rcases s.names.lookup targetName with _ | target
        · rfl
        exact ih _ _

/-- The inner installation keeps the graph valid, and when it succeeds the
chain condition has just been checked. -/
theorem install_inner_spec (topo : Toposort TagId) (s : OntologyState) (bundle : OntologyModule)
    (allocator : IdAllocator) (valid : s.dag.Valid) :
    (s.installInner topo bundle allocator).1.dag.Valid ∧
      ∀ res, (s.installInner topo bundle allocator).2.1 = .ok res →
        (s.installInner topo bundle allocator).1.AxisChains := by
  have registeredValid := register_tags_valid bundle.tags s allocator [] 0 valid
  rw [installInner]
  rcases registered : registerTags bundle.tags s allocator [] 0 with ⟨s₁, allocator₁, tags, skipped⟩
  rw [registered] at registeredValid
  have impliedValid := install_implications_valid topo bundle.implications s₁ [] registeredValid
  simp only
  rcases implied : installImplications topo bundle.implications s₁ [] with ⟨s₂, err | implications⟩
  · rw [implied] at impliedValid
    refine ⟨impliedValid, ?_⟩
    intro res impossible
    cases impossible
  rw [implied] at impliedValid
  have relatedDag := install_relations_dag bundle.relations s₂ []
  simp only
  rcases relation : installRelations bundle.relations s₂ [] with ⟨s₃, err | relations⟩
  · rw [relation] at relatedDag
    refine ⟨relatedDag ▸ impliedValid, ?_⟩
    intro res impossible
    cases impossible
  rw [relation] at relatedDag
  simp only
  rcases checked : s₃.checkAxisInvariant with err | _
  · refine ⟨relatedDag ▸ impliedValid, ?_⟩
    intro res impossible
    cases impossible
  · refine ⟨relatedDag ▸ impliedValid, fun res _ => ?_⟩
    exact (s₃.check_axis_invariant_ok_iff).mp checked

theorem install_cases (topo : Toposort TagId) (s : OntologyState) (bundle : OntologyModule)
    (allocator : IdAllocator) (valid : s.dag.Valid) :
    ((∃ err, (s.install topo bundle allocator).2.1 = .error err) ∧
        (s.install topo bundle allocator).1 = s) ∨
      ((∃ res, (s.install topo bundle allocator).2.1 = .ok res) ∧
        (s.install topo bundle allocator).1.dag.Valid ∧
        (s.install topo bundle allocator).1.AxisChains) := by
  rw [install]
  split
  · exact Or.inl ⟨⟨_, rfl⟩, rfl⟩
  · obtain ⟨innerValid, chains⟩ := s.install_inner_spec topo bundle allocator valid
    rcases outcome : s.installInner topo bundle allocator with ⟨s', err | res, allocator'⟩
    · exact Or.inl ⟨⟨err, rfl⟩, rfl⟩
    · rw [outcome] at innerValid chains
      exact Or.inr ⟨⟨res, rfl⟩, innerValid, chains res rfl⟩

theorem upgrade_cases (topo : Toposort TagId) (s : OntologyState) (bundle : OntologyModule)
    (valid : s.dag.Valid) :
    ((∃ err, (s.upgrade topo bundle).2 = .error err) ∧ (s.upgrade topo bundle).1 = s) ∨
      ((∃ res, (s.upgrade topo bundle).2 = .ok res) ∧
        (s.upgrade topo bundle).1.dag.Valid ∧ (s.upgrade topo bundle).1.AxisChains) := by
  rw [upgrade]
  rcases s.installedModules.lookup bundle.id with _ | previous
  · exact Or.inl ⟨⟨_, rfl⟩, rfl⟩
  simp only
  rcases s.removedName previous bundle with _ | name
  · simp only
    rcases bundle.tags.find? s.changesSemantics with _ | definition
    · simp only
      let bare : OntologyState := { s with installedModules := s.installedModules.erase bundle.id }
      obtain ⟨innerValid, chains⟩ :=
        bare.install_inner_spec topo bundle bare.freshAllocator valid
      rcases outcome : bare.installInner topo bundle bare.freshAllocator with
        ⟨s', err | res, allocator'⟩
      · exact Or.inl ⟨⟨err, rfl⟩, rfl⟩
      · rw [outcome] at innerValid chains
        exact Or.inr ⟨⟨_, rfl⟩, innerValid, chains res rfl⟩
    · exact Or.inl ⟨⟨_, rfl⟩, rfl⟩
  · exact Or.inl ⟨⟨_, rfl⟩, rfl⟩

/-- The scrub of `id` deletes `tag`: the module's record lists it and no other
record does. -/
def RemovesTag (s : OntologyState) (id : ModuleId) (tag : TagId) : Prop :=
  ∃ record, s.installedModules.lookup id = some record ∧ tag ∈ record.installedTags ∧
    ¬ claimed (s.installedModules.erase id) ModuleRecord.installedTags tag

def RemovesImplication (s : OntologyState) (id : ModuleId) (source target : TagId) : Prop :=
  ∃ record, s.installedModules.lookup id = some record ∧
    (source, target) ∈ record.installedImplications ∧
    ¬ claimed (s.installedModules.erase id) ModuleRecord.installedImplications (source, target)

/-- An implication that the scrub of `id` neither deletes itself nor loses with
one of its ends. -/
def SurvivingEdge (s : OntologyState) (id : ModuleId) (source target : TagId) : Prop :=
  s.dag.TagEdge source target ∧ ¬ s.RemovesImplication id source target ∧
    ¬ s.RemovesTag id source ∧ ¬ s.RemovesTag id target

/-- Any two remaining tags that declare one axis are still joined by a path of
implications that survive. -/
def ScrubKeepsChains (s : OntologyState) (id : ModuleId) : Prop :=
  ∀ axis a b, a ≠ b → s.declaresAxis axis a = true → s.declaresAxis axis b = true →
    ¬ s.RemovesTag id a → ¬ s.RemovesTag id b →
    ReflTransGen (s.SurvivingEdge id) a b ∨ ReflTransGen (s.SurvivingEdge id) b a

private theorem scrub_implications_spec (records : FMap ModuleId ModuleRecord)
    (edges : List (TagId × TagId)) (s : OntologyState) (valid : s.dag.Valid) :
    (edges.foldl (scrubImplication records) s).dag.Valid ∧
      (∀ a b, (edges.foldl (scrubImplication records) s).dag.TagEdge a b ↔
        s.dag.TagEdge a b ∧ ¬ ((a, b) ∈ edges ∧
          ¬ claimed records ModuleRecord.installedImplications (a, b))) ∧
      ∀ axis tag, (edges.foldl (scrubImplication records) s).declaresAxis axis tag =
        s.declaresAxis axis tag := by
  induction edges generalizing s with
  | nil => exact ⟨valid, by simp, fun _ _ => rfl⟩
  | cons edge rest ih =>
      rw [List.foldl_cons]
      by_cases shared : claimed records ModuleRecord.installedImplications edge
      · rw [scrubImplication, if_pos shared]
        obtain ⟨restValid, restEdges, restAxes⟩ := ih s valid
        refine ⟨restValid, ?_, restAxes⟩
        intro a b
        rw [restEdges, List.mem_cons]
        by_cases same : (a, b) = edge
        · simp [same, shared]
        · simp [same]
      · obtain ⟨removedValid, -, removedEdges⟩ :=
          s.dag.remove_implication_spec edge.1 edge.2 valid
        obtain ⟨restValid, restEdges, restAxes⟩ :=
          ih (scrubImplication records s edge)
            (by simpa only [scrubImplication, if_neg shared] using removedValid)
        refine ⟨restValid, ?_, ?_⟩
        · intro a b
          rw [restEdges, List.mem_cons]
          simp only [scrubImplication, if_neg shared, removedEdges]
          by_cases same : (a, b) = edge
          · simp [same, shared]
          · simp [same]
        · intro axis tag
          rw [restAxes]
          simp only [scrubImplication, if_neg shared, declaresAxis, lookup_update]
          split
          · rcases s.tags.lookup tag with _ | definition <;> rfl
          · rfl

theorem scrub_relations_frame (records : FMap ModuleId ModuleRecord)
    (edges : List (TagId × TagRelation × TagId)) (s : OntologyState) :
    (edges.foldl (scrubRelation records) s).dag = s.dag ∧
      (edges.foldl (scrubRelation records) s).tags = s.tags := by
  induction edges generalizing s with
  | nil => exact ⟨rfl, rfl⟩
  | cons edge rest ih =>
      rw [List.foldl_cons, (ih _).1, (ih _).2, scrubRelation]
      split
      · exact ⟨rfl, rfl⟩
      · exact ⟨rfl, rfl⟩

private theorem scrub_tags_spec (records : FMap ModuleId ModuleRecord) (tags : List TagId)
    (s : OntologyState × Nat) (valid : s.1.dag.Valid) :
    (tags.foldl (scrubTag records) s).1.dag.Valid ∧
      (∀ a b, (tags.foldl (scrubTag records) s).1.dag.TagEdge a b ↔
        s.1.dag.TagEdge a b ∧
          ¬ (a ∈ tags ∧ ¬ claimed records ModuleRecord.installedTags a) ∧
          ¬ (b ∈ tags ∧ ¬ claimed records ModuleRecord.installedTags b)) ∧
      ∀ axis tag, (tags.foldl (scrubTag records) s).1.declaresAxis axis tag = true ↔
        s.1.declaresAxis axis tag = true ∧
          ¬ (tag ∈ tags ∧ ¬ claimed records ModuleRecord.installedTags tag) := by
  induction tags generalizing s with
  | nil => exact ⟨valid, by simp, by simp⟩
  | cons first rest ih =>
      rw [List.foldl_cons]
      by_cases shared : claimed records ModuleRecord.installedTags first
      · have skip (tag : TagId) :
            (tag ∈ first :: rest ∧ ¬ claimed records ModuleRecord.installedTags tag) ↔
              (tag ∈ rest ∧ ¬ claimed records ModuleRecord.installedTags tag) := by
          rw [List.mem_cons]
          by_cases same : tag = first
          · simp [same, shared]
          · simp [same]
        rw [scrubTag, if_pos shared]
        simp only [skip]
        exact ih s valid
      · have drop (tag : TagId) :
            (tag ∈ first :: rest ∧ ¬ claimed records ModuleRecord.installedTags tag) ↔
              tag = first ∨ (tag ∈ rest ∧ ¬ claimed records ModuleRecord.installedTags tag) := by
          rw [List.mem_cons]
          by_cases same : tag = first
          · simp [same, shared]
          · simp [same]
        obtain ⟨removedValid, -, removedEdges⟩ := s.1.dag.remove_tag_spec first valid
        obtain ⟨restValid, restEdges, restAxes⟩ :=
          ih (scrubTag records s first)
            (by simpa only [scrubTag, if_neg shared] using removedValid)
        refine ⟨restValid, ?_, ?_⟩
        · intro a b
          rw [restEdges, drop, drop]
          simp only [scrubTag, if_neg shared, removedEdges]
          tauto
        · intro axis tag
          rw [restAxes, drop]
          simp only [scrubTag, if_neg shared, declaresAxis, lookup_erase_eq]
          by_cases same : tag = first
          · simp [same]
          · simp [same]

theorem scrub_spec (s : OntologyState) (id : ModuleId) (valid : s.dag.Valid) :
    (s.scrub id).1.dag.Valid ∧
      (∀ a b, (s.scrub id).1.dag.TagEdge a b ↔ s.SurvivingEdge id a b) ∧
      ∀ axis tag, (s.scrub id).1.declaresAxis axis tag = true ↔
        s.declaresAxis axis tag = true ∧ ¬ s.RemovesTag id tag := by
  rcases found : s.installedModules.lookup id with _ | record
  · have unchanged : (s.scrub id).1 = s := by simp [scrub, found]
    rw [unchanged]
    refine ⟨valid, ?_, ?_⟩
    · intro a b
      simp [SurvivingEdge, RemovesImplication, RemovesTag, found]
    · intro axis tag
      simp [RemovesTag, found]
  · let records := s.installedModules.erase id
    let s₁ : OntologyState := { s with installedModules := records }
    let s₂ := record.installedImplications.foldl (scrubImplication records) s₁
    let s₃ := record.installedRelations.foldl (scrubRelation records) s₂
    have final : (s.scrub id).1 = (record.installedTags.foldl (scrubTag records) (s₃, 0)).1 := by
      simp [scrub, found, s₃, s₂, s₁, records]
    have removesTag (tag : TagId) : s.RemovesTag id tag ↔
        tag ∈ record.installedTags ∧ ¬ claimed records ModuleRecord.installedTags tag := by
      simp [RemovesTag, found, records]
    have removesImplication (a b : TagId) : s.RemovesImplication id a b ↔
        (a, b) ∈ record.installedImplications ∧
          ¬ claimed records ModuleRecord.installedImplications (a, b) := by
      simp [RemovesImplication, found, records]
    obtain ⟨valid₂, edges₂, axes₂⟩ :=
      scrub_implications_spec records record.installedImplications s₁ valid
    obtain ⟨dag₃, tags₃⟩ := scrub_relations_frame records record.installedRelations s₂
    have valid₃ : s₃.dag.Valid := by
      rw [dag₃]
      exact valid₂
    obtain ⟨valid₄, edges₄, axes₄⟩ :=
      scrub_tags_spec records record.installedTags (s₃, 0) valid₃
    rw [final]
    refine ⟨valid₄, ?_, ?_⟩
    · intro a b
      rw [edges₄, dag₃, edges₂, SurvivingEdge, removesImplication, removesTag, removesTag, and_assoc]
    · intro axis tag
      have same : s₃.declaresAxis axis tag = s.declaresAxis axis tag := by
        rw [declaresAxis, tags₃]
        exact axes₂ axis tag
      rw [axes₄, removesTag, same]

/-- Between distinct tags `is_a` is reachability: the ends of a path are nodes. -/
theorem is_a_iff_reaches (d : ImplicationDag) (indexed : d.Indexed) (a b : TagId)
    (different : a ≠ b) : d.isA a b = true ↔ d.Reaches a b := by
  rw [d.is_a_spec indexed]
  refine ⟨fun found => found.2.2, fun path => ?_⟩
  rcases ReflTransGen.cases_head path with same | ⟨next, edge, -⟩
  · exact absurd same different
  · obtain ⟨i, j, left, -, -⟩ := (d.tag_edge_iff indexed a next).mp edge
    have node : d.IsNode a := (d.is_node_iff a).mpr ⟨i, left⟩
    exact ⟨node, d.target_is_node indexed a b node path, path⟩

theorem scrub_chains_iff (s : OntologyState) (id : ModuleId) (valid : s.dag.Valid) :
    (s.scrub id).1.AxisChains ↔ s.ScrubKeepsChains id := by
  obtain ⟨scrubValid, edges, axes⟩ := s.scrub_spec id valid
  have sameEdges : (s.scrub id).1.dag.TagEdge = s.SurvivingEdge id := by
    funext a b
    exact propext (edges a b)
  have paths (a b : TagId) (different : a ≠ b) :
      (s.scrub id).1.dag.isA a b = true ↔ ReflTransGen (s.SurvivingEdge id) a b := by
    rw [is_a_iff_reaches _ scrubValid.toIndexed a b different, ImplicationDag.Reaches, sameEdges]
  constructor
  · intro chains axis a b different left right aKept bKept
    have related := chains axis a b different ((axes axis a).mpr ⟨left, aKept⟩)
      ((axes axis b).mpr ⟨right, bKept⟩)
    rwa [paths a b different, paths b a (Ne.symm different)] at related
  · intro kept axis a b different left right
    rw [paths a b different, paths b a (Ne.symm different)]
    obtain ⟨leftOld, aKept⟩ := (axes axis a).mp left
    obtain ⟨rightOld, bKept⟩ := (axes axis b).mp right
    exact kept axis a b different leftOld rightOld aKept bKept

private theorem scrub_error_unchanged (s : OntologyState) (id : ModuleId) (err : OntologyError)
    (failed : (s.scrub id).2 = .error err) : (s.scrub id).1 = s := by
  rcases found : s.installedModules.lookup id with _ | record
  · simp [scrub, found]
  · simp [scrub, found] at failed

inductive LifecycleOp where
  | install (bundle : OntologyModule) (allocator : IdAllocator)
  | upgrade (bundle : OntologyModule)
  | scrub (id : ModuleId)

/-- The state after a call and whether the call succeeded. -/
def step (topo : Toposort TagId) (s : OntologyState) :
    LifecycleOp → OntologyState × Except OntologyError Unit
  | .install bundle allocator =>
      let outcome := s.install topo bundle allocator
      (outcome.1, outcome.2.1.map fun _ => ())
  | .upgrade bundle =>
      let outcome := s.upgrade topo bundle
      (outcome.1, outcome.2.map fun _ => ())
  | .scrub id =>
      let outcome := s.scrub id
      (outcome.1, outcome.2.map fun _ => ())

def run (topo : Toposort TagId) (s : OntologyState) (ops : List LifecycleOp) : OntologyState :=
  ops.foldl (fun s op => (step topo s op).1) s

private theorem new_chains : new.AxisChains := by
  intro axis a b different left
  simp [declaresAxis, new] at left

theorem step_valid (topo : Toposort TagId) (s : OntologyState) (op : LifecycleOp)
    (valid : s.dag.Valid) : (step topo s op).1.dag.Valid := by
  cases op with
  | install bundle allocator =>
      rcases s.install_cases topo bundle allocator valid with ⟨-, unchanged⟩ | ⟨-, kept, -⟩
      · rw [step, unchanged]
        exact valid
      · exact kept
  | upgrade bundle =>
      rcases s.upgrade_cases topo bundle valid with ⟨-, unchanged⟩ | ⟨-, kept, -⟩
      · rw [step, unchanged]
        exact valid
      · exact kept
  | scrub id => exact (s.scrub_spec id valid).1

private theorem run_valid (topo : Toposort TagId) (s : OntologyState) (ops : List LifecycleOp)
    (valid : s.dag.Valid) : (run topo s ops).dag.Valid := by
  induction ops generalizing s with
  | nil => exact valid
  | cons op rest ih => exact ih _ (step_valid topo s op valid)

theorem step_error_unchanged (topo : Toposort TagId) (s : OntologyState) (op : LifecycleOp)
    (err : OntologyError) (valid : s.dag.Valid) (failed : (step topo s op).2 = .error err) :
    (step topo s op).1 = s := by
  cases op with
  | install bundle allocator =>
      rcases s.install_cases topo bundle allocator valid with ⟨-, unchanged⟩ | ⟨⟨res, ok⟩, -⟩
      · exact unchanged
      · simp [step, ok, Except.map] at failed
  | upgrade bundle =>
      rcases s.upgrade_cases topo bundle valid with ⟨-, unchanged⟩ | ⟨⟨res, ok⟩, -⟩
      · exact unchanged
      · simp [step, ok, Except.map] at failed
  | scrub id =>
      rcases outcome : (s.scrub id).2 with err' | removed
      · exact s.scrub_error_unchanged id err' outcome
      · simp [step, outcome, Except.map] at failed

theorem step_chains (topo : Toposort TagId) (s : OntologyState) (op : LifecycleOp)
    (valid : s.dag.Valid) (chains : s.AxisChains)
    (kept : ∀ id, op = .scrub id → s.ScrubKeepsChains id) : (step topo s op).1.AxisChains := by
  cases op with
  | install bundle allocator =>
      rcases s.install_cases topo bundle allocator valid with ⟨-, unchanged⟩ | ⟨-, -, checked⟩
      · rw [step, unchanged]
        exact chains
      · exact checked
  | upgrade bundle =>
      rcases s.upgrade_cases topo bundle valid with ⟨-, unchanged⟩ | ⟨-, -, checked⟩
      · rw [step, unchanged]
        exact chains
      · exact checked
  | scrub id => exact (s.scrub_chains_iff id valid).mpr (kept id rfl)

private theorem run_chains (topo : Toposort TagId) (s : OntologyState) (ops : List LifecycleOp)
    (valid : s.dag.Valid) (chains : s.AxisChains)
    (kept : ∀ taken id rest, ops = taken ++ .scrub id :: rest →
      (run topo s taken).ScrubKeepsChains id) : (run topo s ops).AxisChains := by
  induction ops generalizing s with
  | nil => exact chains
  | cons op rest ih =>
      apply ih _ (step_valid topo s op valid)
      · apply step_chains topo s op valid chains
        rintro id rfl
        exact kept [] id rest rfl
      · intro taken id later split
        exact kept (op :: taken) id later (by rw [split]; rfl)

/-- Over every lifecycle: the chain condition holds in every state reached
exactly when every scrub meets `ScrubKeepsChains` in the state before it, and
a call that fails leaves the state as it was. -/
theorem lifecycle_chains_iff_scrubs_keep (topo : Toposort TagId) (ops : List LifecycleOp) :
    ((∀ taken rest, ops = taken ++ rest → (run topo new taken).AxisChains) ↔
      ∀ taken id rest, ops = taken ++ .scrub id :: rest →
        (run topo new taken).ScrubKeepsChains id) ∧
    ∀ taken op rest err, ops = taken ++ op :: rest →
      (step topo (run topo new taken) op).2 = .error err →
        (step topo (run topo new taken) op).1 = run topo new taken := by
  have valid (taken : List LifecycleOp) : (run topo new taken).dag.Valid :=
    run_valid topo new taken ImplicationDag.new_valid
  refine ⟨⟨?_, ?_⟩, ?_⟩
  · intro chains taken id rest split
    have after := chains (taken ++ [.scrub id]) rest (by simp [split])
    rw [run, List.foldl_append] at after
    exact (OntologyState.scrub_chains_iff _ id (valid taken)).mp after
  · intro kept taken rest split
    apply run_chains topo new taken ImplicationDag.new_valid new_chains
    intro earlier id later inner
    exact kept earlier id (later ++ rest) (by simp [split, inner])
  · intro taken op rest err _ failed
    exact step_error_unchanged topo _ op err (valid taken) failed

/-- A label that declares the chunking axis. -/
private def chunkedLabel (name : String) : TagDefinition :=
  { id := 0
    name := name
    semantics := .label
    implies := []
    storage := some
      { chunking := some { algo := .fastCDC, minSize := 16384, avgSize := 65536, maxSize := 262144 }
        compression := none
        encryption := none } }

private def plainLabel (name : String) : TagDefinition :=
  { id := 0
    name := name
    semantics := .label
    implies := []
    storage := none }

/-- Three modules, the second of which carries the middle of a chain
`photo → media → file` between tags of the other two, and the scrub of that
module. The tags get the ids 1, 2 and 3 in this order: file, media, photo. -/
def chainThroughScrubbedModule : List LifecycleOp :=
  [.install
      { id := "base", version := "1", name := "base", tags := [chunkedLabel "file"]
        implications := [], relations := [] } (IdAllocator.startingAt 1),
    .install
      { id := "middle", version := "1", name := "middle", tags := [plainLabel "media"]
        implications := [("media", "file")], relations := [] } (IdAllocator.startingAt 2),
    .install
      { id := "leaf", version := "1", name := "leaf", tags := [chunkedLabel "photo"]
        implications := [("photo", "media")], relations := [] } (IdAllocator.startingAt 3),
    .scrub "middle"]

/-- The scrub succeeds and leaves two tags that declare the chunking axis and
are not related. -/
theorem scrub_breaks_chain :
    (step Toposort.byReachability
        (run Toposort.byReachability new (chainThroughScrubbedModule.take 3))
        (.scrub "middle")).2 = .ok () ∧
      ¬ (run Toposort.byReachability new chainThroughScrubbedModule).AxisChains := by
  refine ⟨by decide +kernel, ?_⟩
  intro chains
  have unrelated :
      (run Toposort.byReachability new chainThroughScrubbedModule).declaresAxis .chunking 1 = true ∧
        (run Toposort.byReachability new chainThroughScrubbedModule).declaresAxis .chunking 3 =
          true ∧
        (run Toposort.byReachability new chainThroughScrubbedModule).dag.isA 1 3 = false ∧
        (run Toposort.byReachability new chainThroughScrubbedModule).dag.isA 3 1 = false := by
    decide +kernel
  obtain ⟨left, right, down, up⟩ := unrelated
  rcases chains .chunking 1 3 (by decide) left right with related | related
  · rw [down] at related
    cases related
  · rw [up] at related
    cases related

end Mimisbrunnr.Ontology.OntologyState
