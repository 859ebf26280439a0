import Mathlib.Data.List.Sort
import Mimisbrunnr.Lib.Chains
import Mimisbrunnr.Ontology.DagRuns
import Mimisbrunnr.Ontology.Lifecycle

/-!
# Resolving the storage policy

Where the tags that declare an axis form a chain, those of a closure have one that
implies all the others, and `most_derived` finds it. What is resolved depends on
the object's tags only as a set.
-/

namespace Mimisbrunnr.Ontology.OntologyState

set_option autoImplicit false

open Relation
open Mimisbrunnr.Lib
open Mimisbrunnr.Lib.Digraph
open Mimisbrunnr.Lib.Chains
open Mimisbrunnr.Lib.FiniteMap
open Mimisbrunnr.Types

def InClosure (s : OntologyState) (objectTags : List TagId) (tag : TagId) : Prop :=
  ∃ direct ∈ objectTags, s.dag.IsNode direct ∧ s.dag.Reaches direct tag

/-- A tag of the closure that declares the axis and implies every other one that does. -/
structure MostDerived (s : OntologyState) (objectTags : List TagId) (axis : StorageAxis)
    (tag : TagId) : Prop where
  inside : s.InClosure objectTags tag
  declares : s.declaresAxis axis tag = true
  implies : ∀ other, s.InClosure objectTags other → s.declaresAxis axis other = true →
    other ≠ tag → s.dag.Reaches tag other

/-- The value is the one that the only most derived tag declares, or the default where no tag of
the closure declares one. -/
def ResolvesTo {α : Type} (s : OntologyState) (objectTags : List TagId) (axis : StorageAxis)
    (select : StoragePolicy → Option α) (default value : Option α) : Prop :=
  (∃ tag, s.MostDerived objectTags axis tag ∧
      (∀ other, s.MostDerived objectTags axis other → other = tag) ∧
      ∃ policy declared, s.policyOf tag = some policy ∧ select policy = some declared ∧
        value = some declared) ∨
    (∀ tag, s.InClosure objectTags tag → s.declaresAxis axis tag = false) ∧ value = default

theorem mem_materialise (s : OntologyState) (valid : s.dag.Valid) (objectTags : List TagId)
    (tag : TagId) : tag ∈ s.materialise objectTags ↔ s.InClosure objectTags tag :=
  (s.dag.closure_spec valid.toIndexed objectTags).2 tag

private theorem in_closure_node (s : OntologyState) (valid : s.dag.Valid) (objectTags : List TagId)
    (tag : TagId) (inside : s.InClosure objectTags tag) : s.dag.IsNode tag := by
  obtain ⟨direct, _, node, path⟩ := inside
  exact s.dag.target_is_node valid.toIndexed direct tag node path

theorem is_a_antisymm (s : OntologyState) (valid : s.dag.Valid) (left right : TagId)
    (first : s.dag.isA left right = true) (second : s.dag.isA right left = true) :
    left = right := by
  have indexed := valid.toIndexed
  have there := ((s.dag.is_a_spec indexed left right).mp first).2.2
  have back := ((s.dag.is_a_spec indexed right left).mp second).2.2
  by_contra different
  cases reflTransGen_iff_eq_or_transGen.mp there with
  | inl same => exact different same.symm
  | inr path =>
      exact (s.dag.acyclic_iff_tags indexed).mp valid.acyclic left
        (TransGen.trans_left path back)

private theorem is_a_trans (s : OntologyState) (valid : s.dag.Valid) (left middle right : TagId)
    (first : s.dag.isA left middle = true) (second : s.dag.isA middle right = true) :
    s.dag.isA left right = true := by
  have indexed := valid.toIndexed
  have there := (s.dag.is_a_spec indexed left middle).mp first
  have further := (s.dag.is_a_spec indexed middle right).mp second
  exact (s.dag.is_a_spec indexed left right).mpr
    ⟨there.1, further.2.1, ReflTransGen.trans there.2.2 further.2.2⟩

def declaringIn (s : OntologyState) (objectTags : List TagId) (axis : StorageAxis) : List TagId :=
  (s.materialise objectTags).filter fun tag => s.declaresAxis axis tag

theorem mem_declaring_in (s : OntologyState) (valid : s.dag.Valid) (objectTags : List TagId)
    (axis : StorageAxis) (tag : TagId) :
    tag ∈ s.declaringIn objectTags axis ↔
      s.InClosure objectTags tag ∧ s.declaresAxis axis tag = true := by
  rw [declaringIn, List.mem_filter, s.mem_materialise valid]

private theorem is_top_iff (s : OntologyState) (valid : s.dag.Valid) (objectTags : List TagId)
    (axis : StorageAxis) (tag : TagId) :
    IsTop (fun a b => s.dag.isA a b = true) (s.declaringIn objectTags axis) tag ↔
      s.MostDerived objectTags axis tag := by
  have indexed := valid.toIndexed
  constructor
  · intro isTop
    have member := (s.mem_declaring_in valid objectTags axis tag).mp isTop.member
    refine { inside := member.1, declares := member.2, implies := ?_ }
    intro other inside declared different
    have dominates := isTop.dominates other
      ((s.mem_declaring_in valid objectTags axis other).mpr ⟨inside, declared⟩) different
    exact ((s.dag.is_a_spec indexed tag other).mp dominates).2.2
  · intro derived
    constructor
    · exact (s.mem_declaring_in valid objectTags axis tag).mpr ⟨derived.inside, derived.declares⟩
    · intro other member different
      have parts := (s.mem_declaring_in valid objectTags axis other).mp member
      exact (s.dag.is_a_spec indexed tag other).mpr
        ⟨s.in_closure_node valid objectTags tag derived.inside,
          s.in_closure_node valid objectTags other parts.1,
          derived.implies other parts.1 parts.2 different⟩

/-- Where the declaring tags form a chain, the search finds the most derived one. -/
theorem most_derived_spec (s : OntologyState) (valid : s.dag.Valid) (chains : s.AxisChains)
    (objectTags : List TagId) (axis : StorageAxis) :
    (∃ tag, s.mostDerived (s.materialise objectTags) axis = some tag ∧
        s.MostDerived objectTags axis tag ∧
        ∀ other, s.MostDerived objectTags axis other → other = tag) ∨
      s.mostDerived (s.materialise objectTags) axis = none ∧
        ∀ tag, s.InClosure objectTags tag → s.declaresAxis axis tag = false := by
  have same : s.mostDerived (s.materialise objectTags) axis =
      ((s.declaringIn objectTags axis).find? fun candidate =>
        (s.declaringIn objectTags axis).all fun other =>
          other = candidate || !s.dag.isA other candidate).or
        (s.declaringIn objectTags axis).min? := by
    rw [mostDerived, ← declaringIn]
    split
    · next candidate found => rw [found, Option.some_or]
    · next missing => rw [missing, Option.none_or]
  by_cases empty : s.declaringIn objectTags axis = []
  · right
    constructor
    · rw [same, empty]
      rfl
    · intro tag inside
      rw [← Bool.not_eq_true]
      intro declared
      have member := (s.mem_declaring_in valid objectTags axis tag).mpr ⟨inside, declared⟩
      rw [empty] at member
      cases member
  · left
    have chain (a : TagId) (first : a ∈ s.declaringIn objectTags axis) (b : TagId)
        (second : b ∈ s.declaringIn objectTags axis) (different : a ≠ b) :=
      chains axis a b different ((s.mem_declaring_in valid objectTags axis a).mp first).2
        ((s.mem_declaring_in valid objectTags axis b).mp second).2
    obtain ⟨tag, isTop⟩ := exists_top (fun a b => s.dag.isA a b = true) (s.is_a_trans valid)
      (s.declaringIn objectTags axis) chain empty
    refine ⟨tag, ?_, (s.is_top_iff valid objectTags axis tag).mp isTop, ?_⟩
    · rw [same, find_undominated s.dag.isA _ tag (s.is_a_antisymm valid) isTop, Option.some_or]
    · intro other derived
      exact top_unique _ _ (s.is_a_antisymm valid) other tag
        ((s.is_top_iff valid objectTags axis other).mpr derived) isTop

/-- One axis of the resolution. -/
theorem resolves_axis {α : Type} (s : OntologyState) (valid : s.dag.Valid) (chains : s.AxisChains)
    (objectTags : List TagId) (axis : StorageAxis) (select : StoragePolicy → Option α)
    (selects : ∀ policy, declares axis policy = (select policy).isSome) (default : Option α) :
    s.ResolvesTo objectTags axis select default
      (match s.mostDerived (s.materialise objectTags) axis with
        | some tag => (s.policyOf tag).bind select
        | none => default) := by
  cases s.most_derived_spec valid chains objectTags axis with
  | inl found =>
      obtain ⟨tag, result, derived, unique⟩ := found
      obtain ⟨definition, stored, sets⟩ := (Option.any_eq_true _ _).mp derived.declares
      obtain ⟨policy, has, set_⟩ := (Option.any_eq_true _ _).mp sets
      rw [selects] at set_
      obtain ⟨declared, chosen⟩ := Option.isSome_iff_exists.mp set_
      have policyIs : s.policyOf tag = some policy := by
        rw [policyOf, stored]
        exact has
      rw [result]
      apply Or.inl
      refine ⟨tag, derived, unique, policy, declared, policyIs, chosen, ?_⟩
      dsimp only
      rw [policyIs]
      exact chosen
  | inr none_ =>
      rw [none_.1]
      exact Or.inr ⟨none_.2, rfl⟩

theorem materialise_congr (s : OntologyState) (valid : s.dag.Valid) (left right : List TagId)
    (same : ∀ tag, tag ∈ left ↔ tag ∈ right) : s.materialise left = s.materialise right := by
  have first := s.dag.closure_spec valid.toIndexed left
  have second := s.dag.closure_spec valid.toIndexed right
  apply first.1.eq_of_mem_iff second.1
  intro tag
  rw [first.2, second.2]
  simp only [same]

/-- Over a graph that the calls on graphs make, and with chains of declaring tags, each axis gets
what its most derived tag declares, for every list of the same tags. -/
theorem resolve_policy_most_derived (s : OntologyState) (topo : Toposort TagId)
    (ops : List ImplicationDag.DagOp)
    (built : s.dag = ImplicationDag.run topo ImplicationDag.new ops)
    (invariant : s.checkAxisInvariant = .ok ()) (objectTags : List TagId)
    (default : StoragePolicy) :
    s.ResolvesTo objectTags .chunking StoragePolicy.chunking default.chunking
        (s.resolvePolicy objectTags default).chunking ∧
      s.ResolvesTo objectTags .compression StoragePolicy.compression default.compression
        (s.resolvePolicy objectTags default).compression ∧
      s.ResolvesTo objectTags .encryption StoragePolicy.encryption default.encryption
        (s.resolvePolicy objectTags default).encryption ∧
      ∀ others, (∀ tag, tag ∈ others ↔ tag ∈ objectTags) →
        s.resolvePolicy others default = s.resolvePolicy objectTags default := by
  have valid : s.dag.Valid := by
    rw [built]
    exact ImplicationDag.run_valid topo ImplicationDag.new ops ImplicationDag.new_valid
  have chains := (s.check_axis_invariant_ok_iff).mp invariant
  refine ⟨?_, ?_, ?_, ?_⟩
  · exact s.resolves_axis valid chains objectTags .chunking _ (fun _ => rfl) _
  · exact s.resolves_axis valid chains objectTags .compression _ (fun _ => rfl) _
  · exact s.resolves_axis valid chains objectTags .encryption _ (fun _ => rfl) _
  · intro others same
    unfold resolvePolicy
    rw [s.materialise_congr valid others objectTags same]

def derivedDag : List ImplicationDag.DagOp := [.addTag 1, .addTag 2, .addImplication 2 1]

def declaringTag (id : TagId) (level : Int) : TagDefinition :=
  { id := id
    name := ""
    semantics := .label
    implies := []
    storage := some
      { chunking := none
        compression := some (.zstd level)
        encryption := none } }

/-- Both tags declare a compression. -/
def derivedState : OntologyState :=
  { new with
    dag := ImplicationDag.run Toposort.byReachability ImplicationDag.new derivedDag
    tags := (new.tags.insert 1 (declaringTag 1 3)).insert 2 (declaringTag 2 19) }

def plainPolicy : StoragePolicy :=
  { chunking := none
    compression := some .lz4
    encryption := some .none }

theorem derived_state_resolved :
    derivedState.checkAxisInvariant = .ok () ∧
      (derivedState.resolvePolicy [1, 2, 1] plainPolicy).compression = some (.zstd 19) ∧
      derivedState.ResolvesTo [1, 2, 1] .compression StoragePolicy.compression
        plainPolicy.compression (derivedState.resolvePolicy [1, 2, 1] plainPolicy).compression := by
  have invariant : derivedState.checkAxisInvariant = .ok () := by decide +kernel
  have resolved := resolve_policy_most_derived derivedState Toposort.byReachability derivedDag rfl
    invariant [1, 2, 1] plainPolicy
  exact ⟨invariant, by decide +kernel, resolved.2.1⟩

end Mimisbrunnr.Ontology.OntologyState
