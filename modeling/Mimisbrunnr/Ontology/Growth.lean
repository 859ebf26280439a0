import Mimisbrunnr.Ontology.Lifecycle

/-!
# Installing a module only adds

Nodes and edges of the implication graph stay when a module is installed, and so
does everything that a tag implies.
-/

namespace Mimisbrunnr.Ontology

set_option autoImplicit false

open Relation
open Mimisbrunnr.Lib.Digraph
open Mimisbrunnr.Lib.FiniteMap
open Mimisbrunnr.Types

namespace ImplicationDag

structure Extends (d grown : ImplicationDag) : Prop where
  nodes : ∀ tag, d.IsNode tag → grown.IsNode tag
  edges : ∀ a b, d.TagEdge a b → grown.TagEdge a b

theorem Extends.refl (d : ImplicationDag) : Extends d d := ⟨fun _ node => node, fun _ _ edge => edge⟩

theorem Extends.trans {first second third : ImplicationDag} (left : Extends first second)
    (right : Extends second third) : Extends first third :=
  ⟨fun tag node => right.nodes tag (left.nodes tag node),
    fun a b edge => right.edges a b (left.edges a b edge)⟩

private theorem extends_add_tag (d : ImplicationDag) (tag : TagId) (valid : d.Valid) :
    Extends d (d.addTag tag) := by
  constructor
  · intro other node
    exact (d.is_node_add_tag tag other).mpr (Or.inr node)
  · intro a b edge
    exact (d.tag_edge_add_tag tag a b valid.toIndexed).mpr edge

private theorem extends_add_implication (topo : Toposort TagId) (d : ImplicationDag)
    (source target : TagId) (valid : d.Valid) :
    Extends d (d.addImplication topo source target).2 := by
  rcases d.add_implication_cases topo source target valid with refused | accepted
  · obtain ⟨err, outcome, _⟩ := refused
    rw [outcome]
    exact Extends.refl d
  · obtain ⟨grown, outcome, _, _, _, _, nodes, edges⟩ := accepted
    rw [outcome]
    constructor
    · intro tag node
      rw [IsNode, nodes]
      exact node
    · intro a b edge
      exact (edges a b).mpr (Or.inl edge)

theorem closure_mono {d grown : ImplicationDag} (valid : d.Valid) (stillValid : grown.Valid)
    (extended : Extends d grown) (direct : List TagId) (tag : TagId)
    (implied : tag ∈ d.closure direct) : tag ∈ grown.closure direct := by
  obtain ⟨start, listed, node, path⟩ := ((d.closure_spec valid.toIndexed direct).2 tag).mp implied
  apply ((grown.closure_spec stillValid.toIndexed direct).2 tag).mpr
  exact ⟨start, listed, extended.nodes start node, ReflTransGen.mono extended.edges start tag path⟩

end ImplicationDag

namespace OntologyState

open ImplicationDag

private theorem register_tags_extends (definitions : List TagDefinition) (s : OntologyState)
    (allocator : IdAllocator) (registered : List TagId) (skipped : Nat) (valid : s.dag.Valid) :
    Extends s.dag (registerTags definitions s allocator registered skipped).1.dag := by
  induction definitions generalizing s allocator registered skipped with
  | nil => exact Extends.refl s.dag
  | cons definition rest ih =>
      rw [registerTags]
      split
      · exact ih s _ _ _ valid
      · let id := allocator.next
        exact (s.dag.extends_add_tag id valid).trans
          (ih
            { s with
              dag := s.dag.addTag id
              names := s.names.insert definition.name id
              tags := s.tags.insert id { definition with id := id } }
            _ _ _ (s.dag.add_tag_valid id valid))

private theorem install_implications_extends (topo : Toposort TagId)
    (implications : List (String × String)) (s : OntologyState) (added : List (TagId × TagId))
    (valid : s.dag.Valid) :
    Extends s.dag (installImplications topo implications s added).1.dag := by
  induction implications generalizing s added with
  | nil => exact Extends.refl s.dag
  | cons implication rest ih =>
      obtain ⟨sourceName, targetName⟩ := implication
      rw [installImplications]
      rcases s.names.lookup sourceName with _ | source
      · exact Extends.refl s.dag
      rcases s.names.lookup targetName with _ | target
      · exact Extends.refl s.dag
      have grown := s.dag.add_implication_valid topo source target valid
      have extended := s.dag.extends_add_implication topo source target valid
      simp only
      rcases outcome : s.dag.addImplication topo source target with ⟨err | _, dag⟩
      · rw [outcome] at extended
        exact extended
      · rw [outcome] at grown extended
        exact extended.trans
          (ih { s with dag := dag, tags := recordImplies s.tags source target } _ grown)

private theorem install_inner_extends (topo : Toposort TagId) (s : OntologyState)
    (bundle : OntologyModule) (allocator : IdAllocator) (valid : s.dag.Valid) :
    Extends s.dag (s.installInner topo bundle allocator).1.dag := by
  have extended := register_tags_extends bundle.tags s allocator [] 0 valid
  have registeredValid := register_tags_valid bundle.tags s allocator [] 0 valid
  rw [installInner]
  rcases registered : registerTags bundle.tags s allocator [] 0 with ⟨s₁, allocator₁, tags, skipped⟩
  rw [registered] at extended registeredValid
  have impliedExtends := extended.trans
    (install_implications_extends topo bundle.implications s₁ [] registeredValid)
  simp only
  rcases implied : installImplications topo bundle.implications s₁ [] with ⟨s₂, err | implications⟩
  · rw [implied] at impliedExtends
    exact impliedExtends
  rw [implied] at impliedExtends
  have relatedDag := install_relations_dag bundle.relations s₂ []
  simp only
  rcases relation : installRelations bundle.relations s₂ [] with ⟨s₃, err | relations⟩
  · rw [relation] at relatedDag
    exact relatedDag ▸ impliedExtends
  rw [relation] at relatedDag
  simp only
  rcases s₃.checkAxisInvariant with err | _
  · exact relatedDag ▸ impliedExtends
  · exact relatedDag ▸ impliedExtends

theorem install_extends (topo : Toposort TagId) (s : OntologyState) (bundle : OntologyModule)
    (allocator : IdAllocator) (valid : s.dag.Valid) :
    Extends s.dag (s.install topo bundle allocator).1.dag := by
  have inner := install_inner_extends topo s bundle allocator valid
  rw [install]
  split
  · exact Extends.refl s.dag
  · rcases outcome : s.installInner topo bundle allocator with ⟨after, err | res, rest⟩
    · exact Extends.refl s.dag
    · rw [outcome] at inner
      exact inner

end OntologyState

end Mimisbrunnr.Ontology
