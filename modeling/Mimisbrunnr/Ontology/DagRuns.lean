import Mimisbrunnr.Ontology.DagInvariant

/-!
# Histories of the implication graph

A history is a list of the public mutations of `ImplicationDag`, including the
replacement of the graph by one rebuilt from a snapshot, either a given one or
the snapshot of the graph itself. Every history keeps `Valid`, and a snapshot
of a valid graph always reloads to the same tags and edges.
-/

namespace Mimisbrunnr.Ontology.ImplicationDag

set_option autoImplicit false

open Relation
open Mimisbrunnr.Lib
open Mimisbrunnr.Lib.Digraph
open Mimisbrunnr.Types

inductive DagOp where
  | addTag (tag : TagId)
  | addImplication (source target : TagId)
  | removeImplication (source target : TagId)
  | removeTag (tag : TagId)
  | load (snap : DagSnapshot)
  | reload

/-- A refused snapshot yields no graph; the history goes on with the old one. -/
def loadOr (topo : Toposort TagId) (d : ImplicationDag) (snap : DagSnapshot) : ImplicationDag :=
  match fromSnapshot topo snap with
  | .ok loaded => loaded
  | .error _ => d

def step (topo : Toposort TagId) (d : ImplicationDag) : DagOp → ImplicationDag
  | .addTag tag => d.addTag tag
  | .addImplication source target => (d.addImplication topo source target).2
  | .removeImplication source target => d.removeImplication source target
  | .removeTag tag => d.removeTag tag
  | .load snap => d.loadOr topo snap
  | .reload => d.loadOr topo d.snapshot

def run (topo : Toposort TagId) (d : ImplicationDag) (ops : List DagOp) : ImplicationDag :=
  ops.foldl (step topo) d

theorem add_implication_valid (topo : Toposort TagId) (d : ImplicationDag) (source target : TagId)
    (valid : d.Valid) : (d.addImplication topo source target).2.Valid := by
  rcases d.add_implication_cases topo source target valid with
    ⟨err, refused, -⟩ | ⟨grown, accepted, -, -, -, grownValid, -⟩
  · rw [refused]
    exact valid
  · rw [accepted]
    exact grownValid

theorem add_tags_spec (d : ImplicationDag) (tags : List TagId) (valid : d.Valid) :
    (tags.foldl addTag d).Valid ∧
      (∀ tag, (tags.foldl addTag d).IsNode tag ↔ tag ∈ tags ∨ d.IsNode tag) ∧
      ∀ a b, (tags.foldl addTag d).TagEdge a b ↔ d.TagEdge a b := by
  induction tags generalizing d with
  | nil => exact ⟨valid, by simp, fun a b => Iff.rfl⟩
  | cons first rest ih =>
      obtain ⟨restValid, nodes, edges⟩ := ih (d.addTag first) (d.add_tag_valid first valid)
      refine ⟨restValid, ?_, ?_⟩
      · intro tag
        rw [List.foldl_cons, nodes, is_node_add_tag, List.mem_cons]
        tauto
      · intro a b
        rw [List.foldl_cons, edges, tag_edge_add_tag d first a b valid.toIndexed]

private theorem add_implications_valid (topo : Toposort TagId) (d loaded : ImplicationDag)
    (edges : List (TagId × TagId)) (valid : d.Valid)
    (completed : d.addImplications topo edges = .ok loaded) : loaded.Valid := by
  induction edges generalizing d with
  | nil =>
      cases completed
      exact valid
  | cons edge rest ih =>
      obtain ⟨source, target⟩ := edge
      simp only [addImplications] at completed
      rcases d.add_implication_cases topo source target valid with
        ⟨err, refused, -⟩ | ⟨grown, accepted, -, -, -, grownValid, -⟩
      · rw [refused] at completed
        cases completed
      · rw [accepted] at completed
        exact ih grown grownValid completed

theorem from_snapshot_valid (topo : Toposort TagId) (snap : DagSnapshot) (loaded : ImplicationDag)
    (completed : fromSnapshot topo snap = .ok loaded) : loaded.Valid :=
  add_implications_valid topo _ loaded snap.edges (add_tags_spec new snap.tags new_valid).1 completed

/-- Edges that join nodes and close no cycle together with the ones already
there are all accepted. -/
theorem add_implications_accepts (topo : Toposort TagId) (d : ImplicationDag)
    (edges : List (TagId × TagId)) (valid : d.Valid)
    (known : ∀ a b, (a, b) ∈ edges → d.IsNode a ∧ d.IsNode b)
    (acyclic : ∀ tag, ¬ TransGen (fun a b => d.TagEdge a b ∨ (a, b) ∈ edges) tag tag) :
    ∃ loaded, d.addImplications topo edges = .ok loaded ∧ loaded.nodes = d.nodes ∧
      ∀ a b, loaded.TagEdge a b ↔ d.TagEdge a b ∨ (a, b) ∈ edges := by
  induction edges generalizing d with
  | nil => exact ⟨d, rfl, rfl, by simp⟩
  | cons edge rest ih =>
      obtain ⟨source, target⟩ := edge
      obtain ⟨sourceNode, targetNode⟩ := known source target List.mem_cons_self
      have closing : ∀ a b, d.TagEdge a b → d.TagEdge a b ∨ (a, b) ∈ (source, target) :: rest :=
        fun a b => Or.inl
      have noReturn : ¬ d.Reaches target source := by
        intro back
        exact acyclic source
          (TransGen.head' (Or.inr List.mem_cons_self) (ReflTransGen.mono closing _ _ back))
      rcases d.add_implication_cases topo source target valid with
        ⟨err, -, refusal⟩ | ⟨grown, accepted, -, -, -, grownValid, sameNodes, grownEdges⟩
      · exact absurd ⟨sourceNode, targetNode, noReturn⟩ refusal
      · have nodeIff (tag : TagId) : grown.IsNode tag ↔ d.IsNode tag := by
          rw [IsNode, IsNode, sameNodes]
        have joined (a b : TagId) :
            (grown.TagEdge a b ∨ (a, b) ∈ rest) ↔
              (d.TagEdge a b ∨ (a, b) ∈ (source, target) :: rest) := by
          rw [grownEdges, List.mem_cons, Prod.mk.injEq]
          tauto
        obtain ⟨loaded, completed, loadedNodes, loadedEdges⟩ := ih grown grownValid
          (fun a b member => by
            obtain ⟨left, right⟩ := known a b (List.mem_cons_of_mem _ member)
            exact ⟨(nodeIff a).mpr left, (nodeIff b).mpr right⟩)
          (fun tag cycle =>
            acyclic tag (TransGen.mono (fun a b => (joined a b).mp) tag tag cycle))
        refine ⟨loaded, ?_, loadedNodes.trans sameNodes, fun a b => (loadedEdges a b).trans (joined a b)⟩
        simp only [addImplications, accepted]
        exact completed

theorem snapshot_reloads (topo : Toposort TagId) (d : ImplicationDag) (valid : d.Valid) :
    ∃ loaded, fromSnapshot topo d.snapshot = .ok loaded ∧ loaded.Valid ∧
      (∀ tag, loaded.IsNode tag ↔ d.IsNode tag) ∧
      ∀ a b, loaded.TagEdge a b ↔ d.TagEdge a b := by
  obtain ⟨bareValid, bareNodes, bareEdges⟩ := add_tags_spec new d.snapshot.tags new_valid
  have noEdge (a b : TagId) : ¬ new.TagEdge a b := by simp [TagEdge, edges, new, DiGraph.empty]
  have noNode (tag : TagId) : ¬ new.IsNode tag := Finmap.notMem_empty
  have nodeIff (tag : TagId) :
      (d.snapshot.tags.foldl addTag new).IsNode tag ↔ d.IsNode tag := by
    rw [bareNodes, d.is_node_iff_mem_tags valid.toIndexed]
    simp [snapshot, noNode]
  have edgeIff (a b : TagId) : (a, b) ∈ d.snapshot.edges ↔ d.TagEdge a b := by
    simp [snapshot, TagEdge]
  have joined (a b : TagId) :
      ((d.snapshot.tags.foldl addTag new).TagEdge a b ∨ (a, b) ∈ d.snapshot.edges) ↔
        d.TagEdge a b := by
    rw [bareEdges, edgeIff]
    simp [noEdge]
  obtain ⟨loaded, completed, sameNodes, loadedEdges⟩ :=
    add_implications_accepts topo _ d.snapshot.edges bareValid
      (fun a b member => by
        obtain ⟨i, j, left, right, -⟩ :=
          (d.tag_edge_iff valid.toIndexed a b).mp ((edgeIff a b).mp member)
        exact ⟨(nodeIff a).mpr ((d.is_node_iff a).mpr ⟨i, left⟩),
          (nodeIff b).mpr ((d.is_node_iff b).mpr ⟨j, right⟩)⟩)
      (fun tag cycle =>
        (d.acyclic_iff_tags valid.toIndexed).mp valid.acyclic tag
          (TransGen.mono (fun a b => (joined a b).mp) tag tag cycle))
  refine ⟨loaded, completed, from_snapshot_valid topo _ loaded completed, ?_, ?_⟩
  · intro tag
    rw [← nodeIff, IsNode, IsNode, sameNodes]
  · intro a b
    rw [loadedEdges, joined]

private theorem step_valid (topo : Toposort TagId) (d : ImplicationDag) (op : DagOp)
    (valid : d.Valid) :
    (step topo d op).Valid := by
  have loadValid (snap : DagSnapshot) : (d.loadOr topo snap).Valid := by
    unfold loadOr
    split
    · next loaded completed => exact from_snapshot_valid topo snap loaded completed
    · exact valid
  cases op with
  | addTag tag => exact d.add_tag_valid tag valid
  | addImplication source target => exact d.add_implication_valid topo source target valid
  | removeImplication source target => exact (d.remove_implication_spec source target valid).1
  | removeTag tag => exact (d.remove_tag_spec tag valid).1
  | load snap => exact loadValid snap
  | reload => exact loadValid d.snapshot

theorem run_valid (topo : Toposort TagId) (d : ImplicationDag) (ops : List DagOp)
    (valid : d.Valid) : (run topo d ops).Valid := by
  induction ops generalizing d with
  | nil => exact valid
  | cons op rest ih => exact ih (step topo d op) (step_valid topo d op valid)

/-- A history of the graph keeps the table exact, the edges distinct and the
graph acyclic; an implication is accepted exactly when it joins two nodes and
closes no cycle; and the two searches compute reachability. -/
theorem dag_history_invariant (topo : Toposort TagId) (ops : List DagOp) :
    let d := run topo new ops
    (∀ tag index, d.nodes.lookup tag = some index → d.graph.nodes[index]? = some tag) ∧
      (∀ index tag, d.graph.nodes[index]? = some tag → d.nodes.lookup tag = some index) ∧
      d.graph.edges.Nodup ∧ d.graph.Bounded ∧ d.graph.Acyclic ∧
      (∀ source target,
        (∀ err, (d.addImplication topo source target).1 = .error err →
          (d.addImplication topo source target).2 = d) ∧
        ((d.addImplication topo source target).1 = .ok () ↔
          d.IsNode source ∧ d.IsNode target ∧
            ∀ tag, ¬ TransGen (fun a b => d.TagEdge a b ∨ (a = source ∧ b = target)) tag tag)) ∧
      (∀ directTags, (d.closure directTags).Pairwise (· < ·) ∧
        ∀ tag, tag ∈ d.closure directTags ↔
          ∃ direct ∈ directTags, d.IsNode direct ∧ ReflTransGen d.TagEdge direct tag) ∧
      ∀ tag ancestor, d.isA tag ancestor = true ↔
        d.IsNode tag ∧ d.IsNode ancestor ∧ ancestor ∈ d.closure [tag] := by
  intro d
  have valid : d.Valid := run_valid topo new ops new_valid
  have indexed := valid.toIndexed
  refine ⟨fun tag index => (indexed.table tag index).mp,
    fun index tag => (indexed.table tag index).mpr, valid.once, valid.bounded, valid.acyclic,
    ?_, d.closure_spec indexed, ?_⟩
  · intro source target
    rcases d.add_implication_cases topo source target valid with
      ⟨err, refused, refusal⟩ | ⟨grown, accepted, sourceNode, targetNode, -, grownValid, -, edges⟩
    · rw [refused]
      refine ⟨fun _ _ => rfl, ?_⟩
      constructor
      · intro impossible
        cases impossible
      · rintro ⟨sourceNode, targetNode, acyclic⟩
        refine absurd ⟨sourceNode, targetNode, fun back => ?_⟩ refusal
        exact acyclic source
          (TransGen.head' (Or.inr ⟨rfl, rfl⟩) (ReflTransGen.mono (fun a b => Or.inl) _ _ back))
    · rw [accepted]
      refine ⟨?_, fun _ => ⟨sourceNode, targetNode, fun tag cycle => ?_⟩, fun _ => rfl⟩
      · intro err impossible
        cases impossible
      · exact (grown.acyclic_iff_tags grownValid.toIndexed).mp grownValid.acyclic tag
          (TransGen.mono (fun a b => (edges a b).mpr) tag tag cycle)
  · intro tag ancestor
    rw [d.is_a_spec indexed, (d.closure_spec indexed [tag]).2]
    constructor
    · rintro ⟨node, ancestorNode, path⟩
      exact ⟨node, ancestorNode, tag, List.mem_singleton_self tag, node, path⟩
    · rintro ⟨node, ancestorNode, direct, member, -, path⟩
      rw [List.mem_singleton.mp member] at path
      exact ⟨node, ancestorNode, path⟩

end Mimisbrunnr.Ontology.ImplicationDag
