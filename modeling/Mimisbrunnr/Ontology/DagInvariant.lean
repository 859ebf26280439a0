import Mimisbrunnr.Ontology.ImplicationDag

/-!
# The implication graph at the level of tags

Every operation of `ImplicationDag` keeps the invariant `Valid` and has a
description that mentions tags only. The closure and the `is_a` query are then
the declarative reachability of the tag relation.
-/

namespace Mimisbrunnr.Ontology.ImplicationDag

set_option autoImplicit false

open Relation
open Mimisbrunnr.Lib
open Mimisbrunnr.Lib.Digraph
open Mimisbrunnr.Lib.FiniteMap
open Mimisbrunnr.Lib.Worklist
open Mimisbrunnr.Types

def IsNode (d : ImplicationDag) (tag : TagId) : Prop := tag ∈ d.nodes

def TagEdge (d : ImplicationDag) (source target : TagId) : Prop := (source, target) ∈ d.edges

def Reaches (d : ImplicationDag) (source target : TagId) : Prop :=
  ReflTransGen d.TagEdge source target

/-- The table and the graph agree: a tag is mapped to an index exactly when the
node at that index carries the tag. -/
structure Indexed (d : ImplicationDag) : Prop where
  table : ∀ tag index, d.nodes.lookup tag = some index ↔ d.graph.nodes[index]? = some tag
  bounded : d.graph.Bounded

structure Valid (d : ImplicationDag) : Prop extends Indexed d where
  once : d.graph.edges.Nodup
  acyclic : d.graph.Acyclic

private theorem weight_of_node (d : ImplicationDag) (index : Nat) (tag : TagId)
    (node : d.graph.nodes[index]? = some tag) : d.weight index = tag := by
  simp [weight, node]

private theorem node_of_bound (d : ImplicationDag) (index : Nat)
    (inside : index < d.graph.nodeCount) :
    d.graph.nodes[index]? = some (d.weight index) := by
  have bound : index < d.graph.nodes.length := inside
  simp [weight, List.getElem?_eq_getElem bound]

theorem bound_of_node (d : ImplicationDag) (index : Nat) (tag : TagId)
    (node : d.graph.nodes[index]? = some tag) : index < d.graph.nodeCount :=
  (List.getElem?_eq_some_iff.mp node).1

theorem is_node_iff (d : ImplicationDag) (tag : TagId) :
    d.IsNode tag ↔ ∃ index, d.nodes.lookup tag = some index := Finmap.mem_iff

theorem lookup_weight (d : ImplicationDag) (indexed : d.Indexed) (index : Nat)
    (inside : index < d.graph.nodeCount) : d.nodes.lookup (d.weight index) = some index :=
  (indexed.table _ _).mpr (d.node_of_bound index inside)

theorem weight_of_lookup (d : ImplicationDag) (indexed : d.Indexed) (tag : TagId) (index : Nat)
    (found : d.nodes.lookup tag = some index) : d.weight index = tag :=
  d.weight_of_node index tag ((indexed.table tag index).mp found)

theorem bound_of_lookup (d : ImplicationDag) (indexed : d.Indexed) (tag : TagId) (index : Nat)
    (found : d.nodes.lookup tag = some index) : index < d.graph.nodeCount :=
  d.bound_of_node index tag ((indexed.table tag index).mp found)

theorem is_node_iff_mem_tags (d : ImplicationDag) (indexed : d.Indexed) (tag : TagId) :
    d.IsNode tag ↔ tag ∈ d.tags := by
  rw [is_node_iff, tags, List.mem_iff_getElem?]
  exact exists_congr fun index => indexed.table tag index

theorem tag_edge_iff (d : ImplicationDag) (indexed : d.Indexed) (source target : TagId) :
    d.TagEdge source target ↔
      ∃ i j, d.nodes.lookup source = some i ∧ d.nodes.lookup target = some j ∧
        d.graph.Edge i j := by
  constructor
  · intro edge
    obtain ⟨⟨i, j⟩, member, same⟩ := List.mem_map.mp edge
    obtain ⟨rfl, rfl⟩ := Prod.mk.injEq .. ▸ same
    obtain ⟨left, right⟩ := indexed.bounded i j member
    exact ⟨i, j, d.lookup_weight indexed i left, d.lookup_weight indexed j right, member⟩
  · rintro ⟨i, j, left, right, edge⟩
    refine List.mem_map.mpr ⟨(i, j), edge, ?_⟩
    simp only [d.weight_of_lookup indexed source i left, d.weight_of_lookup indexed target j right]

theorem tag_edge_of_edge (d : ImplicationDag) (i j : Nat) (edge : d.graph.Edge i j) :
    d.TagEdge (d.weight i) (d.weight j) :=
  List.mem_map.mpr ⟨(i, j), edge, rfl⟩

private def indexOf (d : ImplicationDag) (tag : TagId) : Nat := (d.nodes.lookup tag).getD 0

private theorem edge_of_tag_edge (d : ImplicationDag) (indexed : d.Indexed) (source target : TagId)
    (edge : d.TagEdge source target) : d.graph.Edge (d.indexOf source) (d.indexOf target) := by
  obtain ⟨i, j, left, right, found⟩ := (d.tag_edge_iff indexed source target).mp edge
  simpa [indexOf, left, right] using found

theorem target_is_node (d : ImplicationDag) (indexed : d.Indexed) (source target : TagId)
    (node : d.IsNode source) (path : d.Reaches source target) : d.IsNode target := by
  cases path with
  | refl => exact node
  | tail _ edge =>
      obtain ⟨i, j, left, right, found⟩ := (d.tag_edge_iff indexed _ target).mp edge
      exact (d.is_node_iff target).mpr ⟨j, right⟩

theorem reaches_iff (d : ImplicationDag) (indexed : d.Indexed) (source target : TagId) (i j : Nat)
    (left : d.nodes.lookup source = some i) (right : d.nodes.lookup target = some j) :
    d.Reaches source target ↔ ReflTransGen d.graph.Edge i j := by
  constructor
  · intro path
    have lifted := ReflTransGen.lift d.indexOf (d.edge_of_tag_edge indexed) _ _ path
    simpa [Function.onFun, indexOf, left, right] using lifted
  · intro path
    have lifted := ReflTransGen.lift d.weight d.tag_edge_of_edge _ _ path
    simpa [Function.onFun, Reaches, d.weight_of_lookup indexed source i left,
      d.weight_of_lookup indexed target j right] using lifted

theorem acyclic_iff_tags (d : ImplicationDag) (indexed : d.Indexed) :
    d.graph.Acyclic ↔ ∀ tag, ¬ TransGen d.TagEdge tag tag := by
  constructor
  · intro acyclic tag cycle
    exact acyclic _ (TransGen.lift d.indexOf (d.edge_of_tag_edge indexed) _ _ cycle)
  · intro acyclic index cycle
    exact acyclic _ (TransGen.lift d.weight d.tag_edge_of_edge _ _ cycle)

theorem new_valid : new.Valid where
  table := by
    intro tag index
    simp [new, DiGraph.empty]
  bounded := by
    intro a b edge
    simp [new, DiGraph.empty, DiGraph.Edge] at edge
  once := by simp [new, DiGraph.empty]
  acyclic := by
    intro a cycle
    obtain ⟨b, edge, -⟩ := TransGen.head'_iff.mp cycle
    simp [new, DiGraph.empty, DiGraph.Edge] at edge

theorem add_tag_known (d : ImplicationDag) (tag : TagId) (node : d.IsNode tag) :
    d.addTag tag = d := by
  obtain ⟨index, found⟩ := (d.is_node_iff tag).mp node
  simp [addTag, found]

theorem lookup_add_tag (d : ImplicationDag) (tag other : TagId) (fresh : ¬ d.IsNode tag) :
    (d.addTag tag).nodes.lookup other =
      if other = tag then some d.graph.nodeCount else d.nodes.lookup other := by
  have missing : d.nodes.lookup tag = none := Finmap.lookup_eq_none.mpr fresh
  simp only [addTag, missing, Option.isSome_none, Bool.false_eq_true, if_false]
  rw [lookup_insert_eq]
  rfl

theorem graph_add_tag (d : ImplicationDag) (tag : TagId) (fresh : ¬ d.IsNode tag) :
    (d.addTag tag).graph = { d.graph with nodes := d.graph.nodes ++ [tag] } := by
  have missing : d.nodes.lookup tag = none := Finmap.lookup_eq_none.mpr fresh
  simp [addTag, missing, DiGraph.addNode]

theorem is_node_add_tag (d : ImplicationDag) (tag other : TagId) :
    (d.addTag tag).IsNode other ↔ other = tag ∨ d.IsNode other := by
  by_cases node : d.IsNode tag
  · rw [add_tag_known d tag node]
    constructor
    · exact Or.inr
    · rintro (rfl | known)
      · exact node
      · exact known
  · simp only [is_node_iff, lookup_add_tag d tag other node]
    by_cases same : other = tag
    · simp [same]
    · simp [same]

theorem add_tag_indexed (d : ImplicationDag) (tag : TagId) (indexed : d.Indexed) :
    (d.addTag tag).Indexed := by
  by_cases node : d.IsNode tag
  · rw [add_tag_known d tag node]
    exact indexed
  · refine ⟨?_, ?_⟩
    · intro other index
      rw [lookup_add_tag d tag other node, graph_add_tag d tag node]
      by_cases same : other = tag
      · subst same
        rw [if_pos rfl, Option.some.injEq]
        constructor
        · rintro rfl
          simp [DiGraph.nodeCount]
        · intro found
          rcases Nat.lt_trichotomy index d.graph.nodes.length with inside | equal | outside
          · rw [List.getElem?_append_left inside] at found
            exact absurd ((d.is_node_iff other).mpr ⟨index, (indexed.table other index).mpr found⟩)
              node
          · exact equal.symm
          · have beyond : (d.graph.nodes ++ [other])[index]? = none := by
              rw [List.getElem?_eq_none_iff, List.length_append, List.length_singleton]
              omega
            rw [beyond] at found
            cases found
      · rw [if_neg same, indexed.table other index]
        rcases Nat.lt_or_ge index d.graph.nodes.length with inside | outside
        · rw [List.getElem?_append_left inside]
        · have old : d.graph.nodes[index]? = none := List.getElem?_eq_none_iff.mpr outside
          rw [old, List.getElem?_append_right outside]
          constructor
          · intro impossible
            cases impossible
          · intro found
            have member : other ∈ [tag] := List.mem_of_getElem? found
            exact absurd (List.mem_singleton.mp member) same
    · intro a b edge
      rw [graph_add_tag d tag node] at edge ⊢
      obtain ⟨left, right⟩ := indexed.bounded a b edge
      simp only [DiGraph.nodeCount, List.length_append, List.length_singleton] at left right ⊢
      omega

theorem tag_edge_add_tag (d : ImplicationDag) (tag source target : TagId) (indexed : d.Indexed) :
    (d.addTag tag).TagEdge source target ↔ d.TagEdge source target := by
  by_cases node : d.IsNode tag
  · rw [add_tag_known d tag node]
  · rw [tag_edge_iff _ (d.add_tag_indexed tag indexed), tag_edge_iff _ indexed,
      graph_add_tag d tag node]
    simp only [lookup_add_tag d tag _ node]
    constructor
    · rintro ⟨i, j, left, right, edge⟩
      -- the index of the new tag is past every end of an edge
      obtain ⟨iInside, jInside⟩ := indexed.bounded i j edge
      refine ⟨i, j, ?_, ?_, edge⟩
      · split at left
        · cases left
          exact absurd iInside (Nat.lt_irrefl _)
        · exact left
      · split at right
        · cases right
          exact absurd jInside (Nat.lt_irrefl _)
        · exact right
    · rintro ⟨i, j, left, right, edge⟩
      have sourceOld : source ≠ tag := by
        rintro rfl
        exact node ((d.is_node_iff source).mpr ⟨i, left⟩)
      have targetOld : target ≠ tag := by
        rintro rfl
        exact node ((d.is_node_iff target).mpr ⟨j, right⟩)
      exact ⟨i, j, by rw [if_neg sourceOld, left], by rw [if_neg targetOld, right], edge⟩

theorem add_tag_valid (d : ImplicationDag) (tag : TagId) (valid : d.Valid) :
    (d.addTag tag).Valid := by
  by_cases node : d.IsNode tag
  · rw [add_tag_known d tag node]
    exact valid
  · have indexed := d.add_tag_indexed tag valid.toIndexed
    refine ⟨indexed, ?_, ?_⟩
    · rw [graph_add_tag d tag node]
      exact valid.once
    · rw [graph_add_tag d tag node]
      exact valid.acyclic

/-- `cycle_check` passes exactly on acyclic graphs. -/
theorem cycle_check_ok_iff (topo : Toposort TagId) (d : ImplicationDag)
    (bounded : d.graph.Bounded) : d.cycleCheck topo = .ok () ↔ d.graph.Acyclic := by
  rw [← topo.succeeds_iff_acyclic d.graph bounded]
  unfold cycleCheck
  constructor
  · intro passed
    split at passed
    · next order sorted => exact ⟨order, sorted⟩
    · cases passed
  · rintro ⟨order, sorted⟩
    rw [sorted]

/-- What `add_implication` can do: refuse and leave the graph as it was, or
accept, and then the one pair is an edge and nothing else changed. It accepts
exactly when both ends are nodes and the target does not reach the source. -/
theorem add_implication_cases (topo : Toposort TagId) (d : ImplicationDag) (source target : TagId)
    (valid : d.Valid) :
    (∃ err, d.addImplication topo source target = (.error err, d) ∧
        ¬ (d.IsNode source ∧ d.IsNode target ∧ ¬ d.Reaches target source)) ∨
      (∃ grown, d.addImplication topo source target = (.ok (), grown) ∧
        d.IsNode source ∧ d.IsNode target ∧ ¬ d.Reaches target source ∧
        grown.Valid ∧ grown.nodes = d.nodes ∧
        ∀ a b, grown.TagEdge a b ↔ d.TagEdge a b ∨ (a = source ∧ b = target)) := by
  unfold addImplication
  rcases left : d.nodes.lookup source with _ | i
  · refine Or.inl ⟨_, rfl, ?_⟩
    rintro ⟨node, -, -⟩
    exact Finmap.lookup_eq_none.mp left node
  rcases right : d.nodes.lookup target with _ | j
  · refine Or.inl ⟨_, rfl, ?_⟩
    rintro ⟨-, node, -⟩
    exact Finmap.lookup_eq_none.mp right node
  have sourceNode : d.IsNode source := (d.is_node_iff source).mpr ⟨i, left⟩
  have targetNode : d.IsNode target := (d.is_node_iff target).mpr ⟨j, right⟩
  have back := d.reaches_iff valid.toIndexed target source j i right left
  by_cases present : (d.graph.findEdge i j).isSome
  · obtain ⟨index, found⟩ := Option.isSome_iff_exists.mp present
    have edge : d.graph.Edge i j := d.graph.edge_of_find_edge i j index found
    refine Or.inr ⟨d, by simp [present], sourceNode, targetNode, ?_, valid, rfl, ?_⟩
    · rw [back]
      intro path
      exact valid.acyclic i (TransGen.head' edge path)
    · intro a b
      constructor
      · exact Or.inl
      · rintro (old | ⟨rfl, rfl⟩)
        · exact old
        · exact (d.tag_edge_iff valid.toIndexed a b).mpr ⟨i, j, left, right, edge⟩
  · have missing : d.graph.findEdge i j = none := by simpa using present
    have fresh : ¬ d.graph.Edge i j := d.graph.find_edge_none i j missing
    let grown : ImplicationDag := { d with graph := (d.graph.addEdge i j).1 }
    have grownIndexed : grown.Indexed := by
      refine ⟨valid.table, ?_⟩
      intro a b edge
      rcases (d.graph.edge_add_edge i j a b).mp edge with old | ⟨rfl, rfl⟩
      · exact valid.bounded a b old
      · exact ⟨d.bound_of_lookup valid.toIndexed source a left,
          d.bound_of_lookup valid.toIndexed target b right⟩
    have passes : grown.cycleCheck topo = .ok () ↔ ¬ d.Reaches target source := by
      rw [grown.cycle_check_ok_iff topo grownIndexed.bounded, back]
      exact (d.graph.acyclic_add_edge i j).trans (and_iff_right valid.acyclic)
    simp only [missing, Option.isSome_none, Bool.false_eq_true, if_false]
    rcases checked : grown.cycleCheck topo with err | _
    · refine Or.inl ⟨err, ?_, ?_⟩
      · have restored : { grown with graph := grown.graph.removeEdge (d.graph.addEdge i j).2 } =
            d := by
          have undone := d.graph.remove_added_edge i j
          simp only [grown, undone]
        exact Prod.ext rfl restored
      · rintro ⟨-, -, acyclic⟩
        rw [passes.mpr acyclic] at checked
        cases checked
    · have accepted : ¬ d.Reaches target source := passes.mp checked
      refine Or.inr ⟨grown, rfl, sourceNode, targetNode, accepted, ⟨grownIndexed, ?_, ?_⟩, rfl, ?_⟩
      · exact List.Nodup.append valid.once (List.nodup_singleton _)
          (List.disjoint_singleton.mpr fresh)
      · exact (grown.cycle_check_ok_iff topo grownIndexed.bounded).mp checked
      · intro a b
        rw [grown.tag_edge_iff grownIndexed, d.tag_edge_iff valid.toIndexed]
        constructor
        · rintro ⟨x, y, first, second, edge⟩
          rcases (d.graph.edge_add_edge i j x y).mp edge with old | ⟨rfl, rfl⟩
          · exact Or.inl ⟨x, y, first, second, old⟩
          · refine Or.inr ⟨?_, ?_⟩
            · exact (d.weight_of_lookup valid.toIndexed a x first).symm.trans
                (d.weight_of_lookup valid.toIndexed source x left)
            · exact (d.weight_of_lookup valid.toIndexed b y second).symm.trans
                (d.weight_of_lookup valid.toIndexed target y right)
        · rintro (⟨x, y, first, second, old⟩ | ⟨rfl, rfl⟩)
          · exact ⟨x, y, first, second, (d.graph.edge_add_edge i j x y).mpr (Or.inl old)⟩
          · exact ⟨i, j, left, right, (d.graph.edge_add_edge i j i j).mpr (Or.inr ⟨rfl, rfl⟩)⟩

theorem remove_implication_spec (d : ImplicationDag) (source target : TagId) (valid : d.Valid) :
    (d.removeImplication source target).Valid ∧
      (d.removeImplication source target).nodes = d.nodes ∧
      ∀ a b, (d.removeImplication source target).TagEdge a b ↔
        d.TagEdge a b ∧ (a, b) ≠ (source, target) := by
  have untouched (absent : ¬ d.TagEdge source target) (a b : TagId) :
      d.TagEdge a b ↔ d.TagEdge a b ∧ (a, b) ≠ (source, target) := by
    refine ⟨fun edge => ⟨edge, ?_⟩, And.left⟩
    rintro same
    obtain ⟨rfl, rfl⟩ := Prod.mk.injEq .. ▸ same
    exact absent edge
  unfold removeImplication
  rcases left : d.nodes.lookup source with _ | i
  · refine ⟨valid, rfl, untouched ?_⟩
    intro edge
    obtain ⟨x, y, first, -, -⟩ := (d.tag_edge_iff valid.toIndexed source target).mp edge
    rw [left] at first
    cases first
  rcases right : d.nodes.lookup target with _ | j
  · refine ⟨valid, rfl, untouched ?_⟩
    intro edge
    obtain ⟨x, y, -, second, -⟩ := (d.tag_edge_iff valid.toIndexed source target).mp edge
    rw [right] at second
    cases second
  rcases found : d.graph.findEdge i j with _ | index
  · simp only [found]
    refine ⟨valid, trivial, untouched ?_⟩
    intro edge
    obtain ⟨x, y, first, second, old⟩ := (d.tag_edge_iff valid.toIndexed source target).mp edge
    rw [left] at first
    rw [right] at second
    cases first
    cases second
    exact d.graph.find_edge_none i j found old
  · simp only [found]
    have remaining (x y : Nat) := d.graph.edge_remove_edge i j index x y valid.once found
    let shrunk : ImplicationDag := { d with graph := d.graph.removeEdge index }
    have shrunkIndexed : shrunk.Indexed :=
      ⟨valid.table, fun a b edge => valid.bounded a b ((remaining a b).mp edge).1⟩
    have edges (a b : TagId) : shrunk.TagEdge a b ↔ d.TagEdge a b ∧ (a, b) ≠ (source, target) := by
      rw [shrunk.tag_edge_iff shrunkIndexed, d.tag_edge_iff valid.toIndexed]
      constructor
      · rintro ⟨x, y, first, second, edge⟩
        obtain ⟨old, different⟩ := (remaining x y).mp edge
        refine ⟨⟨x, y, first, second, old⟩, ?_⟩
        intro same
        obtain ⟨rfl, rfl⟩ := Prod.mk.injEq .. ▸ same
        apply different
        rw [Prod.mk.injEq]
        exact ⟨Option.some.inj (first.symm.trans left), Option.some.inj (second.symm.trans right)⟩
      · rintro ⟨⟨x, y, first, second, old⟩, different⟩
        refine ⟨x, y, first, second, (remaining x y).mpr ⟨old, ?_⟩⟩
        intro same
        obtain ⟨rfl, rfl⟩ := Prod.mk.injEq .. ▸ same
        apply different
        rw [← d.weight_of_lookup valid.toIndexed a x first,
          ← d.weight_of_lookup valid.toIndexed b y second,
          d.weight_of_lookup valid.toIndexed source x left,
          d.weight_of_lookup valid.toIndexed target y right]
    refine ⟨⟨shrunkIndexed, Vec.nodup_swap_remove _ _ valid.once, ?_⟩, trivial, edges⟩
    rw [acyclic_iff_tags _ shrunkIndexed]
    intro tag cycle
    have fewer : ∀ a b, shrunk.TagEdge a b → d.TagEdge a b := fun a b edge => ((edges a b).mp edge).1
    exact (d.acyclic_iff_tags valid.toIndexed).mp valid.acyclic tag
      (TransGen.mono fewer tag tag cycle)

/-- Removing a node renames the last index in the table exactly as the graph
library renames it in the edges. -/
theorem lookup_remove_tag (d : ImplicationDag) (tag : TagId) (freed : Nat) (indexed : d.Indexed)
    (found : d.nodes.lookup tag = some freed) (other : TagId) (index : Nat) :
    (d.removeTag tag).nodes.lookup other = some index ↔
      ∃ old, d.nodes.lookup other = some old ∧ old ≠ freed ∧
        DiGraph.relabel (d.graph.nodeCount - 1) freed old = index := by
  have freedInside := d.bound_of_lookup indexed tag freed found
  have lastInside : d.graph.nodeCount - 1 < d.graph.nodeCount := by omega
  have lastFound := d.lookup_weight indexed (d.graph.nodeCount - 1) lastInside
  simp only [removeTag, found]
  by_cases moved : d.graph.nodeCount - 1 = freed
  · simp only [moved, ne_eq, not_true_eq_false, if_false, lookup_erase_eq]
    by_cases same : other = tag
    · subst same
      simp [found]
    · rw [if_neg same]
      constructor
      · intro kept
        have different : index ≠ freed := by
          rintro rfl
          have one := d.weight_of_lookup indexed other index kept
          have two := d.weight_of_lookup indexed tag index found
          exact same (one.symm.trans two)
        exact ⟨index, kept, different, by simp [DiGraph.relabel, different]⟩
      · rintro ⟨old, kept, different, rfl⟩
        simpa [DiGraph.relabel, different] using kept
  · have lastTag : d.weight (d.graph.nodeCount - 1) ≠ tag := by
      intro same
      rw [same, found] at lastFound
      exact moved (Option.some.inj lastFound).symm
    simp only [ne_eq, moved, not_false_eq_true, if_true, lookup_insert_eq, lookup_erase_eq]
    by_cases last : other = d.weight (d.graph.nodeCount - 1)
    · subst last
      rw [if_pos rfl, lastFound, Option.some.injEq]
      constructor
      · rintro rfl
        exact ⟨_, rfl, moved, by simp [DiGraph.relabel]⟩
      · rintro ⟨old, same, -, rfl⟩
        cases same
        simp [DiGraph.relabel]
    · rw [if_neg last]
      by_cases same : other = tag
      · subst same
        simp [found]
      · rw [if_neg same]
        have notLast (old : Nat) (kept : d.nodes.lookup other = some old) :
            old ≠ d.graph.nodeCount - 1 := by
          rintro rfl
          exact last (d.weight_of_lookup indexed other _ kept).symm
        have notFreed (old : Nat) (kept : d.nodes.lookup other = some old) : old ≠ freed := by
          rintro rfl
          exact same ((d.weight_of_lookup indexed other _ kept).symm.trans
            (d.weight_of_lookup indexed tag _ found))
        constructor
        · intro kept
          exact ⟨index, kept, notFreed index kept, by simp [DiGraph.relabel, notLast index kept]⟩
        · rintro ⟨old, kept, -, rfl⟩
          simpa [DiGraph.relabel, notLast old kept] using kept

private theorem node_remove_tag (d : ImplicationDag) (tag : TagId) (freed : Nat)
    (indexed : d.Indexed)
    (found : d.nodes.lookup tag = some freed) (other : TagId) (index : Nat) :
    (d.removeTag tag).graph.nodes[index]? = some other ↔
      ∃ old, d.graph.nodes[old]? = some other ∧ old ≠ freed ∧
        DiGraph.relabel (d.graph.nodeCount - 1) freed old = index := by
  have freedInside : freed < d.graph.nodeCount := d.bound_of_lookup indexed tag freed found
  simp only [removeTag, found, DiGraph.removeNode, if_pos freedInside]
  rw [Vec.getElem?_swap_remove _ _ _ freedInside]
  have lastIndex : d.graph.nodes.length - 1 = d.graph.nodeCount - 1 := rfl
  by_cases room : index + 1 < d.graph.nodes.length
  · rw [if_pos room]
    have indexInside : index + 1 < d.graph.nodeCount := room
    by_cases same : index = freed
    · subst same
      rw [if_pos rfl, lastIndex]
      constructor
      · intro node
        exact ⟨_, node, by omega, by simp [DiGraph.relabel]⟩
      · rintro ⟨old, node, different, renamed⟩
        unfold DiGraph.relabel at renamed
        split at renamed
        · next atLast => exact atLast ▸ node
        · exact absurd renamed different
    · rw [if_neg same]
      constructor
      · intro node
        exact ⟨index, node, same, by simp [DiGraph.relabel]; omega⟩
      · rintro ⟨old, node, different, renamed⟩
        unfold DiGraph.relabel at renamed
        split at renamed
        · exact absurd renamed.symm same
        · exact renamed ▸ node
  · rw [if_neg room]
    constructor
    · intro impossible
      cases impossible
    · rintro ⟨old, node, different, renamed⟩
      have oldInside := d.bound_of_node old other node
      have outside : ¬ index + 1 < d.graph.nodeCount := room
      unfold DiGraph.relabel at renamed
      split at renamed <;> omega

theorem remove_tag_spec (d : ImplicationDag) (tag : TagId) (valid : d.Valid) :
    (d.removeTag tag).Valid ∧
      (∀ other, (d.removeTag tag).IsNode other ↔ d.IsNode other ∧ other ≠ tag) ∧
      ∀ a b, (d.removeTag tag).TagEdge a b ↔ d.TagEdge a b ∧ a ≠ tag ∧ b ≠ tag := by
  have indexed := valid.toIndexed
  rcases found : d.nodes.lookup tag with _ | freed
  · have absent : ¬ d.IsNode tag := Finmap.lookup_eq_none.mp found
    have unchanged : d.removeTag tag = d := by simp [removeTag, found]
    rw [unchanged]
    refine ⟨valid, ?_, ?_⟩
    · intro other
      refine ⟨fun node => ⟨node, ?_⟩, And.left⟩
      rintro rfl
      exact absent node
    · intro a b
      refine ⟨fun edge => ⟨edge, ?_, ?_⟩, And.left⟩
      · rintro rfl
        obtain ⟨i, j, left, -, -⟩ := (d.tag_edge_iff indexed _ b).mp edge
        exact absent ((d.is_node_iff _).mpr ⟨i, left⟩)
      · rintro rfl
        obtain ⟨i, j, -, right, -⟩ := (d.tag_edge_iff indexed a _).mp edge
        exact absent ((d.is_node_iff _).mpr ⟨j, right⟩)
  · have freedInside : freed < d.graph.nodeCount := d.bound_of_lookup indexed tag freed found
    have graphEq : (d.removeTag tag).graph = d.graph.removeNode freed := by
      simp [removeTag, found]
    have lookups := d.lookup_remove_tag tag freed indexed found
    have tagOf (other : TagId) (old : Nat) (kept : d.nodes.lookup other = some old) :
        old ≠ freed ↔ other ≠ tag := by
      constructor
      · rintro different rfl
        exact different (Option.some.inj (kept.symm.trans found))
      · rintro different rfl
        exact different ((d.weight_of_lookup indexed other _ kept).symm.trans
          (d.weight_of_lookup indexed tag _ found))
    have newIndexed : (d.removeTag tag).Indexed := by
      refine ⟨?_, ?_⟩
      · intro other index
        rw [lookups, d.node_remove_tag tag freed indexed found]
        exact exists_congr fun old => and_congr_left' (indexed.table other old)
      · rw [graphEq]
        exact d.graph.bounded_remove_node freed indexed.bounded
    have edges (a b : TagId) :
        (d.removeTag tag).TagEdge a b ↔ d.TagEdge a b ∧ a ≠ tag ∧ b ≠ tag := by
      rw [tag_edge_iff _ newIndexed, tag_edge_iff _ indexed, graphEq]
      constructor
      · rintro ⟨i, j, left, right, edge⟩
        obtain ⟨x, first, xKept, rfl⟩ := (lookups a i).mp left
        obtain ⟨y, second, yKept, rfl⟩ := (lookups b j).mp right
        obtain ⟨x', y', old, xNot, yNot, xSame, ySame⟩ :=
          (d.graph.edge_remove_node freed _ _ freedInside).mp edge
        have xEqual : x' = x := DiGraph.relabel_injective _ freed x' x xNot xKept xSame
        have yEqual : y' = y := DiGraph.relabel_injective _ freed y' y yNot yKept ySame
        subst xEqual yEqual
        exact ⟨⟨x', y', first, second, old⟩, (tagOf a x' first).mp xKept,
          (tagOf b y' second).mp yKept⟩
      · rintro ⟨⟨x, y, first, second, old⟩, aKept, bKept⟩
        have xKept := (tagOf a x first).mpr aKept
        have yKept := (tagOf b y second).mpr bKept
        exact ⟨_, _, (lookups a _).mpr ⟨x, first, xKept, rfl⟩,
          (lookups b _).mpr ⟨y, second, yKept, rfl⟩,
          (d.graph.edge_remove_node freed _ _ freedInside).mpr
            ⟨x, y, old, xKept, yKept, rfl, rfl⟩⟩
    refine ⟨⟨newIndexed, ?_, ?_⟩, ?_, edges⟩
    · rw [graphEq]
      exact d.graph.nodup_edges_remove_node freed valid.once
    · rw [acyclic_iff_tags _ newIndexed]
      intro cyclic cycle
      have fewer : ∀ a b, (d.removeTag tag).TagEdge a b → d.TagEdge a b :=
        fun a b edge => ((edges a b).mp edge).1
      exact (d.acyclic_iff_tags indexed).mp valid.acyclic cyclic
        (TransGen.mono fewer cyclic cyclic cycle)
    · intro other
      rw [is_node_iff, is_node_iff]
      constructor
      · rintro ⟨index, kept⟩
        obtain ⟨old, first, different, -⟩ := (lookups other index).mp kept
        exact ⟨⟨old, first⟩, (tagOf other old first).mp different⟩
      · rintro ⟨⟨old, first⟩, different⟩
        exact ⟨_, (lookups other _).mpr ⟨old, first, (tagOf other old first).mpr different, rfl⟩⟩

/-- Seeding is discovery of the indices of the known tags of the input. -/
theorem seed_fold_eq (d : ImplicationDag) (indexed : d.Indexed) (directTags : List TagId)
    (s : Frontier Nat (List TagId)) :
    directTags.foldl d.seed s =
      discoverAll (fun result node => SortedSet.insert (d.weight node) result) s
        (directTags.filterMap fun tag => d.nodes.lookup tag) := by
  induction directTags generalizing s with
  | nil => rfl
  | cons tag rest ih =>
      rw [List.foldl_cons, ih]
      rcases found : d.nodes.lookup tag with _ | index
      · simp [seed, found]
      · have same := d.weight_of_lookup indexed tag index found
        simp [seed, found, discoverAll, discover, same]

/-- The materialised closure: the increasing list of the tags reachable from
the members of the input that are nodes. -/
theorem closure_spec (d : ImplicationDag) (indexed : d.Indexed) (directTags : List TagId) :
    (d.closure directTags).Pairwise (· < ·) ∧
      ∀ tag, tag ∈ d.closure directTags ↔
        ∃ direct ∈ directTags, d.IsNode direct ∧ d.Reaches direct tag := by
  let visit : List TagId → Nat → List TagId :=
    fun result node => SortedSet.insert (d.weight node) result
  let start : Frontier Nat (List TagId) := { queue := [], visited := ∅, acc := [] }
  let seedIndices := directTags.filterMap fun tag => d.nodes.lookup tag
  let seeded := discoverAll visit start seedIndices
  let seeds : Nat → Prop := fun index => index ∈ seedIndices
  let final := drain d.graph.outgoing visit d.graph.nodeCount seeded
  have unfolded : d.closure directTags = final.acc := by
    simp only [closure, d.seed_fold_eq indexed]
    rfl
  have stepEdge : Step d.graph.outgoing = d.graph.Edge := d.graph.step_outgoing
  have seedInside (index : Nat) (member : seeds index) : index < d.graph.nodeCount := by
    obtain ⟨tag, -, found⟩ := List.mem_filterMap.mp member
    exact d.bound_of_lookup indexed tag index found
  obtain ⟨once, queued, -, fresh, count⟩ :=
    queue_discover_all visit start seedIndices (by simp [start]) List.nodup_nil
  have explored : Explored d.graph.outgoing seeds seeded := by
    refine ⟨?_, ?_, queued, once, ?_⟩
    · intro index member
      exact (mem_visited_discover_all visit start seedIndices index).mpr (Or.inr member)
    · intro index member
      rcases (mem_visited_discover_all visit start seedIndices index).mp member with none | seeded
      · exact absurd none (Finset.notMem_empty index)
      · exact ⟨index, seeded, ReflTransGen.refl⟩
    · intro index member unqueued
      exact absurd (fresh index member (Finset.notMem_empty index)) unqueued
  have finished : final.queue = [] := by
    apply drain_empties_queue d.graph.outgoing visit seeds (Finset.range d.graph.nodeCount) _ _ _
      explored
    · have balanced : seeded.visited.card = seeded.queue.length := by simpa [start] using count
      rw [Finset.card_range]
      omega
    · rintro b ⟨a, member, path⟩
      rw [stepEdge] at path
      exact Finset.mem_range.mpr
        (d.graph.reach_bounded indexed.bounded a b (seedInside a member) path)
  have visitedIff (index : Nat) :=
    explored_visited_iff d.graph.outgoing seeds final
      (drain_keeps_explored _ visit seeds d.graph.nodeCount seeded explored) finished index
  -- the result lists, in increasing order, the weights of the visited nodes
  let Lists : Finset Nat → List TagId → Prop := fun visited result =>
    result.Pairwise (· < ·) ∧ ∀ tag, tag ∈ result ↔ ∃ index ∈ visited, d.weight index = tag
  have kept : ∀ visited result node, node ∉ visited → Lists visited result →
      Lists (insert node visited) (visit result node) := by
    rintro visited result node - ⟨increasing, members⟩
    refine ⟨SortedSet.increasing_insert _ result increasing, ?_⟩
    intro tag
    simp only [visit, SortedSet.mem_insert, members, Finset.mem_insert]
    constructor
    · rintro (rfl | ⟨index, member, same⟩)
      · exact ⟨node, Or.inl rfl, rfl⟩
      · exact ⟨index, Or.inr member, same⟩
    · rintro ⟨index, rfl | member, same⟩
      · exact Or.inl same.symm
      · exact Or.inr ⟨index, member, same⟩
  have initial : Lists start.visited start.acc := ⟨List.Pairwise.nil, by simp [start]⟩
  have listed : Lists final.visited final.acc :=
    drain_keeps_acc d.graph.outgoing visit Lists kept d.graph.nodeCount seeded
      (discover_all_keeps_acc visit Lists kept seedIndices start initial)
  rw [unfolded]
  refine ⟨listed.1, ?_⟩
  intro tag
  rw [listed.2]
  constructor
  · rintro ⟨index, member, rfl⟩
    obtain ⟨from_, seedMember, path⟩ := (visitedIff index).mp member
    rw [stepEdge] at path
    obtain ⟨direct, directMember, found⟩ := List.mem_filterMap.mp seedMember
    have inside := d.graph.reach_bounded indexed.bounded from_ index
      (d.bound_of_lookup indexed direct from_ found) path
    exact ⟨direct, directMember, (d.is_node_iff direct).mpr ⟨from_, found⟩,
      (d.reaches_iff indexed direct _ from_ index found (d.lookup_weight indexed index inside)).mpr
        path⟩
  · rintro ⟨direct, directMember, node, path⟩
    obtain ⟨from_, found⟩ := (d.is_node_iff direct).mp node
    obtain ⟨index, target⟩ :=
      (d.is_node_iff tag).mp (d.target_is_node indexed direct tag node path)
    refine ⟨index, (visitedIff index).mpr ⟨from_, ?_, ?_⟩, d.weight_of_lookup indexed tag index target⟩
    · exact List.mem_filterMap.mpr ⟨direct, directMember, found⟩
    · rw [stepEdge]
      exact (d.reaches_iff indexed direct tag from_ index found target).mp path

theorem is_a_spec (d : ImplicationDag) (indexed : d.Indexed) (tag ancestor : TagId) :
    d.isA tag ancestor = true ↔ d.IsNode tag ∧ d.IsNode ancestor ∧ d.Reaches tag ancestor := by
  unfold isA
  by_cases same : tag = ancestor
  · subst same
    rw [if_pos rfl, Finmap.lookup_isSome]
    exact ⟨fun node => ⟨node, node, ReflTransGen.refl⟩, And.left⟩
  rw [if_neg same]
  rcases left : d.nodes.lookup tag with _ | start
  · have absent : ¬ d.IsNode tag := Finmap.lookup_eq_none.mp left
    simp [absent]
  rcases right : d.nodes.lookup ancestor with _ | target
  · have absent : ¬ d.IsNode ancestor := Finmap.lookup_eq_none.mp right
    simp [absent]
  have tagNode : d.IsNode tag := (d.is_node_iff tag).mpr ⟨start, left⟩
  have ancestorNode : d.IsNode ancestor := (d.is_node_iff ancestor).mpr ⟨target, right⟩
  have inside := d.bound_of_lookup indexed tag start left
  have different : start ≠ target := by
    rintro rfl
    exact same ((d.weight_of_lookup indexed tag _ left).symm.trans
      (d.weight_of_lookup indexed ancestor _ right))
  simp only [reachable, d.graph.path_search_iff indexed.bounded start target inside,
    tagNode, ancestorNode, true_and, d.reaches_iff indexed tag ancestor start target left right]
  constructor
  · exact TransGen.to_reflTransGen
  · intro path
    rcases reflTransGen_iff_eq_or_transGen.mp path with equal | longer
    · exact absurd equal.symm different
    · exact longer

/-- `direct_implies` lists the targets of a tag's edges, each once. -/
theorem direct_implies_spec (d : ImplicationDag) (valid : d.Valid) (tag : TagId) :
    (d.directImplies tag).Nodup ∧
      ∀ target, target ∈ d.directImplies tag ↔ d.TagEdge tag target := by
  have indexed := valid.toIndexed
  rcases found : d.nodes.lookup tag with _ | index
  · simp only [directImplies, found, List.nodup_nil, List.not_mem_nil, false_iff, true_and]
    intro target edge
    obtain ⟨i, j, left, -, -⟩ := (d.tag_edge_iff indexed tag target).mp edge
    rw [found] at left
    cases left
  · have inside (next : Nat) (member : next ∈ d.graph.outgoing index) :
        d.nodes.lookup (d.weight next) = some next :=
      d.lookup_weight indexed next
        (indexed.bounded index next ((d.graph.mem_outgoing index next).mp member)).2
    simp only [directImplies, found]
    constructor
    · -- an index is determined by its weight, and no edge is stored twice
      refine List.Nodup.map_on ?_ ?_
      · intro x xMember y yMember same
        have left := inside x xMember
        rw [same, inside y yMember] at left
        exact (Option.some.inj left).symm
      · refine List.Nodup.map_on ?_ (valid.once.filter _)
        intro x xMember y yMember same
        simp only [List.mem_filter, decide_eq_true_eq] at xMember yMember
        exact Prod.ext (xMember.2.trans yMember.2.symm) same
    · intro target
      rw [List.mem_map, d.tag_edge_iff indexed]
      constructor
      · rintro ⟨next, member, rfl⟩
        exact ⟨index, next, found, inside next member, (d.graph.mem_outgoing index next).mp member⟩
      · rintro ⟨i, j, left, right, edge⟩
        cases Option.some.inj (found.symm.trans left)
        exact ⟨j, (d.graph.mem_outgoing index j).mpr edge, d.weight_of_lookup indexed target j right⟩

end Mimisbrunnr.Ontology.ImplicationDag
