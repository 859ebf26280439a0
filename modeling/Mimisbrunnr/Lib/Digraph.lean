import Mathlib.Data.List.Sort
import Mimisbrunnr.Lib.Vec
import Mimisbrunnr.Lib.Worklist

/-!
# Index-based directed graphs

Directed graphs in the representation of an index-based graph library: node
weights sit in an array and an edge is a pair of node indices. Removing a node
moves the last node into the freed slot and renames that node in the surviving
edges; removing an edge fills its slot with the last edge. The order in which
neighbours are listed is the order of the edge array, which is all that the
searches below depend on.

Topological sorting is a parameter: a function together with the fact that it
succeeds exactly on the acyclic graphs. One instance of it is computable.
-/

namespace Mimisbrunnr.Lib.Digraph

set_option autoImplicit false

open Relation
open Mimisbrunnr.Lib.Vec
open Mimisbrunnr.Lib.Worklist

variable {ω : Type*}

structure DiGraph (ω : Type*) where
  nodes : List ω
  edges : List (Nat × Nat)
deriving DecidableEq

namespace DiGraph

def empty : DiGraph ω :=
  { nodes := []
    edges := [] }

def nodeCount (g : DiGraph ω) : Nat := g.nodes.length

def edgeCount (g : DiGraph ω) : Nat := g.edges.length

def addNode (g : DiGraph ω) (weight : ω) : DiGraph ω × Nat :=
  ({ g with nodes := g.nodes ++ [weight] }, g.nodes.length)

def addEdge (g : DiGraph ω) (a b : Nat) : DiGraph ω × Nat :=
  ({ g with edges := g.edges ++ [(a, b)] }, g.edges.length)

def findEdge (g : DiGraph ω) (a b : Nat) : Option Nat :=
  g.edges.findIdx? fun edge => edge = (a, b)

def removeEdge (g : DiGraph ω) (edge : Nat) : DiGraph ω :=
  { g with edges := swapRemove g.edges edge }

/-- The index of a node after the node at `last` has moved to `freed`. -/
def relabel (last freed index : Nat) : Nat := if index = last then freed else index

def removeNode (g : DiGraph ω) (index : Nat) : DiGraph ω :=
  if index < g.nodeCount then
    { nodes := swapRemove g.nodes index
      edges := (g.edges.filter fun edge => edge.1 ≠ index ∧ edge.2 ≠ index).map fun edge =>
        (relabel (g.nodeCount - 1) index edge.1, relabel (g.nodeCount - 1) index edge.2) }
  else g

def outgoing (g : DiGraph ω) (a : Nat) : List Nat :=
  (g.edges.filter fun edge => edge.1 = a).map Prod.snd

def incoming (g : DiGraph ω) (b : Nat) : List Nat :=
  (g.edges.filter fun edge => edge.2 = b).map Prod.fst

def Edge (g : DiGraph ω) (a b : Nat) : Prop := (a, b) ∈ g.edges

def Bounded (g : DiGraph ω) : Prop :=
  ∀ a b, g.Edge a b → a < g.nodeCount ∧ b < g.nodeCount

def Acyclic (g : DiGraph ω) : Prop := ∀ a, ¬ TransGen g.Edge a a

@[simp] theorem mem_outgoing (g : DiGraph ω) (a b : Nat) : b ∈ g.outgoing a ↔ g.Edge a b := by
  simp [outgoing, Edge]

theorem step_outgoing (g : DiGraph ω) : Step g.outgoing = g.Edge := by
  funext a b
  exact propext (g.mem_outgoing a b)

theorem edge_add_edge (g : DiGraph ω) (a b x y : Nat) :
    (g.addEdge a b).1.Edge x y ↔ g.Edge x y ∨ (x = a ∧ y = b) := by
  simp [addEdge, Edge]

theorem remove_added_edge (g : DiGraph ω) (a b : Nat) :
    (g.addEdge a b).1.removeEdge (g.addEdge a b).2 = g := by
  simp [addEdge, removeEdge, swap_remove_append_last]

theorem find_edge_none (g : DiGraph ω) (a b : Nat) (missing : g.findEdge a b = none) :
    ¬ g.Edge a b := by
  intro edge
  have every := List.findIdx?_eq_none_iff.mp missing (a, b) edge
  simp at every

theorem find_edge_some (g : DiGraph ω) (a b index : Nat) (found : g.findEdge a b = some index) :
    g.edges[index]? = some (a, b) := by
  obtain ⟨bound, accepted, -⟩ := List.findIdx?_eq_some_iff_getElem.mp found
  simp only [decide_eq_true_eq] at accepted
  rw [List.getElem?_eq_getElem bound, accepted]

theorem edge_of_find_edge (g : DiGraph ω) (a b index : Nat)
    (found : g.findEdge a b = some index) : g.Edge a b :=
  List.mem_of_getElem? (g.find_edge_some a b index found)

theorem edge_remove_edge (g : DiGraph ω) (a b index x y : Nat) (once : g.edges.Nodup)
    (found : g.findEdge a b = some index) :
    (g.removeEdge index).Edge x y ↔ g.Edge x y ∧ (x, y) ≠ (a, b) :=
  mem_swap_remove_iff g.edges index (a, b) (x, y) once (g.find_edge_some a b index found)

theorem relabel_injective (last freed : Nat) (x y : Nat) (left : x ≠ freed) (right : y ≠ freed)
    (same : relabel last freed x = relabel last freed y) : x = y := by
  unfold relabel at same
  split at same <;> split at same <;> omega

theorem edge_remove_node (g : DiGraph ω) (index a b : Nat) (inside : index < g.nodeCount) :
    (g.removeNode index).Edge a b ↔
      ∃ x y, g.Edge x y ∧ x ≠ index ∧ y ≠ index ∧
        relabel (g.nodeCount - 1) index x = a ∧ relabel (g.nodeCount - 1) index y = b := by
  simp only [removeNode, if_pos inside, Edge, List.mem_map, List.mem_filter, decide_eq_true_eq,
    Prod.mk.injEq, Prod.exists]
  constructor
  · rintro ⟨x, y, ⟨edge, first, second⟩, left, right⟩
    exact ⟨x, y, edge, first, second, left, right⟩
  · rintro ⟨x, y, edge, first, second, left, right⟩
    exact ⟨x, y, ⟨edge, first, second⟩, left, right⟩

theorem nodup_edges_remove_node (g : DiGraph ω) (index : Nat) (once : g.edges.Nodup) :
    (g.removeNode index).edges.Nodup := by
  unfold removeNode
  split
  · refine List.Nodup.map_on ?_ (once.filter _)
    intro edge member other otherMember same
    simp only [List.mem_filter, decide_eq_true_eq] at member otherMember
    simp only [Prod.mk.injEq] at same
    exact Prod.ext
      (relabel_injective _ index _ _ member.2.1 otherMember.2.1 same.1)
      (relabel_injective _ index _ _ member.2.2 otherMember.2.2 same.2)
  · exact once

theorem node_count_remove_node (g : DiGraph ω) (index : Nat) (inside : index < g.nodeCount) :
    (g.removeNode index).nodeCount = g.nodeCount - 1 := by
  rw [removeNode, if_pos inside]
  exact length_swap_remove g.nodes index inside

theorem bounded_remove_node (g : DiGraph ω) (index : Nat) (bounded : g.Bounded) :
    (g.removeNode index).Bounded := by
  by_cases inside : index < g.nodeCount
  · intro a b edge
    rw [node_count_remove_node g index inside]
    obtain ⟨x, y, old, first, second, rfl, rfl⟩ := (edge_remove_node g index a b inside).mp edge
    obtain ⟨left, right⟩ := bounded x y old
    unfold relabel
    split <;> split <;> omega
  · simpa [removeNode, inside] using bounded

theorem path_add_edge (g : DiGraph ω) (a b x y : Nat)
    (path : TransGen (g.addEdge a b).1.Edge x y) :
    TransGen g.Edge x y ∨ (ReflTransGen g.Edge x a ∧ ReflTransGen g.Edge b y) := by
  induction path with
  | single edge =>
      rcases (edge_add_edge g a b _ _).mp edge with old | ⟨rfl, rfl⟩
      · exact Or.inl (TransGen.single old)
      · exact Or.inr ⟨ReflTransGen.refl, ReflTransGen.refl⟩
  | tail _ edge ih =>
      rcases (edge_add_edge g a b _ _).mp edge with old | ⟨rfl, rfl⟩
      · rcases ih with avoiding | ⟨before, after⟩
        · exact Or.inl (avoiding.tail old)
        · exact Or.inr ⟨before, after.tail old⟩
      · rcases ih with avoiding | ⟨before, -⟩
        · exact Or.inr ⟨avoiding.to_reflTransGen, ReflTransGen.refl⟩
        · exact Or.inr ⟨before, ReflTransGen.refl⟩

theorem acyclic_add_edge (g : DiGraph ω) (a b : Nat) :
    (g.addEdge a b).1.Acyclic ↔ g.Acyclic ∧ ¬ ReflTransGen g.Edge b a := by
  have grown : ∀ x y, g.Edge x y → (g.addEdge a b).1.Edge x y :=
    fun x y old => (edge_add_edge g a b x y).mpr (Or.inl old)
  constructor
  · intro acyclic
    refine ⟨fun x cycle => acyclic x (TransGen.mono grown x x cycle), fun back => ?_⟩
    have closing : (g.addEdge a b).1.Edge a b := (edge_add_edge g a b a b).mpr (Or.inr ⟨rfl, rfl⟩)
    exact acyclic a (TransGen.head' closing (ReflTransGen.mono grown b a back))
  · rintro ⟨acyclic, open_⟩ x cycle
    rcases path_add_edge g a b x x cycle with old | ⟨before, after⟩
    · exact acyclic x old
    · exact open_ (after.trans before)

theorem reach_bounded (g : DiGraph ω) (bounded : g.Bounded) (a b : Nat) (inside : a < g.nodeCount)
    (path : ReflTransGen g.Edge a b) : b < g.nodeCount := by
  cases path with
  | refl => exact inside
  | tail _ edge => exact (bounded _ _ edge).2

/-- The search from one node for another, or for the node itself, by at least
one edge. -/
def pathSearch (g : DiGraph ω) (start target : Nat) : Bool :=
  search g.outgoing target g.nodeCount
    { queue := [start]
      visited := {start}
      acc := () }

theorem path_search_iff (g : DiGraph ω) (bounded : g.Bounded) (start target : Nat)
    (inside : start < g.nodeCount) :
    g.pathSearch start target = true ↔ TransGen g.Edge start target := by
  have stepEdge : Step g.outgoing = g.Edge := g.step_outgoing
  have found := search_iff g.outgoing target (· = start) (Finset.range g.nodeCount)
    (by
      rintro b ⟨a, rfl, path⟩
      rw [stepEdge] at path
      exact Finset.mem_range.mpr (g.reach_bounded bounded a b inside path))
    g.nodeCount { queue := [start], visited := {start}, acc := () }
    (by
      refine ⟨?_, ?_, ?_, List.nodup_singleton start, ?_⟩
      · intro a same
        simp [same]
      · intro b member
        rw [Finset.mem_singleton] at member
        exact ⟨start, rfl, member ▸ ReflTransGen.refl⟩
      · intro a member
        simpa using member
      · intro a member unqueued
        exact absurd (by simpa using member) unqueued)
    (by
      intro a member unqueued
      exact absurd (by simpa using member) unqueued)
    (by simp)
  rw [stepEdge] at found
  simpa [pathSearch] using found

end DiGraph

/-- Topological sorting: an order of the node indices, or a node of a cycle. -/
structure Toposort (ω : Type*) where
  run : DiGraph ω → Except Nat (List Nat)
  succeeds_iff_acyclic :
    ∀ g : DiGraph ω, g.Bounded → ((∃ order, run g = .ok order) ↔ g.Acyclic)

namespace Toposort

/-- How many nodes a node reaches; along an edge of an acyclic graph this
number decreases. -/
def descendants (g : DiGraph ω) (a : Nat) : Nat :=
  ((List.range g.nodeCount).filter fun b => g.pathSearch a b).length

def runByReachability (g : DiGraph ω) : Except Nat (List Nat) :=
  match (List.range g.nodeCount).find? fun a => g.pathSearch a a with
  | some a => .error a
  | none =>
      .ok ((List.range g.nodeCount).insertionSort fun a b => descendants g b ≤ descendants g a)

/-- Topological sorting that looks for a node reaching itself and otherwise
orders the nodes by how many others they reach. -/
def byReachability : Toposort ω where
  run := runByReachability
  succeeds_iff_acyclic := by
    intro g bounded
    have cyclic (a : Nat) (inside : a < g.nodeCount) := g.path_search_iff bounded a a inside
    unfold runByReachability
    split
    · next a found =>
        have accepted := List.find?_some found
        have inside : a < g.nodeCount := List.mem_range.mp (List.mem_of_find?_eq_some found)
        constructor
        · rintro ⟨order, impossible⟩
          cases impossible
        · intro acyclic
          exact absurd ((cyclic a inside).mp accepted) (acyclic a)
    · next missing =>
        refine ⟨fun _ a cycle => ?_, fun _ => ⟨_, rfl⟩⟩
        obtain ⟨b, edge, -⟩ := TransGen.head'_iff.mp cycle
        have inside : a < g.nodeCount := (bounded a b edge).1
        have rejected := List.find?_eq_none.mp missing a (List.mem_range.mpr inside)
        exact rejected ((cyclic a inside).mpr cycle)

end Toposort

end Mimisbrunnr.Lib.Digraph
